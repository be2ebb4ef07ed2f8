import Mathlib.Algebra.Order.BigOperators.Group.List
import Mathlib.Algebra.Order.Group.Nat
import Mathlib.Data.List.Nodup
import Mathlib.Data.Nat.Find
import Walrus.Core.Types
import Walrus.Machine.Run

/-! # The event cursor of a storage node

A storage node processes the contract's events in parallel and persists the position up to
which all of them are done (`node/storage/event_sequencer.rs`,
`node/storage/event_cursor_table.rs`). Events finish in any order:

* `EventSequencer` holds the index of the next event to persist (`head_index`) and the events
  seen at or beyond it (a `HashMap`, here a list of entries). `add` panics on an index below
  the head or already seen, `ready_events` scans from the head to the first index not seen, and
  `advance` drops the entries of that scan and moves the head past them.
* `maybe_advance_event_cursor` adds the event and, when some event is ready, writes the merge
  operand `(last ready event, count)` to the cursor key and advances the sequencer. The merge
  operator `update_cursor_and_progress` adds each count to the stored next index.

The database value of the cursor key is the value it held when the table was opened followed
by the merge operands written since, read through the merge operator (`EventCursorTable.cursor`).
Database errors (`TypedStoreError`) are not modelled: every read and write succeeds. The code is
built without overflow checks, so the `u64` increments of the scan, of the head and of the
merge operator wrap (`u64Wrap`).

`Tracks` is the invariant after the calls `passed` since the table was opened: the head is the
end of the contiguous run of passed indices from the stored next index, the sequencer holds
exactly the passed events at or beyond the head, and the merged database value is the head and
the event just below it. `Tracks.reopen` starts it, `Tracks.maybeAdvance` is the step and
`Tracks.run` the whole run, for distinct indices below `u64::MAX`.
-/

namespace Walrus.EventCursor

open Machine

/-- A `u64` result of an addition without overflow checks: it wraps. -/
def u64Wrap (x : Nat) : Nat := x % 2 ^ 64

theorem u64Wrap_of_lt {x : Nat} (h : x < 2 ^ 64) : u64Wrap x = x := Nat.mod_eq_of_lt h

/-- `EventSequencer`: the index of the next event to persist and the events seen at or beyond
it, as the entries of the `HashMap<u64, EventID>`. -/
structure EventSequencer where
  headIndex : Nat
  queue : List (Nat × EventID)
deriving DecidableEq, Repr

/-- The panic of `EventSequencer::add`: `index repeated`. -/
inductive Panic
  | indexRepeated (index : Nat) (eventId : EventID)
deriving DecidableEq, Repr

/-! ## The sequencer -/

namespace EventSequencer

/-- `continue_from`. -/
def continueFrom (headIndex : Nat) : EventSequencer := ⟨headIndex, []⟩

/-- `add`: an index below the head, or one already in the map, is a repeat. -/
def add (self : EventSequencer) (index : Nat) (eventId : EventID) :
    Except Panic EventSequencer :=
  if index < self.headIndex ∨ (self.queue.lookup index).isSome then
    throw (.indexRepeated index eventId)
  else
    pure { self with queue := (index, eventId) :: self.queue }

/-- The scan of `ready_events` from `index` for at most `fuel` indices: the events seen at
`index`, `index + 1`, ... up to the first index not seen. The range `head_index..` wraps. -/
def readyFrom (queue : List (Nat × EventID)) : Nat → Nat → List EventID
  | 0, _ => []
  | fuel + 1, index =>
    match queue.lookup index with
    | none => []
    | some eventId => eventId :: readyFrom queue fuel (u64Wrap (index + 1))

/-- `ready_events`. The scan meets distinct indices of the map, so its size is enough fuel. -/
def readyEvents (self : EventSequencer) : List EventID :=
  readyFrom self.queue self.queue.length self.headIndex

/-- The loop of `advance` for at most `fuel` rounds: while the head is in the map, remove it and
move the head on. -/
def advanceFrom : Nat → EventSequencer → EventSequencer
  | 0, self => self
  | fuel + 1, self =>
    match self.queue.lookup self.headIndex with
    | none => self
    | some _ =>
      advanceFrom fuel
        ⟨u64Wrap (self.headIndex + 1), self.queue.filter fun entry => entry.1 != self.headIndex⟩

/-- `advance`. -/
def advance (self : EventSequencer) : EventSequencer :=
  advanceFrom self.queue.length self

/-- `remaining`. -/
def remaining (self : EventSequencer) : Nat := self.queue.length

end EventSequencer

/-! ## The cursor table -/

/-- `EventIdWithProgressV1`: the value of the cursor key. -/
structure EventIdWithProgress where
  eventId : EventID
  nextEventIndex : Nat
deriving DecidableEq, Repr

/-- `map_or(0, |v1| v1.next_event_index)`: the next index of a value, `0` for none. -/
def nextIndexOrZero (value : Option EventIdWithProgress) : Nat :=
  (value.map EventIdWithProgress.nextEventIndex).getD 0

/-- `update_cursor_and_progress`: the merge operator over the existing value and the merge
operands `(cursor, increment)` in the order they were written. -/
def updateCursorAndProgress (existingVal : Option EventIdWithProgress)
    (operands : List (EventID × Nat)) : Option EventIdWithProgress :=
  operands.foldl
    (fun currentVal operand => some ⟨operand.1, u64Wrap (nextIndexOrZero currentVal + operand.2)⟩)
    existingVal

/-- `EventProgress`. -/
structure EventProgress where
  persisted : Nat
  pending : Nat
  highestFinishedEventIndex : Nat
deriving DecidableEq, Repr

/-- `EventCursorTable`: the cursor key (its value when the table was opened and the merge
operands written since), the sequencer and the three counters. -/
structure EventCursorTable where
  stored : Option EventIdWithProgress
  operands : List (EventID × Nat)
  eventQueue : EventSequencer
  persistedEventCount : Nat
  pendingEventCount : Nat
  highestFinishedEventIndex : Nat
deriving DecidableEq, Repr

namespace EventCursorTable

/-- `inner.get(event_cursor_key())`: the merged value of the cursor key. -/
def cursor (self : EventCursorTable) : Option EventIdWithProgress :=
  updateCursorAndProgress self.stored self.operands

/-- `get_sequentially_processed_event_count`. -/
def getSequentiallyProcessedEventCount (self : EventCursorTable) : Nat :=
  nextIndexOrZero self.cursor

/-- `reopen` over a database whose cursor key holds `stored`. -/
def reopen (stored : Option EventIdWithProgress) : EventCursorTable :=
  let this : EventCursorTable := ⟨stored, [], ⟨0, []⟩, 0, 0, 0⟩
  let nextIndex := this.getSequentiallyProcessedEventCount
  { this with persistedEventCount := nextIndex, eventQueue := .continueFrom nextIndex }

/-- The write of `maybe_advance_event_cursor`: when some event is ready, the merge operand
`(last ready event, count)` and the advance of the sequencer. -/
def persistReady (operands : List (EventID × Nat)) (eventQueue : EventSequencer) :
    List (EventID × Nat) × EventSequencer :=
  let ready := eventQueue.readyEvents
  match ready.getLast? with
  | some cursor => (operands ++ [(cursor, ready.length)], eventQueue.advance)
  | none => (operands, eventQueue)

/-- `maybe_advance_event_cursor`: the table after the call and the progress it returns. The
`debug_assert_eq!` of the persisted count against the database is not part of the model:
`Tracks.persisted_eq` proves it. -/
def maybeAdvanceEventCursor (self : EventCursorTable) (eventIndex : Nat) (cursor : EventID) :
    Except Panic (EventCursorTable × EventProgress) := do
  let eventQueue ← self.eventQueue.add eventIndex cursor
  let written := persistReady self.operands eventQueue
  let persisted := written.2.headIndex
  let pending := written.2.remaining
  let highest := max self.highestFinishedEventIndex eventIndex
  pure ({ self with
      operands := written.1, eventQueue := written.2, persistedEventCount := persisted,
      pendingEventCount := pending, highestFinishedEventIndex := highest },
    ⟨persisted, pending, highest⟩)

/-- The calls `maybe_advance_event_cursor(index, event)` of a run, in order, up to the first
panic. -/
def runCalls (self : EventCursorTable) (calls : List (Nat × EventID)) :
    Except Panic EventCursorTable :=
  calls.foldlM (fun t call => (t.maybeAdvanceEventCursor call.1 call.2).map Prod.fst) self

end EventCursorTable

/-! ## The entries of the map

The map is a list of entries with distinct keys. The scans are stated over the keys of the
entries; these lemmas read the lookups through them. -/

section Lookup

variable {queue : List (Nat × EventID)} {index : Nat} {eventId : EventID}

theorem lookup_eq_none_iff_not_mem : queue.lookup index = none ↔ index ∉ queue.map Prod.fst := by
  simp only [List.lookup_eq_none_iff, List.mem_map, not_exists, not_and, bne_iff_ne]
  constructor
  · intro h entry hentry heq
    exact h entry hentry heq.symm
  · intro h entry hentry heq
    exact h entry hentry heq.symm

theorem lookup_isSome_iff_mem : (queue.lookup index).isSome ↔ index ∈ queue.map Prod.fst := by
  simp

theorem mem_of_lookup_eq_some (h : queue.lookup index = some eventId) :
    (index, eventId) ∈ queue := by
  obtain ⟨l₁, l₂, rfl, -⟩ := List.lookup_eq_some_iff.mp h
  simp

theorem lookup_eq_some_of_mem (hnodup : (queue.map Prod.fst).Nodup)
    (h : (index, eventId) ∈ queue) : queue.lookup index = some eventId := by
  induction queue with
  | nil => cases h
  | cons entry queue ih =>
    obtain ⟨key, value⟩ := entry
    rw [List.map_cons, List.nodup_cons] at hnodup
    rcases List.mem_cons.mp h with heq | hmem
    · cases heq
      simp
    · -- a later entry: its key is not the first one
      have hne : index ≠ key := by
        rintro rfl
        exact hnodup.1 (List.mem_map.mpr ⟨_, hmem, rfl⟩)
      simp only [List.lookup_cons, beq_false_of_ne hne]
      exact ih hnodup.2 hmem

end Lookup

/-! ## The scans of the sequencer

Over a map that holds every index from `head` to below `gap` but not `gap`, the scan of
`ready_events` returns one event per index and `advance` moves the head to `gap`. -/

namespace EventSequencer

section Scan

variable {queue : List (Nat × EventID)} {head gap : Nat}

/-- The indices from `head` to below `gap` are distinct keys of the map. -/
theorem run_length_le (hrun : ∀ j, head ≤ j → j < gap → j ∈ queue.map Prod.fst) :
    gap - head ≤ queue.length := by
  have hsub : List.range' head (gap - head) ⊆ queue.map Prod.fst := by
    intro j hj
    rw [List.mem_range'_1] at hj
    exact hrun j hj.1 (by omega)
  simpa using (List.nodup_range' (s := head) (n := gap - head)).length_le_of_subset hsub

theorem readyFrom_run {fuel : Nat} (hle : head ≤ gap)
    (hrun : ∀ j, head ≤ j → j < gap → j ∈ queue.map Prod.fst)
    (hgap : gap ∉ queue.map Prod.fst) (hwrap : gap < 2 ^ 64) (hfuel : gap - head ≤ fuel) :
    (readyFrom queue fuel head).length = gap - head ∧
      (readyFrom queue fuel head).getLast? =
        if head < gap then queue.lookup (gap - 1) else none := by
  induction fuel generalizing head with
  | zero =>
    obtain rfl : head = gap := by omega
    simp [readyFrom]
  | succ fuel ih =>
    rcases Nat.eq_or_lt_of_le hle with rfl | hlt
    · -- the head is the gap: nothing is ready
      simp [readyFrom, lookup_eq_none_iff_not_mem.mpr hgap]
    · -- the event at the head, then the scan from the next index
      obtain ⟨first, hfirst⟩ :=
        Option.isSome_iff_exists.mp (lookup_isSome_iff_mem.mpr (hrun head le_rfl hlt))
      obtain ⟨hlen, hlast⟩ :=
        @ih (head + 1) hlt (fun j hj hj' => hrun j (by omega) hj') (by omega)
      simp only [readyFrom, hfirst, u64Wrap_of_lt (show head + 1 < 2 ^ 64 by omega)]
      constructor
      · rw [List.length_cons, hlen]
        omega
      · rw [List.getLast?_cons, hlast, if_pos hlt]
        by_cases hnext : head + 1 < gap
        · obtain ⟨last, hl⟩ := Option.isSome_iff_exists.mp
            (lookup_isSome_iff_mem.mpr (hrun (gap - 1) (by omega) (by omega)))
          simp [if_pos hnext, hl]
        · obtain rfl : gap = head + 1 := by omega
          simp [hfirst]

/-- Nothing of the map is dropped over an empty run. -/
theorem filter_run_self (head : Nat) :
    (queue.filter fun entry => entry.1 < head ∨ head ≤ entry.1) = queue :=
  List.filter_eq_self.mpr fun entry _ => by
    simp only [decide_eq_true_eq]
    omega

theorem advanceFrom_run {fuel : Nat} (hle : head ≤ gap)
    (hrun : ∀ j, head ≤ j → j < gap → j ∈ queue.map Prod.fst)
    (hgap : gap ∉ queue.map Prod.fst) (hwrap : gap < 2 ^ 64) (hfuel : gap - head ≤ fuel) :
    advanceFrom fuel ⟨head, queue⟩ =
      ⟨gap, queue.filter fun entry => entry.1 < head ∨ gap ≤ entry.1⟩ := by
  induction fuel generalizing head queue with
  | zero =>
    obtain rfl : head = gap := by omega
    rw [filter_run_self]
    rfl
  | succ fuel ih =>
    rcases Nat.eq_or_lt_of_le hle with rfl | hlt
    · simp only [advanceFrom, lookup_eq_none_iff_not_mem.mpr hgap, filter_run_self]
    · obtain ⟨first, hfirst⟩ :=
        Option.isSome_iff_exists.mp (lookup_isSome_iff_mem.mpr (hrun head le_rfl hlt))
      -- the map without the head still holds the rest of the run, and not the gap
      have hsub : (queue.filter fun entry => entry.1 != head).map Prod.fst ⊆ queue.map Prod.fst :=
        ((List.filter_sublist ..).map _).subset
      have hrun' : ∀ j, head + 1 ≤ j → j < gap →
          j ∈ (queue.filter fun entry => entry.1 != head).map Prod.fst := by
        intro j hj hj'
        obtain ⟨entry, hentry, rfl⟩ := List.mem_map.mp (hrun j (by omega) hj')
        exact List.mem_map_of_mem (List.mem_filter.mpr ⟨hentry, by simp; omega⟩)
      simp only [advanceFrom, hfirst, u64Wrap_of_lt (show head + 1 < 2 ^ 64 by omega)]
      rw [ih (by omega) hrun' (fun h => hgap (hsub h)) (by omega), List.filter_filter]
      -- dropping the head and then the rest of the run drops the whole run
      congr 2
      funext entry
      rw [Bool.eq_iff_iff]
      simp only [Bool.and_eq_true, bne_iff_ne, ne_eq, decide_eq_true_eq]
      omega

end Scan

theorem add_of_fresh {self : EventSequencer} {index : Nat} {eventId : EventID}
    (hhead : self.headIndex ≤ index) (hfresh : index ∉ self.queue.map Prod.fst) :
    self.add index eventId = .ok { self with queue := (index, eventId) :: self.queue } := by
  have hnone := lookup_eq_none_iff_not_mem.mpr hfresh
  simp [add, hnone, Nat.not_lt.mpr hhead, pure, Except.pure]

/-- `add` panics only on an index below the head or already in the map. -/
theorem add_panics {self : EventSequencer} {index : Nat} {eventId : EventID} {p : Panic}
    (h : self.add index eventId = .error p) :
    index < self.headIndex ∨ index ∈ self.queue.map Prod.fst := by
  by_contra hne
  rw [not_or, Nat.not_lt] at hne
  rw [add_of_fresh hne.1 hne.2] at h
  cases h

end EventSequencer

/-! ## The write of a call -/

namespace EventCursorTable

open EventSequencer

theorem updateCursorAndProgress_concat (existingVal : Option EventIdWithProgress)
    (operands : List (EventID × Nat)) (cursor : EventID) (increment : Nat) :
    updateCursorAndProgress existingVal (operands ++ [(cursor, increment)]) =
      some ⟨cursor,
        u64Wrap (nextIndexOrZero (updateCursorAndProgress existingVal operands) + increment)⟩ := by
  simp [updateCursorAndProgress, List.foldl_append]

/-- Nothing is ready when the head is not in the map. -/
theorem persistReady_of_not_mem {operands : List (EventID × Nat)} {s : EventSequencer}
    (hhead : s.headIndex ∉ s.queue.map Prod.fst) : persistReady operands s = (operands, s) := by
  have hready : s.readyEvents = [] := by
    unfold readyEvents
    cases s.queue.length with
    | zero => rfl
    | succ fuel => simp [readyFrom, lookup_eq_none_iff_not_mem.mpr hhead]
  simp [persistReady, hready]

/-- The run from the head to below the gap is ready: one merge operand for it, and the head
moves to the gap. -/
theorem persistReady_of_lt {operands : List (EventID × Nat)} {queue : List (Nat × EventID)}
    {head gap : Nat} {cursor : EventID} (hlt : head < gap)
    (hrun : ∀ j, head ≤ j → j < gap → j ∈ queue.map Prod.fst)
    (hgap : gap ∉ queue.map Prod.fst) (hwrap : gap < 2 ^ 64)
    (hcursor : queue.lookup (gap - 1) = some cursor) :
    persistReady operands ⟨head, queue⟩ =
      (operands ++ [(cursor, gap - head)],
        ⟨gap, queue.filter fun entry => entry.1 < head ∨ gap ≤ entry.1⟩) := by
  have hfuel := run_length_le hrun
  obtain ⟨hlen, hlast⟩ := readyFrom_run hlt.le hrun hgap hwrap hfuel
  simp only [persistReady, readyEvents, advance, hlast, if_pos hlt, hcursor, hlen]
  rw [advanceFrom_run hlt.le hrun hgap hwrap hfuel]

theorem maybeAdvanceEventCursor_of_add {self : EventCursorTable} {eventIndex : Nat}
    {cursor : EventID} {eventQueue : EventSequencer}
    (h : self.eventQueue.add eventIndex cursor = .ok eventQueue) :
    self.maybeAdvanceEventCursor eventIndex cursor =
      .ok ({ self with
          operands := (persistReady self.operands eventQueue).1,
          eventQueue := (persistReady self.operands eventQueue).2,
          persistedEventCount := (persistReady self.operands eventQueue).2.headIndex,
          pendingEventCount := (persistReady self.operands eventQueue).2.queue.length,
          highestFinishedEventIndex := max self.highestFinishedEventIndex eventIndex },
        ⟨(persistReady self.operands eventQueue).2.headIndex,
          (persistReady self.operands eventQueue).2.queue.length,
          max self.highestFinishedEventIndex eventIndex⟩) := by
  simp [maybeAdvanceEventCursor, h, ok_bind, remaining, pure, Except.pure]

end EventCursorTable

/-! ## The invariant of a run -/

/-- The first index from `head` on that is not a key: every index from `head` to below it is. -/
theorem exists_first_gap (keys : List Nat) (head : Nat) :
    ∃ gap, head ≤ gap ∧ gap ∉ keys ∧ ∀ j, head ≤ j → j < gap → j ∈ keys := by
  classical
  have hex : ∃ gap, head ≤ gap ∧ gap ∉ keys := by
    refine ⟨head + keys.sum + 1, by omega, fun hmem => ?_⟩
    have := List.le_sum_of_mem hmem
    omega
  refine ⟨Nat.find hex, (Nat.find_spec hex).1, (Nat.find_spec hex).2, ?_⟩
  intro j hj hlt
  by_contra hnot
  exact Nat.find_min hex hlt ⟨hj, hnot⟩

/-- The sequencer after the calls `passed`, from the start index `start`: the head is the end of
the contiguous run of passed indices from `start`, and the map holds exactly the passed events
at or beyond the head. -/
structure SeqTracks (start : Nat) (passed : List (Nat × EventID)) (s : EventSequencer) :
    Prop where
  start_le : start ≤ s.headIndex
  prefix_passed : ∀ j, start ≤ j → j < s.headIndex → j ∈ passed.map Prod.fst
  head_not_passed : s.headIndex ∉ passed.map Prod.fst
  mem_queue : ∀ entry, entry ∈ s.queue ↔ entry ∈ passed ∧ s.headIndex ≤ entry.1
  queue_nodup : (s.queue.map Prod.fst).Nodup

namespace SeqTracks

open EventSequencer

variable {start index gap : Nat} {eventId : EventID} {passed : List (Nat × EventID)}
  {s : EventSequencer}

/-- A fresh index from the start on is not below the head: the indices there are passed. -/
theorem head_le (hs : SeqTracks start passed s) (hstart : start ≤ index)
    (hfresh : index ∉ passed.map Prod.fst) : s.headIndex ≤ index := by
  by_contra hlt
  exact hfresh (hs.prefix_passed index hstart (Nat.lt_of_not_le hlt))

theorem not_mem_queue (hs : SeqTracks start passed s) (hfresh : index ∉ passed.map Prod.fst) :
    index ∉ s.queue.map Prod.fst := by
  intro hmem
  obtain ⟨entry, hentry, rfl⟩ := List.mem_map.mp hmem
  exact hfresh (List.mem_map_of_mem ((hs.mem_queue entry).mp hentry).1)

theorem add (hs : SeqTracks start passed s) (hstart : start ≤ index)
    (hfresh : index ∉ passed.map Prod.fst) :
    s.add index eventId = .ok ⟨s.headIndex, (index, eventId) :: s.queue⟩ :=
  add_of_fresh (hs.head_le hstart hfresh) (hs.not_mem_queue hfresh)

/-- After the add, the map holds exactly the calls at or beyond the head. -/
theorem mem_add (hs : SeqTracks start passed s) (hstart : start ≤ index)
    (hfresh : index ∉ passed.map Prod.fst) (entry : Nat × EventID) :
    entry ∈ (index, eventId) :: s.queue ↔
      entry ∈ passed ++ [(index, eventId)] ∧ s.headIndex ≤ entry.1 := by
  have hhead := hs.head_le hstart hfresh
  rw [List.mem_cons, hs.mem_queue, List.mem_append, List.mem_singleton]
  constructor
  · rintro (rfl | ⟨hmem, hle⟩)
    · exact ⟨.inr rfl, hhead⟩
    · exact ⟨.inl hmem, hle⟩
  · rintro ⟨hmem | rfl, hle⟩
    · exact .inr ⟨hmem, hle⟩
    · exact .inl rfl

theorem mem_keys_add (hs : SeqTracks start passed s) (hstart : start ≤ index)
    (hfresh : index ∉ passed.map Prod.fst) {j : Nat} (hj : s.headIndex ≤ j) :
    j ∈ ((index, eventId) :: s.queue).map Prod.fst ↔
      j ∈ (passed ++ [(index, eventId)]).map Prod.fst := by
  simp only [List.mem_map]
  constructor
  · rintro ⟨entry, hentry, rfl⟩
    exact ⟨entry, ((hs.mem_add hstart hfresh entry).mp hentry).1, rfl⟩
  · rintro ⟨entry, hentry, rfl⟩
    exact ⟨entry, (hs.mem_add hstart hfresh entry).mpr ⟨hentry, hj⟩, rfl⟩

/-- After adding a fresh call, the sequencer moved to the first index from the head that is not
passed, with the entries below it dropped, tracks the calls. -/
theorem at_gap (hs : SeqTracks start passed s) (hstart : start ≤ index)
    (hfresh : index ∉ passed.map Prod.fst) (hle : s.headIndex ≤ gap)
    (hgap : gap ∉ (passed ++ [(index, eventId)]).map Prod.fst)
    (hrun : ∀ j, s.headIndex ≤ j → j < gap → j ∈ (passed ++ [(index, eventId)]).map Prod.fst) :
    SeqTracks start (passed ++ [(index, eventId)])
      ⟨gap, ((index, eventId) :: s.queue).filter
        fun entry => entry.1 < s.headIndex ∨ gap ≤ entry.1⟩ where
  start_le := hs.start_le.trans hle
  prefix_passed j hj hlt := by
    by_cases hhead : j < s.headIndex
    · rw [List.map_append, List.mem_append]
      exact .inl (hs.prefix_passed j hj hhead)
    · exact hrun j (Nat.le_of_not_lt hhead) hlt
  head_not_passed := hgap
  mem_queue entry := by
    dsimp only
    rw [List.mem_filter, hs.mem_add hstart hfresh, decide_eq_true_iff]
    constructor
    · rintro ⟨⟨hmem, hhead⟩, hout⟩
      exact ⟨hmem, by omega⟩
    · rintro ⟨hmem, hgap⟩
      exact ⟨⟨hmem, by omega⟩, .inr hgap⟩
  queue_nodup := by
    have hnodup : (((index, eventId) :: s.queue).map Prod.fst).Nodup :=
      List.nodup_cons.mpr ⟨hs.not_mem_queue hfresh, hs.queue_nodup⟩
    exact hnodup.sublist ((List.filter_sublist ..).map _)

/-- The map holds one entry for each call at or beyond the head. -/
theorem length_queue (hs : SeqTracks start passed s) (hnodup : (passed.map Prod.fst).Nodup) :
    s.queue.length = (passed.filter fun entry => s.headIndex ≤ entry.1).length := by
  apply List.Perm.length_eq
  rw [List.perm_ext_iff_of_nodup (hs.queue_nodup.of_map _) ((hnodup.of_map _).filter _)]
  intro entry
  rw [hs.mem_queue, List.mem_filter, decide_eq_true_iff]

end SeqTracks

/-- The table after the calls `passed` since it was opened: its sequencer tracks them from the
stored next index, the merged cursor is the head and the event passed just below it, and the
counters are those of the sequencer. -/
structure Tracks (passed : List (Nat × EventID)) (t : EventCursorTable) : Prop where
  sequencer : SeqTracks (nextIndexOrZero t.stored) passed t.eventQueue
  next_eq : nextIndexOrZero t.cursor = t.eventQueue.headIndex
  cursor_last : nextIndexOrZero t.stored < t.eventQueue.headIndex →
    ∃ eventId, t.cursor = some ⟨eventId, t.eventQueue.headIndex⟩ ∧
      (t.eventQueue.headIndex - 1, eventId) ∈ passed
  persisted_eq : t.persistedEventCount = t.eventQueue.headIndex
  pending_eq : t.pendingEventCount = t.eventQueue.queue.length

namespace Tracks

open EventSequencer EventCursorTable

theorem reopen (stored : Option EventIdWithProgress) : Tracks [] (reopen stored) where
  sequencer :=
    { start_le := le_rfl
      prefix_passed := fun j hj hlt => absurd hlt (Nat.not_lt.mpr hj)
      head_not_passed := List.not_mem_nil
      mem_queue := fun entry => by simp [EventCursorTable.reopen, continueFrom]
      queue_nodup := List.nodup_nil }
  next_eq := rfl
  cursor_last hlt := absurd hlt (lt_irrefl _)
  persisted_eq := rfl
  pending_eq := rfl

variable {passed : List (Nat × EventID)} {t : EventCursorTable} {index : Nat} {eventId : EventID}

/-- A call with a fresh index from the stored next index on, below `u64::MAX` like every call
before it, does not panic and keeps the invariant. -/
theorem maybeAdvance (ht : Tracks passed t) (hstart : nextIndexOrZero t.stored ≤ index)
    (hfresh : index ∉ passed.map Prod.fst)
    (hbound : ∀ entry ∈ passed ++ [(index, eventId)], entry.1 < u64Max) :
    ∃ t' progress, t.maybeAdvanceEventCursor index eventId = .ok (t', progress) ∧
      t'.stored = t.stored ∧ Tracks (passed ++ [(index, eventId)]) t' := by
  have hs := ht.sequencer
  obtain ⟨gap, hle, hgap, hrun⟩ :=
    exists_first_gap ((passed ++ [(index, eventId)]).map Prod.fst) t.eventQueue.headIndex
  have hs' := hs.at_gap hstart hfresh hle hgap hrun
  -- the run and the gap, read in the map after the add
  have hrunq : ∀ j, t.eventQueue.headIndex ≤ j → j < gap →
      j ∈ ((index, eventId) :: t.eventQueue.queue).map Prod.fst := fun j hj hlt =>
    (hs.mem_keys_add hstart hfresh hj).mpr (hrun j hj hlt)
  have hgapq : gap ∉ ((index, eventId) :: t.eventQueue.queue).map Prod.fst := fun hmem =>
    hgap ((hs.mem_keys_add hstart hfresh hle).mp hmem)
  -- no index of the run is `u64::MAX`, so the gap is a `u64`
  have hwrap : gap < 2 ^ 64 := by
    rcases Nat.eq_or_lt_of_le hle with heq | hlt
    · have hindex := hbound (index, eventId) (by simp)
      have hhead := hs.head_le hstart hfresh
      unfold u64Max at hindex
      omega
    · obtain ⟨entry, hentry, hkey⟩ := List.mem_map.mp (hrun (gap - 1) (by omega) (by omega))
      have hentry' := hbound entry hentry
      unfold u64Max at hentry'
      omega
  rw [maybeAdvanceEventCursor_of_add (hs.add hstart hfresh)]
  rcases Nat.eq_or_lt_of_le hle with heq | hlt
  · -- the new event leaves a gap at the head: nothing is written
    rw [persistReady_of_not_mem (heq ▸ hgapq)]
    rw [← heq, filter_run_self] at hs'
    refine ⟨_, _, rfl, rfl, hs', ht.next_eq, ?_, rfl, rfl⟩
    intro hlt
    obtain ⟨last, hcursor, hmem⟩ := ht.cursor_last hlt
    exact ⟨last, hcursor, List.mem_append_left _ hmem⟩
  · -- the run from the head to below the gap is written, and the head moves to the gap
    obtain ⟨last, hlast⟩ := Option.isSome_iff_exists.mp
      (lookup_isSome_iff_mem.mpr (hrunq (gap - 1) (by omega) (by omega)))
    rw [persistReady_of_lt hlt hrunq hgapq hwrap hlast]
    have hcursor : updateCursorAndProgress t.stored
        (t.operands ++ [(last, gap - t.eventQueue.headIndex)]) = some ⟨last, gap⟩ := by
      rw [updateCursorAndProgress_concat,
        show updateCursorAndProgress t.stored t.operands = t.cursor from rfl, ht.next_eq,
        Nat.add_sub_cancel' hle, u64Wrap_of_lt hwrap]
    refine ⟨_, _, rfl, rfl, hs', ?_, ?_, rfl, rfl⟩
    · show nextIndexOrZero (updateCursorAndProgress _ _) = gap
      rw [hcursor]
      rfl
    · intro _
      have hmem := mem_of_lookup_eq_some hlast
      exact ⟨last, hcursor, ((hs.mem_add hstart hfresh _).mp hmem).1⟩

theorem runCalls_cons (t : EventCursorTable) (call : Nat × EventID)
    (calls : List (Nat × EventID)) :
    t.runCalls (call :: calls) =
      (t.maybeAdvanceEventCursor call.1 call.2).map Prod.fst >>= fun t => t.runCalls calls :=
  rfl

/-- Along a run of calls with distinct indices from the stored next index on, all below
`u64::MAX`, no call panics and the invariant holds after each call. -/
theorem run (ht : Tracks passed t) (calls : List (Nat × EventID))
    (hnodup : ((passed ++ calls).map Prod.fst).Nodup)
    (hstart : ∀ call ∈ calls, nextIndexOrZero t.stored ≤ call.1)
    (hbound : ∀ entry ∈ passed ++ calls, entry.1 < u64Max) :
    ∃ t', t.runCalls calls = .ok t' ∧ t'.stored = t.stored ∧ Tracks (passed ++ calls) t' := by
  induction calls generalizing passed t with
  | nil => exact ⟨t, rfl, rfl, by simpa using ht⟩
  | cons call calls ih =>
    -- the call is the last of the calls passed so far
    rw [List.append_cons] at hnodup hbound ⊢
    have hfresh : call.1 ∉ passed.map Prod.fst := by
      have hnodup₁ := hnodup.sublist ((List.sublist_append_left _ calls).map Prod.fst)
      rw [List.map_append, List.nodup_append] at hnodup₁
      exact fun hmem => hnodup₁.2.2 _ hmem _ (List.mem_singleton_self _) rfl
    obtain ⟨t₁, progress, hstep, hstored₁, ht₁⟩ :=
      ht.maybeAdvance (hstart call (List.mem_cons_self ..)) hfresh
        (fun entry hentry => hbound entry (List.mem_append_left _ hentry))
    obtain ⟨t', hrun, hstored', ht'⟩ := ih ht₁ hnodup
      (fun c hc => hstored₁ ▸ hstart c (List.mem_cons_of_mem _ hc)) hbound
    refine ⟨t', ?_, hstored'.trans hstored₁, ht'⟩
    rw [runCalls_cons, hstep]
    exact hrun

end Tracks

/-! ## The persisted cursor along a run -/

open EventSequencer EventCursorTable

/-- After any run of `maybe_advance_event_cursor` calls with distinct indices from the stored
next index on, all below `u64::MAX` and in any order: the head is the end of the contiguous run
of passed indices from the stored next index; the merged cursor is the head and the event passed
at the index below it, so the debug assertion holds; the pending count is the number of passed
indices at or beyond the head; and `add` would panic only on an index below the head or already
passed. -/
theorem event_cursor_tracks_prefix (stored : Option EventIdWithProgress)
    (calls : List (Nat × EventID)) (hnodup : (calls.map Prod.fst).Nodup)
    (hstart : ∀ call ∈ calls, nextIndexOrZero stored ≤ call.1)
    (hbound : ∀ call ∈ calls, call.1 < u64Max) :
    ∃ t, (reopen stored).runCalls calls = .ok t ∧
      (nextIndexOrZero stored ≤ t.eventQueue.headIndex ∧
        (∀ j, nextIndexOrZero stored ≤ j → j < t.eventQueue.headIndex →
          j ∈ calls.map Prod.fst) ∧
        t.eventQueue.headIndex ∉ calls.map Prod.fst) ∧
      (nextIndexOrZero t.cursor = t.eventQueue.headIndex ∧
        (nextIndexOrZero stored < t.eventQueue.headIndex →
          ∃ eventId, t.cursor = some ⟨eventId, t.eventQueue.headIndex⟩ ∧
            (t.eventQueue.headIndex - 1, eventId) ∈ calls) ∧
        t.persistedEventCount = t.getSequentiallyProcessedEventCount) ∧
      t.pendingEventCount = (calls.filter fun call => t.eventQueue.headIndex ≤ call.1).length ∧
      ∀ index eventId p, t.eventQueue.add index eventId = .error p →
        index < t.eventQueue.headIndex ∨ index ∈ calls.map Prod.fst := by
  obtain ⟨t, hrun, hstored, ht⟩ := (Tracks.reopen stored).run calls hnodup hstart hbound
  rw [List.nil_append] at ht
  have hs := ht.sequencer
  have hn : nextIndexOrZero t.stored = nextIndexOrZero stored := by rw [hstored]; rfl
  rw [hn] at hs
  refine ⟨t, hrun, ⟨hs.start_le, hs.prefix_passed, hs.head_not_passed⟩,
    ⟨ht.next_eq, hn ▸ ht.cursor_last, ht.persisted_eq.trans ht.next_eq.symm⟩, ?_, ?_⟩
  · rw [ht.pending_eq, hs.length_queue hnodup]
  · -- a panic of `add` is on an index below the head or in the map, and the map holds calls
    intro index eventId p hpanic
    rcases add_panics hpanic with hlt | hmem
    · exact .inl hlt
    · obtain ⟨entry, hentry, rfl⟩ := List.mem_map.mp hmem
      exact .inr (List.mem_map_of_mem ((hs.mem_queue entry).mp hentry).1)

/-- An event ID of the tests: the zero digest with the given sequence number. -/
def testEvent (eventSeq : UInt64) : EventID := ⟨Vector.replicate 32 0, eventSeq⟩

/-- A table opened at the stored next index `5`. -/
def storedAtFive : Option EventIdWithProgress := some ⟨testEvent 0, 5⟩

/-- The events `7` and then `5`: the first leaves a gap at the head, the second fills it. -/
def outOfOrderCalls : List (Nat × EventID) := [(7, testEvent 7), (5, testEvent 5)]

theorem event_cursor_tracks_prefix_out_of_order :
    ((outOfOrderCalls.map Prod.fst).Nodup ∧
      (∀ call ∈ outOfOrderCalls, nextIndexOrZero storedAtFive ≤ call.1) ∧
      ∀ call ∈ outOfOrderCalls, call.1 < u64Max) ∧
    ∃ t, (reopen storedAtFive).runCalls outOfOrderCalls = .ok t ∧
      (nextIndexOrZero storedAtFive ≤ t.eventQueue.headIndex ∧
        (∀ j, nextIndexOrZero storedAtFive ≤ j → j < t.eventQueue.headIndex →
          j ∈ outOfOrderCalls.map Prod.fst) ∧
        t.eventQueue.headIndex ∉ outOfOrderCalls.map Prod.fst) ∧
      (nextIndexOrZero t.cursor = t.eventQueue.headIndex ∧
        (nextIndexOrZero storedAtFive < t.eventQueue.headIndex →
          ∃ eventId, t.cursor = some ⟨eventId, t.eventQueue.headIndex⟩ ∧
            (t.eventQueue.headIndex - 1, eventId) ∈ outOfOrderCalls) ∧
        t.persistedEventCount = t.getSequentiallyProcessedEventCount) ∧
      t.pendingEventCount =
        (outOfOrderCalls.filter fun call => t.eventQueue.headIndex ≤ call.1).length ∧
      ∀ index eventId p, t.eventQueue.add index eventId = .error p →
        index < t.eventQueue.headIndex ∨ index ∈ outOfOrderCalls.map Prod.fst :=
  have hnodup : (outOfOrderCalls.map Prod.fst).Nodup := by decide
  have hstart : ∀ call ∈ outOfOrderCalls, nextIndexOrZero storedAtFive ≤ call.1 := by decide
  have hbound : ∀ call ∈ outOfOrderCalls, call.1 < u64Max := by decide
  ⟨⟨hnodup, hstart, hbound⟩, event_cursor_tracks_prefix _ _ hnodup hstart hbound⟩

/-- At the stored next index `u64::MAX`, an event at that index wraps the head and the stored
next index to `0`: the head is no longer the stored index plus the one passed index, and the
passed index at or beyond the head is not counted as pending. -/
theorem event_cursor_wraps_at_max :
    ∃ t, (reopen (some ⟨testEvent 0, u64Max⟩)).runCalls [(u64Max, testEvent 1)] = .ok t ∧
      t.eventQueue.headIndex = 0 ∧ t.getSequentiallyProcessedEventCount = 0 ∧
      t.pendingEventCount = 0 ∧
      ([(u64Max, testEvent 1)].filter fun call => t.eventQueue.headIndex ≤ call.1).length = 1 := by
  refine ⟨_, rfl, ?_⟩
  decide +kernel

end Walrus.EventCursor
