import Walrus.Node.BlobInfo
import Walrus.Machine.Run

/-! # The blob-info tables under replayed events

The event processor of a storage node hands every blob event to
`BlobInfoTable::update_blob_info` with the event's index in the stream. After a restart it
resumes from a checkpoint, so events it has handled already are delivered again. The merge
operands are not idempotent (a second registration of an object panics, a second deletion
decrements a counter twice), so the node keeps a third column family with the latest handled
event index: an event at or below it is skipped, and the operands of an event are written in
one `DBBatch` together with its index.

The model keeps the three column families whole (`BlobInfoTable`), the writes of a batch
(`BatchWrite`) and the batch `update_blob_info` builds. A batch is written in full or not at
all: a merge that panics changes no table, and a call that stops before `batch.write()` (a
crash, a `TypedStoreError`) leaves the tables as they were. So a run is the list of calls
that returned.

A delivery is given by positions in the event stream. It *redelivers* when every position is
at most the number of events handled before it: the next event, or one already handled. The
main result is that the tables after such a delivery are the tables after handling each
distinct event once, in order, and that the stored index marks exactly those events as
handled.

A node that joins from a snapshot handles events with
`update_blob_info_during_recovery_with_incomplete_history` instead. It skips the events of
objects that ended before it started, and handles the extension of an object it does not track
as the registration and certification it never saw (`recovery_replays_missed_events`).
-/

namespace Walrus.BlobInfo

open Machine

/-- `BlobEvent::blob_id`. -/
def BlobEvent.blobId : BlobEvent → BlobId
  | .registered e => e.blobId
  | .certified e => e.blobId
  | .deleted e => e.blobId
  | .invalidBlobId _ blobId _ => blobId
  | .denyListBlobDeleted _ blobId _ => blobId

/-- The end epoch of a registration, certification or deletion: what the first arm of the
`match` of the recovery compares with the epoch the node starts in. -/
def BlobEvent.endEpoch? : BlobEvent → Option Nat
  | .registered e => some e.endEpoch
  | .certified e => some e.endEpoch
  | .deleted e => some e.endEpoch
  | .invalidBlobId _ _ _ | .denyListBlobDeleted _ _ _ => none

/-- The three column families of `BlobInfoTable`. The event index is a `u64`; only its order
is used. -/
structure BlobInfoTable where
  aggregateBlobInfo : BlobId → Option BlobInfoV1
  perObjectBlobInfo : ObjectID → Option PerObjectBlobInfoV1
  latestHandledEventIndex : Option Nat

/-- One write of a `DBBatch`: a `partial_merge_batch` into one of the blob-info tables, or an
`insert_batch` into the event-index table. -/
inductive BatchWrite where
  | mergeAggregate (blobId : BlobId) (operand : BlobInfoMergeOperand)
  | mergePerObject (objectId : ObjectID) (operand : PerObjectBlobInfoMergeOperand)
  | insertLatestHandledEventIndex (eventIndex : Nat)

/-- A write applied to the tables; a merge runs the table's merge operator. -/
def BatchWrite.apply (t : BlobInfoTable) : BatchWrite → Except String BlobInfoTable
  | .mergeAggregate blobId operand =>
    let info := BlobInfoV1.merge (t.aggregateBlobInfo blobId) operand
    .ok { t with aggregateBlobInfo := Function.update t.aggregateBlobInfo blobId info }
  | .mergePerObject objectId operand =>
    (PerObjectBlobInfoV1.merge (t.perObjectBlobInfo objectId) operand).map fun info =>
      { t with perObjectBlobInfo := Function.update t.perObjectBlobInfo objectId info }
  | .insertLatestHandledEventIndex eventIndex =>
    .ok { t with latestHandledEventIndex := some eventIndex }

/-- `BlobInfoTable::has_event_been_handled`. -/
def hasEventBeenHandled (latestHandledIndex : Option Nat) (eventIndex : Nat) : Bool :=
  latestHandledIndex.any fun i => eventIndex ≤ i

/-- The batch `update_blob_info` writes for an event it does not skip: the event's operand
for its blob ID, the per-object operand for its object if it has one, and the event index. -/
def updateBlobInfoBatch (eventIndex : Nat) (event : BlobEvent) :
    Except String (List BatchWrite) := do
  let operation ← BlobInfoMergeOperand.ofEvent event
  let perObject ← (match event.objectId? with
    | none => pure []
    | some objectId =>
      match PerObjectBlobInfoMergeOperand.fromBlobInfoMergeOperand operation with
      | none => throw "we know this is a registered, certified, or deleted event"
      | some perObjectOperation => pure [BatchWrite.mergePerObject objectId perObjectOperation])
  pure (.mergeAggregate event.blobId operation :: perObject ++
    [.insertLatestHandledEventIndex eventIndex])

namespace BlobInfoTable

/-- All three tables empty. -/
def empty : BlobInfoTable := ⟨fun _ => none, fun _ => none, none⟩

/-- `DBBatch::write`: the writes in order, all of them or none. -/
def write (t : BlobInfoTable) (batch : List BatchWrite) : Except String BlobInfoTable :=
  batch.foldlM BatchWrite.apply t

/-- `BlobInfoTable::update_blob_info`. -/
def updateBlobInfo (t : BlobInfoTable) (eventIndex : Nat) (event : BlobEvent) :
    Except String BlobInfoTable :=
  if hasEventBeenHandled t.latestHandledEventIndex eventIndex then .ok t
  else updateBlobInfoBatch eventIndex event >>= t.write

/-- An event of the stream handled once: its batch written with no look at the event index. -/
def applyEvent (t : BlobInfoTable) (event : Nat × BlobEvent) : Except String BlobInfoTable :=
  updateBlobInfoBatch event.1 event.2 >>= t.write

/-- `PerObjectBlobInfoMergeOperand::from_blob_info_merge_operand(..).expect(..)` on the operands
of the recovery, which are status changes. -/
def expectPerObjectOperand (operation : BlobInfoMergeOperand) :
    Except String PerObjectBlobInfoMergeOperand :=
  match PerObjectBlobInfoMergeOperand.fromBlobInfoMergeOperand operation with
  | some perObjectOperation => pure perObjectOperation
  | none => throw "we know this is a registered or certified event"

/-- `BlobInfoTable::update_blob_info_during_recovery_with_incomplete_history`. A registration,
certification or deletion of an object that ended by the epoch the node starts in is skipped.
An extension of an object the node does not track stands for the registration and the
certification the incomplete history lacks: both are written, with the extension's epochs, in
one batch with the event index. Every other event goes to `update_blob_info`. The
`debug_assert!`s are not checked in a release build. -/
def updateBlobInfoDuringRecoveryWithIncompleteHistory (t : BlobInfoTable) (eventIndex : Nat)
    (event : BlobEvent) (epochAtStart : Nat) : Except String BlobInfoTable :=
  match event with
  | .registered e =>
    if e.endEpoch ≤ epochAtStart then .ok t else t.updateBlobInfo eventIndex event
  | .deleted e =>
    if e.endEpoch ≤ epochAtStart then .ok t else t.updateBlobInfo eventIndex event
  | .invalidBlobId _ _ _ | .denyListBlobDeleted _ _ _ => t.updateBlobInfo eventIndex event
  | .certified e =>
    if e.endEpoch ≤ epochAtStart then .ok t
    else if !e.isExtension then t.updateBlobInfo eventIndex event
    else
      -- extensions need special handling
      match t.perObjectBlobInfo e.objectId with
      | some perObjectBlobInfo =>
        if perObjectBlobInfo.isRegistered epochAtStart then t.updateBlobInfo eventIndex event
        else .error "assertion failed: per_object_blob_info.is_registered(epoch_at_start)"
      | none =>
        if hasEventBeenHandled t.latestHandledEventIndex eventIndex then .ok t
        else do
          let changeInfo : BlobStatusChangeInfo :=
            ⟨e.blobId, e.deletable, e.epoch, e.endEpoch, e.eventId⟩
          let operations := [BlobInfoMergeOperand.changeStatus .register changeInfo,
            .changeStatus .certify changeInfo]
          let perObjectOperations ← operations.mapM expectPerObjectOperand
          t.write (operations.map (.mergeAggregate e.blobId) ++
            perObjectOperations.map (.mergePerObject e.objectId) ++
            [.insertLatestHandledEventIndex eventIndex])

end BlobInfoTable

/-! ## Deliveries -/

/-- Whether a delivery of stream positions skips no event, from `handled` events handled:
each position is at most the number handled before it. -/
def redelivers (handled : Nat) : List Nat → Bool
  | [] => true
  | p :: ps => decide (p ≤ handled) && redelivers (max handled (p + 1)) ps

/-- The number of events handled after a delivery, from `handled` handled. -/
def handledAfter (handled : Nat) (ps : List Nat) : Nat :=
  ps.foldl (fun n p => max n (p + 1)) handled

theorem le_handledAfter (handled : Nat) (ps : List Nat) : handled ≤ handledAfter handled ps := by
  induction ps generalizing handled with
  | nil => exact Nat.le_refl _
  | cons p ps ih => exact Nat.le_trans (Nat.le_max_left _ _) (ih _)

theorem lt_handledAfter_of_mem {p : Nat} {ps : List Nat} (hp : p ∈ ps) (handled : Nat) :
    p < handledAfter handled ps := by
  induction ps generalizing handled with
  | nil => cases hp
  | cons q ps ih =>
    rcases List.mem_cons.mp hp with rfl | hp
    · exact Nat.lt_of_lt_of_le (by omega) (le_handledAfter (max handled (p + 1)) ps)
    · exact ih hp _

theorem handledAfter_le {bound handled : Nat} {ps : List Nat} (hh : handled ≤ bound)
    (hps : ∀ p ∈ ps, p < bound) : handledAfter handled ps ≤ bound := by
  induction ps generalizing handled with
  | nil => exact hh
  | cons p ps ih =>
    have hp := hps p List.mem_cons_self
    have hmax : max handled (p + 1) ≤ bound := by omega
    exact ih hmax fun q hq => hps q (List.mem_cons_of_mem _ hq)

/-! ## The batch and the event index -/

@[simp] theorem hasEventBeenHandled_none (eventIndex : Nat) :
    hasEventBeenHandled none eventIndex = false := rfl

@[simp] theorem hasEventBeenHandled_some (i eventIndex : Nat) :
    hasEventBeenHandled (some i) eventIndex = decide (eventIndex ≤ i) := rfl

/-- Every batch of `update_blob_info` ends with the write of the event index. -/
theorem updateBlobInfoBatch_eq_ok {eventIndex : Nat} {event : BlobEvent} {batch : List BatchWrite}
    (h : updateBlobInfoBatch eventIndex event = .ok batch) :
    ∃ merges, batch = merges ++ [.insertLatestHandledEventIndex eventIndex] := by
  obtain ⟨operation, -, h⟩ := bind_eq_ok.mp h
  obtain ⟨perObject, -, h⟩ := bind_eq_ok.mp h
  exact ⟨_, (Except.ok.inj h).symm⟩

/-- The batch of an event with an object ID whose operand is a status change: the change on
each table, then the event index. -/
theorem updateBlobInfoBatch_changeStatus {eventIndex : Nat} {event : BlobEvent} {o : ObjectID}
    {ct : BlobStatusChangeType} {ci : BlobStatusChangeInfo}
    (hop : BlobInfoMergeOperand.ofEvent event = .ok (.changeStatus ct ci))
    (hobj : event.objectId? = some o) :
    updateBlobInfoBatch eventIndex event =
      .ok [.mergeAggregate event.blobId (.changeStatus ct ci), .mergePerObject o ⟨ct, ci⟩,
        .insertLatestHandledEventIndex eventIndex] := by
  simp [updateBlobInfoBatch, hop, hobj, PerObjectBlobInfoMergeOperand.fromBlobInfoMergeOperand,
    bind, Except.bind, pure, Except.pure]

namespace BlobInfoTable

/-- A batch whose last write is the event index leaves that index in the table. -/
theorem write_append_insert {t t' : BlobInfoTable} {merges : List BatchWrite} {eventIndex : Nat}
    (h : t.write (merges ++ [.insertLatestHandledEventIndex eventIndex]) = .ok t') :
    t'.latestHandledEventIndex = some eventIndex := by
  rw [write, List.foldlM_append] at h
  obtain ⟨t₁, -, h⟩ := bind_eq_ok.mp h
  simp only [List.foldlM_cons, List.foldlM_nil, BatchWrite.apply, bind, Except.bind, pure,
    Except.pure, Except.ok.injEq] at h
  rw [← h]

theorem applyEvent_latest {t t' : BlobInfoTable} {event : Nat × BlobEvent}
    (h : t.applyEvent event = .ok t') : t'.latestHandledEventIndex = some event.1 := by
  obtain ⟨batch, hbatch, hwrite⟩ := bind_eq_ok.mp h
  obtain ⟨merges, rfl⟩ := updateBlobInfoBatch_eq_ok hbatch
  exact write_append_insert hwrite

/-- A handled event is skipped. -/
theorem updateBlobInfo_of_handled {t : BlobInfoTable} {eventIndex : Nat} (event : BlobEvent)
    (h : hasEventBeenHandled t.latestHandledEventIndex eventIndex = true) :
    t.updateBlobInfo eventIndex event = .ok t := by
  rw [updateBlobInfo, if_pos h]

/-- An event not handled yet is applied. -/
theorem updateBlobInfo_of_not_handled {t : BlobInfoTable} {eventIndex : Nat} (event : BlobEvent)
    (h : hasEventBeenHandled t.latestHandledEventIndex eventIndex = false) :
    t.updateBlobInfo eventIndex event = t.applyEvent (eventIndex, event) := by
  rw [updateBlobInfo, if_neg (by simp [h])]
  rfl

end BlobInfoTable

/-! ## Runs over a stream

Fix the event stream, with strictly increasing indices, and the tables it starts from, whose
stored index is below all of them. The tables after the first `n` events, each handled once,
are `(stream.take n).foldlM applyEvent t₀`. -/

section Stream

variable {stream : List (Nat × BlobEvent)} {t₀ : BlobInfoTable}

/-- The stored index `latest` marks exactly the first `n` events of the stream as handled. -/
def HandledExactly (stream : List (Nat × BlobEvent)) (n : Nat) (latest : Option Nat) : Prop :=
  ∀ p (hp : p < stream.length), hasEventBeenHandled latest stream[p].1 = true ↔ p < n

theorem handledExactly_zero (h₀ : ∀ c ∈ stream, hasEventBeenHandled t₀.latestHandledEventIndex c.1 = false) :
    HandledExactly stream 0 t₀.latestHandledEventIndex := by
  intro p hp
  simp [h₀ stream[p] (List.getElem_mem hp)]

/-- Once the event at position `n` is handled, the first `n + 1` events are, since the indices
increase along the stream. -/
theorem handledExactly_succ (hinc : stream.Pairwise fun a b => a.1 < b.1) {n : Nat}
    (hn : n < stream.length) : HandledExactly stream (n + 1) (some stream[n].1) := by
  have hlt := List.pairwise_iff_getElem.mp hinc
  intro p hp
  rw [hasEventBeenHandled_some, decide_eq_true_iff]
  constructor
  · intro hle
    by_contra hgt
    have := hlt n p hn hp (by omega)
    omega
  · intro hpn
    rcases Nat.lt_or_eq_of_le (Nat.le_of_lt_succ hpn) with hpn | rfl
    · exact Nat.le_of_lt (hlt p n hp hn hpn)
    · exact Nat.le_refl _

theorem foldlM_take_succ {f : BlobInfoTable → Nat × BlobEvent → Except String BlobInfoTable}
    {n : Nat} (hn : n < stream.length) :
    (stream.take (n + 1)).foldlM f t₀ = (stream.take n).foldlM f t₀ >>= fun t => f t stream[n] := by
  rw [List.take_add_one, List.getElem?_eq_getElem hn, Option.toList_some, List.foldlM_append]
  simp only [List.foldlM_cons, List.foldlM_nil, bind_pure]

/-- The stored index after the first `n` events marks exactly them as handled: the index is
written with the operands, in one batch. -/
theorem handledExactly_take (hinc : stream.Pairwise fun a b => a.1 < b.1)
    (h₀ : ∀ c ∈ stream, hasEventBeenHandled t₀.latestHandledEventIndex c.1 = false) :
    ∀ n, n ≤ stream.length → ∀ t, (stream.take n).foldlM BlobInfoTable.applyEvent t₀ = .ok t →
      HandledExactly stream n t.latestHandledEventIndex
  | 0, _, t, h => by
    simp only [List.take_zero, List.foldlM_nil, pure, Except.pure, Except.ok.injEq] at h
    exact h ▸ handledExactly_zero h₀
  | n + 1, hn, t, h => by
    rw [foldlM_take_succ (by omega)] at h
    obtain ⟨t₁, -, h⟩ := bind_eq_ok.mp h
    rw [BlobInfoTable.applyEvent_latest h]
    exact handledExactly_succ hinc (by omega)

/-- One call of a delivery: a position at most the number `n` of events handled leaves the
tables after the first `max n (p + 1)` events. A position below `n` is a no-op; position `n`
handles the next event. -/
theorem updateBlobInfo_step (hinc : stream.Pairwise fun a b => a.1 < b.1)
    (h₀ : ∀ c ∈ stream, hasEventBeenHandled t₀.latestHandledEventIndex c.1 = false)
    {n p : Nat} (hn : n ≤ stream.length) (hp : p < stream.length) (hpn : p ≤ n) :
    ((stream.take n).foldlM BlobInfoTable.applyEvent t₀ >>= fun t =>
        t.updateBlobInfo stream[p].1 stream[p].2) =
      (stream.take (max n (p + 1))).foldlM BlobInfoTable.applyEvent t₀ := by
  rcases Nat.lt_or_eq_of_le hpn with hlt | rfl
  case inl =>
    -- a redelivery: the stored index already covers position `p`
    rw [Nat.max_eq_left (by omega)]
    cases hS : (stream.take n).foldlM BlobInfoTable.applyEvent t₀ with
    | error msg => rfl
    | ok t =>
      have hhandled := (handledExactly_take hinc h₀ n hn t hS p hp).mpr hlt
      exact BlobInfoTable.updateBlobInfo_of_handled _ hhandled
  case inr =>
    -- the next event: the stored index is below it, and the call handles it
    rw [Nat.max_eq_right (by omega), foldlM_take_succ hp]
    cases hS : (stream.take p).foldlM BlobInfoTable.applyEvent t₀ with
    | error msg => rfl
    | ok t =>
      have hnew : hasEventBeenHandled t.latestHandledEventIndex stream[p].1 = false := by
        have := handledExactly_take hinc h₀ p hn t hS p hp
        simpa using this
      exact BlobInfoTable.updateBlobInfo_of_not_handled _ hnew

/-- A whole delivery that skips no event, by induction on the delivery from `n` handled
events. -/
theorem updateBlobInfo_run (hinc : stream.Pairwise fun a b => a.1 < b.1)
    (h₀ : ∀ c ∈ stream, hasEventBeenHandled t₀.latestHandledEventIndex c.1 = false) :
    ∀ (positions : List (Fin stream.length)) (n : Nat), n ≤ stream.length →
      redelivers n (positions.map Fin.val) = true →
      ((stream.take n).foldlM BlobInfoTable.applyEvent t₀ >>= fun t =>
          (positions.map stream.get).foldlM (fun t c => t.updateBlobInfo c.1 c.2) t) =
        (stream.take (handledAfter n (positions.map Fin.val))).foldlM BlobInfoTable.applyEvent t₀
  | [], n, _, _ => by
    simp only [List.map_nil, List.foldlM_nil, bind_pure, handledAfter, List.foldl_nil]
  | p :: positions, n, hn, hdel => by
    simp only [List.map_cons, redelivers, Bool.and_eq_true, decide_eq_true_eq] at hdel
    have hstep := updateBlobInfo_step hinc h₀ hn p.isLt hdel.1
    simp only [List.map_cons, List.foldlM_cons, List.get_eq_getElem, ← bind_assoc, hstep]
    exact updateBlobInfo_run hinc h₀ positions _ (by have := p.isLt; omega) hdel.2

end Stream

/-- Under a delivery in which indices come in order and any handled prefix may come again,
the tables equal those after handling each distinct event once, in order; the stored index
marks exactly those events as handled; and delivering again any position already delivered
changes nothing. -/
theorem replay_exactly_once (stream : List (Nat × BlobEvent))
    (hinc : stream.Pairwise fun a b => a.1 < b.1) (t₀ : BlobInfoTable)
    (h₀ : ∀ c ∈ stream, hasEventBeenHandled t₀.latestHandledEventIndex c.1 = false)
    (positions : List (Fin stream.length)) (hdel : redelivers 0 (positions.map Fin.val) = true) :
    (positions.map stream.get).foldlM (fun t c => t.updateBlobInfo c.1 c.2) t₀ =
        (stream.take (handledAfter 0 (positions.map Fin.val))).foldlM BlobInfoTable.applyEvent t₀ ∧
      (∀ t, (stream.take (handledAfter 0 (positions.map Fin.val))).foldlM
          BlobInfoTable.applyEvent t₀ = .ok t →
        HandledExactly stream (handledAfter 0 (positions.map Fin.val)) t.latestHandledEventIndex) ∧
      ∀ p ∈ positions,
        ((positions ++ [p]).map stream.get).foldlM (fun t c => t.updateBlobInfo c.1 c.2) t₀ =
          (positions.map stream.get).foldlM (fun t c => t.updateBlobInfo c.1 c.2) t₀ := by
  have hrun := updateBlobInfo_run hinc h₀ positions 0 (Nat.zero_le _) hdel
  simp only [List.take_zero, List.foldlM_nil, pure_bind] at hrun
  have hbound : handledAfter 0 (positions.map Fin.val) ≤ stream.length :=
    handledAfter_le (Nat.zero_le _) (by simp)
  refine ⟨hrun, handledExactly_take hinc h₀ _ hbound, ?_⟩
  intro p hp
  have hlt : p.val < handledAfter 0 (positions.map Fin.val) :=
    lt_handledAfter_of_mem (List.mem_map_of_mem hp) 0
  have hstep := updateBlobInfo_step hinc h₀ hbound p.isLt (Nat.le_of_lt hlt)
  rw [Nat.max_eq_left (by omega)] at hstep
  rw [List.map_append, List.foldlM_append, hrun]
  simpa [List.get_eq_getElem] using hstep

/-- A permanent blob registered at index 3 and certified at index 7. -/
def sampleStream : List (Nat × BlobEvent) :=
  let blobId : BlobId := ⟨Vector.replicate 32 1⟩
  let objectId : ObjectID := ⟨Vector.replicate 32 2⟩
  [(3, .registered ⟨1, blobId, 5, false, objectId, ⟨Vector.replicate 32 0, 0⟩⟩),
   (7, .certified ⟨1, blobId, 5, false, objectId, false, ⟨Vector.replicate 32 0, 1⟩⟩)]

/-- The registration delivered, delivered again after a restart, then both events again. -/
def sampleDelivery : List (Fin sampleStream.length) :=
  [⟨0, by decide⟩, ⟨0, by decide⟩, ⟨1, by decide⟩, ⟨0, by decide⟩, ⟨1, by decide⟩]

theorem replay_exactly_once_on_sample :
    (sampleDelivery.map sampleStream.get).foldlM (fun t c => t.updateBlobInfo c.1 c.2)
        BlobInfoTable.empty =
      (sampleStream.take 2).foldlM BlobInfoTable.applyEvent BlobInfoTable.empty :=
  (replay_exactly_once sampleStream (by decide) BlobInfoTable.empty (by decide) sampleDelivery
    (by decide)).1

example : ((sampleDelivery.map sampleStream.get).foldlM
    (fun (t : BlobInfoTable) c => t.updateBlobInfo c.1 c.2)
    BlobInfoTable.empty).toOption.map BlobInfoTable.latestHandledEventIndex = some (some 7) := by
  decide

/-! ## Recovery with an incomplete history

A node that joins with a snapshot does not see the events of the blobs that ended before it
started, nor the registration and certification of a blob that is only extended afterwards. -/

namespace BlobInfoTable

variable {t : BlobInfoTable} {eventIndex epochAtStart : Nat}

/-- The batch the recovery writes for the extension `e` of an untracked object, not handled
yet: the registration and the certification, on each table, then the event index. -/
theorem recovery_untracked_extension {e : BlobCertified} (hext : e.isExtension = true)
    (hlive : epochAtStart < e.endEpoch) (huntracked : t.perObjectBlobInfo e.objectId = none)
    (hnew : hasEventBeenHandled t.latestHandledEventIndex eventIndex = false) :
    t.updateBlobInfoDuringRecoveryWithIncompleteHistory eventIndex (.certified e) epochAtStart =
      t.write
        [.mergeAggregate e.blobId
          (.changeStatus .register ⟨e.blobId, e.deletable, e.epoch, e.endEpoch, e.eventId⟩),
        .mergeAggregate e.blobId
          (.changeStatus .certify ⟨e.blobId, e.deletable, e.epoch, e.endEpoch, e.eventId⟩),
        .mergePerObject e.objectId ⟨.register, ⟨e.blobId, e.deletable, e.epoch, e.endEpoch, e.eventId⟩⟩,
        .mergePerObject e.objectId ⟨.certify, ⟨e.blobId, e.deletable, e.epoch, e.endEpoch, e.eventId⟩⟩,
        .insertLatestHandledEventIndex eventIndex] := by
  simp only [updateBlobInfoDuringRecoveryWithIncompleteHistory, if_neg (Nat.not_le.mpr hlive),
    hext, Bool.not_true, Bool.false_eq_true, if_false, huntracked, hnew]
  rfl

end BlobInfoTable

open BlobInfoTable in
/-- Recovery with an incomplete history replays what the history lacks. An extension of an
object the node does not track, not handled yet, leaves the tables as its registration and its
first certification, both with the extension's epochs and handled at its index, would. An
event of an object that ended by the epoch the node starts in changes nothing. Every other
event (the extension of a tracked object registered at that epoch included) is handled as
`update_blob_info` handles it. -/
theorem recovery_replays_missed_events (t : BlobInfoTable) (eventIndex epochAtStart : Nat) :
    (∀ e : BlobCertified, e.isExtension = true → epochAtStart < e.endEpoch →
      t.perObjectBlobInfo e.objectId = none →
      hasEventBeenHandled t.latestHandledEventIndex eventIndex = false →
      t.updateBlobInfoDuringRecoveryWithIncompleteHistory eventIndex (.certified e) epochAtStart =
        (t.applyEvent
            (eventIndex, .registered ⟨e.epoch, e.blobId, e.endEpoch, e.deletable, e.objectId,
              e.eventId⟩) >>=
          fun t' => t'.applyEvent (eventIndex, .certified { e with isExtension := false }))) ∧
    (∀ event n, event.endEpoch? = some n → n ≤ epochAtStart →
      t.updateBlobInfoDuringRecoveryWithIncompleteHistory eventIndex event epochAtStart = .ok t) ∧
    (∀ event, (∀ n ∈ event.endEpoch?, epochAtStart < n) →
      (∀ e, event = .certified e → e.isExtension = true →
        ∃ p, t.perObjectBlobInfo e.objectId = some p ∧ p.isRegistered epochAtStart = true) →
      t.updateBlobInfoDuringRecoveryWithIncompleteHistory eventIndex event epochAtStart =
        t.updateBlobInfo eventIndex event) := by
  refine ⟨fun e hext hlive huntracked hnew => ?replay, fun event n hend hle => ?skip,
    fun event hlive htracked => ?standard⟩
  case replay =>
    -- the recovery writes the four merges of the two events in one batch, ordered by table
    -- and not by event; on an untracked object each merge lands as it would one by one
    rw [recovery_untracked_extension hext hlive huntracked hnew]
    simp only [applyEvent]
    rw [updateBlobInfoBatch_changeStatus rfl rfl, updateBlobInfoBatch_changeStatus rfl rfl]
    simp [write, BatchWrite.apply, BlobEvent.blobId, bind, Except.bind, pure, Except.pure,
      huntracked, Except.map, Function.update_self, Function.update_idem,
      PerObjectBlobInfoV1.merge, PerObjectBlobInfoV1.mergeWith, PerObjectBlobInfoV1.mergeNew]
  case skip =>
    cases event with
    | registered e =>
      cases hend
      exact if_pos hle
    | certified e =>
      cases hend
      exact if_pos hle
    | deleted e =>
      cases hend
      exact if_pos hle
    | invalidBlobId => cases hend
    | denyListBlobDeleted => cases hend
  case standard =>
    cases event with
    | registered e => exact if_neg (Nat.not_le.mpr (hlive _ rfl))
    | deleted e => exact if_neg (Nat.not_le.mpr (hlive _ rfl))
    | invalidBlobId => rfl
    | denyListBlobDeleted => rfl
    | certified e =>
      simp only [updateBlobInfoDuringRecoveryWithIncompleteHistory,
        if_neg (Nat.not_le.mpr (hlive _ rfl))]
      cases hext : e.isExtension
      case false => rfl
      case true =>
        -- a tracked extension: the object is registered at the start, and the assertion holds
        obtain ⟨p, hp, hreg⟩ := htracked e rfl hext
        simp only [Bool.not_true, Bool.false_eq_true, if_false, hp, hreg, if_true]

/-- An extension to epoch 10, seen by a node that starts in epoch 5 and tracks nothing. -/
def sampleExtension : BlobCertified :=
  ⟨2, ⟨Vector.replicate 32 1⟩, 10, false, ⟨Vector.replicate 32 2⟩, true,
    ⟨Vector.replicate 32 0, 4⟩⟩

/-- The recovery writes the registration and certification of the object, which is then
certified in epoch 5. -/
theorem recovery_replays_missed_events_on_extension :
    BlobInfoTable.empty.updateBlobInfoDuringRecoveryWithIncompleteHistory 0
        (.certified sampleExtension) 5 =
      (BlobInfoTable.empty.applyEvent (0, .registered ⟨2, ⟨Vector.replicate 32 1⟩, 10, false,
          ⟨Vector.replicate 32 2⟩, ⟨Vector.replicate 32 0, 4⟩⟩) >>=
        fun t' => t'.applyEvent (0, .certified { sampleExtension with isExtension := false })) ∧
      (BlobInfoTable.empty.updateBlobInfoDuringRecoveryWithIncompleteHistory 0
        (.certified sampleExtension) 5).toOption.map
          (fun t => (t.perObjectBlobInfo ⟨Vector.replicate 32 2⟩).map (·.isCertified 5)) =
        some (some true) :=
  ⟨(recovery_replays_missed_events BlobInfoTable.empty 0 5).1 sampleExtension rfl (by decide) rfl
    rfl, by decide⟩

end Walrus.BlobInfo
