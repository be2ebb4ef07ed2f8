import Walrus.Contracts.Move
import Walrus.Machine.Ring
import Walrus.Machine.Count
import Walrus.Machine.Run

/-! # The active set of storage nodes

`active_set.move`: the storage nodes with the most stake, at most `max_size` of them, in a
vector of entries (node ID and stake), with the total of their stakes. `insert_or_update`
removes a node whose stake falls below the threshold, updates the stake of a node in the set,
and inserts any other node: at the end of the vector while the set is not full, and otherwise
in place of the entry with the least stake, if that stake is below the new one. `remove` takes
a node out with `swap_remove`.

Each call is modelled with the aborts of Move: the checked additions and subtractions of the
total stake, the cast of the length to `u16` and the assertion of `insert`. Every call is read
by one lemma that says all it can do (`update_eq_ok`, `insert_eq_ok`, `remove_eq_ok`); the
invariant `WellFormed` (distinct nodes, at most `max_size` of them, every stake positive and at
least the threshold, the total the sum of the stakes) is proved from them for each call, and
so for every run of calls from `new`.
-/

namespace Walrus.Staking

open Machine Walrus.System

/-- `ActiveSetEntry`. -/
structure ActiveSetEntry where
  nodeId : ObjectID
  stakedAmount : Nat
deriving DecidableEq, Repr

/-- `ActiveSet`. -/
structure ActiveSet where
  maxSize : Nat
  thresholdStake : Nat
  nodes : List ActiveSetEntry
  totalStake : Nat
deriving DecidableEq, Repr

namespace ActiveSet

/-- `new`. -/
def new (maxSize thresholdStake : Nat) : Except Abort ActiveSet := do
  unless 0 < maxSize do throw .zeroMaxSize
  pure ⟨maxSize, thresholdStake, [], 0⟩

/-- `active_ids`: the IDs of the nodes, in the order of the vector. -/
def activeIds (set : ActiveSet) : List ObjectID :=
  set.nodes.map ActiveSetEntry.nodeId

/-- `find_index!` over the entries, for the entry of `node_id`. -/
def findIndex (set : ActiveSet) (nodeId : ObjectID) : Option Nat :=
  set.nodes.findIdx? fun entry => entry.nodeId = nodeId

/-- `update`: the new stake of a node in the set, and whether the node is in the set. -/
def update (set : ActiveSet) (nodeId : ObjectID) (stakedAmount : Nat) :
    Except Abort (ActiveSet × Bool) :=
  match set.findIndex nodeId with
  | none => pure (set, false)
  | some idx =>
    match set.nodes[idx]? with
    | none => throw .indexOutOfBounds
    | some entry => do
      -- `total_stake + staked_amount - nodes[idx].staked_amount`, from the left
      let sum ← u64Add set.totalStake stakedAmount
      let totalStake ← checkedSub sum entry.stakedAmount
      pure ({ set with totalStake, nodes := set.nodes.set idx { entry with stakedAmount } }, true)

/-- One round of the scan of `insert` over the entries with their indices: the least stake seen
below the new one, and the index of its entry. -/
def minStep (acc : Nat × Option Nat) (entry : ActiveSetEntry × Nat) : Nat × Option Nat :=
  if entry.1.stakedAmount < acc.1 then (entry.1.stakedAmount, some entry.2) else acc

/-- The scan of `insert`, from the new stake and no index. -/
def findMin (nodes : List ActiveSetEntry) (stakedAmount : Nat) : Nat × Option Nat :=
  nodes.zipIdx.foldl minStep (stakedAmount, none)

/-- `insert`: push the node while the set is not full; otherwise the node takes the place of the
entry with the least stake, if that stake is below its own. Returns whether it was inserted. -/
def insert (set : ActiveSet) (nodeId : ObjectID) (stakedAmount : Nat) :
    Except Abort (ActiveSet × Bool) := do
  unless (set.findIndex nodeId).isNone do throw .duplicateInsertion
  let size ← u16Cast set.nodes.length
  if size < set.maxSize then do
    let totalStake ← u64Add set.totalStake stakedAmount
    pure ({ set with totalStake, nodes := set.nodes ++ [⟨nodeId, stakedAmount⟩] }, true)
  else
    match findMin set.nodes stakedAmount with
    | (minStake, some minIdx) => do
      let rest ← checkedSub set.totalStake minStake
      let totalStake ← u64Add rest stakedAmount
      -- the scan's index is always in bounds (`findMin_spec`)
      pure ({ set with totalStake, nodes := set.nodes.set minIdx ⟨nodeId, stakedAmount⟩ }, true)
    | (_, none) => pure (set, false)

/-- `remove`: `swap_remove` of the node's entry, if it is in the set. -/
def remove (set : ActiveSet) (nodeId : ObjectID) : Except Abort ActiveSet :=
  match set.findIndex nodeId with
  | none => pure set
  | some idx =>
    match swapRemove set.nodes idx with
    | none => throw .indexOutOfBounds
    | some (entry, nodes) => do
      let totalStake ← checkedSub set.totalStake entry.stakedAmount
      pure { set with nodes, totalStake }

/-- `insert_or_update`: returns whether the node is in the set afterwards. -/
def insertOrUpdate (set : ActiveSet) (nodeId : ObjectID) (stakedAmount : Nat) :
    Except Abort (ActiveSet × Bool) :=
  -- the threshold is 0 on chain, so a stake of 0 is checked apart
  if stakedAmount = 0 ∨ stakedAmount < set.thresholdStake then do
    let set ← set.remove nodeId
    pure (set, false)
  else do
    let (set, updated) ← set.update nodeId stakedAmount
    if updated then pure (set, true) else set.insert nodeId stakedAmount

/-! ## Finding a node -/

theorem findIndex_eq_none {set : ActiveSet} {nodeId : ObjectID} :
    set.findIndex nodeId = none ↔ nodeId ∉ set.activeIds := by
  simp [findIndex, activeIds, List.findIdx?_eq_none_iff]

theorem findIndex_eq_some {set : ActiveSet} {nodeId : ObjectID} {i : Nat}
    (h : set.findIndex nodeId = some i) :
    ∃ e, set.nodes[i]? = some e ∧ e.nodeId = nodeId := by
  obtain ⟨hi, hk, -⟩ := List.findIdx?_eq_some_iff_getElem.mp h
  exact ⟨set.nodes[i], List.getElem?_eq_getElem hi, by simpa using hk⟩

theorem mem_activeIds {set : ActiveSet} {e : ActiveSetEntry} (he : e ∈ set.nodes) :
    e.nodeId ∈ set.activeIds :=
  List.mem_map_of_mem he

/-- Writing an entry of the node's own ID keeps the IDs. -/
theorem map_nodeId_set_self {nodes : List ActiveSetEntry} {i : Nat} {e : ActiveSetEntry}
    (hi : nodes[i]? = some e) (s : Nat) :
    (nodes.set i ⟨e.nodeId, s⟩).map ActiveSetEntry.nodeId = nodes.map ActiveSetEntry.nodeId := by
  apply List.ext_getElem?
  intro j
  by_cases hj : i = j
  · subst hj
    obtain ⟨hlt, he⟩ := List.getElem?_eq_some_iff.mp hi
    simp [hlt, he]
  · simp [hj]

/-! ## The scan for the least stake -/

/-- The scan from index `k`: the least stake it ends with is at most every stake and the stake
it started from; it keeps the start when no stake is below it, and otherwise ends on an entry
whose stake is below the start. -/
theorem foldl_minStep (k : Nat) : ∀ (nodes : List ActiveSetEntry) (acc : Nat × Option Nat),
    let r := (nodes.zipIdx k).foldl minStep acc
    r.1 ≤ acc.1 ∧ (∀ e ∈ nodes, r.1 ≤ e.stakedAmount) ∧
      (r = acc ∨ ∃ i e, r.2 = some (k + i) ∧ nodes[i]? = some e ∧ e.stakedAmount = r.1 ∧
        r.1 < acc.1)
  | [], acc => by simp
  | a :: nodes, acc => by
    intro r
    have ih := foldl_minStep (k + 1) nodes (minStep acc (a, k))
    obtain ⟨hle, hmin, hend⟩ := ih
    by_cases hlt : a.stakedAmount < acc.1
    · -- the entry becomes the minimum
      have hstep : minStep acc (a, k) = (a.stakedAmount, some k) := by simp [minStep, hlt]
      rw [hstep] at hle hmin hend
      refine ⟨by simp only [r, List.zipIdx_cons, List.foldl_cons, hstep]; omega, ?_, ?_⟩
      · intro e he
        rcases List.mem_cons.mp he with rfl | he
        · simpa [r, hstep] using hle
        · simpa [r, hstep] using hmin e he
      · right
        rcases hend with hr | ⟨i, e, hi, he, hst, hlt'⟩
        · exact ⟨0, a, by simp [r, hstep, hr], rfl, by simp [r, hstep, hr], by
            simp [r, hstep, hr, hlt]⟩
        · refine ⟨i + 1, e, ?_, by simpa using he, ?_, ?_⟩
          · simp only [r, List.zipIdx_cons, List.foldl_cons, hstep]
            rw [hi]
            congr 1
            omega
          · simpa [r, hstep] using hst
          · simp only [r, List.zipIdx_cons, List.foldl_cons, hstep]
            omega
    · -- the entry is not below the minimum so far
      have hstep : minStep acc (a, k) = acc := by simp [minStep, hlt]
      rw [hstep] at hle hmin hend
      simp only [r, List.zipIdx_cons, List.foldl_cons, hstep]
      refine ⟨hle, ?_, ?_⟩
      · intro e he
        rcases List.mem_cons.mp he with rfl | he
        · omega
        · exact hmin e he
      · rcases hend with hr | ⟨i, e, hi, he, hst, hlt'⟩
        · exact .inl hr
        · refine .inr ⟨i + 1, e, ?_, by simpa using he, hst, hlt'⟩
          rw [hi]
          congr 1
          omega

/-- What `insert`'s scan finds: the least stake of the entries, if it is below the new one,
with an entry holding it; otherwise no index, and every stake is at least the new one. -/
theorem findMin_spec (nodes : List ActiveSetEntry) (stakedAmount : Nat) :
    (∀ e ∈ nodes, (findMin nodes stakedAmount).1 ≤ e.stakedAmount) ∧
      ((findMin nodes stakedAmount).2 = none ∧ (findMin nodes stakedAmount).1 = stakedAmount ∨
        ∃ i e, (findMin nodes stakedAmount).2 = some i ∧ nodes[i]? = some e ∧
          e.stakedAmount = (findMin nodes stakedAmount).1 ∧
          (findMin nodes stakedAmount).1 < stakedAmount) := by
  obtain ⟨-, hmin, hend⟩ := foldl_minStep 0 nodes (stakedAmount, none)
  refine ⟨hmin, ?_⟩
  rcases hend with hr | ⟨i, e, hi, he, hst, hlt⟩
  · left
    simp only [findMin, hr, and_self]
  · exact .inr ⟨i, e, by simpa [findMin] using hi, he, hst, hlt⟩

/-! ## What each call does -/

section Calls

variable {set : ActiveSet} {nodeId : ObjectID} {stakedAmount : Nat}

/-- `update` leaves a node not in the set alone, and otherwise writes its stake and the total. -/
theorem update_eq_ok {r : ActiveSet × Bool} (h : set.update nodeId stakedAmount = .ok r) :
    (nodeId ∉ set.activeIds ∧ r = (set, false)) ∨
      ∃ i e, set.nodes[i]? = some e ∧ e.nodeId = nodeId ∧
        set.totalStake + stakedAmount ≤ u64Max ∧ e.stakedAmount ≤ set.totalStake + stakedAmount ∧
        r = (⟨set.maxSize, set.thresholdStake, set.nodes.set i ⟨nodeId, stakedAmount⟩,
          set.totalStake + stakedAmount - e.stakedAmount⟩, true) := by
  unfold update at h
  split at h
  case h_1 hnone =>
    cases h
    exact .inl ⟨findIndex_eq_none.mp hnone, rfl⟩
  case h_2 i hsome =>
    split at h
    case h_1 => cases h
    case h_2 e he =>
      obtain ⟨e', he', hid⟩ := findIndex_eq_some hsome
      rw [he] at he'
      cases he'
      rcases bind_eq_ok.mp h with ⟨sum, hsum, h⟩
      rcases bind_eq_ok.mp h with ⟨total, htotal, h⟩
      rw [u64Add_eq_ok] at hsum
      rw [checkedSub_eq_ok] at htotal
      obtain ⟨hfit, rfl⟩ := hsum
      obtain ⟨hle, rfl⟩ := htotal
      cases h
      subst hid
      exact .inr ⟨i, e, he, rfl, hfit, hle, rfl⟩

/-- `insert` of a node not in the set: pushed while the set is not full; in a full set, in place
of the entry the scan finds, or not at all. -/
theorem insert_eq_ok {r : ActiveSet × Bool} (h : set.insert nodeId stakedAmount = .ok r) :
    nodeId ∉ set.activeIds ∧
      ((set.nodes.length < set.maxSize ∧ set.totalStake + stakedAmount ≤ u64Max ∧
          r = (⟨set.maxSize, set.thresholdStake, set.nodes ++ [⟨nodeId, stakedAmount⟩],
            set.totalStake + stakedAmount⟩, true)) ∨
        (set.maxSize ≤ set.nodes.length ∧ ∃ i m, findMin set.nodes stakedAmount = (m, some i) ∧
          m ≤ set.totalStake ∧ set.totalStake - m + stakedAmount ≤ u64Max ∧
          r = (⟨set.maxSize, set.thresholdStake, set.nodes.set i ⟨nodeId, stakedAmount⟩,
            set.totalStake - m + stakedAmount⟩, true)) ∨
        (set.maxSize ≤ set.nodes.length ∧ (findMin set.nodes stakedAmount).2 = none ∧
          r = (set, false))) := by
  unfold insert at h
  rw [ite_throw_bind_eq_ok] at h
  obtain ⟨hnone, h⟩ := h
  have hfresh : nodeId ∉ set.activeIds := findIndex_eq_none.mp (Option.isNone_iff_eq_none.mp hnone)
  refine ⟨hfresh, ?_⟩
  rcases bind_eq_ok.mp h with ⟨size, hsize, h⟩
  obtain ⟨-, rfl⟩ := u16Cast_eq_ok.mp hsize
  split at h
  case isTrue hlt =>
    rcases bind_eq_ok.mp h with ⟨total, htotal, h⟩
    obtain ⟨hfit, rfl⟩ := u64Add_eq_ok.mp htotal
    cases h
    exact .inl ⟨hlt, hfit, rfl⟩
  case isFalse hge =>
    right
    split at h
    case h_1 m i hscan =>
      rcases bind_eq_ok.mp h with ⟨rest, hrest, h⟩
      rcases bind_eq_ok.mp h with ⟨total, htotal, h⟩
      obtain ⟨hle, rfl⟩ := checkedSub_eq_ok.mp hrest
      obtain ⟨hfit, rfl⟩ := u64Add_eq_ok.mp htotal
      cases h
      exact .inl ⟨Nat.le_of_not_lt hge, i, m, hscan, hle, hfit, rfl⟩
    case h_2 m hscan =>
      cases h
      exact .inr ⟨Nat.le_of_not_lt hge, by simp [hscan], rfl⟩

/-- `remove` leaves a node not in the set alone, and otherwise takes its entry out. -/
theorem remove_eq_ok {set' : ActiveSet} (h : set.remove nodeId = .ok set') :
    (nodeId ∉ set.activeIds ∧ set' = set) ∨
      ∃ e nodes, List.Perm (e :: nodes) set.nodes ∧ e.nodeId = nodeId ∧
        e.stakedAmount ≤ set.totalStake ∧
        set' = ⟨set.maxSize, set.thresholdStake, nodes, set.totalStake - e.stakedAmount⟩ := by
  unfold remove at h
  split at h
  case h_1 hnone =>
    cases h
    exact .inl ⟨findIndex_eq_none.mp hnone, rfl⟩
  case h_2 i hsome =>
    split at h
    case h_1 => cases h
    case h_2 e nodes hswap =>
      obtain ⟨e', he', hid⟩ := findIndex_eq_some hsome
      have he : e = e' := by
        unfold swapRemove at hswap
        split at hswap
        case isTrue hi =>
          simp only [Option.some.injEq, Prod.mk.injEq] at hswap
          rw [List.getElem?_eq_getElem hi, hswap.1] at he'
          exact Option.some.inj he'
        case isFalse => cases hswap
      subst he
      rcases bind_eq_ok.mp h with ⟨total, htotal, h⟩
      obtain ⟨hle, rfl⟩ := checkedSub_eq_ok.mp htotal
      cases h
      exact .inr ⟨e, nodes, swapRemove_perm hswap, hid, hle, rfl⟩

end Calls

/-! ## The invariant -/

/-- The invariant of the active set. -/
structure WellFormed (set : ActiveSet) : Prop where
  maxSize_pos : 0 < set.maxSize
  ids_nodup : set.activeIds.Nodup
  length_le : set.nodes.length ≤ set.maxSize
  staked_pos : ∀ e ∈ set.nodes, 0 < e.stakedAmount
  threshold_le : ∀ e ∈ set.nodes, set.thresholdStake ≤ e.stakedAmount
  totalStake_eq : set.totalStake = (set.nodes.map ActiveSetEntry.stakedAmount).sum
  totalStake_le : set.totalStake ≤ u64Max

section Invariant

variable {set : ActiveSet} {nodeId : ObjectID} {stakedAmount : Nat}

theorem WellFormed.new {maxSize thresholdStake : Nat} (h : ActiveSet.new maxSize thresholdStake = .ok set) :
    set.WellFormed := by
  unfold ActiveSet.new at h
  rw [ite_throw_bind_eq_ok] at h
  obtain ⟨hpos, h⟩ := h
  cases h
  exact ⟨by simpa using hpos, List.nodup_nil, Nat.zero_le _, by simp, by simp, rfl, Nat.zero_le _⟩

/-- An entry written in place of another, with a stake that passes the guards of
`insert_or_update`, keeps the invariant when the IDs stay distinct and the total is the new sum. -/
theorem WellFormed.setEntry (hw : set.WellFormed) {i : Nat} {e x : ActiveSetEntry}
    (hi : set.nodes[i]? = some e) (hpos : 0 < x.stakedAmount)
    (hthr : set.thresholdStake ≤ x.stakedAmount)
    (hids : ((set.nodes.set i x).map ActiveSetEntry.nodeId).Nodup) {total : Nat}
    (htotal : total + e.stakedAmount = set.totalStake + x.stakedAmount) (hfit : total ≤ u64Max) :
    WellFormed ⟨set.maxSize, set.thresholdStake, set.nodes.set i x, total⟩ := by
  obtain ⟨hlt, rfl⟩ := List.getElem?_eq_some_iff.mp hi
  have hsum := sum_map_set ActiveSetEntry.stakedAmount set.nodes i x hlt
  refine ⟨hw.maxSize_pos, hids, by simpa using hw.length_le, ?_, ?_, ?_, hfit⟩
  · intro y hy
    rcases List.mem_or_eq_of_mem_set hy with hy | rfl
    · exact hw.staked_pos y hy
    · exact hpos
  · intro y hy
    rcases List.mem_or_eq_of_mem_set hy with hy | rfl
    · exact hw.threshold_le y hy
    · exact hthr
  · have := hw.totalStake_eq
    dsimp only
    omega

theorem WellFormed.update (hw : set.WellFormed) (hpos : 0 < stakedAmount)
    (hthr : set.thresholdStake ≤ stakedAmount) {r : ActiveSet × Bool}
    (h : set.update nodeId stakedAmount = .ok r) : r.1.WellFormed := by
  rcases update_eq_ok h with ⟨-, rfl⟩ | ⟨i, e, hi, rfl, hfit, hle, rfl⟩
  · exact hw
  · apply hw.setEntry hi hpos hthr
    · rw [map_nodeId_set_self hi]
      exact hw.ids_nodup
    · dsimp only
      omega
    · omega

theorem WellFormed.insert (hw : set.WellFormed) (hpos : 0 < stakedAmount)
    (hthr : set.thresholdStake ≤ stakedAmount) {r : ActiveSet × Bool}
    (h : set.insert nodeId stakedAmount = .ok r) : r.1.WellFormed := by
  obtain ⟨hfresh, hpush | ⟨-, i, m, hscan, hle, hfit, rfl⟩ | ⟨-, -, rfl⟩⟩ := insert_eq_ok h
  · -- pushed at the end of a set that is not full
    obtain ⟨hlt, hfit, rfl⟩ := hpush
    refine ⟨hw.maxSize_pos, ?_, by simpa using hlt, ?_, ?_, ?_, hfit⟩
    · simp only [activeIds, List.map_append, List.map_cons, List.map_nil]
      refine List.nodup_append.mpr ⟨hw.ids_nodup, List.nodup_singleton _, ?_⟩
      intro a ha b hb
      rw [List.mem_singleton.mp hb]
      rintro rfl
      exact hfresh ha
    · intro y hy
      rcases List.mem_append.mp hy with hy | hy
      · exact hw.staked_pos y hy
      · rw [List.mem_singleton.mp hy]
        exact hpos
    · intro y hy
      rcases List.mem_append.mp hy with hy | hy
      · exact hw.threshold_le y hy
      · rw [List.mem_singleton.mp hy]
        exact hthr
    · simp [hw.totalStake_eq]
  · -- written in place of the entry the scan found
    obtain ⟨-, hend⟩ := findMin_spec set.nodes stakedAmount
    rw [hscan] at hend
    rcases hend with ⟨h, -⟩ | ⟨j, e, hj, he, hst, -⟩
    · cases h
    · cases hj
      apply hw.setEntry he hpos hthr
      · rw [List.map_set]
        exact hw.ids_nodup.set hfresh
      · dsimp only at hst ⊢
        omega
      · exact hfit
  · exact hw

theorem WellFormed.remove (hw : set.WellFormed) {set' : ActiveSet}
    (h : set.remove nodeId = .ok set') : set'.WellFormed := by
  rcases remove_eq_ok h with ⟨-, rfl⟩ | ⟨e, nodes, hperm, -, hle, rfl⟩
  · exact hw
  have hsum := (hperm.map ActiveSetEntry.stakedAmount).sum_eq
  have hlen := hperm.length_eq
  have hids : (e.nodeId :: nodes.map ActiveSetEntry.nodeId).Nodup :=
    (hperm.map ActiveSetEntry.nodeId).nodup_iff.mpr hw.ids_nodup
  refine ⟨hw.maxSize_pos, (List.nodup_cons.mp hids).2, ?_,
    fun y hy => hw.staked_pos y (hperm.subset (List.mem_cons_of_mem _ hy)),
    fun y hy => hw.threshold_le y (hperm.subset (List.mem_cons_of_mem _ hy)), ?_, ?_⟩
  · have := hw.length_le
    simp only [List.length_cons] at hlen
    dsimp only
    omega
  · have := hw.totalStake_eq
    simp only [List.map_cons, List.sum_cons] at hsum
    dsimp only
    omega
  · have := hw.totalStake_le
    dsimp only
    omega

theorem WellFormed.insertOrUpdate (hw : set.WellFormed) {r : ActiveSet × Bool}
    (h : set.insertOrUpdate nodeId stakedAmount = .ok r) : r.1.WellFormed := by
  unfold ActiveSet.insertOrUpdate at h
  split at h
  case isTrue =>
    rcases bind_eq_ok.mp h with ⟨set', hremove, h⟩
    cases h
    exact hw.remove hremove
  case isFalse hguard =>
    have hpos : 0 < stakedAmount := by omega
    have hthr : set.thresholdStake ≤ stakedAmount := by omega
    rcases bind_eq_ok.mp h with ⟨⟨set', updated⟩, hupdate, h⟩
    have hw' := hw.update hpos hthr hupdate
    cases updated
    case true =>
      cases h
      exact hw'
    case false =>
      -- a node not in the set leaves it as it was
      rcases update_eq_ok hupdate with ⟨-, hr⟩ | ⟨i, e, -, -, -, -, hr⟩
      · cases hr
        exact hw.insert hpos hthr h
      · cases hr

end Invariant

/-! ## What `insert_or_update` returns and whom it evicts -/

section Results

variable {set : ActiveSet} {nodeId : ObjectID} {stakedAmount : Nat}

/-- After `remove` the node is not in the set: its ID was in one entry only. -/
theorem not_mem_of_remove (hw : set.WellFormed) {set' : ActiveSet}
    (h : set.remove nodeId = .ok set') : nodeId ∉ set'.activeIds := by
  rcases remove_eq_ok h with ⟨hfresh, rfl⟩ | ⟨e, nodes, hperm, rfl, -, rfl⟩
  · exact hfresh
  · have hids : (e.nodeId :: nodes.map ActiveSetEntry.nodeId).Nodup :=
      (hperm.map ActiveSetEntry.nodeId).nodup_iff.mpr hw.ids_nodup
    exact (List.nodup_cons.mp hids).1

/-- Every entry other than the removed node's stays. -/
theorem mem_of_remove {set' : ActiveSet} (h : set.remove nodeId = .ok set')
    {e : ActiveSetEntry} (he : e ∈ set.nodes) (hne : e.nodeId ≠ nodeId) : e ∈ set'.nodes := by
  rcases remove_eq_ok h with ⟨-, rfl⟩ | ⟨r, nodes, hperm, rfl, -, rfl⟩
  · exact he
  · rcases List.mem_cons.mp (hperm.symm.subset he) with rfl | he'
    · exact absurd rfl hne
    · exact he'

/-- `insert_or_update` returns whether the node is in the set afterwards. -/
theorem insertOrUpdate_iff (hw : set.WellFormed) {set' : ActiveSet} {inSet : Bool}
    (h : set.insertOrUpdate nodeId stakedAmount = .ok (set', inSet)) :
    inSet = true ↔ nodeId ∈ set'.activeIds := by
  unfold ActiveSet.insertOrUpdate at h
  split at h
  case isTrue =>
    -- below the threshold the node is removed
    rcases bind_eq_ok.mp h with ⟨set'', hremove, h⟩
    cases h
    simpa using not_mem_of_remove hw hremove
  case isFalse =>
    rcases bind_eq_ok.mp h with ⟨⟨set'', updated⟩, hupdate, h⟩
    rcases update_eq_ok hupdate with ⟨-, hr⟩ | ⟨i, e, hi, rfl, -, -, hr⟩
    · -- not in the set: `insert` decides
      cases hr
      obtain ⟨hfresh, ⟨-, -, hr⟩ | ⟨-, i, m, hscan, -, -, hr⟩ | ⟨-, -, hr⟩⟩ := insert_eq_ok h
      · cases hr
        simp [activeIds]
      · cases hr
        obtain ⟨-, hend⟩ := findMin_spec set.nodes stakedAmount
        rw [hscan] at hend
        rcases hend with ⟨h, -⟩ | ⟨j, e, hj, he, -, -⟩
        · cases h
        · cases hj
          have hlt : i < set.nodes.length := (List.getElem?_eq_some_iff.mp he).1
          refine iff_of_true rfl ?_
          simp only [activeIds, List.map_set]
          exact List.mem_set (by simpa using hlt) _
      · cases hr
        simpa using hfresh
    · -- in the set: its stake is updated
      cases hr
      cases h
      refine iff_of_true rfl ?_
      simp only [activeIds, map_nodeId_set_self hi]
      exact List.mem_map_of_mem (List.mem_of_getElem? hi)

/-- Writing an entry in place of another adds its node and keeps the others'. -/
theorem mem_map_nodeId_set {nodes : List ActiveSetEntry} {i : Nat} {x : ActiveSetEntry}
    {k : ObjectID} (hk : k ∈ (nodes.set i x).map ActiveSetEntry.nodeId) :
    k ∈ nodes.map ActiveSetEntry.nodeId ∨ k = x.nodeId := by
  rw [List.map_set] at hk
  exact List.mem_or_eq_of_mem_set hk

/-- `insert_or_update` brings no node into the set but the node of the call. -/
theorem mem_activeIds_of_insertOrUpdate {set' : ActiveSet} {inSet : Bool}
    (h : set.insertOrUpdate nodeId stakedAmount = .ok (set', inSet)) {k : ObjectID}
    (hk : k ∈ set'.activeIds) : k ∈ set.activeIds ∨ k = nodeId := by
  unfold ActiveSet.insertOrUpdate at h
  split at h
  case isTrue =>
    rcases bind_eq_ok.mp h with ⟨set'', hremove, h⟩
    cases h
    rcases remove_eq_ok hremove with ⟨-, rfl⟩ | ⟨e, nodes, hperm, -, -, rfl⟩
    · exact .inl hk
    · -- the entries left were entries before
      exact .inl ((hperm.map ActiveSetEntry.nodeId).subset (List.mem_cons_of_mem _ hk))
  case isFalse =>
    rcases bind_eq_ok.mp h with ⟨⟨set'', updated⟩, hupdate, h⟩
    rcases update_eq_ok hupdate with ⟨-, hr⟩ | ⟨i, e, -, -, -, -, hr⟩
    · -- not in the set: pushed, written over the least stake, or left out
      cases hr
      obtain ⟨-, ⟨-, -, hr⟩ | ⟨-, i, m, -, -, -, hr⟩ | ⟨-, -, hr⟩⟩ := insert_eq_ok h
      · cases hr
        simpa [activeIds] using hk
      · cases hr
        exact mem_map_nodeId_set hk
      · cases hr
        exact .inl hk
    · cases hr
      cases h
      exact mem_map_nodeId_set hk

/-- A node that leaves the set although the call was about another node was evicted by an
insertion into a full set: its stake was the least of the set and below the new one. -/
theorem insertOrUpdate_evicts (hw : set.WellFormed) {set' : ActiveSet} {inSet : Bool}
    (h : set.insertOrUpdate nodeId stakedAmount = .ok (set', inSet)) {e : ActiveSetEntry}
    (he : e ∈ set.nodes) (hne : e.nodeId ≠ nodeId) (hout : e.nodeId ∉ set'.activeIds) :
    set.nodes.length = set.maxSize ∧ (∀ x ∈ set.nodes, e.stakedAmount ≤ x.stakedAmount) ∧
      e.stakedAmount < stakedAmount := by
  unfold ActiveSet.insertOrUpdate at h
  split at h
  case isTrue =>
    rcases bind_eq_ok.mp h with ⟨set'', hremove, h⟩
    cases h
    exact absurd (mem_activeIds (mem_of_remove hremove he hne)) hout
  case isFalse =>
    rcases bind_eq_ok.mp h with ⟨⟨set'', updated⟩, hupdate, h⟩
    rcases update_eq_ok hupdate with ⟨-, hr⟩ | ⟨i, e', hi, rfl, -, -, hr⟩
    · cases hr
      obtain ⟨-, ⟨-, -, hr⟩ | ⟨hge, i, m, hscan, -, -, hr⟩ | ⟨-, -, hr⟩⟩ := insert_eq_ok h
      · cases hr
        exact absurd (List.mem_map_of_mem (List.mem_append_left _ he)) hout
      · cases hr
        -- the only entry that leaves is the one the scan found
        obtain ⟨hmin, hend⟩ := findMin_spec set.nodes stakedAmount
        rw [hscan] at hmin hend
        rcases hend with ⟨h, -⟩ | ⟨j, e₀, hj, he₀, hst, hlt⟩
        · cases h
        cases hj
        dsimp only at hmin hst hlt
        obtain ⟨k, hk⟩ := List.mem_iff_getElem?.mp he
        by_cases hki : k = i
        · subst hki
          rw [hk, Option.some.injEq] at he₀
          subst he₀
          refine ⟨Nat.le_antisymm hw.length_le hge, fun x hx => ?_, by omega⟩
          rw [hst]
          exact hmin x hx
        · have hk' : (set.nodes.set i ⟨nodeId, stakedAmount⟩)[k]? = some e := by
            rw [List.getElem?_set_ne (Ne.symm hki)]
            exact hk
          exact absurd (List.mem_map_of_mem (List.mem_of_getElem? hk')) hout
      · cases hr
        exact absurd (mem_activeIds he) hout
    · cases hr
      cases h
      refine absurd ?_ hout
      show e.nodeId ∈ (set.nodes.set i ⟨e'.nodeId, stakedAmount⟩).map ActiveSetEntry.nodeId
      rw [map_nodeId_set_self hi]
      exact List.mem_map_of_mem he

end Results

/-! ## Runs of calls -/

/-- The calls that change the active set. -/
inductive Op
  | insertOrUpdate (nodeId : ObjectID) (stakedAmount : Nat)
  | remove (nodeId : ObjectID)

/-- A call as a transaction: the set it leaves. -/
def step (set : ActiveSet) : Op → Except Abort ActiveSet
  | .insertOrUpdate nodeId stakedAmount => do
    let (set, _) ← set.insertOrUpdate nodeId stakedAmount
    pure set
  | .remove nodeId => set.remove nodeId

/-- A call that aborts is not committed. -/
def stepOption (set : ActiveSet) (op : Op) : Option ActiveSet :=
  (set.step op).toOption

/-- The sets `new` creates. -/
def Created (set : ActiveSet) : Prop :=
  ∃ maxSize thresholdStake, ActiveSet.new maxSize thresholdStake = .ok set

theorem WellFormed.step {set set' : ActiveSet} (hw : set.WellFormed) {op : Op}
    (h : set.step op = .ok set') : set'.WellFormed := by
  cases op with
  | insertOrUpdate nodeId stakedAmount =>
    rcases bind_eq_ok.mp h with ⟨⟨set'', inSet⟩, hcall, h⟩
    cases h
    exact hw.insertOrUpdate hcall
  | remove nodeId => exact hw.remove h

theorem WellFormed.of_reachable {set : ActiveSet} :
    Reachable Created stepOption set → set.WellFormed :=
  Reachable.invariant (fun _ ⟨_, _, h⟩ => WellFormed.new h)
    (fun _ _ _ hw h => hw.step (toOption_eq_some.mp h))

/-- The active set's invariants. Every set reached from `new` by calls of `insert_or_update` and
`remove` (a call that aborts changing nothing) is well formed: a positive `max_size`, distinct
nodes, at most `max_size` of them, every stake positive and at least the threshold, and the
total the sum of the stakes. From such a set, `insert_or_update` returns whether the node is in
the set afterwards, and a node that it takes out, other than the node of the call, was evicted
from a full set and had the least stake of the set, below the new one. -/
theorem active_set_invariants {set : ActiveSet} (hset : Reachable Created stepOption set) :
    set.WellFormed ∧
      ∀ nodeId stakedAmount set' inSet,
        set.insertOrUpdate nodeId stakedAmount = .ok (set', inSet) →
        (inSet = true ↔ nodeId ∈ set'.activeIds) ∧
        ∀ e ∈ set.nodes, e.nodeId ≠ nodeId → e.nodeId ∉ set'.activeIds →
          set.nodes.length = set.maxSize ∧ (∀ x ∈ set.nodes, e.stakedAmount ≤ x.stakedAmount) ∧
          e.stakedAmount < stakedAmount := by
  have hw := WellFormed.of_reachable hset
  refine ⟨hw, ?_⟩
  intro nodeId stakedAmount set' inSet h
  exact ⟨insertOrUpdate_iff hw h, fun e he hne hout => insertOrUpdate_evicts hw h he hne hout⟩

/-- The set of size one holding one node with a stake of 5, after its first call. -/
def singleNodeSet : ActiveSet :=
  ⟨1, 0, [⟨⟨Vector.replicate 32 0⟩, 5⟩], 5⟩

theorem active_set_invariants_single :
    Reachable Created stepOption singleNodeSet ∧
      (singleNodeSet.WellFormed ∧
        ∀ nodeId stakedAmount set' inSet,
          singleNodeSet.insertOrUpdate nodeId stakedAmount = .ok (set', inSet) →
          (inSet = true ↔ nodeId ∈ set'.activeIds) ∧
          ∀ e ∈ singleNodeSet.nodes, e.nodeId ≠ nodeId → e.nodeId ∉ set'.activeIds →
            singleNodeSet.nodes.length = singleNodeSet.maxSize ∧
            (∀ x ∈ singleNodeSet.nodes, e.stakedAmount ≤ x.stakedAmount) ∧
            e.stakedAmount < stakedAmount) :=
  have hset : Reachable Created stepOption singleNodeSet :=
    .step (.insertOrUpdate ⟨Vector.replicate 32 0⟩ 5) (.init ⟨1, 0, rfl⟩) rfl
  ⟨hset, active_set_invariants hset⟩

end ActiveSet

end Walrus.Staking
