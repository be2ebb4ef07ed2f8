import Mathlib.Algebra.Order.Group.Multiset
import Walrus.Contracts.Move
import Walrus.Machine.InsertionSort

/-! # Committees

`walrus::committee`: the shards of each member of an epoch's committee, by node ID, kept
sorted by node ID (`sort::sort_vec_map_by_node_id`). `initialize` numbers the shards of the
first committee node after node; `transition` moves to new numbers of shards per node with as
few moves as it can. A node keeps the shards it has, up to its new number; the shards of the
nodes that leave or shrink are collected in `to_move`, and the nodes that grow or join take
theirs from its back.

The result is a committee with exactly the assigned number of shards per node, sorted by node
ID, that holds every shard of the old committee exactly once (`initializeCommittee_eq_ok`
here, `transition_spec` in `Staking.Transition`). For `transition` the shards are followed
through both loops: the shards of the members the first loop has visited are in the new
committee, in `to_move`, or still held by their node, which waits in `new_assignments` for
more (`FirstLoopInv`); the second loop hands `to_move` out, and the count check between the
loops leaves it empty at the end.
-/

namespace Walrus.Staking

open Machine Walrus.System

/-! ## Sorting by node ID -/

/-- `sort::sort_vec_map_by_node_id`: the entries sorted by node ID as a `u256`, by the
insertion sort that swaps keys and values together. Rebuilding the map from the sorted
vectors cannot abort: its keys are those of the input. -/
def sortVecMapByNodeId {ν : Type} (self : VecMap ObjectID ν) : VecMap ObjectID ν :=
  ⟨insertionSort (fun e : ObjectID × ν => e.1.toU256) self.contents,
    ((@insertionSort_sorted_perm _ (fun e : ObjectID × ν => e.1.toU256)
      self.contents).2.map Prod.fst).nodup_iff.mpr self.keys_nodup⟩

/-- `Committee`: the shards of each member, by node ID. -/
structure Committee where
  inner : VecMap ObjectID (List Nat)

namespace Committee

/-- `empty`: the committee of epoch 0. -/
def empty : Committee := ⟨VecMap.empty⟩

/-- `contains`. -/
def contains (cmt : Committee) (nodeId : ObjectID) : Bool :=
  cmt.inner.contains nodeId

/-- `shards`: aborts for a node outside the committee. -/
def shards (cmt : Committee) (nodeId : ObjectID) : Except Abort (List Nat) :=
  liftVecMap (cmt.inner.get nodeId)

/-- `size`. -/
def size (cmt : Committee) : Nat :=
  cmt.inner.length

/-! ## `initialize` -/

/-- One call of the closure of `vector::tabulate!` in `initialize`: the next value of the
`u16` shard counter. -/
def tabulateStep (acc : List Nat × Nat) (_ : Nat) : Except Abort (List Nat × Nat) := do
  let next ← u16Add acc.2 1
  pure (acc.1 ++ [acc.2], next)

/-- `vector::tabulate!(count, ...)`: `count` shards from the counter `shardIdx` on, and the
counter after them. -/
def tabulateShards (count shardIdx : Nat) : Except Abort (List Nat × Nat) :=
  (List.range count).foldlM tabulateStep ([], shardIdx)

/-- One round of `values.map!` in `initialize`: the shards of the next node. -/
def assignStep (acc : List (List Nat) × Nat) (value : Nat) :
    Except Abort (List (List Nat) × Nat) := do
  let (shards, shardIdx) ← tabulateShards value acc.2
  pure (acc.1 ++ [shards], shardIdx)

/-- `initialize` (a keyword of Lean): the nodes sorted by node ID, and the shards numbered
from `0` on, node after node. -/
def initializeCommittee (assignedNumber : VecMap ObjectID Nat) : Except Abort Committee := do
  let sortedAssignments := sortVecMapByNodeId assignedNumber
  let keys := sortedAssignments.intoKeysValues.1
  let values := sortedAssignments.intoKeysValues.2
  let shards ← values.foldlM assignStep ([], 0)
  let cmt ← liftVecMap (VecMap.fromKeysValues keys shards.1)
  return ⟨cmt⟩

/-! ## `transition` -/

/-- The variables of the first loop of `transition`. -/
structure TransitionState where
  newAssignments : VecMap ObjectID Nat
  newCmt : VecMap ObjectID (List Nat)
  toMove : List Nat
  currentNumOfShards : Nat

/-- The `assigned_len` of `transition`: the entry of `node_id` is taken out of
`new_assignments`, and its number of shards returned. -/
def takeAssignment (newAssignments : VecMap ObjectID Nat) (nodeId : ObjectID) :
    Except Abort (VecMap ObjectID Nat × Option Nat) :=
  match newAssignments.getIdxOpt nodeId with
  | some idx => do
    let (entry, newAssignments) ← liftVecMap (newAssignments.removeEntryByIdx idx)
    pure (newAssignments, some entry.2)
  | none => pure (newAssignments, none)

/-- The rest of a round of the first loop, for a node that stays in the committee with
`assigned_len` shards: the three `if`s of the source, of which exactly one applies. -/
def placeNode (newAssignments : VecMap ObjectID Nat) (newCmt : VecMap ObjectID (List Nat))
    (toMove : List Nat) (nodeId : ObjectID) (prevShards : List Nat) (assignedLen : Nat) :
    Except Abort (VecMap ObjectID Nat × VecMap ObjectID (List Nat) × List Nat) := do
  let currLen := prevShards.length
  -- the node keeps its shards
  let newCmt ← if currLen = assignedLen then liftVecMap (newCmt.insert nodeId prevShards)
    else pure newCmt
  -- the node gives up its last `curr_len - assigned_len` shards
  let (newCmt, toMove) ← if currLen > assignedLen then do
      let some (nodeShards, toMove) := popPushN (currLen - assignedLen) prevShards toMove
        | throw .indexOutOfBounds
      let newCmt ← liftVecMap (newCmt.insert nodeId nodeShards)
      pure (newCmt, toMove)
    else pure (newCmt, toMove)
  -- the node waits in `new_assignments` for more shards
  let newAssignments ← if currLen < assignedLen then
      liftVecMap (newAssignments.insert nodeId assignedLen)
    else pure newAssignments
  return (newAssignments, newCmt, toMove)

/-- One round of the first loop of `transition`, over a member of the current committee. -/
def transitionStep (s : TransitionState) (entry : ObjectID × List Nat) :
    Except Abort TransitionState := do
  let nodeId := entry.1
  let prevShards := entry.2
  let currentNumOfShards ← u64Add s.currentNumOfShards prevShards.length
  let (newAssignments, assignedLen) ← takeAssignment s.newAssignments nodeId
  match assignedLen with
  | some (assignedLen + 1) =>
    let (newAssignments, newCmt, toMove) ←
      placeNode newAssignments s.newCmt s.toMove nodeId prevShards (assignedLen + 1)
    return ⟨newAssignments, newCmt, toMove, currentNumOfShards⟩
  -- a node that leaves the committee gives up all its shards
  | _ => return ⟨newAssignments, s.newCmt, s.toMove ++ prevShards, currentNumOfShards⟩

/-- One round of the second loop of `transition`: a node that needs shards takes them from
the back of `to_move`, after those it already has. -/
def fillStep (cmt : Committee) (acc : VecMap ObjectID (List Nat) × List Nat)
    (entry : ObjectID × Nat) : Except Abort (VecMap ObjectID (List Nat) × List Nat) :=
  let key := entry.1
  let value := entry.2
  -- nodes with no shards are left out
  if value = 0 then pure acc
  else do
    let currentShards := (cmt.inner.get? key).getD []
    let some (toMove, currentShards) :=
        popPushN (diff currentShards.length value) acc.2 currentShards
      | throw .indexOutOfBounds
    let newCmt ← liftVecMap (acc.1.insert key currentShards)
    return (newCmt, toMove)

/-- `transition`: the committee with the new numbers of shards per node; aborts when they do
not add up to the current number of shards. -/
def transition (cmt : Committee) (newAssignments : VecMap ObjectID Nat) :
    Except Abort Committee := do
  let newNumOfShards ← (newAssignments.contents.map Prod.snd).foldlM u16Add 0
  let s ← cmt.inner.contents.foldlM transitionStep ⟨newAssignments, VecMap.empty, [], 0⟩
  unless newNumOfShards = s.currentNumOfShards do throw .invalidShardAssignment
  let filled ← s.newAssignments.contents.foldlM (fillStep cmt) (s.newCmt, s.toMove)
  return ⟨sortVecMapByNodeId filled.1⟩

/-! ## What a committee holds -/

/-- The shards of all members, member after member. -/
def shardsOf (m : VecMap ObjectID (List Nat)) : List Nat :=
  (m.contents.map Prod.snd).flatten

/-- The number of shards of each member. -/
def counts (m : VecMap ObjectID (List Nat)) : List (ObjectID × Nat) :=
  m.contents.map fun e => (e.1, e.2.length)

/-- A committee of `n_shards` shards as the contracts keep it: sorted by node ID, every
member with a shard, and every shard with exactly one member. -/
structure WellFormed (cmt : Committee) (nShards : Nat) : Prop where
  sorted : SortedBy (fun e : ObjectID × List Nat => e.1.toU256) cmt.inner.contents
  nonempty : ∀ e ∈ cmt.inner.contents, e.2 ≠ []
  partition : (shardsOf cmt.inner).Perm (List.range nShards)

theorem sortVecMapByNodeId_sorted_perm {ν : Type} (self : VecMap ObjectID ν) :
    SortedBy (fun e : ObjectID × ν => e.1.toU256) (sortVecMapByNodeId self).contents ∧
      (sortVecMapByNodeId self).contents.Perm self.contents :=
  insertionSort_sorted_perm self.contents

/-- Members assigned a positive number of shards each have a shard. -/
theorem nonempty_of_counts {m : VecMap ObjectID (List Nat)} {l : List (ObjectID × Nat)}
    (hc : (counts m).Perm l) (hpos : ∀ e ∈ l, 0 < e.2) : ∀ e ∈ m.contents, e.2 ≠ [] := by
  intro e he hnil
  have hmem : (e.1, e.2.length) ∈ l := hc.subset (List.mem_map_of_mem he)
  have := hpos _ hmem
  simp [hnil] at this

/-! ## `initialize` gives each node its number of shards -/

theorem foldlM_tabulateStep :
    ∀ (l acc : List Nat) (idx : Nat) {r : List Nat × Nat},
      l.foldlM tabulateStep (acc, idx) = .ok r →
        r = (acc ++ List.range' idx l.length, idx + l.length)
  | [], acc, idx, r, h => by
    simp only [List.foldlM_nil, pure, Except.pure, Except.ok.injEq] at h
    simp [h]
  | x :: l, acc, idx, r, h => by
    rw [List.foldlM_cons] at h
    obtain ⟨t, ht, h'⟩ := bind_eq_ok.mp h
    unfold tabulateStep at ht
    obtain ⟨next, hnext, ht'⟩ := bind_eq_ok.mp ht
    obtain ⟨-, rfl⟩ := u16Add_eq_ok.mp hnext
    simp only [pure, Except.pure, Except.ok.injEq] at ht'
    subst ht'
    rw [foldlM_tabulateStep l _ _ h', List.length_cons, List.range'_succ]
    simp only [List.append_assoc, List.singleton_append, Prod.mk.injEq, true_and]
    omega

theorem tabulateShards_eq_ok {count idx : Nat} {r : List Nat × Nat}
    (h : tabulateShards count idx = .ok r) : r = (List.range' idx count, idx + count) := by
  have := foldlM_tabulateStep (List.range count) [] idx h
  simpa using this

/-- The shards of the nodes in turn: consecutive blocks of the given sizes. -/
theorem foldlM_assignStep :
    ∀ (values : List Nat) (acc : List (List Nat)) (idx : Nat) {r : List (List Nat) × Nat},
      values.foldlM assignStep (acc, idx) = .ok r →
        ∃ new, r.1 = acc ++ new ∧ new.flatten = List.range' idx values.sum ∧
          new.map List.length = values
  | [], acc, idx, r, h => by
    simp only [List.foldlM_nil, pure, Except.pure, Except.ok.injEq] at h
    exact ⟨[], by simp [← h], by simp, rfl⟩
  | v :: vs, acc, idx, r, h => by
    rw [List.foldlM_cons] at h
    obtain ⟨t, ht, h'⟩ := bind_eq_ok.mp h
    unfold assignStep at ht
    obtain ⟨block, hblock, ht'⟩ := bind_eq_ok.mp ht
    rw [tabulateShards_eq_ok hblock] at ht'
    simp only [pure, Except.pure, Except.ok.injEq] at ht'
    subst ht'
    obtain ⟨new, hr, hflat, hlen⟩ := foldlM_assignStep vs _ _ h'
    refine ⟨List.range' idx v :: new, by simp [hr], ?_, by simp [hlen]⟩
    rw [List.flatten_cons, hflat, List.sum_cons, List.range'_append_1]

/-- Keys sorted by node ID stay sorted when values are zipped to them. -/
theorem sortedBy_zip {ν μ : Type} {l : List (ObjectID × ν)} {values : List μ}
    (hs : SortedBy (fun e : ObjectID × ν => e.1.toU256) l)
    (hlen : l.length ≤ values.length) :
    SortedBy (fun e : ObjectID × μ => e.1.toU256) ((l.map Prod.fst).zip values) := by
  have hkeys : ((l.map Prod.fst).zip values).map Prod.fst = l.map Prod.fst :=
    List.map_fst_zip (by simpa using hlen)
  have hsorted : (l.map Prod.fst).Pairwise fun a b => a.toU256 ≤ b.toU256 :=
    List.pairwise_map.mpr hs
  rw [← hkeys] at hsorted
  exact (List.pairwise_map (f := Prod.fst) (R := fun a b : ObjectID => a.toU256 ≤ b.toU256)).mp
    hsorted

/-- `initialize`: the nodes sorted by node ID, each with its assigned number of shards, and
the shards `0, ..., n - 1` for the total `n` handed out in order, node after node. -/
theorem initializeCommittee_eq_ok {assignedNumber : VecMap ObjectID Nat} {cmt : Committee}
    (h : initializeCommittee assignedNumber = .ok cmt) :
    SortedBy (fun e : ObjectID × List Nat => e.1.toU256) cmt.inner.contents ∧
      shardsOf cmt.inner = List.range (assignedNumber.contents.map Prod.snd).sum ∧
      (counts cmt.inner).Perm assignedNumber.contents := by
  unfold initializeCommittee at h
  obtain ⟨shards, hshards, h₁⟩ := bind_eq_ok.mp h
  obtain ⟨inner, hinner, h₂⟩ := bind_eq_ok.mp h₁
  simp only [pure, Except.pure, Except.ok.injEq] at h₂
  subst h₂
  set sorted := sortVecMapByNodeId assignedNumber with hsorted_def
  obtain ⟨hs, hp⟩ := sortVecMapByNodeId_sorted_perm assignedNumber
  obtain ⟨new, hnew, hflat, hlens⟩ := foldlM_assignStep _ [] 0 hshards
  rw [List.nil_append] at hnew
  obtain ⟨hlen, hcontents⟩ := VecMap.fromKeysValues_eq_ok (liftVecMap_eq_ok.mp hinner)
  simp only [VecMap.intoKeysValues, hnew, List.length_map] at hlen hcontents hflat hlens
  have hsum : (sorted.contents.map Prod.snd).sum = (assignedNumber.contents.map Prod.snd).sum :=
    (hp.map Prod.snd).sum_eq
  refine ⟨?_, ?_, ?_⟩
  · -- sorted: the keys are those of the sorted assignment
    rw [hcontents]
    exact sortedBy_zip hs (by omega)
  · -- the shards are the consecutive blocks
    unfold shardsOf
    rw [hcontents, List.map_snd_zip (by simp [hlen]), hflat, hsum, List.range_eq_range']
  · -- each node has its assigned number
    have hmap : (fun e : ObjectID × List Nat => (e.1, e.2.length)) = Prod.map id List.length :=
      rfl
    have hzip : (sorted.contents.map Prod.fst).zip (sorted.contents.map Prod.snd) =
        sorted.contents := by
      simpa using List.zip_unzip sorted.contents
    unfold counts
    rw [hcontents, hmap, ← List.zip_map_right, hlens, hzip]
    exact hp

/-! ## One round of each loop of `transition` -/

theorem takeAssignment_eq_ok {na na' : VecMap ObjectID Nat} {k : ObjectID} {a : Option Nat}
    (h : takeAssignment na k = .ok (na', a)) :
    (∀ e ∈ na'.contents, e.1 ≠ k) ∧ na.contents.Perm (a.toList.map (k, ·) ++ na'.contents) := by
  unfold takeAssignment at h
  split at h
  · rename_i idx hidx
    obtain ⟨⟨entry, na₁⟩, hrem, h₁⟩ := bind_eq_ok.mp h
    simp only [pure, Except.pure, Except.ok.injEq, Prod.mk.injEq] at h₁
    obtain ⟨rfl, rfl⟩ := h₁
    obtain ⟨hi, rfl, hk, hc, hne⟩ :=
      VecMap.removeEntryByIdx_getIdxOpt hidx (liftVecMap_eq_ok.mp hrem)
    refine ⟨hne, ?_⟩
    have hentry : (k, na.contents[idx].2) = na.contents[idx] := by rw [← hk]
    rw [hc, Option.toList_some, List.map_singleton, hentry, List.singleton_append]
    exact (List.getElem_cons_eraseIdx_perm hi).symm
  · rename_i hidx
    simp only [pure, Except.pure, Except.ok.injEq, Prod.mk.injEq] at h
    obtain ⟨rfl, rfl⟩ := h
    exact ⟨VecMap.getIdxOpt_eq_none hidx, by simp⟩

theorem placeNode_eq_ok {na na' : VecMap ObjectID Nat} {nc nc' : VecMap ObjectID (List Nat)}
    {tm tm' : List Nat} {k : ObjectID} {S : List Nat} {a : Nat}
    (h : placeNode na nc tm k S a = .ok (na', nc', tm')) :
    (S.length < a ∧ nc' = nc ∧ tm' = tm ∧ na'.contents = na.contents ++ [(k, a)]) ∨
      (a ≤ S.length ∧ na' = na ∧ ∃ kept, nc'.contents = nc.contents ++ [(k, kept)] ∧
        kept.length = a ∧ (kept ++ tm').Perm (S ++ tm)) := by
  unfold placeNode at h
  rcases Nat.lt_trichotomy S.length a with hlt | heq | hgt
  · -- the node grows: it waits for more shards
    have h₁ : ¬ S.length = a := by omega
    have h₂ : ¬ S.length > a := by omega
    simp only [if_neg h₁, if_neg h₂, if_pos hlt, pure_bind] at h
    obtain ⟨na₁, hins, h₃⟩ := bind_eq_ok.mp h
    simp only [pure, Except.pure, Except.ok.injEq, Prod.mk.injEq] at h₃
    obtain ⟨rfl, rfl, rfl⟩ := h₃
    exact Or.inl ⟨hlt, rfl, rfl, (VecMap.insert_eq_ok (liftVecMap_eq_ok.mp hins)).2⟩
  · -- the node keeps its shards
    have h₂ : ¬ S.length > a := by omega
    have h₃ : ¬ S.length < a := by omega
    simp only [if_pos heq, if_neg h₂, if_neg h₃, pure_bind] at h
    obtain ⟨nc₁, hins, h₄⟩ := bind_eq_ok.mp h
    simp only [pure, Except.pure, Except.ok.injEq, Prod.mk.injEq] at h₄
    obtain ⟨rfl, rfl, rfl⟩ := h₄
    exact Or.inr ⟨heq.ge, rfl, S, (VecMap.insert_eq_ok (liftVecMap_eq_ok.mp hins)).2, heq,
      List.Perm.refl _⟩
  · -- the node gives up its last shards
    have h₁ : ¬ S.length = a := by omega
    have h₃ : ¬ S.length < a := by omega
    simp only [if_neg h₁, if_pos hgt, if_neg h₃, pure_bind] at h
    cases hp : popPushN (S.length - a) S tm with
    | none => simp [hp, throw, throwThe, MonadExceptOf.throw, bind, Except.bind] at h
    | some r =>
      obtain ⟨kept, moved⟩ := r
      simp only [hp] at h
      obtain ⟨nc₁, hins, h₄⟩ := bind_eq_ok.mp h
      simp only [pure, Except.pure, Except.ok.injEq, Prod.mk.injEq] at h₄
      obtain ⟨rfl, rfl, rfl⟩ := h₄
      have hlen := (popPushN_length hp).1
      exact Or.inr ⟨hgt.le, rfl, kept, (VecMap.insert_eq_ok (liftVecMap_eq_ok.mp hins)).2,
        by omega, popPushN_perm hp⟩

theorem fillStep_eq_ok {cmt : Committee} {acc acc' : VecMap ObjectID (List Nat) × List Nat}
    {k : ObjectID} {v : Nat} (h : fillStep cmt acc (k, v) = .ok acc') :
    (v = 0 ∧ acc' = acc) ∨
      (0 < v ∧ ∃ current, acc'.1.contents = acc.1.contents ++ [(k, current)] ∧
        current.length = ((cmt.inner.get? k).getD []).length +
          diff ((cmt.inner.get? k).getD []).length v ∧
        (acc'.2 ++ current).Perm (acc.2 ++ (cmt.inner.get? k).getD [])) := by
  unfold fillStep at h
  by_cases hv : v = 0
  · simp only [hv, if_true, pure, Except.pure, Except.ok.injEq] at h
    exact Or.inl ⟨hv, h.symm⟩
  · simp only [hv, if_false] at h
    cases hp : popPushN (diff ((cmt.inner.get? k).getD []).length v) acc.2
        ((cmt.inner.get? k).getD []) with
    | none => simp [hp, throw, throwThe, MonadExceptOf.throw] at h
    | some r =>
      obtain ⟨moved, current⟩ := r
      simp only [hp] at h
      obtain ⟨nc, hins, h₁⟩ := bind_eq_ok.mp h
      simp only [pure, Except.pure, Except.ok.injEq] at h₁
      subst h₁
      have hlen := (popPushN_length hp).2
      exact Or.inr ⟨Nat.pos_of_ne_zero hv, current,
        (VecMap.insert_eq_ok (liftVecMap_eq_ok.mp hins)).2, hlen, popPushN_perm hp⟩

/-! ## Where the shards are during `transition` -/

/-- The shards of the current committee that an entry of `new_assignments` holds while the
first loop runs: none while the loop has not visited its node (its key is `pending`), and
afterwards those its node has in the current committee, which the second loop keeps. -/
def heldShards (cmt : Committee) (pending : List ObjectID) (e : ObjectID × Nat) : List Nat :=
  if e.1 ∈ pending then [] else (cmt.inner.get? e.1).getD []

/-- The shards the entries `l` hold, together. -/
def heldBag (cmt : Committee) (pending : List ObjectID) (l : List (ObjectID × Nat)) :
    Multiset Nat :=
  (l.map fun e => (heldShards cmt pending e : Multiset Nat)).sum

@[simp] theorem heldShards_cons_self (cmt : Committee) (pending : List ObjectID)
    (k : ObjectID) (a : Nat) : heldShards cmt (k :: pending) (k, a) = [] := by
  simp [heldShards]

theorem heldShards_cons_of_ne (cmt : Committee) (pending : List ObjectID) {k : ObjectID}
    {e : ObjectID × Nat} (h : e.1 ≠ k) :
    heldShards cmt (k :: pending) e = heldShards cmt pending e := by
  simp [heldShards, h]

theorem heldShards_of_get? {cmt : Committee} {pending : List ObjectID} {k : ObjectID}
    {S : List Nat} (hget : cmt.inner.get? k = some S) (hk : k ∉ pending) (a : Nat) :
    heldShards cmt pending (k, a) = S := by
  simp [heldShards, hk, hget]

@[simp] theorem heldBag_nil (cmt : Committee) (pending : List ObjectID) :
    heldBag cmt pending [] = 0 := by
  simp [heldBag]

@[simp] theorem heldBag_append (cmt : Committee) (pending : List ObjectID)
    (l l' : List (ObjectID × Nat)) :
    heldBag cmt pending (l ++ l') = heldBag cmt pending l + heldBag cmt pending l' := by
  simp only [heldBag, List.map_append, List.sum_append]

@[simp] theorem heldBag_cons (cmt : Committee) (pending : List ObjectID) (e : ObjectID × Nat)
    (l : List (ObjectID × Nat)) :
    heldBag cmt pending (e :: l) = (heldShards cmt pending e : Multiset Nat) +
      heldBag cmt pending l := by
  simp [heldBag]

theorem heldBag_perm (cmt : Committee) (pending : List ObjectID)
    {l l' : List (ObjectID × Nat)} (h : l.Perm l') :
    heldBag cmt pending l = heldBag cmt pending l' :=
  (h.map fun e => (heldShards cmt pending e : Multiset Nat)).sum_eq

/-- Once the member `k` is visited, the other entries hold what they held. -/
theorem heldBag_visit (cmt : Committee) (pending : List ObjectID) {k : ObjectID}
    {l : List (ObjectID × Nat)} (h : ∀ e ∈ l, e.1 ≠ k) :
    heldBag cmt (k :: pending) l = heldBag cmt pending l := by
  unfold heldBag
  congr 1
  exact List.map_congr_left fun e he => by rw [heldShards_cons_of_ne cmt pending (h e he)]

/-- The positive entries, as a multiset. -/
def positive (l : List (ObjectID × Nat)) : Multiset (ObjectID × Nat) :=
  (l.filter fun e => 0 < e.2 : List (ObjectID × Nat))

theorem shardsOf_of_contents {m m' : VecMap ObjectID (List Nat)} {k : ObjectID}
    {v : List Nat} (h : m'.contents = m.contents ++ [(k, v)]) :
    shardsOf m' = shardsOf m ++ v := by
  simp [shardsOf, h]

theorem counts_of_contents {m m' : VecMap ObjectID (List Nat)} {k : ObjectID}
    {v : List Nat} (h : m'.contents = m.contents ++ [(k, v)]) :
    counts m' = counts m ++ [(k, v.length)] := by
  simp [counts, h]

/-- What the first loop of `transition` keeps, with `done` the members of the current
committee it has visited and `rest` those to come. The visited members' shards are in the new
committee, in `to_move` or held by a waiting node; the new committee's counts and the
positive waiting ones are the positive new assignments; `current_num_of_shards` counts the
visited members' shards; and a waiting node holds fewer shards than it is assigned. -/
structure FirstLoopInv (cmt : Committee) (newAssignments : VecMap ObjectID Nat)
    (done rest : List (ObjectID × List Nat)) (s : TransitionState) : Prop where
  shards : (((done.map Prod.snd).flatten : List Nat) : Multiset Nat) =
    (shardsOf s.newCmt : Multiset Nat) + (s.toMove : Multiset Nat) +
      heldBag cmt (rest.map Prod.fst) s.newAssignments.contents
  counts : (counts s.newCmt : Multiset (ObjectID × Nat)) + positive s.newAssignments.contents =
    positive newAssignments.contents
  current : s.currentNumOfShards = ((done.map Prod.snd).flatten).length
  held : ∀ e ∈ s.newAssignments.contents, heldShards cmt (rest.map Prod.fst) e = [] ∨
    (heldShards cmt (rest.map Prod.fst) e).length < e.2

end Committee

end Walrus.Staking
