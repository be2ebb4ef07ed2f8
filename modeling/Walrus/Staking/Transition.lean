import Mathlib
import Walrus.Staking.Committee
import Walrus.Machine.Bcs

/-! # Committee transitions

`transition` moves a committee to new numbers of shards per node. For a committee whose shards
are `0, ..., n - 1` once each and new numbers that add up to `n`, it does not abort, and the new
committee is sorted by node ID, has exactly the nodes with a positive number, each with its
number of shards, holds every shard once, and leaves each node the first of its shards, up to
its new number (`transition_spec`). `n` must fit in a `u16`: the new numbers are added up in
one.

The first loop visits the members in order (`FirstLoopInv` of `Committee`, and
`FirstLoopFrame` below for the keys); the second hands out `to_move` to the nodes waiting in
`new_assignments` (`SecondLoopInv`). The count check between them makes the shards in
`to_move` exactly the ones the waiting nodes lack, so no pop finds it empty.

`initialize` numbers the shards of the first committee in node-ID order
(`initializeCommittee_spec`), and `diff` of two committees sorted by node ID returns the
members of each that are not in the other, in order (`diff_eq_filter`).
-/

namespace Walrus.Staking.Committee

open Machine Walrus.System

/-! ## One round of the first loop -/

/-- `get_idx_opt` finds an entry in range, so taking the assignment never aborts. -/
theorem takeAssignment_isOk (na : VecMap ObjectID Nat) (k : ObjectID) :
    ∃ na' a, takeAssignment na k = .ok (na', a) := by
  unfold takeAssignment
  split
  · rename_i idx hidx
    obtain ⟨hi, -, -⟩ := List.findIdx?_eq_some_iff_getElem.mp hidx
    have hrem : na.removeEntryByIdx idx = .ok (na.contents[idx], ⟨na.contents.eraseIdx idx,
        na.keys_nodup.sublist ((List.eraseIdx_sublist _ _).map _)⟩) := by
      unfold VecMap.removeEntryByIdx
      rw [dif_pos hi]
    simp only [hrem, liftVecMap, Except.mapError]
    exact ⟨_, _, rfl⟩
  · exact ⟨_, _, rfl⟩

/-- A node placed with a new number of shards: one that grows waits with its number at the
back of `new_assignments`; one that keeps its number or shrinks enters the new committee with
its first shards, the others going to the back of `to_move`, last shard first. -/
theorem placeNode_spec {na : VecMap ObjectID Nat} {nc : VecMap ObjectID (List Nat)}
    {tm : List Nat} {k : ObjectID} {S : List Nat} {a : Nat}
    (hnc : nc.contains k = false) (hna : na.contains k = false) :
    (S.length < a → ∃ na', placeNode na nc tm k S a = .ok (na', nc, tm) ∧
      na'.contents = na.contents ++ [(k, a)]) ∧
    (a ≤ S.length → ∃ nc', placeNode na nc tm k S a = .ok (na, nc', tm ++ (S.drop a).reverse) ∧
      nc'.contents = nc.contents ++ [(k, S.take a)]) := by
  constructor
  · intro hlt
    obtain ⟨na', hins⟩ := VecMap.insert_isOk a hna
    refine ⟨na', ?_, (VecMap.insert_eq_ok hins).2⟩
    unfold placeNode
    simp only [if_neg (by omega : ¬S.length = a), if_neg (by omega : ¬S.length > a),
      if_pos hlt, pure_bind, liftVecMap, hins, Except.mapError]
    rfl
  · intro hle
    rcases Nat.lt_or_eq_of_le hle with hlt | heq
    · -- the node gives up its last shards
      obtain ⟨nc', hins⟩ := VecMap.insert_isOk (S.take a) hnc
      refine ⟨nc', ?_, (VecMap.insert_eq_ok hins).2⟩
      have hpop := @popPushN_of_le _ (S.length - a) S tm (Nat.sub_le _ _)
      rw [show S.length - (S.length - a) = a by omega] at hpop
      unfold placeNode
      simp only [if_neg (by omega : ¬S.length = a), if_pos hlt,
        if_neg (by omega : ¬S.length < a), pure_bind, hpop, liftVecMap, hins, Except.mapError]
      rfl
    · -- the node keeps its shards
      obtain ⟨nc', hins⟩ := VecMap.insert_isOk S hnc
      have htake : S.take a = S := List.take_of_length_le (by omega)
      have hdrop : S.drop a = [] := List.drop_of_length_le (by omega)
      refine ⟨nc', ?_, by rw [htake]; exact (VecMap.insert_eq_ok hins).2⟩
      unfold placeNode
      simp only [if_pos heq.symm, if_neg (by omega : ¬S.length > a),
        if_neg (by omega : ¬S.length < a), liftVecMap, hins, Except.mapError, hdrop,
        List.reverse_nil, List.append_nil]
      rfl

/-- Taking the assignment of a member out of `new_assignments`: the entries hold what they
held, now that the member is visited. -/
theorem heldBag_takeAssignment {cmt : Committee} {pending : List ObjectID}
    {na na' : VecMap ObjectID Nat} {k : ObjectID} {a : Option Nat}
    (h : takeAssignment na k = .ok (na', a)) :
    heldBag cmt (k :: pending) na.contents = heldBag cmt pending na'.contents := by
  obtain ⟨hne, hperm⟩ := takeAssignment_eq_ok h
  rw [heldBag_perm cmt _ hperm, heldBag_append, heldBag_visit cmt pending hne]
  -- the entry taken out held nothing: its member was not visited yet
  rcases a with _ | a
  · simp
  · simp

theorem positive_takeAssignment {na na' : VecMap ObjectID Nat} {k : ObjectID} {a : Option Nat}
    (h : takeAssignment na k = .ok (na', a)) :
    positive na.contents = positive (a.toList.map (k, ·)) + positive na'.contents := by
  obtain ⟨-, hperm⟩ := takeAssignment_eq_ok h
  unfold positive
  rw [Multiset.coe_eq_coe.mpr (hperm.filter _), List.filter_append, ← Multiset.coe_add]

/-! ## The first loop -/

/-- What the first loop keeps of the keys, besides `FirstLoopInv`: the new committee has only
visited members, none of them waiting, each with the first of its shards up to its new
number; and a waiting entry carries the node's new number. -/
structure FirstLoopFrame (cmt : Committee) (newAssignments : VecMap ObjectID Nat)
    (done : List (ObjectID × List Nat)) (s : TransitionState) : Prop where
  visited : ∀ e ∈ s.newCmt.contents, e.1 ∈ done.map Prod.fst
  fresh : ∀ e ∈ s.newCmt.contents, ∀ e' ∈ s.newAssignments.contents, e.1 ≠ e'.1
  kept : ∀ e ∈ s.newCmt.contents,
    e.2 = ((cmt.inner.get? e.1).getD []).take ((newAssignments.get? e.1).getD 0)
  waiting : ∀ e ∈ s.newAssignments.contents, newAssignments.get? e.1 = some e.2

theorem flatten_snd_concat (done : List (ObjectID × List Nat)) (k : ObjectID) (S : List Nat) :
    ((done ++ [(k, S)]).map Prod.snd).flatten = (done.map Prod.snd).flatten ++ S := by
  simp

theorem heldBag_singleton (cmt : Committee) (pending : List ObjectID) (e : ObjectID × Nat) :
    heldBag cmt pending [e] = (heldShards cmt pending e : Multiset Nat) := by
  simp

theorem positive_append (l l' : List (ObjectID × Nat)) :
    positive (l ++ l') = positive l + positive l' := by
  unfold positive
  rw [List.filter_append, ← Multiset.coe_add]

theorem positive_singleton {e : ObjectID × Nat} (h : 0 < e.2) : positive [e] = {e} := by
  simp [positive, h]

theorem positive_singleton_zero {e : ObjectID × Nat} (h : e.2 = 0) : positive [e] = 0 := by
  simp [positive, h]

/-- The entries left after taking out a member's assignment hold what they held before. -/
theorem held_takeAssignment {cmt : Committee} {pending : List ObjectID}
    {na na' : VecMap ObjectID Nat} {k : ObjectID} {a : Option Nat}
    (h : takeAssignment na k = .ok (na', a))
    (hheld : ∀ e ∈ na.contents, heldShards cmt (k :: pending) e = [] ∨
      (heldShards cmt (k :: pending) e).length < e.2) :
    ∀ e ∈ na'.contents, heldShards cmt pending e = [] ∨
      (heldShards cmt pending e).length < e.2 := by
  obtain ⟨hne, hperm⟩ := takeAssignment_eq_ok h
  intro e he
  rw [← heldShards_cons_of_ne cmt pending (hne e he)]
  exact hheld e (hperm.symm.subset (List.mem_append_right _ he))

/-- One round of the first loop, over the member `(k, S)`: it does not abort, and both
invariants move past the member. -/
theorem transitionStep_spec {cmt : Committee} {d : VecMap ObjectID Nat}
    {done rest : List (ObjectID × List Nat)} {k : ObjectID} {S : List Nat} {s : TransitionState}
    (hmembers : done ++ (k, S) :: rest = cmt.inner.contents)
    (inv : FirstLoopInv cmt d done ((k, S) :: rest) s) (frame : FirstLoopFrame cmt d done s)
    (hcount : s.currentNumOfShards + S.length ≤ u64Max) :
    ∃ s', transitionStep s (k, S) = .ok s' ∧ FirstLoopInv cmt d (done ++ [(k, S)]) rest s' ∧
      FirstLoopFrame cmt d (done ++ [(k, S)]) s' := by
  -- the member's key is none of the others
  have hkeys := cmt.inner.keys_nodup
  rw [← hmembers, List.map_append, List.map_cons, List.nodup_append, List.nodup_cons] at hkeys
  have hk_done : k ∉ done.map Prod.fst := fun h => hkeys.2.2 k h k List.mem_cons_self rfl
  have hk_rest : k ∉ rest.map Prod.fst := hkeys.2.1.1
  have hget : cmt.inner.get? k = some S :=
    VecMap.get?_of_mem (by rw [← hmembers]; simp)
  have hnc : s.newCmt.contains k = false := by
    rcases hc : s.newCmt.contains k
    · rfl
    · obtain ⟨e, he, hek⟩ := List.mem_map.mp (VecMap.contains_iff_mem.mp hc)
      exact absurd (hek ▸ frame.visited e he) hk_done
  have hadd : u64Add s.currentNumOfShards S.length = .ok (s.currentNumOfShards + S.length) :=
    u64Add_eq_ok.mpr ⟨hcount, rfl⟩
  obtain ⟨na₁, a, htake⟩ := takeAssignment_isOk s.newAssignments k
  obtain ⟨hna₁, hperm⟩ := takeAssignment_eq_ok htake
  have hna₁' : na₁.contains k = false := by
    rcases hc : na₁.contains k
    · rfl
    · obtain ⟨e, he, hek⟩ := List.mem_map.mp (VecMap.contains_iff_mem.mp hc)
      exact absurd hek (hna₁ e he)
  have hbag : heldBag cmt (((k, S) :: rest).map Prod.fst) s.newAssignments.contents =
      heldBag cmt (rest.map Prod.fst) na₁.contents := heldBag_takeAssignment htake
  have hpos := positive_takeAssignment htake
  have hheld := held_takeAssignment htake inv.held
  have hsub : ∀ e ∈ na₁.contents, e ∈ s.newAssignments.contents :=
    fun e he => hperm.symm.subset (List.mem_append_right _ he)
  have hvisited : ∀ e ∈ s.newCmt.contents, e.1 ∈ (done ++ [(k, S)]).map Prod.fst :=
    fun e he => by rw [List.map_append]; exact List.mem_append_left _ (frame.visited e he)
  have hcur : s.currentNumOfShards + S.length =
      (((done ++ [(k, S)]).map Prod.snd).flatten).length := by
    rw [flatten_snd_concat, List.length_append, inv.current]
  rcases a with _ | _ | a
  case none | some.zero =>
    -- the member leaves the committee: all its shards go to `to_move`
    have hpos' : positive s.newAssignments.contents = positive na₁.contents := by
      rw [hpos]
      simp [positive]
    refine ⟨⟨na₁, s.newCmt, s.toMove ++ S, s.currentNumOfShards + S.length⟩, ?_, ?_, ?_⟩
    · simp only [transitionStep, hadd, htake, ok_bind]
      rfl
    · refine ⟨?_, by rw [← inv.counts, hpos'], hcur, hheld⟩
      dsimp only
      rw [flatten_snd_concat, ← Multiset.coe_add, inv.shards, hbag, ← Multiset.coe_add]
      abel
    · exact ⟨hvisited, fun e he e' he' => frame.fresh e he e' (hsub e' he'), frame.kept,
        fun e he => frame.waiting e (hsub e he)⟩
  case some.succ =>
    have hwait : d.get? k = some (a + 1) :=
      frame.waiting (k, a + 1) (hperm.symm.subset (by simp))
    obtain ⟨hgrow, hplace⟩ := @placeNode_spec _ _ s.toMove _ S (a + 1) hnc hna₁'
    rcases Nat.lt_or_ge S.length (a + 1) with hlt | hge
    · -- the member grows: it waits at the back of `new_assignments`, holding its shards
      obtain ⟨na', hplace', hna'⟩ := hgrow hlt
      refine ⟨⟨na', s.newCmt, s.toMove, s.currentNumOfShards + S.length⟩, ?_, ?_, ?_⟩
      · simp only [transitionStep, hadd, htake, ok_bind, hplace']
        rfl
      · have hheldk : heldShards cmt (rest.map Prod.fst) (k, a + 1) = S :=
          heldShards_of_get? hget hk_rest _
        refine ⟨?_, ?_, hcur, ?_⟩
        · dsimp only
          rw [flatten_snd_concat, ← Multiset.coe_add, inv.shards, hbag, hna', heldBag_append,
            heldBag_singleton, hheldk]
          abel
        · dsimp only
          rw [← inv.counts, hpos, hna', positive_append, Option.toList_some, List.map_singleton,
            positive_singleton (Nat.succ_pos a)]
          abel
        · intro e he
          rw [hna'] at he
          rcases List.mem_append.mp he with he | he
          · exact hheld e he
          · rw [List.mem_singleton.mp he, hheldk]
            exact .inr hlt
      · refine ⟨hvisited, fun e he e' he' => ?_, frame.kept, fun e he => ?_⟩
        · rw [hna'] at he'
          rcases List.mem_append.mp he' with he' | he'
          · exact frame.fresh e he e' (hsub e' he')
          · rw [List.mem_singleton.mp he']
            exact fun hek => hk_done (by rw [← show e.1 = k from hek]; exact frame.visited e he)
        · rw [hna'] at he
          rcases List.mem_append.mp he with he | he
          · exact frame.waiting e (hsub e he)
          · rw [List.mem_singleton.mp he]
            exact hwait
    · -- the member keeps its first shards, the others go to `to_move`
      obtain ⟨nc', hplace', hnc'⟩ := hplace hge
      refine ⟨⟨na₁, nc', s.toMove ++ (S.drop (a + 1)).reverse,
        s.currentNumOfShards + S.length⟩, ?_, ?_, ?_⟩
      · simp only [transitionStep, hadd, htake, ok_bind, hplace']
        rfl
      · refine ⟨?_, ?_, hcur, hheld⟩
        · have hS : ((S : Multiset Nat)) = (S.take (a + 1) : Multiset Nat) +
              ((S.drop (a + 1)).reverse : Multiset Nat) := by
            rw [Multiset.coe_reverse, Multiset.coe_add, List.take_append_drop]
          dsimp only
          rw [flatten_snd_concat, ← Multiset.coe_add, inv.shards, hbag,
            shardsOf_of_contents hnc', ← Multiset.coe_add, ← Multiset.coe_add, hS]
          abel
        · dsimp only
          rw [← inv.counts, hpos, counts_of_contents hnc', List.length_take,
            Nat.min_eq_left hge, ← Multiset.coe_add, Option.toList_some, List.map_singleton,
            positive_singleton (Nat.succ_pos a), Multiset.coe_singleton]
          abel
      · refine ⟨fun e he => ?_, fun e he e' he' => ?_, fun e he => ?_,
          fun e he => frame.waiting e (hsub e he)⟩
        · rw [hnc'] at he
          rcases List.mem_append.mp he with he | he
          · exact hvisited e he
          · rw [List.mem_singleton.mp he]
            simp
        · rw [hnc'] at he
          rcases List.mem_append.mp he with he | he
          · exact frame.fresh e he e' (hsub e' he')
          · rw [List.mem_singleton.mp he]
            exact fun hek => hna₁ e' he' hek.symm
        · rw [hnc'] at he
          rcases List.mem_append.mp he with he | he
          · exact frame.kept e he
          · rw [List.mem_singleton.mp he, hget, hwait]
            rfl

/-! ## The second loop -/

/-- What the second loop keeps, with `rest` the entries of `new_assignments` still to come:
the shards of the new committee, of `to_move` and of the entries to come are all the shards;
the counts of the new committee and the positive entries to come are the positive new
numbers; `to_move` holds as many shards as the entries to come lack; no member of the new
committee is still to come; and each member keeps the first of its shards. -/
structure SecondLoopInv (cmt : Committee) (newAssignments : VecMap ObjectID Nat)
    (all : Multiset Nat) (rest : List (ObjectID × Nat))
    (acc : VecMap ObjectID (List Nat) × List Nat) : Prop where
  shards : (shardsOf acc.1 : Multiset Nat) + (acc.2 : Multiset Nat) + heldBag cmt [] rest = all
  counts : (counts acc.1 : Multiset (ObjectID × Nat)) + positive rest =
    positive newAssignments.contents
  room : acc.2.length + (rest.map fun e => (heldShards cmt [] e).length).sum =
    (rest.map Prod.snd).sum
  fresh : ∀ e ∈ acc.1.contents, ∀ e' ∈ rest, e.1 ≠ e'.1
  kept : ∀ e ∈ acc.1.contents,
    ((cmt.inner.get? e.1).getD []).take ((newAssignments.get? e.1).getD 0) <+: e.2

/-- One round of the second loop, over the waiting entry `(k, v)`: it does not abort, and the
invariant moves past the entry. -/
theorem fillStep_spec {cmt : Committee} {d : VecMap ObjectID Nat} {all : Multiset Nat}
    {k : ObjectID} {v : Nat} {rest : List (ObjectID × Nat)}
    {acc : VecMap ObjectID (List Nat) × List Nat}
    (inv : SecondLoopInv cmt d all ((k, v) :: rest) acc) (hkey : k ∉ rest.map Prod.fst)
    (hheld : ∀ e ∈ (k, v) :: rest,
      heldShards cmt [] e = [] ∨ (heldShards cmt [] e).length < e.2)
    (hwait : d.get? k = some v) :
    ∃ acc', fillStep cmt acc (k, v) = .ok acc' ∧ SecondLoopInv cmt d all rest acc' := by
  have hheldk : heldShards cmt [] (k, v) = (cmt.inner.get? k).getD [] := by
    simp [heldShards]
  -- no entry to come lacks more than its number
  have hle : ∀ e ∈ (k, v) :: rest, (heldShards cmt [] e).length ≤ e.2 := by
    intro e he
    rcases hheld e he with h | h
    · rw [h, List.length_nil]
      exact Nat.zero_le _
    · exact h.le
  have hrest : (rest.map fun e => (heldShards cmt [] e).length).sum ≤ (rest.map Prod.snd).sum :=
    List.sum_le_sum fun e he => hle e (List.mem_cons_of_mem _ he)
  have hroom := inv.room
  simp only [List.map_cons, List.sum_cons, hheldk] at hroom
  have hcur := hle (k, v) List.mem_cons_self
  rw [hheldk] at hcur
  have hfresh : ∀ e ∈ acc.1.contents, ∀ e' ∈ rest, e.1 ≠ e'.1 :=
    fun e he e' he' => inv.fresh e he e' (List.mem_cons_of_mem _ he')
  by_cases hv : v = 0
  · -- nothing to hand out: the entry holds nothing either
    have hnil : (cmt.inner.get? k).getD [] = [] := List.eq_nil_of_length_eq_zero (by omega)
    refine ⟨acc, by simp [fillStep, hv, pure, Except.pure], ?_, ?_, ?_, hfresh, inv.kept⟩
    · have h := inv.shards
      rwa [heldBag_cons, hheldk, hnil, Multiset.coe_nil, zero_add] at h
    · have h := inv.counts
      rwa [← List.singleton_append, positive_append, positive_singleton_zero hv, zero_add] at h
    · rw [hnil, List.length_nil, hv] at hroom
      omega
  · -- the entry takes what it lacks from the back of `to_move`
    set cur := (cmt.inner.get? k).getD [] with hcur_def
    set m := v - cur.length with hm_def
    have hm : m ≤ acc.2.length := by omega
    have hdiff : diff cur.length v = m := by
      unfold diff
      split <;> omega
    have hpop := @popPushN_of_le _ m acc.2 cur hm
    have hcontains : acc.1.contains k = false := by
      rcases hc : acc.1.contains k
      · rfl
      · obtain ⟨e, he, hek⟩ := List.mem_map.mp (VecMap.contains_iff_mem.mp hc)
        exact absurd hek (inv.fresh e he (k, v) List.mem_cons_self)
    set moved := acc.2.drop (acc.2.length - m) with hmoved
    obtain ⟨nc, hins⟩ := VecMap.insert_isOk (cur ++ moved.reverse) hcontains
    have hnc := (VecMap.insert_eq_ok hins).2
    refine ⟨(nc, acc.2.take (acc.2.length - m)), ?_, ?_, ?_, ?_, ?_, ?_⟩
    · simp only [fillStep, hv, if_false, ← hcur_def, hdiff, hpop, liftVecMap, hins,
        Except.mapError]
      rfl
    · -- the shards moved from `to_move` to the entry
      have hsplit : (acc.2 : Multiset Nat) = (acc.2.take (acc.2.length - m) : Multiset Nat) +
          (moved : Multiset Nat) := by
        rw [hmoved, Multiset.coe_add, List.take_append_drop]
      have h := inv.shards
      rw [heldBag_cons, hheldk, hsplit] at h
      dsimp only
      rw [← h, shardsOf_of_contents hnc, ← Multiset.coe_add, ← Multiset.coe_add,
        Multiset.coe_reverse]
      abel
    · have hlen : (cur ++ moved.reverse).length = v := by
        rw [List.length_append, List.length_reverse, hmoved, List.length_drop]
        omega
      have h := inv.counts
      rw [← List.singleton_append, positive_append, positive_singleton (Nat.pos_of_ne_zero hv)]
        at h
      rw [← h, counts_of_contents hnc, hlen, ← Multiset.coe_add, Multiset.coe_singleton]
      abel
    · dsimp only
      rw [List.length_take]
      omega
    · intro e he e' he'
      rw [hnc] at he
      rcases List.mem_append.mp he with he | he
      · exact hfresh e he e' he'
      · rw [List.mem_singleton.mp he]
        intro hek
        apply hkey
        rw [show k = e'.1 from hek]
        exact List.mem_map_of_mem he'
    · intro e he
      rw [hnc] at he
      rcases List.mem_append.mp he with he | he
      · exact inv.kept e he
      · rw [List.mem_singleton.mp he]
        dsimp only
        rw [hwait, ← hcur_def, Option.getD_some, List.take_of_length_le hcur]
        exact List.prefix_append _ _

/-! ## Both loops, and `transition` -/

theorem card_heldBag (cmt : Committee) (pending : List ObjectID) (l : List (ObjectID × Nat)) :
    Multiset.card (heldBag cmt pending l) =
      (l.map fun e => (heldShards cmt pending e).length).sum := by
  induction l with
  | nil => simp
  | cons e l ih => simp [ih]

/-- Leaving out the entries with nothing does not change the total. -/
theorem sum_snd_positive (l : List (ObjectID × Nat)) :
    ((positive l).map Prod.snd).sum = (l.map Prod.snd).sum := by
  induction l with
  | nil => simp [positive]
  | cons e l ih =>
    rw [← List.singleton_append, positive_append, Multiset.map_add, Multiset.sum_add, ih]
    rcases Nat.eq_zero_or_pos e.2 with h | h
    · simp [positive_singleton_zero h, h]
    · simp [positive_singleton h]

theorem sum_snd_counts (m : VecMap ObjectID (List Nat)) :
    ((counts m).map Prod.snd).sum = (shardsOf m).length := by
  simp [counts, shardsOf, List.length_flatten, Function.comp_def]

/-- Before the first loop nothing is visited: a node of `new_assignments` holds no shard,
whether it is a member still to come or not a member at all. -/
theorem firstLoop_start (cmt : Committee) (d : VecMap ObjectID Nat) :
    FirstLoopInv cmt d [] cmt.inner.contents ⟨d, VecMap.empty, [], 0⟩ ∧
      FirstLoopFrame cmt d [] ⟨d, VecMap.empty, [], 0⟩ := by
  have hheld : ∀ e, heldShards cmt (cmt.inner.contents.map Prod.fst) e = [] := by
    intro e
    unfold heldShards
    split
    · rfl
    · rename_i hk
      have hnone : cmt.inner.get? e.1 = none :=
        VecMap.get?_eq_none_iff.mpr (Bool.eq_false_iff.mpr fun h => hk (VecMap.contains_iff_mem.mp h))
      rw [hnone, Option.getD_none]
  have hbag : heldBag cmt (cmt.inner.contents.map Prod.fst) d.contents = 0 := by
    simp [heldBag, hheld]
  refine ⟨⟨?_, ?_, rfl, fun e _ => .inl (hheld e)⟩, ⟨?_, ?_, ?_, ?_⟩⟩
  · simp [hbag, shardsOf, VecMap.empty]
  · simp [counts, VecMap.empty]
  · simp [VecMap.empty]
  · simp [VecMap.empty]
  · simp [VecMap.empty]
  · intro e he
    exact VecMap.get?_of_mem he

/-- The whole first loop: it visits every member without an abort when all the shards fit in a
`u64`, and ends with both invariants over all members. -/
theorem firstLoop_spec (cmt : Committee) (d : VecMap ObjectID Nat)
    (hfit : (shardsOf cmt.inner).length ≤ u64Max) :
    ∃ s, cmt.inner.contents.foldlM transitionStep ⟨d, VecMap.empty, [], 0⟩ = .ok s ∧
      FirstLoopInv cmt d cmt.inner.contents [] s ∧ FirstLoopFrame cmt d cmt.inner.contents s := by
  refine @foldlM_exists_ok_split _ _ _ transitionStep
    (fun done rest s => FirstLoopInv cmt d done rest s ∧ FirstLoopFrame cmt d done s) _ ?_ _
    (firstLoop_start cmt d)
  rintro done ⟨k, S⟩ rest s hmembers ⟨inv, frame⟩
  -- the visited shards and the member's own are among all the shards
  have hcount : s.currentNumOfShards + S.length ≤ u64Max := by
    have hlen : ((done.map Prod.snd).flatten).length + S.length ≤ (shardsOf cmt.inner).length := by
      rw [shardsOf, ← hmembers]
      simp only [List.map_append, List.map_cons, List.flatten_append, List.flatten_cons,
        List.length_append]
      omega
    rw [inv.current]
    omega
  exact transitionStep_spec hmembers inv frame hcount

/-- The count check makes the end of the first loop a start of the second: `to_move` holds
as many shards as the waiting nodes lack. -/
theorem secondLoop_start {cmt : Committee} {d : VecMap ObjectID Nat} {s : TransitionState}
    (inv : FirstLoopInv cmt d cmt.inner.contents [] s)
    (frame : FirstLoopFrame cmt d cmt.inner.contents s)
    (hcheck : (d.contents.map Prod.snd).sum = s.currentNumOfShards) :
    SecondLoopInv cmt d (shardsOf cmt.inner) s.newAssignments.contents (s.newCmt, s.toMove) where
  shards := inv.shards.symm
  counts := inv.counts
  room := by
    -- the lengths of the shards, and the sums of the counts
    have hcard := congrArg Multiset.card inv.shards
    have hsum := congrArg (fun x => (x.map Prod.snd).sum) inv.counts
    simp only [List.map_nil, Multiset.coe_card, Multiset.card_add, card_heldBag] at hcard
    simp only [Multiset.map_add, Multiset.sum_add, Multiset.map_coe, Multiset.sum_coe,
      sum_snd_counts, sum_snd_positive] at hsum
    have hcur := inv.current
    dsimp only
    omega
  fresh := frame.fresh
  kept e he := by
    rw [← frame.kept e he]

/-- The whole second loop: every waiting node gets the shards it lacks without an abort, and
`to_move` ends empty. -/
theorem secondLoop_spec {cmt : Committee} {d : VecMap ObjectID Nat} {all : Multiset Nat}
    {na : VecMap ObjectID Nat} {acc : VecMap ObjectID (List Nat) × List Nat}
    (inv : SecondLoopInv cmt d all na.contents acc)
    (hheld : ∀ e ∈ na.contents,
      heldShards cmt [] e = [] ∨ (heldShards cmt [] e).length < e.2)
    (hwait : ∀ e ∈ na.contents, d.get? e.1 = some e.2) :
    ∃ acc', na.contents.foldlM (fillStep cmt) acc = .ok acc' ∧
      SecondLoopInv cmt d all [] acc' := by
  refine @foldlM_exists_ok_split _ _ _ (fillStep cmt)
    (fun _ rest acc => SecondLoopInv cmt d all rest acc) _ ?_ _ inv
  rintro done ⟨k, v⟩ rest acc hna inv
  have hsub : ∀ e ∈ (k, v) :: rest, e ∈ na.contents := by
    intro e he
    rw [← hna]
    exact List.mem_append_right _ he
  -- the keys of `new_assignments` are distinct
  have hkey : k ∉ rest.map Prod.fst := by
    have hnd := na.keys_nodup
    rw [← hna, List.map_append, List.map_cons] at hnd
    exact (List.nodup_cons.mp (List.nodup_append.mp hnd).2.1).1
  exact fillStep_spec inv hkey (fun e he => hheld e (hsub e he))
    (hwait _ (hsub _ List.mem_cons_self))

/-- `transition` of a committee whose shards are `0, ..., n - 1` once each, to new numbers
that add up to `n`: it does not abort, and the new committee is sorted by node ID, has
exactly the nodes with a positive number, each with its number of shards, holds each shard
once, and leaves every node the first of its shards up to its new number. -/
theorem transition_spec {cmt : Committee} {d : VecMap ObjectID Nat} {n : Nat}
    (hpart : (shardsOf cmt.inner).Perm (List.range n))
    (hsum : (d.contents.map Prod.snd).sum = n) (hfit : n ≤ u16Max) :
    ∃ cmt', cmt.transition d = .ok cmt' ∧
      SortedBy (fun e : ObjectID × List Nat => e.1.toU256) cmt'.inner.contents ∧
      (counts cmt'.inner).Perm (d.contents.filter fun e => 0 < e.2) ∧
      (shardsOf cmt'.inner).Perm (List.range n) ∧
      ∀ e ∈ cmt'.inner.contents,
        ((cmt.inner.get? e.1).getD []).take ((d.get? e.1).getD 0) <+: e.2 := by
  have hlen : (shardsOf cmt.inner).length = n := by
    rw [hpart.length_eq, List.length_range]
  -- the new numbers add up in a `u16`
  have hnum : (d.contents.map Prod.snd).foldlM u16Add 0 = .ok n := by
    rw [foldlM_u16Add_of_le _ (by omega), zero_add, hsum]
  have hfit64 : (shardsOf cmt.inner).length ≤ u64Max := by
    unfold u16Max at hfit
    unfold u64Max
    omega
  obtain ⟨s, hfirst, inv, frame⟩ := firstLoop_spec cmt d hfit64
  -- the count check passes
  have hcheck : n = s.currentNumOfShards := by
    rw [inv.current, ← hlen]
    rfl
  obtain ⟨acc, hsecond, inv₂⟩ :=
    secondLoop_spec (secondLoop_start inv frame (hsum.trans hcheck)) inv.held frame.waiting
  -- `to_move` ends empty: each of its shards went to a waiting node
  have htm : acc.2 = [] := by
    have h := inv₂.room
    simp only [List.map_nil, List.sum_nil, add_zero] at h
    exact List.eq_nil_of_length_eq_zero h
  have hshards : (shardsOf acc.1).Perm (shardsOf cmt.inner) := by
    have h := inv₂.shards
    rw [htm, heldBag_nil, Multiset.coe_nil, add_zero, add_zero] at h
    exact Multiset.coe_eq_coe.mp h
  have hcounts : (counts acc.1).Perm (d.contents.filter fun e => 0 < e.2) := by
    have h := inv₂.counts
    simp only [positive, List.filter_nil, Multiset.coe_nil, add_zero] at h
    exact Multiset.coe_eq_coe.mp h
  obtain ⟨hsorted, hperm⟩ := sortVecMapByNodeId_sorted_perm acc.1
  refine ⟨⟨sortVecMapByNodeId acc.1⟩, ?_, hsorted, ?_, ?_, ?_⟩
  · rw [transition, hnum, ok_bind, hfirst, ok_bind, if_pos hcheck]
    simp only [pure, Except.pure, hsecond, ok_bind]
  · exact (hperm.map _).trans hcounts
  · exact (hperm.map Prod.snd).flatten.trans (hshards.trans hpart)
  · intro e he
    exact inv₂.kept e (hperm.subset he)

/-! ## `initialize` -/

/-- The shard counter stays within a `u16` while it numbers `l.length` shards from `idx` on. -/
theorem foldlM_tabulateStep_of_le :
    ∀ (l acc : List Nat) (idx : Nat), idx + l.length ≤ u16Max →
      l.foldlM tabulateStep (acc, idx) = .ok (acc ++ List.range' idx l.length, idx + l.length)
  | [], acc, idx, _ => by simp [pure, Except.pure]
  | x :: l, acc, idx, h => by
    rw [List.length_cons] at h
    have hstep : tabulateStep (acc, idx) x = .ok (acc ++ [idx], idx + 1) := by
      rw [tabulateStep, u16Add, if_pos (by omega)]
      rfl
    rw [List.foldlM_cons, hstep, ok_bind, foldlM_tabulateStep_of_le l _ _ (by omega),
      List.length_cons, List.range'_succ, List.append_assoc, List.singleton_append,
      Nat.add_right_comm, Nat.add_assoc]

/-- The blocks of all nodes are numbered without an abort while the total fits in a `u16`. -/
theorem foldlM_assignStep_isOk :
    ∀ (values : List Nat) (acc : List (List Nat)) (idx : Nat), idx + values.sum ≤ u16Max →
      ∃ r, values.foldlM assignStep (acc, idx) = .ok r
  | [], acc, idx, _ => ⟨_, rfl⟩
  | v :: vs, acc, idx, h => by
    rw [List.sum_cons] at h
    have hblock : tabulateShards v idx = .ok (List.range' idx v, idx + v) := by
      have := foldlM_tabulateStep_of_le (List.range v) [] idx (by rw [List.length_range]; omega)
      rwa [List.length_range, List.nil_append] at this
    have hstep : assignStep (acc, idx) v = .ok (acc ++ [List.range' idx v], idx + v) := by
      rw [assignStep, hblock, ok_bind]
      rfl
    obtain ⟨r, hr⟩ := foldlM_assignStep_isOk vs (acc ++ [List.range' idx v]) (idx + v) (by omega)
    exact ⟨r, by rw [List.foldlM_cons, hstep, ok_bind, hr]⟩

/-- `initialize` of numbers whose total `n` fits in a `u16` does not abort: the nodes are
sorted by node ID, each has its number of shards, and the shards `0, ..., n - 1` are handed
out in order, node after node. -/
theorem initializeCommittee_spec (assignedNumber : VecMap ObjectID Nat)
    (hfit : (assignedNumber.contents.map Prod.snd).sum ≤ u16Max) :
    ∃ cmt, initializeCommittee assignedNumber = .ok cmt ∧
      SortedBy (fun e : ObjectID × List Nat => e.1.toU256) cmt.inner.contents ∧
      shardsOf cmt.inner = List.range (assignedNumber.contents.map Prod.snd).sum ∧
      (counts cmt.inner).Perm assignedNumber.contents := by
  set sorted := sortVecMapByNodeId assignedNumber with hsorted
  have hsum : (sorted.contents.map Prod.snd).sum = (assignedNumber.contents.map Prod.snd).sum :=
    ((sortVecMapByNodeId_sorted_perm assignedNumber).2.map Prod.snd).sum_eq
  obtain ⟨shards, hshards⟩ :=
    foldlM_assignStep_isOk (sorted.contents.map Prod.snd) [] 0 (by omega)
  -- one block per node, so keys and blocks pair up
  have hlen : (sorted.contents.map Prod.fst).length = shards.1.length := by
    obtain ⟨new, hnew, -, hlens⟩ := foldlM_assignStep _ [] 0 hshards
    rw [hnew, List.nil_append, ← List.length_map List.length, hlens, List.length_map,
      List.length_map]
  obtain ⟨inner, hinner⟩ := VecMap.fromKeysValues_isOk sorted.keys_nodup hlen
  have h : initializeCommittee assignedNumber = .ok ⟨inner⟩ := by
    rw [initializeCommittee, ← hsorted]
    simp only [VecMap.intoKeysValues, hshards, ok_bind, liftVecMap, hinner, Except.mapError]
    rfl
  exact ⟨_, h, initializeCommittee_eq_ok h⟩

/-! ## `diff` -/

/-- Distinct node IDs are distinct numbers: the 32 bytes are read big-endian. -/
theorem toU256_injective : Function.Injective ObjectID.toU256 := by
  intro a b h
  unfold ObjectID.toU256 at h
  rw [Bcs.foldl_horner, Bcs.foldl_horner] at h
  have hbytes := Bcs.beNat_injective (by simp) h
  rcases a with ⟨a⟩
  rcases b with ⟨b⟩
  congr
  exact Vector.toList_inj.mp hbytes

/-- The keys of a map sorted by node ID are increasing: they are distinct. -/
theorem keys_increasing {ν : Type} {m : VecMap ObjectID ν}
    (h : SortedBy (fun e : ObjectID × ν => e.1.toU256) m.contents) :
    m.keys.Pairwise fun a b => a.toU256 < b.toU256 := by
  have hle : m.keys.Pairwise fun a b => a.toU256 ≤ b.toU256 := List.pairwise_map.mpr h
  refine (hle.and m.keys_nodup).imp ?_
  rintro a b ⟨hab, hne⟩
  exact lt_of_le_of_ne hab fun h => hne (toU256_injective h)

/-- The loops of `diff`, over the IDs of the two committees from `i` and `j` on: equal IDs are
passed together, the smaller goes to its side, and once one side runs out the rest of the
other follows. -/
def diffLoop (lhs rhs diff1 diff2 : List ObjectID) : List ObjectID × List ObjectID :=
  match lhs, rhs with
  | l :: ls, r :: rs =>
    if l = r then diffLoop ls rs diff1 diff2
    -- in LHS, but not in RHS
    else if l.toU256 < r.toU256 then diffLoop ls (r :: rs) (diff1 ++ [l]) diff2
    -- in RHS, but not in LHS
    else diffLoop (l :: ls) rs diff1 (diff2 ++ [r])
  | ls, rs => (diff1 ++ ls, diff2 ++ rs)
termination_by lhs.length + rhs.length

/-- `diff`: the nodes of the first committee that are not in the second, and the other way
round. -/
def diff (cmt₁ cmt₂ : Committee) : List ObjectID × List ObjectID :=
  diffLoop cmt₁.inner.keys cmt₂.inner.keys [] []

/-- An ID below the head of an increasing list is not in it. -/
theorem not_mem_of_lt_head {x r : ObjectID} {rs : List ObjectID}
    (hr : (r :: rs).Pairwise fun a b => a.toU256 < b.toU256) (hlt : x.toU256 < r.toU256) :
    x ∉ r :: rs := by
  intro hx
  rcases List.mem_cons.mp hx with hxr | hx
  · rw [hxr] at hlt
    exact lt_irrefl _ hlt
  · exact lt_asymm hlt ((List.pairwise_cons.mp hr).1 x hx)

theorem head_not_mem_tail {r : ObjectID} {rs : List ObjectID}
    (hr : (r :: rs).Pairwise fun a b => a.toU256 < b.toU256) : r ∉ rs :=
  fun hx => lt_irrefl _ ((List.pairwise_cons.mp hr).1 r hx)

/-- Leaving out the IDs of `x :: t` is leaving out those of `t`, for a list without `x`. -/
theorem filter_not_mem_cons {l t : List ObjectID} {x : ObjectID} (hx : x ∉ l) :
    l.filter (fun y => y ∉ x :: t) = l.filter (fun y => y ∉ t) := by
  apply List.filter_congr
  intro y hy
  have hyx : y ≠ x := fun h => hx (h ▸ hy)
  simp [hyx]

/-- On increasing lists of IDs the loops of `diff` add to each side the IDs of its list that
are not in the other, in order. -/
theorem diffLoop_eq_filter (lhs rhs diff1 diff2 : List ObjectID)
    (hl : lhs.Pairwise fun a b => a.toU256 < b.toU256)
    (hr : rhs.Pairwise fun a b => a.toU256 < b.toU256) :
    diffLoop lhs rhs diff1 diff2 =
      (diff1 ++ lhs.filter (fun x => x ∉ rhs), diff2 ++ rhs.filter (fun x => x ∉ lhs)) := by
  induction lhs, rhs, diff1, diff2 using diffLoop.induct with
  | case1 diff1 diff2 ls r rs ih =>
    -- the same node on both sides: it is on neither
    have h₁ : (r :: ls).filter (fun x => x ∉ r :: rs) = ls.filter (fun x => x ∉ rs) := by
      rw [List.filter_cons_of_neg (by simp), filter_not_mem_cons (head_not_mem_tail hl)]
    have h₂ : (r :: rs).filter (fun x => x ∉ r :: ls) = rs.filter (fun x => x ∉ ls) := by
      rw [List.filter_cons_of_neg (by simp), filter_not_mem_cons (head_not_mem_tail hr)]
    rw [diffLoop, if_pos rfl, ih hl.of_cons hr.of_cons, h₁, h₂]
  | case2 diff1 diff2 l ls r rs hne hlt ih =>
    -- `l` is below every ID on the right
    have hl' := not_mem_of_lt_head hr hlt
    have h₁ : (l :: ls).filter (fun x => x ∉ r :: rs) = l :: ls.filter (fun x => x ∉ r :: rs) :=
      List.filter_cons_of_pos (by simpa using hl')
    rw [diffLoop, if_neg hne, if_pos hlt, ih hl.of_cons hr, h₁, filter_not_mem_cons hl',
      List.append_assoc, List.singleton_append]
  | case3 diff1 diff2 l ls r rs hne hlt ih =>
    -- `r` is below every ID on the left
    have hrl : r.toU256 < l.toU256 :=
      lt_of_le_of_ne (not_lt.mp hlt) fun h => hne (toU256_injective h).symm
    have hr' := not_mem_of_lt_head hl hrl
    have h₂ : (r :: rs).filter (fun x => x ∉ l :: ls) = r :: rs.filter (fun x => x ∉ l :: ls) :=
      List.filter_cons_of_pos (by simpa using hr')
    rw [diffLoop, if_neg hne, if_neg hlt, ih hl hr.of_cons, h₂, filter_not_mem_cons hr',
      List.append_assoc, List.singleton_append]
  | case4 diff1 diff2 ls rs hnot =>
    -- one side has run out
    rcases ls with _ | ⟨l, ls⟩
    · simp [diffLoop]
    · rcases rs with _ | ⟨r, rs⟩
      · simp [diffLoop]
      · exact absurd rfl (hnot l ls r rs rfl)

/-- `diff` of two committees sorted by node ID: the nodes of each that are not in the other,
in order. -/
theorem diff_eq_filter {cmt₁ cmt₂ : Committee}
    (h₁ : SortedBy (fun e : ObjectID × List Nat => e.1.toU256) cmt₁.inner.contents)
    (h₂ : SortedBy (fun e : ObjectID × List Nat => e.1.toU256) cmt₂.inner.contents) :
    diff cmt₁ cmt₂ = (cmt₁.inner.keys.filter (fun x => x ∉ cmt₂.inner.keys),
      cmt₂.inner.keys.filter (fun x => x ∉ cmt₁.inner.keys)) := by
  rw [diff, diffLoop_eq_filter _ _ _ _ (keys_increasing h₁) (keys_increasing h₂),
    List.nil_append, List.nil_append]

/-- Whatever the order of the IDs, the loops of `diff` keep the IDs already on the right side
and add to it every ID of the right list that the left one lacks. -/
theorem mem_diffLoop_snd {lhs rhs diff1 diff2 : List ObjectID} {x : ObjectID}
    (h : x ∈ diff2 ∨ (x ∈ rhs ∧ x ∉ lhs)) : x ∈ (diffLoop lhs rhs diff1 diff2).2 := by
  induction lhs, rhs, diff1, diff2 using diffLoop.induct with
  | case1 diff1 diff2 ls r rs ih =>
    -- the head is on both sides, so it is not `x`
    rw [diffLoop, if_pos rfl]
    refine ih (h.imp_right fun ⟨hx, hnot⟩ => ⟨?_, fun hls => hnot (List.mem_cons_of_mem r hls)⟩)
    rcases List.mem_cons.mp hx with rfl | hx
    · exact absurd List.mem_cons_self hnot
    · exact hx
  | case2 diff1 diff2 l ls r rs hne hlt ih =>
    rw [diffLoop, if_neg hne, if_pos hlt]
    exact ih (h.imp_right fun ⟨hx, hnot⟩ => ⟨hx, fun hls => hnot (List.mem_cons_of_mem l hls)⟩)
  | case3 diff1 diff2 l ls r rs hne hlt ih =>
    -- `r` moves to the right side
    rw [diffLoop, if_neg hne, if_neg hlt]
    apply ih
    rcases h with hx | ⟨hx, hnot⟩
    · exact .inl (List.mem_append_left _ hx)
    · rcases List.mem_cons.mp hx with rfl | hx
      · exact .inl (List.mem_append_right _ List.mem_cons_self)
      · exact .inr ⟨hx, hnot⟩
  | case4 diff1 diff2 ls rs hnot =>
    -- one side has run out, and the rest of the right list follows
    have hend : diffLoop ls rs diff1 diff2 = (diff1 ++ ls, diff2 ++ rs) := by
      rcases ls with _ | ⟨l, ls⟩
      · simp [diffLoop]
      · rcases rs with _ | ⟨r, rs⟩
        · simp [diffLoop]
        · exact absurd rfl (hnot l ls r rs rfl)
    rw [hend]
    rcases h with hx | ⟨hx, -⟩
    · exact List.mem_append_left _ hx
    · exact List.mem_append_right _ hx

/-- `diff` finds every node of the second committee that the first lacks. -/
theorem mem_diff_snd {cmt₁ cmt₂ : Committee} {x : ObjectID} (hx : x ∈ cmt₂.inner.keys)
    (hnot : x ∉ cmt₁.inner.keys) : x ∈ (diff cmt₁ cmt₂).2 :=
  mem_diffLoop_snd (.inr ⟨hx, hnot⟩)

/-! ## The committee of an epoch change -/

/-- `transition` of a committee holding the shards `0, ..., n - 1` once each, to numbers that
add up to `n` within a `u16`, does not abort, keeps every shard once and each node's first
shards; `initialize` numbers the shards in node-ID order; and `diff` of committees sorted by
node ID returns the nodes of each that the other lacks. -/
theorem committee_transition_conserves_shards :
    (∀ (cmt : Committee) (d : VecMap ObjectID Nat) (n : Nat),
      (shardsOf cmt.inner).Perm (List.range n) → (d.contents.map Prod.snd).sum = n →
      n ≤ u16Max →
      ∃ cmt', cmt.transition d = .ok cmt' ∧
        SortedBy (fun e : ObjectID × List Nat => e.1.toU256) cmt'.inner.contents ∧
        (counts cmt'.inner).Perm (d.contents.filter fun e => 0 < e.2) ∧
        (shardsOf cmt'.inner).Perm (List.range n) ∧
        ∀ e ∈ cmt'.inner.contents,
          ((cmt.inner.get? e.1).getD []).take ((d.get? e.1).getD 0) <+: e.2) ∧
    (∀ d : VecMap ObjectID Nat, (d.contents.map Prod.snd).sum ≤ u16Max →
      ∃ cmt, initializeCommittee d = .ok cmt ∧
        SortedBy (fun e : ObjectID × List Nat => e.1.toU256) cmt.inner.contents ∧
        shardsOf cmt.inner = List.range (d.contents.map Prod.snd).sum ∧
        (counts cmt.inner).Perm d.contents) ∧
    (∀ cmt₁ cmt₂ : Committee,
      SortedBy (fun e : ObjectID × List Nat => e.1.toU256) cmt₁.inner.contents →
      SortedBy (fun e : ObjectID × List Nat => e.1.toU256) cmt₂.inner.contents →
      diff cmt₁ cmt₂ = (cmt₁.inner.keys.filter (fun x => x ∉ cmt₂.inner.keys),
        cmt₂.inner.keys.filter (fun x => x ∉ cmt₁.inner.keys))) :=
  ⟨fun _ _ _ hpart hsum hfit => transition_spec hpart hsum hfit,
    fun d hfit => initializeCommittee_spec d hfit,
    fun _ _ h₁ h₂ => diff_eq_filter h₁ h₂⟩

/-- Node `0` holds shards `0, 1` and node `1` shards `2, 3`. -/
def fourShardCommittee : Committee :=
  ⟨⟨[(⟨Vector.replicate 32 0⟩, [0, 1]), (⟨Vector.replicate 32 1⟩, [2, 3])], by decide⟩⟩

/-- Node `1` gives up one shard, to node `2`. -/
def threeNodeShards : VecMap ObjectID Nat :=
  ⟨[(⟨Vector.replicate 32 0⟩, 2), (⟨Vector.replicate 32 1⟩, 1), (⟨Vector.replicate 32 2⟩, 1)],
    by decide⟩

/-- Node `0` keeps both shards, node `1` its first one, and node `2` gets shard `3`;
`initialize` of the same numbers hands the shards out in the same way. -/
theorem committee_transition_conserves_shards_four_shards :
    (∃ cmt', fourShardCommittee.transition threeNodeShards = .ok cmt' ∧
      cmt'.inner.contents = [(⟨Vector.replicate 32 0⟩, [0, 1]), (⟨Vector.replicate 32 1⟩, [2]),
        (⟨Vector.replicate 32 2⟩, [3])] ∧
      (shardsOf cmt'.inner).Perm (List.range 4)) ∧
    ∃ cmt, initializeCommittee threeNodeShards = .ok cmt ∧ shardsOf cmt.inner = List.range 4 := by
  obtain ⟨htransition, hinitialize, -⟩ := committee_transition_conserves_shards
  obtain ⟨cmt', hcmt', -, -, hperm, -⟩ :=
    htransition fourShardCommittee threeNodeShards 4 (by decide) rfl (by decide)
  -- the new committee, evaluated
  have hrun : (fourShardCommittee.transition threeNodeShards).toOption.map (·.inner.contents) =
      some [(⟨Vector.replicate 32 0⟩, [0, 1]), (⟨Vector.replicate 32 1⟩, [2]),
        (⟨Vector.replicate 32 2⟩, [3])] := by
    decide
  rw [hcmt'] at hrun
  obtain ⟨cmt, hcmt, -, hshards, -⟩ := hinitialize threeNodeShards (by decide)
  exact ⟨⟨cmt', hcmt', Option.some.inj hrun, hperm⟩, cmt, hcmt, hshards⟩

/-- At `n = 65536`, which `u16` shard IDs still allow, the new numbers overflow the `u16` they
are added up in, and `transition` aborts. -/
theorem transition_aborts_at_65536_shards :
    let cmt : Committee := ⟨⟨[(⟨Vector.replicate 32 0⟩, List.range 65536)], by simp⟩⟩
    let d : VecMap ObjectID Nat :=
      ⟨[(⟨Vector.replicate 32 0⟩, 32768), (⟨Vector.replicate 32 1⟩, 32768)], by decide⟩
    SortedBy (fun e : ObjectID × List Nat => e.1.toU256) cmt.inner.contents ∧
      (shardsOf cmt.inner).Perm (List.range 65536) ∧ (d.contents.map Prod.snd).sum = 65536 ∧
      cmt.transition d = .error .arithmeticError := by
  intro cmt d
  refine ⟨List.pairwise_singleton _ _, by simp [cmt, shardsOf], rfl, ?_⟩
  -- the second entry takes the sum past `u16Max`, before any member is visited
  rfl

end Walrus.Staking.Committee
