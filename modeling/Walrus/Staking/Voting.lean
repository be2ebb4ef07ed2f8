import Mathlib
import Walrus.Contracts.Move
import Walrus.Machine.Run

/-! # Votes for the parameters of the next epoch

`select_committee_and_calculate_votes` of `staking_inner` puts the vote of each member of the
next committee for the capacity, the storage price and the write price into a
`sui::priority_queue`, with the member's number of shards as the vote's weight. The
parameters are read off the queues: `quorum_above` pops the highest votes until their weight
is a quorum and returns the last value popped, the largest value that a quorum votes for or
above (`quorumAbove_spec`); `quorum_below` starts from all the shards and pops the highest
votes until the rest is no quorum, which returns the smallest value that a quorum votes for or
below (`quorumBelow_spec`). Neither pops from an empty queue when the weights add up to the
number of shards.

`sui::priority_queue` is not part of the repository: the model takes it as a parameter
`PriorityQueueOps`, with what its documentation says of `pop_max` as laws.
-/

namespace Walrus.Staking

open Machine Walrus.System

/-- `sui::priority_queue` as the quorum loops use it: queues `Q` of entries
`(priority, value)` and their `pop_max`. The laws are its documented behaviour: a pop returns
an entry of highest priority and the queue of the others, and aborts on the empty queue. -/
structure PriorityQueueOps (Q : Type) where
  entries : Q → List (Nat × Nat)
  popMax : Q → Except Abort ((Nat × Nat) × Q)
  popMax_eq_ok : ∀ {q e q'}, popMax q = .ok (e, q') →
    (e :: entries q').Perm (entries q) ∧ ∀ e' ∈ entries q, e'.1 ≤ e.1
  popMax_isOk : ∀ {q}, entries q ≠ [] → ∃ r, popMax q = .ok r
  popMax_nil : ∀ {q}, entries q = [] → popMax q = .error .popFromEmptyHeap

namespace PriorityQueueOps

variable {Q : Type} (P : PriorityQueueOps Q)

theorem length_lt_of_popMax {q q' : Q} {e : Nat × Nat} (h : P.popMax q = .ok (e, q')) :
    (P.entries q').length < (P.entries q).length := by
  have hlen := (P.popMax_eq_ok h).1.length_eq
  rw [List.length_cons] at hlen
  omega

end PriorityQueueOps

/-- `is_quorum_for_n_shards`: more than two thirds of the shards, in `u64` arithmetic. -/
def isQuorumForNShards (weight nShards : Nat) : Except Abort Bool := do
  let lhs ← checkedMul u64Max 3 weight
  let rhs ← checkedMul u64Max 2 nShards
  let rhs ← u64Add rhs 1
  pure (lhs ≥ rhs)

variable {Q : Type} (P : PriorityQueueOps Q)

/-- The `loop` of `quorum_above`: the highest vote is popped and its weight added; its value
is returned once the weight popped is a quorum. -/
def quorumAboveLoop (nShards : Nat) (q : Q) (sumWeight : Nat) : Except Abort Nat :=
  match h : P.popMax q with
  | .error e => .error e
  | .ok ((value, weight), q') => do
    let sumWeight ← u64Add sumWeight weight
    if (← isQuorumForNShards sumWeight nShards) then pure value
    else quorumAboveLoop nShards q' sumWeight
termination_by (P.entries q).length
decreasing_by exact P.length_lt_of_popMax h

/-- `quorum_above`: the highest value such that a quorum voted for a value larger or equal. -/
def quorumAbove (q : Q) (nShards : Nat) : Except Abort Nat :=
  quorumAboveLoop P nShards q 0

/-- The `loop` of `quorum_below`: the highest vote is popped and its weight taken off; its
value is returned once the weight left is no quorum. -/
def quorumBelowLoop (nShards : Nat) (q : Q) (sumWeight : Nat) : Except Abort Nat :=
  match h : P.popMax q with
  | .error e => .error e
  | .ok ((value, weight), q') => do
    let sumWeight ← checkedSub sumWeight weight
    if !(← isQuorumForNShards sumWeight nShards) then pure value
    else quorumBelowLoop nShards q' sumWeight
termination_by (P.entries q).length
decreasing_by exact P.length_lt_of_popMax h

/-- `quorum_below`: the lowest value such that a quorum voted for a value lower or equal;
all the shards are a quorum at first. -/
def quorumBelow (q : Q) (nShards : Nat) : Except Abort Nat :=
  quorumBelowLoop P nShards q nShards

/-! ## Quorums of weighted votes -/

/-- The quorum condition: more than two thirds of the `nShards` shards. -/
def IsQuorum (nShards weight : Nat) : Prop :=
  2 * nShards + 1 ≤ 3 * weight

instance (nShards weight : Nat) : Decidable (IsQuorum nShards weight) :=
  inferInstanceAs (Decidable (2 * nShards + 1 ≤ 3 * weight))

theorem IsQuorum.mono {nShards w w' : Nat} (h : IsQuorum nShards w) (hle : w ≤ w') :
    IsQuorum nShards w' := by
  unfold IsQuorum at *
  omega

/-- The weight of the votes whose value satisfies `p`. -/
def weightOf (votes : List (Nat × Nat)) (p : Nat → Bool) : Nat :=
  ((votes.filter fun e => p e.1).map Prod.snd).sum

/-- The weight of the votes for `v` or more. -/
def weightAtLeast (votes : List (Nat × Nat)) (v : Nat) : Nat :=
  weightOf votes fun x => v ≤ x

/-- The weight of the votes for `v` or less. -/
def weightAtMost (votes : List (Nat × Nat)) (v : Nat) : Nat :=
  weightOf votes fun x => x ≤ v

section weightOf

variable (p : Nat → Bool)

theorem weightOf_append (l l' : List (Nat × Nat)) :
    weightOf (l ++ l') p = weightOf l p + weightOf l' p := by
  simp [weightOf, List.filter_append]

theorem weightOf_cons (e : Nat × Nat) (l : List (Nat × Nat)) :
    weightOf (e :: l) p = (if p e.1 then e.2 else 0) + weightOf l p := by
  rw [← List.singleton_append, weightOf_append]
  by_cases he : p e.1 <;> simp [weightOf, he]

theorem weightOf_perm {l l' : List (Nat × Nat)} (h : l.Perm l') : weightOf l p = weightOf l' p :=
  ((h.filter _).map Prod.snd).sum_eq

theorem weightOf_le (l : List (Nat × Nat)) : weightOf l p ≤ (l.map Prod.snd).sum :=
  (List.filter_sublist.map Prod.snd).sum_le_sum fun _ _ => Nat.zero_le _

theorem weightOf_of_forall {l : List (Nat × Nat)} (h : ∀ e ∈ l, p e.1) :
    weightOf l p = (l.map Prod.snd).sum := by
  rw [weightOf, List.filter_eq_self.mpr h]

theorem weightOf_of_forall_not {l : List (Nat × Nat)} (h : ∀ e ∈ l, ¬ p e.1) :
    weightOf l p = 0 := by
  rw [weightOf, List.filter_eq_nil_iff.mpr h]
  rfl

end weightOf

/-- The check of the code is the quorum condition while `3 w` and `2 n + 1` fit in a `u64`. -/
theorem isQuorumForNShards_eq {weight nShards : Nat} (hw : 3 * weight ≤ u64Max)
    (hn : 2 * nShards + 1 ≤ u64Max) :
    isQuorumForNShards weight nShards = .ok (decide (IsQuorum nShards weight)) := by
  have h₁ : checkedMul u64Max 3 weight = .ok (3 * weight) := checkedMul_eq_ok.mpr ⟨hw, rfl⟩
  have h₂ : checkedMul u64Max 2 nShards = .ok (2 * nShards) :=
    checkedMul_eq_ok.mpr ⟨by omega, rfl⟩
  have h₃ : u64Add (2 * nShards) 1 = .ok (2 * nShards + 1) := u64Add_eq_ok.mpr ⟨hn, rfl⟩
  rw [isQuorumForNShards, h₁, ok_bind, h₂, ok_bind, h₃, ok_bind]
  simp [IsQuorum, pure, Except.pure]

/-- Whatever the numbers, a check that does not abort answers the quorum condition. -/
theorem isQuorumForNShards_eq_ok {weight nShards : Nat} {b : Bool}
    (h : isQuorumForNShards weight nShards = .ok b) : b = decide (IsQuorum nShards weight) := by
  unfold isQuorumForNShards at h
  obtain ⟨lhs, hlhs, h⟩ := bind_eq_ok.mp h
  obtain ⟨rhs, hrhs, h⟩ := bind_eq_ok.mp h
  obtain ⟨rhs', hrhs', h⟩ := bind_eq_ok.mp h
  obtain ⟨-, rfl⟩ := checkedMul_eq_ok.mp hlhs
  obtain ⟨-, rfl⟩ := checkedMul_eq_ok.mp hrhs
  obtain ⟨-, rfl⟩ := u64Add_eq_ok.mp hrhs'
  cases h
  simp [IsQuorum]

/-! ## `quorum_above` -/

/-- What the loop of `quorum_above` keeps, with `votes` the entries the queue started with and
`popped` the votes popped: they and the entries left are the votes, no vote left is higher
than one popped, `sumWeight` is the weight popped, and that is no quorum yet. -/
structure AboveInv (votes : List (Nat × Nat)) (nShards : Nat) (popped : List (Nat × Nat))
    (q : Q) (sumWeight : Nat) : Prop where
  perm : (popped ++ P.entries q).Perm votes
  sorted : ∀ a ∈ popped, ∀ b ∈ P.entries q, b.1 ≤ a.1
  sum : sumWeight = (popped.map Prod.snd).sum
  noQuorum : ¬ IsQuorum nShards sumWeight

/-- One pop, of the vote `(x, w)` with the votes `q'` left: the votes popped and left are
still the votes, and still in order. -/
theorem perm_sorted_of_popMax {votes popped : List (Nat × Nat)} {q q' : Q} {x w : Nat}
    (hpop : P.popMax q = .ok ((x, w), q')) (hperm : (popped ++ P.entries q).Perm votes)
    (hsorted : ∀ a ∈ popped, ∀ b ∈ P.entries q, b.1 ≤ a.1) :
    (popped ++ [(x, w)] ++ P.entries q').Perm votes ∧
      ∀ a ∈ popped ++ [(x, w)], ∀ b ∈ P.entries q', b.1 ≤ a.1 := by
  obtain ⟨hperm', hmax⟩ := P.popMax_eq_ok hpop
  have hmem : ∀ b ∈ P.entries q', b ∈ P.entries q := fun b hb => hperm'.subset (List.mem_cons_of_mem _ hb)
  constructor
  · rw [List.append_assoc, List.singleton_append]
    exact (hperm'.append_left popped).trans hperm
  · intro a ha b hb
    rcases List.mem_append.mp ha with ha | ha
    · exact hsorted a ha b (hmem b hb)
    · rw [List.mem_singleton.mp ha]
      exact hmax b (hmem b hb)

/-- The loop of `quorum_above` returns the largest value that a quorum votes for or above.
Induction on the number of votes left: each round pops one. -/
theorem quorumAboveLoop_spec {votes : List (Nat × Nat)} {nShards : Nat}
    (hn : 1 ≤ nShards ∧ nShards ≤ u16Max) (hsum : (votes.map Prod.snd).sum = nShards) :
    ∀ (m : Nat) (q : Q) (popped : List (Nat × Nat)) (sumWeight : Nat),
      (P.entries q).length = m → AboveInv P votes nShards popped q sumWeight →
      ∃ v, quorumAboveLoop P nShards q sumWeight = .ok v ∧
        IsQuorum nShards (weightAtLeast votes v) ∧
        ∀ u, IsQuorum nShards (weightAtLeast votes u) → u ≤ v := by
  have hfit : 3 * nShards ≤ u64Max ∧ 2 * nShards + 1 ≤ u64Max := by
    unfold u16Max at hn
    unfold u64Max
    omega
  intro m
  induction m with
  | zero =>
    -- no vote left: all the shards were popped, and they are a quorum
    intro q popped sumWeight hlen inv
    have hnil : P.entries q = [] := List.eq_nil_of_length_eq_zero hlen
    have hall := inv.perm
    rw [hnil, List.append_nil] at hall
    have hq : IsQuorum nShards sumWeight := by
      rw [inv.sum, (hall.map Prod.snd).sum_eq, hsum]
      unfold IsQuorum
      omega
    exact absurd hq inv.noQuorum
  | succ m ih =>
    intro q popped sumWeight hlen inv
    have hne : P.entries q ≠ [] := by
      intro hnil
      rw [hnil] at hlen
      cases hlen
    obtain ⟨⟨⟨x, w⟩, q'⟩, hpop⟩ := P.popMax_isOk hne
    obtain ⟨hperm', -⟩ := P.popMax_eq_ok hpop
    obtain ⟨hperm, hsorted⟩ := perm_sorted_of_popMax P hpop inv.perm inv.sorted
    -- the weight popped is part of the votes' weight
    have hwsum : sumWeight + w + ((P.entries q').map Prod.snd).sum = nShards := by
      rw [← hsum, ← (hperm.map Prod.snd).sum_eq, inv.sum]
      simp [Nat.add_assoc]
    have hadd : u64Add sumWeight w = .ok (sumWeight + w) := u64Add_eq_ok.mpr ⟨by omega, rfl⟩
    have hcheck := @isQuorumForNShards_eq (sumWeight + w) nShards (by omega) hfit.2
    rw [quorumAboveLoop]
    split
    · rename_i e he
      rw [hpop] at he
      cases he
    · rename_i value weight q'' he
      rw [hpop, Except.ok.injEq, Prod.mk.injEq, Prod.mk.injEq] at he
      rcases he with ⟨⟨rfl, rfl⟩, rfl⟩
      rw [hadd, ok_bind, hcheck, ok_bind]
      by_cases hQ : IsQuorum nShards (sumWeight + w)
      · -- the quorum is reached at `x`
        rw [if_pos (decide_eq_true hQ)]
        refine ⟨x, rfl, ?_, ?_⟩
        · -- the votes popped are all for `x` or more
          apply hQ.mono
          have hx : (x, w) ∈ P.entries q := hperm'.subset List.mem_cons_self
          rw [weightAtLeast, weightOf_perm _ hperm.symm, weightOf_append, weightOf_append,
            weightOf_of_forall _ (fun a ha => decide_eq_true (inv.sorted a ha _ hx)), ← inv.sum]
          have hxw : weightOf [(x, w)] (fun y => decide (x ≤ y)) = w := by
            simp [weightOf]
          rw [hxw]
          exact Nat.le_add_right _ _
        · -- above `x` only votes popped before it, which are no quorum
          intro u hu
          by_contra hux
          apply inv.noQuorum
          apply hu.mono
          rw [weightAtLeast, weightOf_perm _ inv.perm.symm, weightOf_append,
            weightOf_of_forall_not _ (l := P.entries q) (fun b hb => ?_), inv.sum, Nat.add_zero]
          · exact weightOf_le _ _
          · have := (P.popMax_eq_ok hpop).2 b hb
            simp only [decide_eq_true_eq]
            omega
      · rw [if_neg (by simpa using hQ)]
        exact ih q' (popped ++ [(x, w)]) (sumWeight + w)
          (by rw [← hperm'.length_eq, List.length_cons] at hlen; omega)
          ⟨hperm, hsorted, by rw [inv.sum]; simp, hQ⟩

/-! ## `quorum_below` -/

/-- What the loop of `quorum_below` keeps: the votes popped and left are the votes, no vote
left is higher than one popped, `sumWeight` is the weight left, and that is still a quorum. -/
structure BelowInv (votes : List (Nat × Nat)) (nShards : Nat) (popped : List (Nat × Nat))
    (q : Q) (sumWeight : Nat) : Prop where
  perm : (popped ++ P.entries q).Perm votes
  sorted : ∀ a ∈ popped, ∀ b ∈ P.entries q, b.1 ≤ a.1
  sum : sumWeight = ((P.entries q).map Prod.snd).sum
  quorum : IsQuorum nShards sumWeight

/-- The loop of `quorum_below` returns the smallest value that a quorum votes for or below.
Induction on the number of votes left: each round pops one. -/
theorem quorumBelowLoop_spec {votes : List (Nat × Nat)} {nShards : Nat}
    (hn : 1 ≤ nShards ∧ nShards ≤ u16Max) (hsum : (votes.map Prod.snd).sum = nShards) :
    ∀ (m : Nat) (q : Q) (popped : List (Nat × Nat)) (sumWeight : Nat),
      (P.entries q).length = m → BelowInv P votes nShards popped q sumWeight →
      ∃ v, quorumBelowLoop P nShards q sumWeight = .ok v ∧
        IsQuorum nShards (weightAtMost votes v) ∧
        ∀ u, IsQuorum nShards (weightAtMost votes u) → v ≤ u := by
  have hfit : 3 * nShards ≤ u64Max ∧ 2 * nShards + 1 ≤ u64Max := by
    unfold u16Max at hn
    unfold u64Max
    omega
  intro m
  induction m with
  | zero =>
    -- no vote left: no weight is left, which is no quorum
    intro q popped sumWeight hlen inv
    have hnil : P.entries q = [] := List.eq_nil_of_length_eq_zero hlen
    have hq := inv.quorum
    rw [inv.sum, hnil] at hq
    unfold IsQuorum at hq
    simp at hq
  | succ m ih =>
    intro q popped sumWeight hlen inv
    have hne : P.entries q ≠ [] := by
      intro hnil
      rw [hnil] at hlen
      cases hlen
    obtain ⟨⟨⟨x, w⟩, q'⟩, hpop⟩ := P.popMax_isOk hne
    obtain ⟨hperm', hmax⟩ := P.popMax_eq_ok hpop
    obtain ⟨hperm, hsorted⟩ := perm_sorted_of_popMax P hpop inv.perm inv.sorted
    -- the weight left is the popped vote's and the rest's
    have hleft : sumWeight = w + ((P.entries q').map Prod.snd).sum := by
      rw [inv.sum, ← (hperm'.map Prod.snd).sum_eq]
      simp
    have hle : sumWeight ≤ nShards := by
      rw [← hsum, ← (inv.perm.map Prod.snd).sum_eq, inv.sum, List.map_append, List.sum_append]
      exact Nat.le_add_left _ _
    have hsub : checkedSub sumWeight w = .ok (sumWeight - w) := checkedSub_eq_ok.mpr ⟨by omega, rfl⟩
    have hcheck := @isQuorumForNShards_eq (sumWeight - w) nShards (by omega) hfit.2
    rw [quorumBelowLoop]
    split
    · rename_i e he
      rw [hpop] at he
      cases he
    · rename_i value weight q'' he
      rw [hpop, Except.ok.injEq, Prod.mk.injEq, Prod.mk.injEq] at he
      rcases he with ⟨⟨rfl, rfl⟩, rfl⟩
      rw [hsub, ok_bind, hcheck, ok_bind]
      by_cases hQ : IsQuorum nShards (sumWeight - w)
      · rw [if_neg (by simpa using hQ)]
        exact ih q' (popped ++ [(x, w)]) (sumWeight - w)
          (by rw [← hperm'.length_eq, List.length_cons] at hlen; omega)
          ⟨hperm, hsorted, by omega, hQ⟩
      · -- the quorum is lost at `x`
        rw [if_pos (by simpa using hQ)]
        refine ⟨x, rfl, ?_, ?_⟩
        · -- the votes left are all for `x` or less
          apply inv.quorum.mono
          rw [weightAtMost, weightOf_perm _ inv.perm.symm, weightOf_append,
            weightOf_of_forall _ (l := P.entries q) (fun b hb => decide_eq_true (hmax b hb)),
            ← inv.sum]
          exact Nat.le_add_left _ _
        · -- below `x` only votes still left after it, which are no quorum
          intro u hu
          by_contra hxu
          apply hQ
          apply hu.mono
          rw [weightAtMost, weightOf_perm _ hperm.symm, weightOf_append, weightOf_append,
            weightOf_of_forall_not _ (l := popped) (fun a ha => ?_)]
          · have hxw : weightOf [(x, w)] (fun y => decide (y ≤ u)) = 0 := by
              simp [weightOf, hxu]
            rw [hxw, hleft]
            simpa using weightOf_le _ _
          · have := inv.sorted a ha _ (hperm'.subset List.mem_cons_self)
            simp only [decide_eq_true_eq]
            omega

/-! ## Both loops -/

/-- `quorum_above` of a queue whose weights add up to `n_shards`: it does not abort, and
returns the largest value that a quorum votes for or above. -/
theorem quorumAbove_spec (q : Q) {nShards : Nat} (hn : 1 ≤ nShards ∧ nShards ≤ u16Max)
    (hsum : ((P.entries q).map Prod.snd).sum = nShards) :
    ∃ v, quorumAbove P q nShards = .ok v ∧ IsQuorum nShards (weightAtLeast (P.entries q) v) ∧
      ∀ u, IsQuorum nShards (weightAtLeast (P.entries q) u) → u ≤ v := by
  -- nothing is popped at first, and no weight is no quorum
  have inv : AboveInv P (P.entries q) nShards [] q 0 := by
    constructor
    · rw [List.nil_append]
    · intro a ha
      cases ha
    · rfl
    · unfold IsQuorum
      omega
  exact quorumAboveLoop_spec P hn hsum _ q [] 0 rfl inv

/-- `quorum_below` of a queue whose weights add up to `n_shards`: it does not abort, and
returns the smallest value that a quorum votes for or below. -/
theorem quorumBelow_spec (q : Q) {nShards : Nat} (hn : 1 ≤ nShards ∧ nShards ≤ u16Max)
    (hsum : ((P.entries q).map Prod.snd).sum = nShards) :
    ∃ v, quorumBelow P q nShards = .ok v ∧ IsQuorum nShards (weightAtMost (P.entries q) v) ∧
      ∀ u, IsQuorum nShards (weightAtMost (P.entries q) u) → v ≤ u := by
  -- nothing is popped at first, and all the shards are a quorum
  have inv : BelowInv P (P.entries q) nShards [] q nShards := by
    constructor
    · rw [List.nil_append]
    · intro a ha
      cases ha
    · exact hsum.symm
    · unfold IsQuorum
      omega
  exact quorumBelowLoop_spec P hn hsum _ q [] nShards rfl inv

/-- The votes for the next epoch's parameters: for every queue of votes whose weights add up
to the number of shards, `quorum_above` returns the largest value that a quorum votes for or
above and `quorum_below` the smallest value that a quorum votes for or below; neither aborts,
so neither pops from an empty queue. -/
theorem quorum_votes_select_thresholds {Q : Type} (P : PriorityQueueOps Q) (q : Q)
    (nShards : Nat) (hn : 1 ≤ nShards ∧ nShards ≤ u16Max)
    (hsum : ((P.entries q).map Prod.snd).sum = nShards) :
    (∃ v, quorumAbove P q nShards = .ok v ∧ IsQuorum nShards (weightAtLeast (P.entries q) v) ∧
        ∀ u, IsQuorum nShards (weightAtLeast (P.entries q) u) → u ≤ v) ∧
      ∃ v, quorumBelow P q nShards = .ok v ∧ IsQuorum nShards (weightAtMost (P.entries q) v) ∧
        ∀ u, IsQuorum nShards (weightAtMost (P.entries q) u) → v ≤ u :=
  ⟨quorumAbove_spec P q hn hsum, quorumBelow_spec P q hn hsum⟩

/-! ## The queues of the votes

`select_committee_and_calculate_votes` fills its queues with `priority_queue::new(vector[])`
and one `insert(value, weight)` per member of the next committee. The queue is the same
parameter as for the loops, with these two operations: an insert adds its entry to those the
queue holds, in some order. So the loops see the members' votes up to order, and what they
return depends on the votes only. -/

/-- `sui::priority_queue` with the operations that build it: `new(vector[])` and
`insert(priority, value)`, beside the `pop_max` of the loops. -/
structure PriorityQueue (Q : Type) extends PriorityQueueOps Q where
  new : Q
  insert : Q → Nat → Nat → Q
  entries_new : entries new = []
  entries_insert : ∀ q priority value,
    (entries (insert q priority value)).Perm ((priority, value) :: entries q)

namespace PriorityQueue

variable {Q : Type} (PQ : PriorityQueue Q)

/-- A new queue and an insert of each vote `(value, weight)`, in the order of the votes. -/
def ofVotes (votes : List (Nat × Nat)) : Q :=
  votes.foldl (fun q vote => PQ.insert q vote.1 vote.2) PQ.new

/-- The inserts from a queue add the votes to its entries. -/
theorem entries_foldl_insert : ∀ (votes : List (Nat × Nat)) (q : Q),
    (PQ.entries (votes.foldl (fun q vote => PQ.insert q vote.1 vote.2) q)).Perm
      (votes ++ PQ.entries q)
  | [], q => by rw [List.foldl_nil, List.nil_append]
  | vote :: votes, q => by
    rw [List.foldl_cons]
    -- the vote inserted first sits after the later ones
    have hfirst : (votes ++ PQ.entries (PQ.insert q vote.1 vote.2)).Perm
        (votes ++ vote :: PQ.entries q) := (PQ.entries_insert q vote.1 vote.2).append_left votes
    exact (entries_foldl_insert votes _).trans (hfirst.trans List.perm_middle)

theorem entries_ofVotes (votes : List (Nat × Nat)) : (PQ.entries (PQ.ofVotes votes)).Perm votes := by
  have h := PQ.entries_foldl_insert votes PQ.new
  rwa [PQ.entries_new, List.append_nil] at h

/-- `quorum_above` of the queue of votes whose weights add up to `n_shards`. -/
theorem quorumAbove_ofVotes (votes : List (Nat × Nat)) {nShards : Nat}
    (hn : 1 ≤ nShards ∧ nShards ≤ u16Max) (hsum : (votes.map Prod.snd).sum = nShards) :
    ∃ v, quorumAbove PQ.toPriorityQueueOps (PQ.ofVotes votes) nShards = .ok v ∧
      IsQuorum nShards (weightAtLeast votes v) ∧
      ∀ u, IsQuorum nShards (weightAtLeast votes u) → u ≤ v := by
  have hperm := PQ.entries_ofVotes votes
  rw [← (hperm.map Prod.snd).sum_eq] at hsum
  obtain ⟨v, hv, hq, hmax⟩ := quorumAbove_spec PQ.toPriorityQueueOps _ hn hsum
  -- the weights above a value are those of the votes, whatever their order in the queue
  have hweight : ∀ u, weightAtLeast (PQ.entries (PQ.ofVotes votes)) u = weightAtLeast votes u :=
    fun u => weightOf_perm _ hperm
  refine ⟨v, hv, hweight v ▸ hq, fun u hu => hmax u ((hweight u).symm ▸ hu)⟩

/-- `quorum_below` of the queue of votes whose weights add up to `n_shards`. -/
theorem quorumBelow_ofVotes (votes : List (Nat × Nat)) {nShards : Nat}
    (hn : 1 ≤ nShards ∧ nShards ≤ u16Max) (hsum : (votes.map Prod.snd).sum = nShards) :
    ∃ v, quorumBelow PQ.toPriorityQueueOps (PQ.ofVotes votes) nShards = .ok v ∧
      IsQuorum nShards (weightAtMost votes v) ∧
      ∀ u, IsQuorum nShards (weightAtMost votes u) → v ≤ u := by
  have hperm := PQ.entries_ofVotes votes
  rw [← (hperm.map Prod.snd).sum_eq] at hsum
  obtain ⟨v, hv, hq, hmin⟩ := quorumBelow_spec PQ.toPriorityQueueOps _ hn hsum
  have hweight : ∀ u, weightAtMost (PQ.entries (PQ.ofVotes votes)) u = weightAtMost votes u :=
    fun u => weightOf_perm _ hperm
  refine ⟨v, hv, hweight v ▸ hq, fun u hu => hmin u ((hweight u).symm ▸ hu)⟩

end PriorityQueue

/-! ## A queue with the laws -/

/-- The first entry of highest priority among `e :: es`, and the others in order. -/
def selectMax : Nat × Nat → List (Nat × Nat) → (Nat × Nat) × List (Nat × Nat)
  | e, [] => (e, [])
  | e, f :: fs =>
    let r := selectMax f fs
    if r.1.1 ≤ e.1 then (e, f :: fs) else (r.1, e :: r.2)

theorem selectMax_spec : ∀ (e : Nat × Nat) (es : List (Nat × Nat)),
    ((selectMax e es).1 :: (selectMax e es).2).Perm (e :: es) ∧
      ∀ e' ∈ e :: es, e'.1 ≤ (selectMax e es).1.1
  | e, [] => by simp [selectMax]
  | e, f :: fs => by
    rcases selectMax_spec f fs with ⟨hperm, hmax⟩
    unfold selectMax
    dsimp only
    split
    · -- `e` is as high as the highest of the others
      rename_i hle
      refine ⟨List.Perm.refl _, ?_⟩
      intro e' he'
      rcases List.mem_cons.mp he' with rfl | he'
      · exact le_rfl
      · exact le_trans (hmax e' he') hle
    · rename_i hlt
      refine ⟨(List.Perm.swap _ _ _).trans (List.Perm.cons e hperm), ?_⟩
      intro e' he'
      rcases List.mem_cons.mp he' with rfl | he'
      · exact le_of_lt (Nat.lt_of_not_le hlt)
      · exact hmax e' he'

/-- Lists of entries, `pop_max` taking the first entry of highest priority. -/
def listQueue : PriorityQueueOps (List (Nat × Nat)) where
  entries := id
  popMax
    | [] => .error .popFromEmptyHeap
    | e :: es => .ok (selectMax e es)
  popMax_eq_ok := by
    intro q e q' h
    cases q with
    | nil => cases h
    | cons e₀ es =>
      have hsel : selectMax e₀ es = (e, q') := Except.ok.inj h
      have hspec := selectMax_spec e₀ es
      rw [hsel] at hspec
      exact hspec
  popMax_isOk := by
    intro q hq
    cases q with
    | nil => exact absurd rfl hq
    | cons e es => exact ⟨_, rfl⟩
  popMax_nil := by
    intro q hq
    cases q with
    | nil => rfl
    | cons e es => cases hq

/-- The votes of the test `test_quorum_above`, in the queue of lists. -/
theorem quorum_votes_select_thresholds_on_test :
    (1 ≤ 50 ∧ 50 ≤ u16Max) ∧
      ((listQueue.entries [(1, 5), (2, 5), (3, 4), (4, 6), (5, 3), (6, 7), (7, 2), (8, 8),
        (9, 1), (10, 9)]).map Prod.snd).sum = 50 ∧
      ((∃ v, quorumAbove listQueue [(1, 5), (2, 5), (3, 4), (4, 6), (5, 3), (6, 7), (7, 2),
          (8, 8), (9, 1), (10, 9)] 50 = .ok v ∧
          IsQuorum 50 (weightAtLeast (listQueue.entries [(1, 5), (2, 5), (3, 4), (4, 6), (5, 3),
            (6, 7), (7, 2), (8, 8), (9, 1), (10, 9)]) v) ∧
          ∀ u, IsQuorum 50 (weightAtLeast (listQueue.entries [(1, 5), (2, 5), (3, 4), (4, 6),
            (5, 3), (6, 7), (7, 2), (8, 8), (9, 1), (10, 9)]) u) → u ≤ v) ∧
        ∃ v, quorumBelow listQueue [(1, 5), (2, 5), (3, 4), (4, 6), (5, 3), (6, 7), (7, 2),
          (8, 8), (9, 1), (10, 9)] 50 = .ok v ∧
          IsQuorum 50 (weightAtMost (listQueue.entries [(1, 5), (2, 5), (3, 4), (4, 6), (5, 3),
            (6, 7), (7, 2), (8, 8), (9, 1), (10, 9)]) v) ∧
          ∀ u, IsQuorum 50 (weightAtMost (listQueue.entries [(1, 5), (2, 5), (3, 4), (4, 6),
            (5, 3), (6, 7), (7, 2), (8, 8), (9, 1), (10, 9)]) u) → v ≤ u) :=
  ⟨by decide, by decide, quorum_votes_select_thresholds listQueue _ 50 (by decide) (by decide)⟩

/-- The queue of lists, a new queue empty and an insert appending its entry. -/
def listPriorityQueue : PriorityQueue (List (Nat × Nat)) where
  toPriorityQueueOps := listQueue
  new := []
  insert q priority value := q ++ [(priority, value)]
  entries_new := rfl
  entries_insert _ _ _ := List.perm_append_singleton _ _

end Walrus.Staking
