import Mathlib
import Walrus.Staking.Apportionment
import Walrus.Machine.Heap

/-! # The apportionment queue and the D'Hondt loop

What `apportionment_queue` guarantees and what `dhondt` computes with it.

The queue is a binary max-heap under the order `higher_priority_than` compares in: the quotient
first, then the tie breaker (`Entry.key`). Both repairs keep heap order, `insert` adds its entry
and `pop_max` takes out an entry of the largest key; these are the rules of `Machine.Heap`
applied to `bubble_up` and `bubble_down`.

The loop of `dhondt` keeps two invariants. The queue holds, for each node below the cap, one
entry with the node's current quotient (`QueueInv`). The assignment is capped and in D'Hondt
order: a node holding a shard has a quotient `stake / shards` at least the next quotient
`stake / (shards + 1)` of any node below the cap, a tie going to the higher priority
(`DhondtOrder`). The Hagenbach-Bischoff start is in D'Hondt order, strictly, and each round
gives the shard to the largest next quotient. The fixed-point quotients compare exactly as the
fractions they stand for, since the denominators are small.

The loop runs `n_shards` minus the initial shards rounds, and each pops the queue; the source
reads the queue as never empty. That needs the cap to leave room for all shards,
`n_nodes * max_shards ≥ n_shards`, which holds unless the set has at least
`MIN_NODES_FOR_SHARDS_LIMIT` nodes and fewer than `SHARDS_LIMIT_DENOMINATOR` shards: there the
cap is zero and the first round pops the empty queue.
-/

namespace Walrus.Staking

open Machine Machine.Heap Walrus.System

/-! ## The order of the queue -/

/-- The order `higher_priority_than` compares in: the quotient, then the tie breaker. -/
def Entry.key (e : Entry) : Lex (Nat × Nat) := toLex (e.priority.raw, e.tieBreaker)

theorem Entry.higherPriorityThan_iff {e₁ e₂ : Entry} :
    e₁.higherPriorityThan e₂ = true ↔ e₂.key < e₁.key := by
  rcases e₁ with ⟨⟨q₁⟩, t₁, v₁⟩
  rcases e₂ with ⟨⟨q₂⟩, t₂, v₂⟩
  simp only [Entry.higherPriorityThan, Entry.key, Prod.Lex.toLex_lt_toLex, UQ64_64.mk.injEq]
  simp only [Bool.or_eq_true, decide_eq_true_eq, Bool.and_eq_true]
  constructor
  · rintro (h | ⟨h₁, h₂⟩)
    · exact .inl h
    · exact .inr ⟨h₁.symm, h₂⟩
  · rintro (h | ⟨h₁, h₂⟩)
    · exact .inl h
    · exact .inr ⟨h₁.symm, h₂⟩

namespace ApportionmentQueue

theorem higherAt_iff {elements : List Entry} {a b : Nat} :
    higherAt elements a b = true ↔
      ∃ x y, elements[a]? = some x ∧ elements[b]? = some y ∧ y.key < x.key := by
  unfold higherAt
  rcases elements[a]? with _ | x <;> rcases elements[b]? with _ | y <;>
    simp [Entry.higherPriorityThan_iff]

/-- Where `a` comes first, `b` is below it. -/
theorem below_of_higherAt {elements : List Entry} {a b : Nat}
    (h : higherAt elements a b = true) : Below Entry.key elements b a := by
  rcases higherAt_iff.mp h with ⟨x, y, hx, hy, hlt⟩
  intro y' x' hy' hx'
  rw [hx, Option.some.injEq] at hx'
  rw [hy, Option.some.injEq] at hy'
  rw [← hx', ← hy']
  exact le_of_lt hlt

/-- Where `a` does not come first, it is below `b`. -/
theorem below_of_not_higherAt {elements : List Entry} {a b : Nat}
    (h : higherAt elements a b = false) : Below Entry.key elements a b := by
  apply below_of_not_lt
  intro x y hx hy hlt
  have := higherAt_iff.mpr ⟨x, y, hx, hy, hlt⟩
  rw [h] at this
  cases this

/-- One comparison of `bubble_down` ends on a position that both compared positions are below. -/
theorem pickHigher_below (elements : List Entry) (candidate current : Nat) :
    Below Entry.key elements current (pickHigher elements candidate current) ∧
      Below Entry.key elements candidate (pickHigher elements candidate current) := by
  unfold pickHigher
  by_cases hc : (decide (candidate < elements.length) && higherAt elements candidate current) = true
  · rw [if_pos hc]
    simp only [Bool.and_eq_true, decide_eq_true_eq] at hc
    exact ⟨below_of_higherAt hc.2, Below.refl _ _⟩
  · rw [if_neg hc]
    refine ⟨Below.refl _ _, ?_⟩
    by_cases hlen : candidate < elements.length
    · -- in range and not first: the candidate is below the current position
      have hhigher : higherAt elements candidate current = false := by
        simpa [hlen] using hc
      exact below_of_not_higherAt hhigher
    · exact below_of_length_le (by omega)

theorem pickHigher_lt {elements : List Entry} {candidate current : Nat}
    (h : current < elements.length) : pickHigher elements candidate current < elements.length := by
  rcases pickHigher_cases elements candidate current with h₁ | ⟨h₁, h₂⟩
  · rw [h₁]
    exact h
  · rw [h₁]
    exact h₂

/-- `maxChild` picks, among `i` and its children, a position that all three are below. -/
theorem maxChild_spec {elements : List Entry} {i : Nat} (hi : i < elements.length) :
    Below Entry.key elements i (maxChild elements i) ∧
      ∀ c, IsChild c i → Below Entry.key elements c (maxChild elements i) := by
  unfold maxChild
  set left := pickHigher elements (i * 2 + 1) i with hleft
  have hleft_lt : left < elements.length := pickHigher_lt hi
  obtain ⟨hi_left, hc_left⟩ := pickHigher_below elements (i * 2 + 1) i
  obtain ⟨hleft_max, hc_max⟩ := pickHigher_below elements (i * 2 + 1 + 1) left
  refine ⟨hi_left.trans hleft_max hleft_lt, ?_⟩
  intro c hc
  rcases isChild_iff.mp hc with rfl | rfl
  · rw [show 2 * i + 1 = i * 2 + 1 by omega]
    exact hc_left.trans hleft_max hleft_lt
  · rw [show 2 * i + 2 = i * 2 + 1 + 1 by omega]
    exact hc_max

theorem maxChild_isChild {elements : List Entry} {i : Nat} (h : maxChild elements i ≠ i) :
    IsChild (maxChild elements i) i := by
  apply isChild_iff.mpr
  unfold maxChild at h ⊢
  rcases pickHigher_cases elements (i * 2 + 1) i with h₁ | ⟨h₁, -⟩ <;>
    rcases pickHigher_cases elements (i * 2 + 1 + 1) (pickHigher elements (i * 2 + 1) i) with
      h₂ | ⟨h₂, -⟩ <;>
    omega

/-- `bubble_down` from a position where the move down may start ends in heap order, with the
same entries. -/
theorem bubbleDown_spec (elements : List Entry) (i : Nat) (inv : DownInv Entry.key elements i) :
    IsHeap Entry.key (bubbleDown elements i) ∧ (bubbleDown elements i).Perm elements := by
  induction elements, i using bubbleDown.induct with
  | case1 elements i hi hmax =>
    -- the entry is above its children: done
    rw [bubbleDown, if_pos hi, dif_pos hmax]
    refine ⟨inv.isHeap fun c hc => ?_, List.Perm.refl _⟩
    have hc' := (maxChild_spec hi).2 c hc
    rwa [hmax] at hc'
  | case2 elements i hi hmax ih =>
    -- the larger child comes up and the move goes on from its position
    rw [bubbleDown, if_pos hi, dif_neg hmax]
    have hlt := (maxChild_lt hmax).2
    have hspec := maxChild_spec hi
    obtain ⟨hheap, hperm⟩ :=
      ih (inv.swap_child (maxChild_isChild hmax) hlt hspec.1 hspec.2)
    exact ⟨hheap, hperm.trans (swap_perm _ _ _)⟩
  | case3 elements i hi =>
    -- past the end: nothing below
    rw [bubbleDown, if_neg hi]
    refine ⟨inv.isHeap fun c hc => below_of_length_le ?_, List.Perm.refl _⟩
    have := hc.lt
    omega

/-- `bubble_up` from a position in range where the move up may start ends in heap order, with
the same entries. -/
theorem bubbleUp_spec (elements : List Entry) (i : Nat) (inv : UpInv Entry.key elements i)
    (hi : i < elements.length) :
    IsHeap Entry.key (bubbleUp elements i) ∧ (bubbleUp elements i).Perm elements := by
  induction elements, i using bubbleUp.induct with
  | case1 elements i hpos hhigher ih =>
    -- the entry is above its parent: they swap and the move goes on from the parent
    rw [bubbleUp, if_pos hpos, if_pos hhigher]
    have hp : parent i < i := parent_lt hpos
    obtain ⟨hheap, hperm⟩ := ih (inv.swap_parent hpos hi (below_of_higherAt hhigher))
      (by rw [length_swap]; exact Nat.lt_trans hp hi)
    exact ⟨hheap, hperm.trans (swap_perm _ _ _)⟩
  | case2 elements i hpos hhigher =>
    rw [bubbleUp, if_pos hpos, if_neg hhigher]
    have hnot : higherAt elements i ((i - 1) / 2) = false := by simpa using hhigher
    exact ⟨inv.isHeap (.inr (below_of_not_higherAt hnot)), List.Perm.refl _⟩
  | case3 elements i hpos =>
    rw [bubbleUp, if_neg hpos]
    exact ⟨inv.isHeap (.inl (by omega)), List.Perm.refl _⟩

/-- `insert` keeps heap order and adds its entry. -/
theorem insert_spec {pq : ApportionmentQueue} (h : IsHeap Entry.key pq.entries)
    (priority : UQ64_64) (tieBreaker value : Nat) :
    IsHeap Entry.key (pq.insert priority tieBreaker value).entries ∧
      (pq.insert priority tieBreaker value).entries.Perm
        (⟨priority, tieBreaker, value⟩ :: pq.entries) := by
  obtain ⟨hheap, hperm⟩ := bubbleUp_spec _ _ (h.upInv_concat ⟨priority, tieBreaker, value⟩)
    (by simp)
  exact ⟨hheap, hperm.trans (List.perm_append_singleton _ _)⟩

/-- `pop_max` on a heap takes out an entry of the largest key and leaves the others in heap
order. -/
theorem popMax_spec {pq : ApportionmentQueue} (h : IsHeap Entry.key pq.entries)
    (hne : pq.entries ≠ []) :
    ∃ e rest, pq.popMax = .ok (e, ⟨rest⟩) ∧ IsHeap Entry.key rest ∧
      (e :: rest).Perm pq.entries ∧ ∀ x ∈ pq.entries, x.key ≤ e.key := by
  rcases pq with ⟨entries⟩
  rcases entries with _ | ⟨x, xs⟩
  · exact absurd rfl hne
  have hroot := h.le_root (r := x) rfl
  have hlen : 0 < (x :: xs).length := by simp
  rcases List.eq_nil_or_concat xs with rfl | ⟨as, y, rfl⟩
  · -- a single entry: the queue is left empty
    refine ⟨x, [], ?_, fun c _ => below_of_length_le (by simp), List.Perm.refl _, hroot⟩
    simp [popMax, swapRemove, bubbleDown, pure, Except.pure]
  · -- the last entry takes the place of the root and moves down
    rw [List.concat_eq_append, ← List.cons_append] at h hroot ⊢
    have hswap : swapRemove (x :: (as ++ [y])) 0 = some (x, y :: as) :=
      swapRemove_concat (l := x :: as) y (by simp)
    have hagree : ∀ k z, 0 < k → (y :: as)[k]? = some z → ((x :: as) ++ [y])[k]? = some z := by
      intro k z hk hz
      rcases k with _ | k
      · omega
      have hks : k < as.length := by
        have := (List.getElem?_eq_some_iff.mp hz).1
        simp only [List.length_cons] at this
        omega
      rw [List.getElem?_append_left (by simp; omega)]
      simpa using hz
    obtain ⟨hheap, hperm⟩ := bubbleDown_spec (y :: as) 0 (h.downInv_zero hagree)
    refine ⟨x, bubbleDown (y :: as) 0, ?_, hheap, ?_, hroot⟩
    · simp [popMax, hswap, pure, Except.pure]
    · exact (hperm.trans (List.perm_append_singleton _ _).symm).cons x

theorem popMax_nil : (⟨[]⟩ : ApportionmentQueue).popMax = .error .popFromEmptyHeap := rfl

end ApportionmentQueue

/-! ## Fixed-point quotients -/

/-- Floors of two fractions scaled by `M` compare as the fractions do, where the product of the
denominators is at most `M`: two distinct fractions are then at least `1 / M` apart. -/
theorem mul_div_le_mul_div_iff {a b c d M : Nat} (hb : 0 < b) (hd : 0 < d) (hbd : b * d ≤ M) :
    a * M / b ≤ c * M / d ↔ a * d ≤ c * b := by
  constructor
  · intro h
    by_contra hlt
    have hlt : c * b + 1 ≤ a * d := by omega
    -- the floor of the larger fraction passes the floor of the smaller one by one at least
    have hfloor : c * M / d * d ≤ c * M := Nat.div_mul_le_self _ _
    have hstep : (c * M / d + 1) * b * d ≤ a * M * d := by
      calc (c * M / d + 1) * b * d = c * M / d * d * b + b * d := by ring
        _ ≤ c * M * b + M := by gcongr
        _ = M * (c * b + 1) := by ring
        _ ≤ M * (a * d) := by gcongr
        _ = a * M * d := by ring
    have hup : c * M / d + 1 ≤ a * M / b :=
      (Nat.le_div_iff_mul_le hb).mpr (Nat.le_of_mul_le_mul_right hstep hd)
    omega
  · intro h
    apply (Nat.le_div_iff_mul_le hd).mpr
    have hfloor : a * M / b * b ≤ a * M := Nat.div_mul_le_self _ _
    have hstep : a * M / b * d * b ≤ c * M * b := by
      calc a * M / b * d * b = a * M / b * b * d := by ring
        _ ≤ a * M * d := by gcongr
        _ = M * (a * d) := by ring
        _ ≤ M * (c * b) := by gcongr
        _ = c * M * b := by ring
    exact Nat.le_of_mul_le_mul_right hstep hb

/-- The raw value of `from_quotient(stake, shards + 1)`: the quotient with 64 fractional bits. -/
def quotientRaw (stake shards : Nat) : Nat := stake * 2 ^ 64 / (shards + 1)

/-- A node's quotient is computed without an abort. -/
theorem quotientOf_eq {stake shards : Nat} (hstake : stake ≤ u64Max) (hshards : shards < 2 ^ 64) :
    quotientOf stake shards = .ok ⟨quotientRaw stake shards⟩ := by
  unfold quotientOf UQ64_64.fromQuotient quotientRaw
  have hscale : stake * 2 ^ 128 / ((shards + 1) * 2 ^ 64) = stake * 2 ^ 64 / (shards + 1) := by
    rw [show stake * 2 ^ 128 = stake * 2 ^ 64 * 2 ^ 64 by ring]
    exact Nat.mul_div_mul_right _ _ (by positivity)
  have hpos : ¬(stake * 2 ^ 64 / (shards + 1) = 0 ∧ stake ≠ 0) := by
    rintro ⟨h0, hs⟩
    rw [Nat.div_eq_zero_iff] at h0
    have : 2 ^ 64 ≤ stake * 2 ^ 64 := Nat.le_mul_of_pos_left _ (Nat.pos_of_ne_zero hs)
    omega
  have hfit : ¬(stake * 2 ^ 64 / (shards + 1) > 2 ^ 128 - 1) := by
    have hle : stake * 2 ^ 64 / (shards + 1) ≤ stake * 2 ^ 64 := Nat.div_le_self _ _
    have : stake * 2 ^ 64 ≤ u64Max * 2 ^ 64 := Nat.mul_le_mul_right _ hstake
    unfold u64Max at this
    omega
  simp only [Nat.add_one_ne_zero, if_false, hscale, hpos, hfit]
  rfl

/-- The quotients of two nodes holding at most `u16::MAX` shards compare as the fractions. -/
theorem quotientRaw_le_iff {a c s t : Nat} (hs : s ≤ u16Max) (ht : t ≤ u16Max) :
    quotientRaw a s ≤ quotientRaw c t ↔ a * (t + 1) ≤ c * (s + 1) := by
  unfold quotientRaw
  apply mul_div_le_mul_div_iff (by omega) (by omega)
  unfold u16Max at hs ht
  calc (s + 1) * (t + 1) ≤ 2 ^ 16 * 2 ^ 16 := Nat.mul_le_mul (by omega) (by omega)
    _ ≤ 2 ^ 64 := by norm_num

/-! ## The queue of the loop -/

/-- The entry of node `j` while it holds `s` shards. -/
def nodeEntry (stake priorities : List Nat) (j s : Nat) : Entry :=
  ⟨⟨quotientRaw (stake.getD j 0) s⟩, priorities.getD j 0, j⟩

@[simp] theorem nodeEntry_value (stake priorities : List Nat) (j s : Nat) :
    (nodeEntry stake priorities j s).value = j := rfl

/-- Two entries of the loop compare by the fractions, then by the priorities. -/
theorem nodeEntry_key_le_iff {stake priorities : List Nat} {j k sj sk : Nat} (hj : sj ≤ u16Max)
    (hk : sk ≤ u16Max) :
    (nodeEntry stake priorities j sj).key ≤ (nodeEntry stake priorities k sk).key ↔
      stake.getD j 0 * (sk + 1) < stake.getD k 0 * (sj + 1) ∨
        stake.getD j 0 * (sk + 1) = stake.getD k 0 * (sj + 1) ∧
          priorities.getD j 0 ≤ priorities.getD k 0 := by
  unfold Entry.key nodeEntry
  rw [Prod.Lex.toLex_le_toLex]
  dsimp only
  have hjk := quotientRaw_le_iff (a := stake.getD j 0) (c := stake.getD k 0) hj hk
  have hkj := quotientRaw_le_iff (a := stake.getD k 0) (c := stake.getD j 0) hk hj
  constructor
  · rintro (h | ⟨h₁, h₂⟩)
    · exact .inl (by rw [← not_le, ← hkj]; omega)
    · exact .inr ⟨by have := hjk.mp h₁.le; have := hkj.mp h₁.ge; omega, h₂⟩
  · rintro (h | ⟨h₁, h₂⟩)
    · exact .inl (by rw [← not_le, hkj]; omega)
    · exact .inr ⟨le_antisymm (hjk.mpr h₁.le) (hkj.mpr h₁.ge), h₂⟩

/-- The queue of the loop: a heap that holds, for each node below the cap, one entry with the
node's current quotient and its priority. -/
structure QueueInv (stake priorities : List Nat) (maxShards : Nat) (shards : List Nat)
    (entries : List Entry) : Prop where
  heap : IsHeap Entry.key entries
  nodup : (entries.map Entry.value).Nodup
  mem : ∀ e, e ∈ entries ↔
    ∃ (j : Nat) (s : Nat), shards[j]? = some s ∧ s < maxShards ∧ e = nodeEntry stake priorities j s

section Queue

variable {stake priorities : List Nat} {maxShards : Nat}

/-- The queue depends only on the nodes below the cap. -/
theorem QueueInv.of_below {shards shards' : List Nat} {entries : List Entry}
    (inv : QueueInv stake priorities maxShards shards entries)
    (h : ∀ (j : Nat) s, s < maxShards → (shards[j]? = some s ↔ shards'[j]? = some s)) :
    QueueInv stake priorities maxShards shards' entries := by
  refine ⟨inv.heap, inv.nodup, fun e => ?_⟩
  rw [inv.mem e]
  constructor
  · rintro ⟨j, s, hj, hs, rfl⟩
    exact ⟨j, s, (h j s hs).mp hj, hs, rfl⟩
  · rintro ⟨j, s, hj, hs, rfl⟩
    exact ⟨j, s, (h j s hs).mpr hj, hs, rfl⟩

/-- `pop_max` takes out the entry of a node below the cap with the largest quotient, and the
queue is then the one of the same assignment with that node at the cap. -/
theorem QueueInv.popMax {shards : List Nat} {entries : List Entry}
    (inv : QueueInv stake priorities maxShards shards entries) (hne : entries ≠ []) :
    ∃ k s rest, shards[k]? = some s ∧ s < maxShards ∧
      ApportionmentQueue.popMax ⟨entries⟩ = .ok (nodeEntry stake priorities k s, ⟨rest⟩) ∧
      QueueInv stake priorities maxShards (shards.set k maxShards) rest ∧
      ∀ (j : Nat) sj, shards[j]? = some sj → sj < maxShards →
        (nodeEntry stake priorities j sj).key ≤ (nodeEntry stake priorities k s).key := by
  obtain ⟨e, rest, hpop, hheap, hperm, hmax⟩ := ApportionmentQueue.popMax_spec inv.heap hne
  obtain ⟨k, s, hk, hs, rfl⟩ := (inv.mem e).mp (hperm.subset List.mem_cons_self)
  have hklen : k < shards.length := (List.getElem?_eq_some_iff.mp hk).1
  -- the popped node has no other entry
  have hnodup := (hperm.map Entry.value).nodup_iff.mpr inv.nodup
  rw [List.map_cons, List.nodup_cons] at hnodup
  have hnot : ∀ x ∈ rest, x.value ≠ k := by
    intro x hx hxk
    exact hnodup.1 (by rw [nodeEntry_value, ← hxk]; exact List.mem_map_of_mem hx)
  refine ⟨k, s, rest, hk, hs, hpop, ⟨hheap, hnodup.2, fun x => ?_⟩,
    fun j sj hj hsj => hmax _ ((inv.mem _).mpr ⟨j, sj, hj, hsj, rfl⟩)⟩
  constructor
  · intro hx
    obtain ⟨j, sj, hj, hsj, rfl⟩ := (inv.mem x).mp (hperm.subset (List.mem_cons_of_mem _ hx))
    have hjk : j ≠ k := hnot _ hx
    exact ⟨j, sj, by rw [List.getElem?_set_ne (Ne.symm hjk)]; exact hj, hsj, rfl⟩
  · rintro ⟨j, sj, hj, hsj, rfl⟩
    have hjk : j ≠ k := by
      rintro rfl
      rw [List.getElem?_set_self hklen, Option.some.injEq] at hj
      omega
    rw [List.getElem?_set_ne (Ne.symm hjk)] at hj
    rcases List.mem_cons.mp (hperm.symm.subset ((inv.mem _).mpr ⟨j, sj, hj, hsj, rfl⟩)) with
      h | h
    · exact absurd (congrArg Entry.value h) hjk
    · exact h

/-- `insert` of a node's entry, from the queue of the assignment with the node at the cap, gives
the queue of the assignment with the node's new count. -/
theorem QueueInv.insert {shards : List Nat} {entries : List Entry} {k s : Nat}
    (inv : QueueInv stake priorities maxShards (shards.set k maxShards) entries)
    (hk : k < shards.length) (hs : s < maxShards) :
    QueueInv stake priorities maxShards (shards.set k s)
      (ApportionmentQueue.insert ⟨entries⟩ ⟨quotientRaw (stake.getD k 0) s⟩
        (priorities.getD k 0) k).entries := by
  obtain ⟨hheap, hperm⟩ := @ApportionmentQueue.insert_spec ⟨entries⟩ inv.heap
    ⟨quotientRaw (stake.getD k 0) s⟩ (priorities.getD k 0) k
  -- no other entry of the node is in the queue
  have hnot : ∀ x ∈ entries, x.value ≠ k := by
    intro x hx hxk
    obtain ⟨j, sj, hj, hsj, rfl⟩ := (inv.mem x).mp hx
    rw [nodeEntry_value] at hxk
    subst hxk
    rw [List.getElem?_set_self hk, Option.some.injEq] at hj
    omega
  refine ⟨hheap, (hperm.map Entry.value).nodup_iff.mpr ?_, fun x => ?_⟩
  · rw [List.map_cons, List.nodup_cons]
    refine ⟨fun hmem => ?_, inv.nodup⟩
    obtain ⟨x, hx, hxk⟩ := List.mem_map.mp hmem
    exact hnot x hx hxk
  · rw [hperm.mem_iff, List.mem_cons]
    constructor
    · rintro (rfl | hx)
      · exact ⟨k, s, List.getElem?_set_self hk, hs, rfl⟩
      · obtain ⟨j, sj, hj, hsj, rfl⟩ := (inv.mem x).mp hx
        have hjk : j ≠ k := hnot _ hx
        rw [List.getElem?_set_ne (Ne.symm hjk)] at hj
        exact ⟨j, sj, by rw [List.getElem?_set_ne (Ne.symm hjk)]; exact hj, hsj, rfl⟩
    · rintro ⟨j, sj, hj, hsj, rfl⟩
      by_cases hjk : j = k
      · subst hjk
        rw [List.getElem?_set_self hk, Option.some.injEq] at hj
        subst hj
        exact .inl rfl
      · rw [List.getElem?_set_ne (Ne.symm hjk)] at hj
        refine .inr ((inv.mem _).mpr ⟨j, sj, ?_, hsj, rfl⟩)
        rw [List.getElem?_set_ne (Ne.symm hjk)]
        exact hj

end Queue

/-! ## D'Hondt order -/

/-- The assignment is in D'Hondt order: a node holding a shard has a quotient `stake / shards`
at least the next quotient `stake / (shards + 1)` of every node below the cap, compared as
fractions, and where the two are equal between two nodes the one holding the shard has the
higher priority. -/
def DhondtOrder (stake priorities : List Nat) (maxShards : Nat) (shards : List Nat) : Prop :=
  ∀ (i j si sj : Nat), shards[i]? = some si → shards[j]? = some sj → 0 < si → sj < maxShards →
    stake.getD j 0 * si ≤ stake.getD i 0 * (sj + 1) ∧
      (i ≠ j → stake.getD j 0 * si = stake.getD i 0 * (sj + 1) →
        priorities.getD j 0 < priorities.getD i 0)

/-- What the loop keeps of the assignment: a count per node, none above the cap, in D'Hondt
order. -/
structure AssignInv (stake priorities : List Nat) (maxShards : Nat) (shards : List Nat) :
    Prop where
  length : shards.length = stake.length
  capped : ∀ (j s : Nat), shards[j]? = some s → s ≤ maxShards
  order : DhondtOrder stake priorities maxShards shards

section Order

variable {stake priorities : List Nat} {maxShards : Nat}

/-- The Hagenbach-Bischoff start is in D'Hondt order, strictly: a node's share times the
distribution number is at most its stake, and below the cap a node's stake is less than the
distribution number times its share plus one. -/
theorem dhondtOrder_initialShards (stake priorities : List Nat) (nShards maxShards : Nat) :
    DhondtOrder stake priorities maxShards (initialShards stake stake.sum nShards maxShards) := by
  intro i j si sj hi hj hsi hsj
  set d := stake.sum / (nShards + 1) + 1 with hd
  have hdpos : 0 < d := Nat.succ_pos _
  unfold initialShards at hi hj
  rw [List.getElem?_map] at hi hj
  rcases hsti : stake[i]? with _ | sti
  · rw [hsti] at hi
    cases hi
  rcases hstj : stake[j]? with _ | stj
  · rw [hstj] at hj
    cases hj
  rw [hsti, Option.map_some, Option.some.injEq, ← hd] at hi
  rw [hstj, Option.map_some, Option.some.injEq, ← hd] at hj
  rw [List.getD_eq_getElem?_getD, List.getD_eq_getElem?_getD, hsti, hstj, Option.getD_some,
    Option.getD_some]
  -- the share of `i` takes no more than its stake
  have hshare : si * d ≤ sti := by
    have hle : si ≤ sti / d := by
      rw [← hi]
      exact Nat.min_le_left _ _
    exact (Nat.le_div_iff_mul_le hdpos).mp hle
  -- below the cap the share of `j` is the floor, and one more would cover its stake
  have hrest : stj < (sj + 1) * d := by
    have hfloor : stj / d = sj := by
      rcases le_total (stj / d) maxShards with hle | hle
      · rw [← hj, min_eq_left hle]
      · rw [min_eq_right hle] at hj
        omega
    exact (Nat.div_lt_iff_lt_mul hdpos).mp (by omega)
  have hstrict : stj * si < sti * (sj + 1) := by
    calc stj * si < (sj + 1) * d * si := Nat.mul_lt_mul_of_pos_right hrest hsi
      _ = (sj + 1) * (si * d) := by ring
      _ ≤ (sj + 1) * sti := Nat.mul_le_mul_left _ hshare
      _ = sti * (sj + 1) := by ring
  exact ⟨hstrict.le, fun _ heq => absurd heq (Nat.ne_of_lt hstrict)⟩

/-- The round's step on the assignment: the node with the largest next quotient gets the shard,
and the assignment stays in D'Hondt order. -/
theorem DhondtOrder.award {shards : List Nat} {k s : Nat}
    (hord : DhondtOrder stake priorities maxShards shards) (hk : shards[k]? = some s)
    (hs : s < maxShards)
    (hmax : ∀ (j sj : Nat), shards[j]? = some sj → sj < maxShards →
      (nodeEntry stake priorities j sj).key ≤ (nodeEntry stake priorities k s).key)
    (hfit : ∀ (j sj : Nat), shards[j]? = some sj → sj ≤ u16Max)
    (hprio : ∀ i j, i < shards.length → j < shards.length →
      priorities.getD i 0 = priorities.getD j 0 → i = j) :
    DhondtOrder stake priorities maxShards (shards.set k (s + 1)) := by
  have hklen : k < shards.length := (List.getElem?_eq_some_iff.mp hk).1
  intro i j si sj hi hj hsi hsj
  by_cases hik : i = k <;> by_cases hjk : j = k
  · -- the node that gained the shard, against itself
    subst hik hjk
    rw [List.getElem?_set_self hklen, Option.some.injEq] at hi hj
    subst hi hj
    exact ⟨Nat.mul_le_mul_left _ (by omega), fun h => absurd rfl h⟩
  · -- the node that gained the shard had the largest next quotient
    subst hik
    rw [List.getElem?_set_self hklen, Option.some.injEq] at hi
    rw [List.getElem?_set_ne (Ne.symm hjk)] at hj
    subst hi
    have hjlen : j < shards.length := (List.getElem?_eq_some_iff.mp hj).1
    have hpne : priorities.getD j 0 ≠ priorities.getD i 0 :=
      fun h => hjk (hprio j i hjlen hklen h)
    rcases (nodeEntry_key_le_iff (hfit j sj hj) (hfit i s hk)).mp (hmax j sj hj hsj) with
      hlt | ⟨heq, hp⟩
    · exact ⟨hlt.le, fun _ heq => absurd heq (Nat.ne_of_lt hlt)⟩
    · exact ⟨heq.le, fun _ _ => lt_of_le_of_ne hp hpne⟩
  · -- a node holding a shard, against the node that gained one
    subst hjk
    rw [List.getElem?_set_ne (Ne.symm hik)] at hi
    rw [List.getElem?_set_self hklen, Option.some.injEq] at hj
    subst hj
    obtain ⟨hold, htie⟩ := hord i j si s hi hk hsi hs
    have hmono : stake.getD i 0 * (s + 1) ≤ stake.getD i 0 * (s + 1 + 1) :=
      Nat.mul_le_mul_left _ (by omega)
    -- a tie now is one where the stake of `i` is zero, and the old pair was tied as well
    have hsplit : stake.getD i 0 * (s + 1 + 1) = stake.getD i 0 * (s + 1) + stake.getD i 0 := by
      ring
    exact ⟨hold.trans hmono, fun hij _ => htie hij (by omega)⟩
  · rw [List.getElem?_set_ne (Ne.symm hik)] at hi
    rw [List.getElem?_set_ne (Ne.symm hjk)] at hj
    exact hord i j si sj hi hj hsi hsj

end Order

/-! ## The loop -/

section Loop

variable {stake priorities : List Nat} {maxShards : Nat}

/-- The queue is not empty while the cap leaves room for another shard: some node is below the
cap, else the shards would fill every node. -/
theorem QueueInv.ne_nil {shards : List Nat} {entries : List Entry}
    (inv : QueueInv stake priorities maxShards shards entries)
    (hroom : shards.sum < shards.length * maxShards) : entries ≠ [] := by
  have hbelow : ∃ (j s : Nat), shards[j]? = some s ∧ s < maxShards := by
    by_contra hnone
    have hall : ∀ x ∈ shards, maxShards ≤ x := by
      intro x hx
      obtain ⟨j, hj, rfl⟩ := List.getElem_of_mem hx
      by_contra hlt
      exact hnone ⟨j, _, List.getElem?_eq_getElem hj, by omega⟩
    have hfill := List.card_nsmul_le_sum shards maxShards hall
    rw [smul_eq_mul] at hfill
    omega
  obtain ⟨j, s, hj, hs⟩ := hbelow
  intro hnil
  have hmem := (inv.mem (nodeEntry stake priorities j s)).mpr ⟨j, s, hj, hs, rfl⟩
  rw [hnil] at hmem
  cases hmem

/-- A node that gains a shard goes back into the queue with its next quotient, unless it
reached the cap. -/
theorem requeue_nodeEntry {pq : ApportionmentQueue} {k s : Nat} (hk : k < stake.length)
    (hstake : ∀ st ∈ stake, st ≤ u64Max) (hs : s + 1 ≤ u16Max) :
    requeue stake maxShards pq (nodeEntry stake priorities k s) (s + 1) =
      .ok (if s + 1 = maxShards then pq
        else pq.insert ⟨quotientRaw (stake.getD k 0) (s + 1)⟩ (priorities.getD k 0) k) := by
  unfold requeue
  by_cases hcap : s + 1 = maxShards
  · rw [if_neg (not_not.mpr hcap), if_pos hcap]
    rfl
  · rw [if_pos hcap, if_neg hcap, nodeEntry_value, List.getElem?_eq_getElem hk]
    have hq : quotientOf stake[k] (s + 1) = .ok ⟨quotientRaw stake[k] (s + 1)⟩ :=
      quotientOf_eq (hstake _ (List.getElem_mem hk)) (by unfold u16Max at hs; omega)
    simp only [hq, ok_bind, List.getD_eq_getElem?_getD, List.getElem?_eq_getElem hk,
      Option.getD_some]
    rfl

/-- Giving node `k` one more shard adds one to the total. -/
theorem sum_set_succ {shards : List Nat} {k s : Nat} (hk : shards[k]? = some s) :
    (shards.set k (s + 1)).sum = shards.sum + 1 := by
  obtain ⟨hklen, hget⟩ := List.getElem?_eq_some_iff.mp hk
  have hset := sum_map_set id shards k (s + 1) hklen
  simp only [List.map_id_fun, id_eq, hget] at hset
  omega

/-- One round of the loop: the node at the top of the queue gets one more shard, and both
invariants hold again. -/
theorem dhondtLoop_succ {shards : List Nat} {pq : ApportionmentQueue}
    (hstake : ∀ st ∈ stake, st ≤ u64Max)
    (hprio : ∀ i j, i < stake.length → j < stake.length →
      priorities.getD i 0 = priorities.getD j 0 → i = j)
    (inv : QueueInv stake priorities maxShards shards pq.entries)
    (assign : AssignInv stake priorities maxShards shards)
    (hfit : shards.sum < u16Max) (hroom : shards.sum < stake.length * maxShards) :
    ∃ k s pq', shards[k]? = some s ∧
      QueueInv stake priorities maxShards (shards.set k (s + 1)) pq'.entries ∧
      AssignInv stake priorities maxShards (shards.set k (s + 1)) ∧
      ∀ rounds, dhondtLoop stake maxShards (rounds + 1) shards pq =
        dhondtLoop stake maxShards rounds (shards.set k (s + 1)) pq' := by
  rcases pq with ⟨entries⟩
  have hne := inv.ne_nil (by rw [assign.length]; exact hroom)
  obtain ⟨k, s, rest, hk, hs, hpop, hrest, hmax⟩ := inv.popMax hne
  have hklen : k < shards.length := (List.getElem?_eq_some_iff.mp hk).1
  have hcount : ∀ (j sj : Nat), shards[j]? = some sj → sj ≤ shards.sum :=
    fun j sj hj => List.le_sum_of_mem (List.mem_of_getElem? hj)
  -- the queue after the round: the node back in with its next quotient, below the cap
  have hinv : QueueInv stake priorities maxShards (shards.set k (s + 1))
      (if s + 1 = maxShards then (⟨rest⟩ : ApportionmentQueue)
        else ApportionmentQueue.insert ⟨rest⟩ ⟨quotientRaw (stake.getD k 0) (s + 1)⟩
          (priorities.getD k 0) k).entries := by
    by_cases hcap : s + 1 = maxShards
    · rw [if_pos hcap, hcap]
      exact hrest
    · rw [if_neg hcap]
      exact hrest.insert hklen (by omega)
  have hassign : AssignInv stake priorities maxShards (shards.set k (s + 1)) := by
    refine ⟨by rw [List.length_set, assign.length], fun j sj hj => ?_, ?_⟩
    · by_cases hjk : j = k
      · subst hjk
        rw [List.getElem?_set_self hklen, Option.some.injEq] at hj
        omega
      · rw [List.getElem?_set_ne (Ne.symm hjk)] at hj
        exact assign.capped j sj hj
    · refine assign.order.award hk hs hmax (fun j sj hj => ?_) (fun i j hi hj h => ?_)
      · have := hcount j sj hj
        omega
      · exact hprio i j (by rw [← assign.length]; exact hi) (by rw [← assign.length]; exact hj) h
  refine ⟨k, s, _, hk, hinv, hassign, fun rounds => ?_⟩
  have hreq : requeue stake maxShards ⟨rest⟩ (nodeEntry stake priorities k s) (s + 1) = _ :=
    requeue_nodeEntry (by rw [← assign.length]; exact hklen) hstake
      (by have := hcount k s hk; omega)
  have hadd : u64Add s 1 = .ok (s + 1) :=
    u64Add_eq_ok.mpr ⟨by have := hcount k s hk; unfold u16Max at hfit; unfold u64Max; omega, rfl⟩
  simp only [dhondtLoop, hpop, ok_bind, nodeEntry_value, hk, hadd, hreq]

/-- The loop, from both invariants and with room for its rounds under the cap and in `u16`,
runs every round and ends in an assignment that keeps the invariant and has only grown. -/
theorem dhondtLoop_spec (hstake : ∀ st ∈ stake, st ≤ u64Max)
    (hprio : ∀ i j, i < stake.length → j < stake.length →
      priorities.getD i 0 = priorities.getD j 0 → i = j) :
    ∀ (rounds : Nat) {shards : List Nat} {pq : ApportionmentQueue},
      QueueInv stake priorities maxShards shards pq.entries →
      AssignInv stake priorities maxShards shards →
      shards.sum + rounds ≤ u16Max → shards.sum + rounds ≤ stake.length * maxShards →
      ∃ result, dhondtLoop stake maxShards rounds shards pq = .ok result ∧
        AssignInv stake priorities maxShards result ∧
        ∀ (j a b : Nat), shards[j]? = some a → result[j]? = some b → a ≤ b
  | 0, shards, _, _, assign, _, _ =>
    ⟨shards, rfl, assign, fun j a b ha hb => by rw [ha, Option.some.injEq] at hb; omega⟩
  | rounds + 1, shards, pq, inv, assign, hfit, hroom => by
    obtain ⟨k, s, pq', hk, inv', assign', hrun⟩ :=
      dhondtLoop_succ hstake hprio inv assign (by omega) (by omega)
    have hsum := sum_set_succ hk
    obtain ⟨result, hres, hassign, hmono⟩ :=
      dhondtLoop_spec hstake hprio rounds inv' assign' (by omega) (by omega)
    refine ⟨result, by rw [hrun]; exact hres, hassign, fun j a b ha hb => ?_⟩
    -- the count of the node that gained the shard grew by one, the others stayed
    by_cases hjk : j = k
    · subst hjk
      rw [hk, Option.some.injEq] at ha
      have hklen : j < shards.length := (List.getElem?_eq_some_iff.mp hk).1
      have := hmono j (s + 1) b (List.getElem?_set_self hklen) hb
      omega
    · exact hmono j a b (by rw [List.getElem?_set_ne (Ne.symm hjk)]; exact ha) hb

end Loop

/-! ## The start -/

section Start

variable {stake priorities : List Nat} {maxShards : Nat}

/-- The empty queue is the queue of no nodes. -/
theorem queueInv_nil : QueueInv stake priorities maxShards [] [] :=
  ⟨fun _ _ => below_of_length_le (by simp), List.nodup_nil, fun e => by simp⟩

/-- The first `k + 1` nodes with node `k` at the cap have the same nodes below the cap as the
first `k`. -/
theorem take_succ_set_below (shards : List Nat) {k : Nat} (hk : k < shards.length) (j s : Nat)
    (hs : s < maxShards) :
    (shards.take k)[j]? = some s ↔ ((shards.take (k + 1)).set k maxShards)[j]? = some s := by
  by_cases hjk : j = k
  · subst hjk
    rw [List.getElem?_take_eq_none (Nat.le_refl _), List.getElem?_set_self (by simp; omega)]
    simp only [reduceCtorEq, false_iff, Option.some.injEq]
    omega
  · rw [List.getElem?_set_ne (Ne.symm hjk), List.getElem?_take, List.getElem?_take]
    by_cases hj : j < k
    · rw [if_pos hj, if_pos (by omega)]
    · rw [if_neg hj, if_neg (by omega)]

/-- The initial queue holds each node below the cap, with the quotient of its initial shards. -/
theorem initialQueue_spec {shards : List Nat} (hstake : ∀ st ∈ stake, st ≤ u64Max)
    (hplen : priorities.length = stake.length) (hlen : shards.length = stake.length)
    (hcap : ∀ (j s : Nat), shards[j]? = some s → s ≤ maxShards)
    (hfit : ∀ (j s : Nat), shards[j]? = some s → s ≤ u16Max) :
    ∃ pq, initialQueue priorities stake shards maxShards = .ok pq ∧
      QueueInv stake priorities maxShards shards pq.entries := by
  unfold initialQueue
  have h0 : QueueInv stake priorities maxShards (shards.take 0) ([] : List Entry) := by
    rw [List.take_zero]
    exact queueInv_nil
  -- the loop over the nodes: after `k` rounds, the queue of the first `k` nodes
  refine Exists.imp (fun pq h => ⟨h.1, ?_⟩)
    (@foldlM_range_invariant _ _ _
      (fun k (pq : ApportionmentQueue) =>
        QueueInv stake priorities maxShards (shards.take k) pq.entries) _ h0 _ ?_)
  · have hinv := h.2
    rw [List.take_of_length_le (by omega)] at hinv
    exact hinv
  intro k hk pq inv
  have hks : k < shards.length := by omega
  have hget : shards[k]? = some shards[k] := List.getElem?_eq_getElem hks
  have hle : shards[k] ≤ maxShards := hcap k _ hget
  by_cases hatcap : shards[k] = maxShards
  · -- a node at the cap stays out of the queue
    refine ⟨pq, ?_, inv.of_below fun j s hs => ?_⟩
    · simp only [hget, ne_eq, hatcap, not_true_eq_false, if_false]
      rfl
    · rw [take_succ_set_below shards hks j s hs, List.getElem?_set]
      by_cases hjk : k = j
      · subst hjk
        rw [if_pos rfl, if_pos (by simp; omega), List.getElem?_take_of_succ, hget, hatcap]
      · rw [if_neg hjk]
  · -- a node below the cap enters with its quotient and priority
    have hkp : k < priorities.length := by omega
    have hq : quotientOf stake[k] shards[k] = .ok ⟨quotientRaw stake[k] shards[k]⟩ :=
      quotientOf_eq (hstake _ (List.getElem_mem hk))
        (by have := hfit k _ hget; unfold u16Max at this; omega)
    refine ⟨pq.insert ⟨quotientRaw stake[k] shards[k]⟩ priorities[k] k, ?_, ?_⟩
    · simp only [hget, ne_eq, hatcap, not_false_eq_true, if_true, List.getElem?_eq_getElem hk,
        List.getElem?_eq_getElem hkp, hq, ok_bind]
      rfl
    · have hnext := (inv.of_below (take_succ_set_below shards hks)).insert (k := k)
        (s := shards[k]) (by simp; omega) (by omega)
      have hself : (shards.take (k + 1)).set k shards[k] = shards.take (k + 1) := by
        apply List.ext_getElem?
        intro j
        rw [List.getElem?_set]
        by_cases hjk : k = j
        · subst hjk
          rw [if_pos rfl, if_pos (by simp; omega), List.getElem?_take_of_succ, hget]
        · rw [if_neg hjk]
      rw [hself, List.getD_eq_getElem?_getD, List.getD_eq_getElem?_getD,
        List.getElem?_eq_getElem hk, List.getElem?_eq_getElem hkp, Option.getD_some,
        Option.getD_some] at hnext
      exact hnext

end Start

/-! ## `dhondt` -/

/-- The cap leaves room for every shard, unless the set is large and the shards few. -/
theorem maxShardsPerNode_room {nNodes nShards : Nat} (hn : 0 < nNodes)
    (h : 10 ≤ nShards ∨ nNodes < 20) :
    ∃ m, maxShardsPerNode nNodes nShards = .ok m ∧ nShards ≤ nNodes * m := by
  unfold maxShardsPerNode minNodesForShardsLimit shardsLimitDenominator
  by_cases hbig : nNodes ≥ 20
  · rw [if_pos hbig]
    refine ⟨nShards / 10, rfl, ?_⟩
    calc nShards ≤ 20 * (nShards / 10) := by omega
      _ ≤ nNodes * (nShards / 10) := Nat.mul_le_mul_right _ hbig
  · rw [if_neg hbig, divideAndRoundUp_eq (by omega)]
    refine ⟨divCeil (nShards * 20) (nNodes * 10), rfl, ?_⟩
    -- the rounded-up cap covers twice the even share
    have hcover := (le_mul_divCeil (nShards * 20) (b := nNodes * 10) (by omega)).1
    have hassoc : nNodes * 10 * divCeil (nShards * 20) (nNodes * 10) =
        10 * (nNodes * divCeil (nShards * 20) (nNodes * 10)) := by ring
    omega

/-- With at least `MIN_NODES_FOR_SHARDS_LIMIT` nodes and fewer than `SHARDS_LIMIT_DENOMINATOR`
shards the cap is zero. -/
theorem maxShardsPerNode_of_few_shards {nNodes nShards : Nat} (hn : 20 ≤ nNodes)
    (h : nShards < 10) : maxShardsPerNode nNodes nShards = .ok 0 := by
  unfold maxShardsPerNode minNodesForShardsLimit shardsLimitDenominator
  rw [if_pos hn, Nat.div_eq_of_lt h]
  rfl

/-- With room under the cap, `dhondt` does not abort: it returns an assignment of all
`n_shards` shards that is capped, in D'Hondt order, and only adds to the Hagenbach-Bischoff
start. -/
theorem dhondt_spec {priorities stake : List Nat} {nShards : Nat}
    (hplen : priorities.length = stake.length)
    (hprio : ∀ i j, i < stake.length → j < stake.length →
      priorities.getD i 0 = priorities.getD j 0 → i = j)
    (hshards : nShards ≤ u16Max) (hpos : 0 < stake.sum) (hsum : stake.sum ≤ u64Max)
    (hroom : 10 ≤ nShards ∨ stake.length < 20) :
    ∃ s maxShards, dhondt priorities nShards stake = .ok s ∧
      maxShardsPerNode stake.length nShards = .ok maxShards ∧
      AssignInv stake priorities maxShards s ∧ s.sum = nShards ∧
      ∀ (j a b : Nat), (initialShards stake stake.sum nShards maxShards)[j]? = some a →
        s[j]? = some b → a ≤ b := by
  have hn : 0 < stake.length := List.length_pos_of_ne_nil (by rintro rfl; simp at hpos)
  obtain ⟨maxShards, hmax, hcover⟩ := maxShardsPerNode_room hn hroom
  have hstake : ∀ st ∈ stake, st ≤ u64Max := fun st hst => (List.le_sum_of_mem hst).trans hsum
  -- the start: capped, in D'Hondt order, and at most `n_shards` shards
  have hle := sum_initialShards_le stake nShards maxShards
  have hlen : (initialShards stake stake.sum nShards maxShards).length = stake.length := by
    simp [initialShards]
  have hcap : ∀ (j s : Nat), (initialShards stake stake.sum nShards maxShards)[j]? = some s →
      s ≤ maxShards := by
    intro j s hj
    unfold initialShards at hj
    rw [List.getElem?_map] at hj
    obtain ⟨st, -, rfl⟩ := Option.map_eq_some_iff.mp hj
    exact Nat.min_le_right _ _
  have hcount : ∀ (j s : Nat), (initialShards stake stake.sum nShards maxShards)[j]? = some s →
      s ≤ u16Max :=
    fun j s hj => (List.le_sum_of_mem (List.mem_of_getElem? hj)).trans (hle.trans hshards)
  obtain ⟨pq, hpq, hinv⟩ := initialQueue_spec hstake hplen hlen hcap hcount
  -- the rounds
  obtain ⟨result, hloop, hres, hmono⟩ := dhondtLoop_spec hstake hprio
    (nShards - (initialShards stake stake.sum nShards maxShards).sum) hinv
    ⟨hlen, hcap, dhondtOrder_initialShards stake priorities nShards maxShards⟩
    (by omega) (by omega)
  have hrsum := (dhondtLoop_eq_ok stake maxShards _ hloop).1
  have hcast : result.mapM u16Cast = .ok result := by
    have hall : result.mapM u16Cast = .ok (result.map id) :=
      mapM_eq_ok fun x hx => u16Cast_eq_ok.mpr ⟨(List.le_sum_of_mem hx).trans (by omega), rfl⟩
    rwa [List.map_id] at hall
  refine ⟨result, maxShards, ?_, hmax, hres, by omega, hmono⟩
  have htotal := foldlM_u64Add_of_le stake (a := 0) (by simpa using hsum)
  have hdist := foldlM_u64Add_of_le (initialShards stake stake.sum nShards maxShards) (a := 0)
    (by unfold u16Max at hshards; unfold u64Max; omega)
  rw [Nat.zero_add] at htotal hdist
  unfold dhondt
  simp only [htotal, ok_bind, gt_iff_lt, hpos, hmax, hpq, hn.ne', hdist, hloop, hcast,
    if_false]
  rfl

/-- With at least `MIN_NODES_FOR_SHARDS_LIMIT` nodes and fewer than `SHARDS_LIMIT_DENOMINATOR`
shards, no node enters the queue and the first round pops the empty queue. -/
theorem dhondt_eq_error_of_few_shards {priorities stake : List Nat} {nShards : Nat}
    (hpos : 0 < stake.sum) (hsum : stake.sum ≤ u64Max) (hn : 20 ≤ stake.length)
    (hs : 0 < nShards) (h10 : nShards < 10) :
    dhondt priorities nShards stake = .error .popFromEmptyHeap := by
  have hzero : initialShards stake stake.sum nShards 0 = stake.map fun _ => 0 := by
    simp [initialShards]
  have hqueue : initialQueue priorities stake (stake.map fun _ => 0) 0 = .ok ⟨[]⟩ := by
    unfold initialQueue
    apply foldlM_range_eq_ok (F := fun _ => (⟨[]⟩ : ApportionmentQueue))
    intro k hk
    simp [hk, pure, Except.pure]
  have htotal := foldlM_u64Add_of_le stake (a := 0) (by simpa using hsum)
  have hdist : (stake.map fun _ => (0 : Nat)).foldlM u64Add 0 = .ok 0 := by
    have h := foldlM_u64Add_of_le (stake.map fun _ => (0 : Nat)) (a := 0) (by simp)
    simpa using h
  rw [Nat.zero_add] at htotal
  have hne : stake.length ≠ 0 := by omega
  obtain ⟨r, rfl⟩ := Nat.exists_eq_add_of_lt hs
  unfold dhondt
  simp only [htotal, ok_bind, gt_iff_lt, hpos, if_true, maxShardsPerNode_of_few_shards hn h10,
    hzero, hqueue, hdist, Nat.sub_zero, dhondtLoop, ApportionmentQueue.popMax_nil, error_bind]
  rw [if_neg hne]

/-! ## The apportionment's D'Hondt -/

/-- The priorities `apportionment` passes: the earlier node has the higher one. -/
theorem getD_priorities {n i : Nat} (hi : i < n) :
    ((List.range n).map fun i => n - i).getD i 0 = n - i := by
  simp [hi]

/-- `apportionment` of distinct nodes whose stakes have a positive total that fits in `u64`
succeeds, for at most `u16::MAX` shards and ten shards at least or fewer than twenty nodes;
every node it gives shards to is an active node. -/
theorem apportionment_isOk {nShards : Nat} {active : List (ObjectID × Nat)}
    (hids : (active.map Prod.fst).Nodup) (hshards : nShards ≤ u16Max)
    (hpos : 0 < (active.map Prod.snd).sum) (hsum : (active.map Prod.snd).sum ≤ u64Max)
    (hroom : 10 ≤ nShards ∨ active.length < 20) :
    ∃ distribution, apportionment nShards active = .ok distribution ∧
      ∀ k ∈ distribution.keys, k ∈ active.map Prod.fst := by
  have hprio : ∀ i j, i < (active.map Prod.snd).length → j < (active.map Prod.snd).length →
      ((List.range (active.map Prod.snd).length).map
          fun i => (active.map Prod.snd).length - i).getD i 0 =
        ((List.range (active.map Prod.snd).length).map
          fun i => (active.map Prod.snd).length - i).getD j 0 → i = j := by
    intro i j hi hj h
    rw [getD_priorities hi, getD_priorities hj] at h
    omega
  obtain ⟨shards, maxShards, hdhondt, -, hassign, -, -⟩ :=
    dhondt_spec (by simp) hprio hshards hpos hsum (by simpa using hroom)
  have hlen : (active.map Prod.fst).length = shards.length := by simp [hassign.length]
  -- the nodes are distinct, so each node with shards is added once
  obtain ⟨d, hd, hkeys⟩ := foldlM_addNonZero_isOk ((active.map Prod.fst).zip shards)
    (d := VecMap.empty) (by rwa [List.map_fst_zip (Nat.le_of_eq hlen)]) (fun _ _ => rfl)
  refine ⟨d, ?_, fun k hk => ?_⟩
  · unfold apportionment
    simp only [hdhondt, ok_bind]
    exact ite_throw_bind_eq_ok.mpr ⟨hlen, hd⟩
  · rcases hkeys k hk with hk | hk
    · cases hk
    · rwa [List.map_fst_zip (Nat.le_of_eq hlen)] at hk

/-- `dhondt` as `apportionment` calls it, for `1 ≤ n_shards ≤ u16::MAX` and stakes with a
positive total that fits in `u64`: with at least `MIN_NODES_FOR_SHARDS_LIMIT` nodes and fewer
than `SHARDS_LIMIT_DENOMINATOR` shards it aborts on the empty queue; otherwise it returns `n_shards`
shards, none above the cap and none below the Hagenbach-Bischoff start, in D'Hondt order with
ties to the earlier node. -/
theorem dhondt_capped_jefferson (stake : List Nat) (nShards : Nat)
    (hshards : 1 ≤ nShards ∧ nShards ≤ u16Max) (hstake : 0 < stake.sum ∧ stake.sum ≤ u64Max) :
    ((10 ≤ nShards ∨ stake.length < 20) →
      ∃ s maxShards,
        dhondt ((List.range stake.length).map fun i => stake.length - i) nShards stake = .ok s ∧
        maxShardsPerNode stake.length nShards = .ok maxShards ∧
        s.length = stake.length ∧ s.sum = nShards ∧
        (∀ (i si : Nat), s[i]? = some si →
          si ≤ maxShards ∧ (initialShards stake stake.sum nShards maxShards).getD i 0 ≤ si) ∧
        ∀ (i j si sj : Nat), s[i]? = some si → s[j]? = some sj → 0 < si → sj < maxShards →
          stake.getD j 0 * si ≤ stake.getD i 0 * (sj + 1) ∧
            (i ≠ j → stake.getD j 0 * si = stake.getD i 0 * (sj + 1) → i < j)) ∧
    (nShards < 10 → 20 ≤ stake.length →
      dhondt ((List.range stake.length).map fun i => stake.length - i) nShards stake =
        .error .popFromEmptyHeap) := by
  refine ⟨fun hroom => ?_,
    fun h10 hn => dhondt_eq_error_of_few_shards hstake.1 hstake.2 hn hshards.1 h10⟩
  have hprio : ∀ i j, i < stake.length → j < stake.length →
      ((List.range stake.length).map fun i => stake.length - i).getD i 0 =
        ((List.range stake.length).map fun i => stake.length - i).getD j 0 → i = j := by
    intro i j hi hj h
    rw [getD_priorities hi, getD_priorities hj] at h
    omega
  obtain ⟨s, maxShards, hrun, hmax, hassign, hsum, hmono⟩ :=
    dhondt_spec (by simp) hprio hshards.2 hstake.1 hstake.2 hroom
  refine ⟨s, maxShards, hrun, hmax, hassign.length, hsum, fun i si hi => ?_,
    fun i j si sj hi hj hsi hsj => ?_⟩
  · -- the count of node `i` is capped and grew from its start
    have hilen : i < stake.length := by
      rw [← hassign.length]
      exact (List.getElem?_eq_some_iff.mp hi).1
    have hinit : (initialShards stake stake.sum nShards maxShards)[i]? =
        some ((initialShards stake stake.sum nShards maxShards).getD i 0) := by
      rw [List.getD_eq_getElem?_getD, List.getElem?_eq_getElem (by simp [initialShards, hilen])]
      rfl
    exact ⟨hassign.capped i si hi, hmono i _ si hinit hi⟩
  · -- the D'Hondt order, with the priorities read as positions
    have hilen : i < stake.length := by
      rw [← hassign.length]
      exact (List.getElem?_eq_some_iff.mp hi).1
    have hjlen : j < stake.length := by
      rw [← hassign.length]
      exact (List.getElem?_eq_some_iff.mp hj).1
    obtain ⟨hle, htie⟩ := hassign.order i j si sj hi hj hsi hsj
    refine ⟨hle, fun hij heq => ?_⟩
    have hp := htie hij heq
    rw [getD_priorities hilen, getD_priorities hjlen] at hp
    omega

/-- Three nodes and ten shards: every hypothesis holds. -/
theorem dhondt_capped_jefferson_three_nodes :
    (1 ≤ 10 ∧ 10 ≤ u16Max) ∧ (0 < [1, 2, 3].sum ∧ [1, 2, 3].sum ≤ u64Max) ∧
    ((10 ≤ 10 ∨ [1, 2, 3].length < 20) →
      ∃ s maxShards,
        dhondt ((List.range [1, 2, 3].length).map fun i => [1, 2, 3].length - i) 10 [1, 2, 3] =
          .ok s ∧
        maxShardsPerNode [1, 2, 3].length 10 = .ok maxShards ∧
        s.length = [1, 2, 3].length ∧ s.sum = 10 ∧
        (∀ (i si : Nat), s[i]? = some si →
          si ≤ maxShards ∧ (initialShards [1, 2, 3] [1, 2, 3].sum 10 maxShards).getD i 0 ≤ si) ∧
        ∀ (i j si sj : Nat), s[i]? = some si → s[j]? = some sj → 0 < si → sj < maxShards →
          [1, 2, 3].getD j 0 * si ≤ [1, 2, 3].getD i 0 * (sj + 1) ∧
            (i ≠ j → [1, 2, 3].getD j 0 * si = [1, 2, 3].getD i 0 * (sj + 1) → i < j)) ∧
    (10 < 10 → 20 ≤ [1, 2, 3].length →
      dhondt ((List.range [1, 2, 3].length).map fun i => [1, 2, 3].length - i) 10 [1, 2, 3] =
        .error .popFromEmptyHeap) :=
  ⟨⟨by decide, by decide⟩, ⟨by decide, by decide⟩,
    dhondt_capped_jefferson [1, 2, 3] 10 ⟨by decide, by decide⟩ ⟨by decide, by decide⟩⟩

/-- Twenty nodes of equal stake and one shard, as `apportionment` calls `dhondt`: the cap is
`1 / 10 = 0`, no node enters the queue, and the round for the one shard pops the empty queue. -/
theorem dhondt_aborts_for_one_shard_among_twenty :
    0 < (List.replicate 20 1).sum ∧ (List.replicate 20 1).length ≤ 111 ∧
      dhondt ((List.range (List.replicate 20 1).length).map
          fun i => (List.replicate 20 1).length - i) 1 (List.replicate 20 1) =
        .error .popFromEmptyHeap :=
  ⟨by decide, by decide,
    dhondt_eq_error_of_few_shards (by decide) (by decide) (by decide) (by decide) (by decide)⟩

end Walrus.Staking
