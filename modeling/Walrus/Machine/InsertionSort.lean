import Walrus.Machine.Vector

/-! # Insertion sort by neighbour swaps

The sort of the Walrus contracts: each entry from the second on moves towards the front,
swapping with its left neighbour while that neighbour has a greater key. The inner loop on a
list whose first `j` entries are `a` inserts the entry at `j` into `a` from the right
(`siftDown_append`), so each round extends the sorted prefix by one entry, and the result is
a permutation of the input sorted by key.
-/

namespace Machine

variable {α : Type*} (key : α → Nat)

/-- The inner loop: the entry at position `j` moves towards the front past every greater
key. -/
def siftDown : List α → Nat → List α
  | l, 0 => l
  | l, j + 1 =>
    match l[j]?, l[j + 1]? with
    | some y, some x => if key y > key x then siftDown (swap l j (j + 1)) j else l
    | _, _ => l

/-- The sort: every position from `1` on is sifted in turn. -/
def insertionSort (l : List α) : List α :=
  if l.length ≤ 1 then l else (List.range' 1 (l.length - 1)).foldl (siftDown key) l

/-- What the inner loop computes, on the prefix read backwards: `x` goes past the leading
entries with a greater key. -/
def insertRev : List α → α → List α
  | [], x => [x]
  | y :: ys, x => if key y > key x then y :: insertRev ys x else x :: y :: ys

/-- A list sorted by key. -/
def SortedBy (l : List α) : Prop :=
  l.Pairwise fun a b => key a ≤ key b

variable {key}

theorem siftDown_append (x : α) :
    ∀ (rev r : List α), siftDown key (rev.reverse ++ x :: r) rev.length =
      (insertRev key rev x).reverse ++ r
  | [], r => by simp [siftDown, insertRev]
  | y :: ys, r => by
    have hy : (ys.reverse ++ y :: x :: r)[ys.length]? = some y := by
      simp
    have hx : (ys.reverse ++ y :: x :: r)[ys.length + 1]? = some x := by
      simp
    have hl : (y :: ys).reverse ++ x :: r = ys.reverse ++ y :: x :: r := by simp
    rw [hl, List.length_cons, siftDown, hy, hx]
    simp only [insertRev]
    by_cases hyx : key y > key x
    · -- `y` moves one place to the right and `x` continues left
      rw [if_pos hyx, if_pos hyx, ← List.length_reverse, swap_append, List.length_reverse,
        siftDown_append x ys (y :: r)]
      simp
    · rw [if_neg hyx, if_neg hyx]
      simp

theorem insertRev_perm (x : α) : ∀ rev : List α, (insertRev key rev x).Perm (x :: rev)
  | [] => List.Perm.refl _
  | y :: ys => by
    unfold insertRev
    split
    · exact ((insertRev_perm x ys).cons y).trans (List.Perm.swap x y ys)
    · exact List.Perm.refl _

/-- Inserting into a prefix sorted backwards keeps it sorted backwards. -/
theorem insertRev_sorted (x : α) :
    ∀ rev : List α, rev.Pairwise (fun a b => key b ≤ key a) →
      (insertRev key rev x).Pairwise (fun a b => key b ≤ key a)
  | [], _ => List.pairwise_singleton _ _
  | y :: ys, h => by
    obtain ⟨hy, hys⟩ := List.pairwise_cons.mp h
    unfold insertRev
    split
    · rename_i hyx
      refine List.pairwise_cons.mpr ⟨fun b hb => ?_, insertRev_sorted x ys hys⟩
      rcases List.mem_cons.mp ((insertRev_perm x ys).subset hb) with rfl | hb'
      · omega
      · exact hy b hb'
    · rename_i hyx
      refine List.pairwise_cons.mpr ⟨fun b hb => ?_, h⟩
      rcases List.mem_cons.mp hb with rfl | hb'
      · omega
      · have := hy b hb'
        omega

/-- One round of the outer loop: the first `i` entries were sorted, now the first `i + 1`
are, and the list is the same up to order. -/
theorem siftDown_round {l : List α} {i : Nat} (hi : i < l.length)
    (hsorted : SortedBy key (l.take i)) :
    SortedBy key ((siftDown key l i).take (i + 1)) ∧ (siftDown key l i).Perm l ∧
      (siftDown key l i).length = l.length := by
  -- split the list at position `i`
  have hsplit : l = (l.take i).reverse.reverse ++ l[i] :: l.drop (i + 1) := by
    rw [List.reverse_reverse, ← List.drop_eq_getElem_cons hi, List.take_append_drop]
  have hlen : (l.take i).reverse.length = i := by simp; omega
  have hsift := @siftDown_append _ key l[i] (l.take i).reverse (l.drop (i + 1))
  rw [hlen, ← hsplit] at hsift
  have hperm : (insertRev key (l.take i).reverse l[i]).reverse.Perm (l.take i ++ [l[i]]) := by
    refine (List.reverse_perm _).trans ((insertRev_perm _ _).trans ?_)
    rw [List.perm_comm]
    exact List.perm_append_comm.trans (List.Perm.cons _ (List.reverse_perm _).symm)
  have hinslen : (insertRev key (l.take i).reverse l[i]).reverse.length = i + 1 := by
    rw [hperm.length_eq]
    simp
    omega
  rw [hsift]
  refine ⟨?_, ?_, ?_⟩
  · rw [List.take_append_of_le_length (by omega), List.take_of_length_le (by omega)]
    unfold SortedBy
    rw [List.pairwise_reverse]
    apply insertRev_sorted
    rw [List.pairwise_reverse]
    exact hsorted
  · conv_rhs => rw [hsplit, List.reverse_reverse]
    rw [List.append_cons]
    exact hperm.append_right _
  · rw [List.length_append, hinslen]
    simp
    omega

/-- The outer loop from position `i` on. -/
theorem foldl_siftDown :
    ∀ (m i : Nat) {l : List α}, 1 ≤ i → i + m = l.length → SortedBy key (l.take i) →
      SortedBy key ((List.range' i m).foldl (siftDown key) l) ∧
        ((List.range' i m).foldl (siftDown key) l).Perm l
  | 0, i, l, _, hm, hs => by
    simp only [Nat.add_zero] at hm
    subst hm
    simp only [List.range'_zero, List.foldl_nil]
    rw [List.take_length] at hs
    exact ⟨hs, List.Perm.refl _⟩
  | m + 1, i, l, hi, hm, hs => by
    rw [List.range'_succ, List.foldl_cons]
    obtain ⟨hs', hperm, hlen⟩ := @siftDown_round _ key l i (by omega) hs
    obtain ⟨hsorted, hperm'⟩ := foldl_siftDown m (i + 1) (by omega) (by omega) hs'
    exact ⟨hsorted, hperm'.trans hperm⟩

/-- The sort returns its input sorted by key. -/
theorem insertionSort_sorted_perm (l : List α) :
    SortedBy key (insertionSort key l) ∧ (insertionSort key l).Perm l := by
  unfold insertionSort
  split
  · rename_i hl
    refine ⟨?_, List.Perm.refl _⟩
    match l, hl with
    | [], _ => exact List.Pairwise.nil
    | [a], _ => exact List.pairwise_singleton _ a
  · rename_i hl
    apply foldl_siftDown (l.length - 1) 1 (Nat.le_refl 1) (by omega)
    match l, hl with
    | [], h => exact absurd (Nat.zero_le 1) h
    | a :: _, _ => exact List.pairwise_singleton _ a

end Machine
