import Mathlib
import Walrus.Machine.Vector

/-! # Binary max-heaps in a vector

A max-heap kept in a list, the children of position `p` at `2 * p + 1` and `2 * p + 2`, ordered
by a key into a linear order. Both repairs of such a heap move one entry by swaps: up from the
back after a push, or down from the root after the root is replaced. Each has an invariant of the
position the moving entry has reached: every parent and child pair off that position is in
order, and the children of the position are at most its parent. One swap keeps it (the step
lemmas), it is heap order where the repair stops (the finish lemmas), and it holds where the
repair starts (the start lemmas). The root of a heap has the largest key.
-/

namespace Machine.Heap

variable {α β : Type*} [LinearOrder β] (key : α → β)

/-- The parent of a position other than the root. -/
def parent (i : Nat) : Nat := (i - 1) / 2

/-- `c` is a child of `p`. The root is nobody's child, although `parent 0 = 0`. -/
def IsChild (c p : Nat) : Prop := 0 < c ∧ parent c = p

/-- The entry at `c` is at most the entry at `p`, where both are present. -/
def Below (l : List α) (c p : Nat) : Prop :=
  ∀ x y, l[c]? = some x → l[p]? = some y → key x ≤ key y

/-- Heap order: every entry is at most its parent. -/
def IsHeap (l : List α) : Prop := ∀ c, 0 < c → Below key l c (parent c)

/-- Moving up from `i`: every pair off the edge above `i` is in order, and the children of `i`
are at most the parent of `i`. -/
structure UpInv (l : List α) (i : Nat) : Prop where
  below : ∀ c, 0 < c → c ≠ i → Below key l c (parent c)
  grand : 0 < i → ∀ c, IsChild c i → Below key l c (parent i)

/-- Moving down from `i`: every pair off the edges below `i` is in order, and the children of
`i` are at most the parent of `i`. -/
structure DownInv (l : List α) (i : Nat) : Prop where
  below : ∀ c, 0 < c → parent c ≠ i → Below key l c (parent c)
  grand : 0 < i → ∀ c, IsChild c i → Below key l c (parent i)

variable {key}

/-! ## Positions -/

theorem parent_lt {i : Nat} (h : 0 < i) : parent i < i := by
  unfold parent
  omega

theorem IsChild.lt {c p : Nat} (h : IsChild c p) : p < c := by
  obtain ⟨hc, rfl⟩ := h
  exact parent_lt hc

theorem isChild_iff {c p : Nat} : IsChild c p ↔ c = 2 * p + 1 ∨ c = 2 * p + 2 := by
  unfold IsChild parent
  omega

/-! ## The order between two positions -/

theorem Below.refl (l : List α) (c : Nat) : Below key l c c := by
  intro x y hx hy
  rw [hx, Option.some.injEq] at hy
  rw [hy]

theorem Below.trans {l : List α} {a b c : Nat} (h₁ : Below key l a b) (h₂ : Below key l b c)
    (hb : b < l.length) : Below key l a c := by
  intro x z hx hz
  exact le_trans (h₁ x l[b] hx (List.getElem?_eq_getElem hb)) (h₂ l[b] z
    (List.getElem?_eq_getElem hb) hz)

/-- Past the end nothing is out of order. -/
theorem below_of_length_le {l : List α} {c p : Nat} (h : l.length ≤ c) : Below key l c p := by
  intro x y hx
  rw [List.getElem?_eq_none h] at hx
  cases hx

theorem below_of_not_lt {l : List α} {c p : Nat}
    (h : ∀ x y, l[c]? = some x → l[p]? = some y → ¬key y < key x) : Below key l c p :=
  fun x y hx hy => not_lt.mp (h x y hx hy)

/-! ## Moving up -/

/-- One step up: where the parent of `i` is below `i`, swapping them moves the invariant to the
parent. -/
theorem UpInv.swap_parent {l : List α} {i : Nat} (inv : UpInv key l i) (hi : 0 < i)
    (hlen : i < l.length) (hup : Below key l (parent i) i) :
    UpInv key (swap l i (parent i)) (parent i) := by
  have hp := parent_lt hi
  have hread := getElem?_swap (l := l) hlen (by omega : parent i < l.length)
  constructor
  case below =>
    intro c hc hcp x y hx hy
    by_cases hci : c = i
    · -- the edge the swap turned around
      subst hci
      rw [hread, if_neg (by omega), if_pos rfl] at hx
      rw [hread, if_pos rfl] at hy
      exact hup x y hx hy
    · rw [hread, if_neg hcp, if_neg hci] at hx
      by_cases hpi : parent c = i
      · -- a child of `i` now hangs below the old parent of `i`
        rw [hpi, hread, if_neg (by omega), if_pos rfl] at hy
        exact inv.grand hi c ⟨hc, hpi⟩ x y hx hy
      · by_cases hpp : parent c = parent i
        · -- a sibling of `i` now hangs below the entry that came up
          rw [hpp, hread, if_pos rfl] at hy
          have hc' := inv.below c hc hci
          rw [hpp] at hc'
          exact (hc'.trans hup (by omega)) x y hx hy
        · rw [hread, if_neg hpp, if_neg hpi] at hy
          exact inv.below c hc hci x y hx hy
  case grand =>
    intro hp0 c hc x y hx hy
    have hgp := parent_lt hp0
    rw [hread, if_neg (by omega), if_neg (by omega)] at hy
    have hedge := inv.below (parent i) hp0 (by omega)
    by_cases hci : c = i
    · subst hci
      rw [hread, if_neg (by omega), if_pos rfl] at hx
      exact hedge x y hx hy
    · rw [hread, if_neg (by have := hc.lt; omega), if_neg hci] at hx
      have hc' := inv.below c hc.1 hci
      rw [hc.2] at hc'
      exact (hc'.trans hedge (by omega)) x y hx hy

/-- Moving up stops at the root or below a larger parent, with the list in heap order. -/
theorem UpInv.isHeap {l : List α} {i : Nat} (inv : UpInv key l i)
    (h : i = 0 ∨ Below key l i (parent i)) : IsHeap key l := by
  intro c hc
  by_cases hci : c = i
  · subst hci
    rcases h with h | h
    · omega
    · exact h
  · exact inv.below c hc hci

/-- A push at the back of a heap starts the move up. -/
theorem IsHeap.upInv_concat {l : List α} (h : IsHeap key l) (x : α) :
    UpInv key (l ++ [x]) l.length := by
  constructor
  case below =>
    intro c hc hcl
    by_cases hlt : c < l.length
    · have hp := parent_lt hc
      intro a b ha hb
      rw [List.getElem?_append_left hlt] at ha
      rw [List.getElem?_append_left (by omega)] at hb
      exact h c hc a b ha hb
    · exact below_of_length_le (by simp; omega)
  case grand =>
    intro _ c hc
    exact below_of_length_le (by have := hc.lt; simp; omega)

/-! ## Moving down -/

/-- One step down: where `m` is the largest child of `i` and above `i`, swapping them moves the
invariant to `m`. -/
theorem DownInv.swap_child {l : List α} {i m : Nat} (inv : DownInv key l i) (hm : IsChild m i)
    (hmlen : m < l.length) (hdown : Below key l i m)
    (hmax : ∀ c, IsChild c i → Below key l c m) : DownInv key (swap l m i) m := by
  have him := hm.lt
  have hread := getElem?_swap (l := l) hmlen (by omega : i < l.length)
  constructor
  case below =>
    intro c hc hcm x y hx hy
    by_cases hcm' : c = m
    · -- the edge the swap turned around
      subst hcm'
      rw [hread, if_neg (by omega), if_pos rfl] at hx
      rw [hm.2, hread, if_pos rfl] at hy
      exact hdown x y hx hy
    · by_cases hci : c = i
      · -- the entry that came up now hangs below the parent of `i`
        subst hci
        have hp := parent_lt hc
        rw [hread, if_pos rfl] at hx
        rw [hread, if_neg (by omega), if_neg (by omega)] at hy
        exact inv.grand hc m hm x y hx hy
      · rw [hread, if_neg hci, if_neg hcm'] at hx
        by_cases hpi : parent c = i
        · -- a sibling of `m` now hangs below the entry that came up
          rw [hpi, hread, if_pos rfl] at hy
          exact hmax c ⟨hc, hpi⟩ x y hx hy
        · rw [hread, if_neg hpi, if_neg hcm] at hy
          exact inv.below c hc hpi x y hx hy
  case grand =>
    intro _ c hc x y hx hy
    have hmc := hc.lt
    rw [hread, if_neg (by omega), if_neg (by omega)] at hx
    rw [hm.2, hread, if_pos rfl] at hy
    have hc' := inv.below c hc.1 (by rw [hc.2]; omega)
    rw [hc.2] at hc'
    exact hc' x y hx hy

/-- Moving down stops where no child is above the entry, with the list in heap order. -/
theorem DownInv.isHeap {l : List α} {i : Nat} (inv : DownInv key l i)
    (h : ∀ c, IsChild c i → Below key l c i) : IsHeap key l := by
  intro c hc
  by_cases hci : parent c = i
  · rw [hci]
    exact h c ⟨hc, hci⟩
  · exact inv.below c hc hci

/-- A list that agrees with a heap off the root, where it has entries, starts the move down
from the root. -/
theorem IsHeap.downInv_zero {l l' : List α} (h : IsHeap key l)
    (hl' : ∀ k x, 0 < k → l'[k]? = some x → l[k]? = some x) : DownInv key l' 0 := by
  constructor
  case below =>
    intro c hc hc0 x y hx hy
    exact h c hc x y (hl' c x hc hx) (hl' _ y (by omega) hy)
  case grand =>
    intro h0
    omega

/-! ## The root -/

/-- The root of a heap has the largest key. -/
theorem IsHeap.le_root {l : List α} {r : α} (h : IsHeap key l) (hr : l[0]? = some r) :
    ∀ x ∈ l, key x ≤ key r := by
  -- by strong induction on the position: each entry is at most its parent
  have hpos : ∀ (j : Nat) x, l[j]? = some x → key x ≤ key r := by
    intro j
    induction j using Nat.strongRecOn with
    | ind j ih =>
      intro x hx
      by_cases hj : j = 0
      · subst hj
        rw [hr, Option.some.injEq] at hx
        rw [hx]
      · have hp := parent_lt (Nat.pos_of_ne_zero hj)
        have hjl : j < l.length := (List.getElem?_eq_some_iff.mp hx).1
        have hy : l[parent j]? = some l[parent j] := List.getElem?_eq_getElem (by omega)
        exact le_trans (h j (by omega) x _ hx hy) (ih _ hp _ hy)
  intro x hx
  obtain ⟨j, hj, rfl⟩ := List.getElem_of_mem hx
  exact hpos j _ (List.getElem?_eq_getElem hj)

/-! ## What a max-heap is for

A max-priority queue holds a multiset of entries, and its pop takes out an entry of the largest
key and leaves every other entry. A heap is one way to keep such a queue. -/

section Spec

variable (key) [DecidableEq α]

/-- `x` is an entry of `m` with the largest key. -/
def IsMax (m : Multiset α) (x : α) : Prop := x ∈ m ∧ ∀ y ∈ m, key y ≤ key x

/-- The pop of a max-priority queue holding `m`: the entry `x`, of the largest key, comes out,
and `m'` stays. -/
def PopsMax (m : Multiset α) (x : α) (m' : Multiset α) : Prop := IsMax key m x ∧ m' = m.erase x

end Spec

/-- A list that is `x` and `rest` in some order, `x` of the largest key, pops `x` and leaves
`rest`. -/
theorem popsMax_of_perm [DecidableEq α] {l rest : List α} {x : α} (hperm : (x :: rest).Perm l)
    (hmax : ∀ y ∈ l, key y ≤ key x) : PopsMax key (l : Multiset α) x (rest : Multiset α) := by
  have hx : x ∈ l := hperm.subset List.mem_cons_self
  refine ⟨⟨Multiset.mem_coe.mpr hx, fun y hy => hmax y (Multiset.mem_coe.mp hy)⟩, ?_⟩
  -- taking `x` out of both orders leaves `rest` and `l.erase x`
  have hrest : (l.erase x).Perm rest := by
    have h := hperm.symm.erase x
    rwa [List.erase_cons_head] at h
  rw [Multiset.coe_erase, Multiset.coe_eq_coe]
  exact hrest.symm

end Machine.Heap
