import Mathlib.Data.List.Perm.Basic
import Mathlib.Data.List.TakeDrop

/-! # Move vectors

The operations of Move's `vector` that the contracts use besides reading and writing an
index: `swap`, `pop_back`, and the loop that moves entries from the back of one vector to the
back of another with `pop_back` and `push_back`. A vector is a list, and an operation that
aborts returns `none`.
-/

namespace Machine

variable {α : Type*}

/-- `vector::swap`: the entries at `i` and `j` trade places. The code swaps only entries in
range; out of range the list is left as it is. -/
def swap (l : List α) (i j : Nat) : List α :=
  if h : i < l.length ∧ j < l.length then (l.set i l[j]).set j l[i] else l

@[simp] theorem length_swap (l : List α) (i j : Nat) : (swap l i j).length = l.length := by
  unfold swap
  split <;> simp

/-- What a swap in range reads at each position. -/
theorem getElem?_swap {l : List α} {i j : Nat} (hi : i < l.length) (hj : j < l.length)
    (k : Nat) : (swap l i j)[k]? = if k = j then l[i]? else if k = i then l[j]? else l[k]? := by
  rw [swap, dif_pos ⟨hi, hj⟩, List.getElem?_set, List.getElem?_set]
  by_cases hkj : k = j
  · subst hkj
    simp [hj, getElem?_pos l i hi]
  · by_cases hki : k = i
    · subst hki
      simp [Ne.symm hkj, hkj, hi, getElem?_pos l j hj]
    · simp [Ne.symm hkj, Ne.symm hki, hkj, hki]

theorem swap_perm (l : List α) (i j : Nat) : (swap l i j).Perm l := by
  unfold swap
  split
  case isTrue h => exact List.set_set_perm h.1 h.2
  case isFalse => exact List.Perm.refl l

/-- Swapping two neighbours. -/
theorem swap_append (a r : List α) (x y : α) :
    swap (a ++ y :: x :: r) a.length (a.length + 1) = a ++ x :: y :: r := by
  have h : a.length < (a ++ y :: x :: r).length ∧ a.length + 1 < (a ++ y :: x :: r).length := by
    simp
  rw [swap, dif_pos h]
  simp

/-- `vector::pop_back`: the last entry and the rest; `none` on the empty vector. -/
def popBack (l : List α) : Option (α × List α) :=
  l.getLast?.map fun x => (x, l.dropLast)

/-- `n.do!(|_| dst.push_back(src.pop_back()))`: the last `n` entries of `src` move, the last
one first, to the back of `dst`. -/
def popPushN : Nat → List α → List α → Option (List α × List α)
  | 0, src, dst => some (src, dst)
  | n + 1, src, dst => (popBack src).bind fun (x, src) => popPushN n src (dst ++ [x])

/-- What `popPushN` does when it succeeds: `src` keeps its first entries and `dst` receives
the others in reverse order. -/
theorem popPushN_eq_some :
    ∀ (n : Nat) {src dst src' dst' : List α}, popPushN n src dst = some (src', dst') →
      n ≤ src.length ∧ src' = src.take (src.length - n) ∧
        dst' = dst ++ (src.drop (src.length - n)).reverse
  | 0, src, dst, src', dst', h => by
    simp only [popPushN, Option.some.injEq, Prod.mk.injEq] at h
    obtain ⟨rfl, rfl⟩ := h
    simp
  | n + 1, src, dst, src', dst', h => by
    simp only [popPushN, popBack] at h
    rcases List.eq_nil_or_concat src with rfl | ⟨A, x, rfl⟩
    · simp at h
    · rw [List.concat_eq_append] at h ⊢
      simp only [List.getLast?_concat, List.dropLast_concat, Option.map_some,
        Option.bind_some] at h
      obtain ⟨hn, rfl, rfl⟩ := popPushN_eq_some n h
      simp only [List.length_append, List.length_singleton]
      refine ⟨by omega, ?_, ?_⟩
      · -- the kept entries are a prefix of `src` without its last entry
        rw [List.take_append_of_le_length (by omega)]
        congr 1
        omega
      · -- the moved entries are the tail of `src`, reversed
        rw [List.drop_append_of_le_length (by omega), List.reverse_append]
        simp only [List.reverse_singleton, List.append_assoc, List.cons_append, List.nil_append]
        rw [show A.length + 1 - (n + 1) = A.length - n by omega]

/-- Moving no more entries than `src` has succeeds. -/
theorem popPushN_of_le :
    ∀ (n : Nat) {src dst : List α}, n ≤ src.length →
      popPushN n src dst = some (src.take (src.length - n),
        dst ++ (src.drop (src.length - n)).reverse)
  | 0, src, dst, _ => by simp [popPushN]
  | n + 1, src, dst, h => by
    rcases List.eq_nil_or_concat src with rfl | ⟨A, x, rfl⟩
    · simp at h
    · rw [List.concat_eq_append] at h ⊢
      simp only [List.length_append, List.length_singleton] at h
      simp only [popPushN, popBack, List.getLast?_concat, List.dropLast_concat, Option.map_some,
        Option.bind_some]
      rw [popPushN_of_le n (by omega), List.length_append, List.length_singleton,
        show A.length + 1 - (n + 1) = A.length - n by omega,
        List.take_append_of_le_length (by omega), List.drop_append_of_le_length (by omega),
        List.reverse_append]
      simp

/-- Moving entries between two vectors loses and gains none. -/
theorem popPushN_perm {n : Nat} {src dst src' dst' : List α}
    (h : popPushN n src dst = some (src', dst')) : (src' ++ dst').Perm (src ++ dst) := by
  obtain ⟨-, rfl, rfl⟩ := popPushN_eq_some n h
  have hmove : (dst ++ (src.drop (src.length - n)).reverse).Perm
      (src.drop (src.length - n) ++ dst) :=
    List.perm_append_comm.trans (List.Perm.append_right _ (List.reverse_perm _))
  have hsplit : src.take (src.length - n) ++ (src.drop (src.length - n) ++ dst) = src ++ dst := by
    rw [← List.append_assoc, List.take_append_drop]
  rw [← hsplit]
  exact List.Perm.append_left _ hmove

theorem popPushN_length {n : Nat} {src dst src' dst' : List α}
    (h : popPushN n src dst = some (src', dst')) :
    src'.length + n = src.length ∧ dst'.length = dst.length + n := by
  obtain ⟨hn, rfl, rfl⟩ := popPushN_eq_some n h
  simp only [List.length_take, List.length_append, List.length_reverse, List.length_drop]
  omega

end Machine
