import Mathlib.Data.List.Perm.Basic
import Mathlib.Data.List.Rotate
import Mathlib.Data.Nat.ModEq

/-! # Ring buffers

A ring buffer keeps a window of consecutive entries in a vector of fixed length: the entry
`k` places ahead of the start sits at index `(k + start) % length`. Read in order from the
start, the vector is the window, `buf.rotate start`. Writing the entry `k` places ahead is
`set` on the window; dropping the first entry and appending a new one at the end (Move's
`push_back` followed by `swap_remove` at the start index, and the start moving one on) is
`tail` and `++ [x]` on the window.

These are the facts a model of a ring buffer needs to be read as its window.
-/

namespace Machine

variable {α : Type*}

/-- Move's `vector::swap_remove`: the element at `i` is returned and the last element takes
its place; `none` where Move aborts with the index out of bounds. -/
def swapRemove (l : List α) (i : Nat) : Option (α × List α) :=
  if h : i < l.length then
    some (l[i], (l.set i (l.getLast (List.ne_nil_of_length_pos (by omega)))).dropLast)
  else none

/-- After a `push_back`, `swap_remove` puts the pushed element in place of the removed one. -/
theorem swapRemove_concat {l : List α} {i : Nat} (x : α) (h : i < l.length) :
    swapRemove (l ++ [x]) i = some (l[i], l.set i x) := by
  have hi : i < (l ++ [x]).length := by simp; omega
  simp only [swapRemove, hi, dif_pos, List.getElem_append_left h, Option.some.injEq,
    Prod.mk.injEq, true_and]
  rw [List.getLast_concat, List.set_append_left _ _ h, List.dropLast_concat]

/-- Removing the last element returns it and leaves the rest. -/
theorem swapRemove_concat_length (l : List α) (x : α) :
    swapRemove (l ++ [x]) l.length = some (x, l) := by
  have hi : l.length < (l ++ [x]).length := by simp
  simp only [swapRemove, hi, dif_pos, List.getElem_concat_length, List.getLast_concat,
    List.set_append_right _ _ (Nat.le_refl _), Nat.sub_self, List.set_cons_zero, List.dropLast_concat]

/-- `swap_remove` rearranges the vector: the element it returns and the vector it leaves hold
the elements of the vector it was given. -/
theorem swapRemove_perm {l l' : List α} {i : Nat} {x : α} (h : swapRemove l i = some (x, l')) :
    List.Perm (x :: l') l := by
  rcases List.eq_nil_or_concat' l with rfl | ⟨l₀, y, rfl⟩
  · simp [swapRemove] at h
  have hi : i < l₀.length + 1 := by
    by_contra hge
    simp [swapRemove, hge] at h
  rcases Nat.lt_or_eq_of_le (Nat.le_of_lt_succ hi) with hlt | rfl
  · -- an inner element: the last one takes its place
    rw [swapRemove_concat y hlt, Option.some.injEq, Prod.mk.injEq] at h
    obtain ⟨rfl, rfl⟩ := h
    calc List.Perm (l₀[i] :: l₀.set i y) (l₀[i] :: y :: l₀.eraseIdx i) :=
          (List.set_perm_cons_eraseIdx hlt y).cons _
      List.Perm _ (y :: l₀[i] :: l₀.eraseIdx i) := List.Perm.swap _ _ _
      List.Perm _ (y :: l₀) := (List.getElem_cons_eraseIdx_perm hlt).cons _
      List.Perm _ (l₀ ++ [y]) := (List.perm_append_singleton _ _).symm
  · rw [swapRemove_concat_length, Option.some.injEq, Prod.mk.injEq] at h
    obtain ⟨rfl, rfl⟩ := h
    exact (List.perm_append_singleton _ _).symm

/-- Two positions of the window are two indices of the vector, and distinct ones stay
distinct. -/
theorem add_mod_inj {n m i k : Nat} (hi : i < n) (hk : k < n) (h : (k + m) % n = (i + m) % n) :
    k = i := by
  have hmod : k % n = i % n := Nat.ModEq.add_right_cancel' m h
  rwa [Nat.mod_eq_of_lt hi, Nat.mod_eq_of_lt hk] at hmod

/-- Writing the vector at the index of the window position `i` writes the window at `i`. -/
theorem rotate_set_mod {l : List α} {i : Nat} (n : Nat) (x : α) (hi : i < l.length) :
    (l.set ((i + n) % l.length) x).rotate n = (l.rotate n).set i x := by
  apply List.ext_getElem (by simp)
  intro k hk _
  simp only [List.length_rotate, List.length_set] at hk
  rw [List.getElem_rotate, List.getElem_set, List.getElem_set, List.getElem_rotate]
  simp only [List.length_set]
  by_cases hki : k = i
  · simp [hki]
  · have hne : (i + n) % l.length ≠ (k + n) % l.length :=
      fun h => hki (add_mod_inj hi hk h.symm)
    simp [hne, Ne.symm hki]

/-- Past the end of the vector, the next index wraps to the start. -/
theorem add_succ_mod_eq_iff {n c k : Nat} (hc : c < n) (hk : k < n) :
    (k + c + 1) % n = c ↔ k + 1 = n := by
  by_cases hlt : k + c + 1 < n
  · rw [Nat.mod_eq_of_lt hlt]
    omega
  · have hge : n ≤ k + c + 1 := Nat.le_of_not_lt hlt
    rw [Nat.mod_eq_sub_mod hge, Nat.mod_eq_of_lt (by omega)]
    omega

/-- Replacing the window's first entry and moving the start one on drops that entry from the
window and appends the new one. -/
theorem rotate_set_succ {l : List α} {c : Nat} (x : α) (hc : c < l.length) :
    (l.set c x).rotate ((c + 1) % l.length) = (l.rotate c).tail ++ [x] := by
  have hlen : ((l.rotate c).tail ++ [x]).length = l.length := by
    simp only [List.length_append, List.length_tail, List.length_rotate, List.length_singleton]
    omega
  apply List.ext_getElem (by simp [hlen])
  intro k hk _
  simp only [List.length_rotate, List.length_set] at hk
  have hidx : (k + (c + 1) % l.length) % l.length = (k + c + 1) % l.length := by
    rw [Nat.add_mod_mod, Nat.add_assoc]
  simp only [List.getElem_rotate, List.getElem_set, List.length_set, hidx]
  by_cases hlast : k + 1 = l.length
  · -- the last window position is the slot of the removed entry
    rw [if_pos ((add_succ_mod_eq_iff hc hk).mpr hlast).symm, List.getElem_append_right]
    · simp
    · simp only [List.length_tail, List.length_rotate]
      omega
  · rw [if_neg (fun h => hlast ((add_succ_mod_eq_iff hc hk).mp h.symm)),
      List.getElem_append_left (by simp; omega), List.getElem_tail, List.getElem_rotate]
    congr 1
    rw [show k + 1 + c = k + c + 1 by omega]

/-- Writing an entry computed from the old one is `modify`. -/
theorem set_eq_modify {l : List α} {i : Nat} {a : α} (f : α → α) (h : l[i]? = some a) :
    l.set i (f a) = l.modify i f := by
  obtain ⟨hi, ha⟩ := List.getElem?_eq_some_iff.mp h
  apply List.ext_getElem?
  intro j
  rw [List.getElem?_set, List.getElem?_modify]
  by_cases hij : i = j
  · subst hij
    simp [hi, ha]
  · simp [hij]

/-- `f` applied to the entries at positions `lo` to `hi - 1`: a loop that updates the entries
of a range one after the other. -/
def mapRange (f : α → α) (lo hi : Nat) (l : List α) : List α :=
  l.mapIdx fun k a => if lo ≤ k ∧ k < hi then f a else a

@[simp] theorem length_mapRange (f : α → α) (lo hi : Nat) (l : List α) :
    (mapRange f lo hi l).length = l.length :=
  List.length_mapIdx

theorem getElem?_mapRange (f : α → α) (lo hi : Nat) (l : List α) (k : Nat) :
    (mapRange f lo hi l)[k]? = l[k]?.map fun a => if lo ≤ k ∧ k < hi then f a else a :=
  List.getElem?_mapIdx

/-- The empty range changes nothing. -/
theorem mapRange_self (f : α → α) (lo : Nat) (l : List α) : mapRange f lo lo l = l := by
  apply List.ext_getElem?
  intro k
  rw [getElem?_mapRange]
  cases l[k]? <;> simp

/-- Updating one entry is the range of that entry alone. -/
theorem modify_eq_mapRange (f : α → α) (i : Nat) (l : List α) :
    l.modify i f = mapRange f i (i + 1) l := by
  apply List.ext_getElem?
  intro k
  rw [List.getElem?_modify, getElem?_mapRange]
  cases l[k]? with
  | none => rfl
  | some a =>
    simp only [Option.map_eq_map, Option.map_some, Option.some.injEq]
    by_cases hk : i = k
    · subst hk
      rw [if_pos rfl, if_pos ⟨Nat.le_refl _, Nat.lt_succ_self _⟩]
    · have hk' : ¬(i ≤ k ∧ k < i + 1) := by omega
      rw [if_neg hk, if_neg hk']

/-- Two adjacent ranges make one: the loop over `[lo, hi)` is the loop over `[lo, mid)`
followed by the loop over `[mid, hi)`. -/
theorem mapRange_mapRange (f : α → α) {lo mid hi : Nat} (h₁ : lo ≤ mid) (h₂ : mid ≤ hi)
    (l : List α) : mapRange f mid hi (mapRange f lo mid l) = mapRange f lo hi l := by
  apply List.ext_getElem?
  intro k
  simp only [getElem?_mapRange, Option.map_map]
  cases l[k]? with
  | none => rfl
  | some a =>
    simp only [Option.map_some, Function.comp_apply]
    by_cases hlo : lo ≤ k ∧ k < mid
    · have hmid : ¬(mid ≤ k ∧ k < hi) := by omega
      have hhi : lo ≤ k ∧ k < hi := by omega
      rw [if_pos hlo, if_neg hmid, if_pos hhi]
    · by_cases hmid : mid ≤ k ∧ k < hi
      · have hhi : lo ≤ k ∧ k < hi := by omega
        rw [if_neg hlo, if_pos hmid, if_pos hhi]
      · have hhi : ¬(lo ≤ k ∧ k < hi) := by omega
        rw [if_neg hlo, if_neg hmid, if_neg hhi]

/-! ## Rotations

Rust's `rotate_right(k)` moves the last `k` elements to the front: it is the left rotation by
`len - k`. Read through a rotation by `start`, the element at position `x` sits at index
`(x + start) % n`, and index `y` is read at position `(n + y - start) % n`; the two maps undo
each other. -/

/-- `rotate_right(k)` below the length is the left rotation by the rest of the length. -/
theorem rotateRight_eq_rotate {l : List α} {k : Nat} (hk : k < l.length) :
    l.rotateRight k = l.rotate (l.length - k) := by
  unfold List.rotateRight
  dsimp only
  split
  · -- a single element: neither rotation moves it
    obtain ⟨a, rfl⟩ : ∃ a, l = [a] := List.length_eq_one_iff.mp (by omega)
    rw [List.rotate_singleton]
  · rw [Nat.mod_eq_of_lt hk, List.rotate_eq_drop_append_take (Nat.sub_le _ _)]

@[simp] theorem length_rotateRight (l : List α) (k : Nat) : (l.rotateRight k).length = l.length := by
  unfold List.rotateRight
  dsimp only
  split
  · rfl
  · simp only [List.length_append, List.length_drop, List.length_take]
    omega

/-- Two right rotations make one, by the sum of the amounts. -/
theorem rotateRight_rotateRight {l : List α} {a b : Nat} (ha : a < l.length) (hb : b < l.length) :
    (l.rotateRight a).rotateRight b = l.rotateRight ((a + b) % l.length) := by
  have hab : (a + b) % l.length < l.length := Nat.mod_lt _ (by omega)
  rw [rotateRight_eq_rotate ha, rotateRight_eq_rotate (by rwa [List.length_rotate]),
    rotateRight_eq_rotate hab, List.rotate_rotate, List.length_rotate, ← List.rotate_mod,
    ← List.rotate_mod l (l.length - _)]
  congr 1
  -- the two amounts agree modulo the length
  rcases Nat.lt_or_ge (a + b) l.length with hlt | hge
  · rw [Nat.mod_eq_of_lt hlt,
      show l.length - a + (l.length - b) = l.length - (a + b) + l.length by omega,
      Nat.add_mod_right]
  · have hwrap : (a + b) % l.length = a + b - l.length := by
      rw [Nat.mod_eq_sub_mod hge, Nat.mod_eq_of_lt (by omega)]
    rw [hwrap, show l.length - a + (l.length - b) = l.length - (a + b - l.length) by omega]

/-- Moving back by the start undoes moving forward. -/
theorem add_sub_mod_cancel {n start x : Nat} (hs : start < n) (hx : x < n) :
    (n + (x + start) % n - start) % n = x := by
  rcases Nat.lt_or_ge (x + start) n with hlt | hge
  · -- no wrap forward: the sum moves one whole turn back
    rw [Nat.mod_eq_of_lt hlt, show n + (x + start) - start = x + n by omega, Nat.add_mod_right,
      Nat.mod_eq_of_lt hx]
  · -- a wrap forward: the turn is taken off once
    have hwrap : (x + start - n) % n = x + start - n := Nat.mod_eq_of_lt (by omega)
    rw [Nat.mod_eq_sub_mod hge, hwrap, show n + (x + start - n) - start = x by omega,
      Nat.mod_eq_of_lt hx]

/-- Moving forward by the start undoes moving back. -/
theorem sub_add_mod_cancel {n start x : Nat} (hs : start < n) (hx : x < n) :
    ((n + x - start) % n + start) % n = x := by
  rcases Nat.lt_or_ge x start with hlt | hge
  · -- a wrap back: moving forward wraps again
    have hwrap : (n + x - start) % n = n + x - start := Nat.mod_eq_of_lt (by omega)
    rw [hwrap, show n + x - start + start = x + n by omega, Nat.add_mod_right,
      Nat.mod_eq_of_lt hx]
  · have hback : (x - start) % n = x - start := Nat.mod_eq_of_lt (by omega)
    rw [show n + x - start = x - start + n by omega, Nat.add_mod_right, hback,
      Nat.sub_add_cancel hge, Nat.mod_eq_of_lt hx]

/-! ## Windows keyed by consecutive numbers

A window whose entries carry the consecutive epochs from `start` on is read by epoch: the
entry of epoch `e` is the one at position `e - start`. -/

/-- In a list whose keys are the consecutive numbers from `start`, the entry of key `e` is
at position `e - start`. -/
theorem find?_key_of_map_eq_range' {key : α → Nat} :
    ∀ {l : List α} {start : Nat}, l.map key = List.range' start l.length → ∀ e : Nat,
      l.find? (fun x => key x = e) = if start ≤ e then l[e - start]? else none
  | [], start, _, e => by simp
  | x :: l, start, h, e => by
    rw [List.map_cons, List.length_cons, List.range'_succ, List.cons.injEq] at h
    rcases h with ⟨hx, hl⟩
    have ih := find?_key_of_map_eq_range' hl e
    rw [List.find?_cons, hx]
    -- the key of the head is `start`; the others are read from `start + 1` on
    by_cases he : start = e
    case pos =>
      subst he
      simp
    case neg =>
      simp only [he, decide_false, ih]
      by_cases hle : start + 1 ≤ e
      case pos =>
        rw [if_pos hle, if_pos (by omega), show e - start = e - (start + 1) + 1 by omega,
          List.getElem?_cons_succ]
      case neg =>
        rw [if_neg hle, if_neg (by omega)]

/-- Dropping the first of consecutive keys and appending the next one moves them on by one. -/
theorem range'_tail_append {b n : Nat} (hn : 0 < n) :
    (List.range' b n).tail ++ [b + n] = List.range' (b + 1) n := by
  obtain ⟨m, rfl⟩ := Nat.exists_eq_add_of_lt hn
  rw [Nat.zero_add, List.range'_succ, List.tail_cons, List.range'_concat]
  congr 2
  omega

/-- The window after a pop, read from the old window one position on: the appended entry
stands where the old window ended. -/
theorem getElem?_tail_append {l : List α} (hl : l ≠ []) (x : α) (i : Nat) :
    (l.tail ++ [x])[i]? = if i + 1 = l.length then some x else l[i + 1]? := by
  have hlen : l.tail.length + 1 = l.length := by
    rw [List.length_tail]
    have := List.length_pos_of_ne_nil hl
    omega
  by_cases hi : i + 1 < l.length
  case pos =>
    rw [List.getElem?_append_left (by omega), List.getElem?_tail, if_neg (by omega)]
  case neg =>
    rw [List.getElem?_append_right (by omega), List.getElem?_singleton]
    by_cases heq : i + 1 = l.length
    case pos => rw [if_pos (by omega), if_pos heq]
    case neg => rw [if_neg (by omega), if_neg heq, List.getElem?_eq_none (by omega)]

/-- The entry at position `i` of a list keyed by the consecutive numbers from `b` has key
`b + i`. -/
theorem key_of_map_eq_range' {key : α → Nat} {l : List α} {b n : Nat}
    (h : l.map key = List.range' b n) {i : Nat} {x : α} (hx : l[i]? = some x) : key x = b + i := by
  have hi := congrArg (·[i]?) h
  simp only [List.getElem?_map, hx, Option.map_some] at hi
  have hlt : i < n := by
    have := (List.getElem?_eq_some_iff.mp hx).1
    have hlen := congrArg List.length h
    simp only [List.length_map, List.length_range'] at hlen
    omega
  rw [List.getElem?_range' hlt] at hi
  simpa using hi

/-- A nonempty list keyed by the consecutive numbers from `b` starts with the entry of key
`b`. -/
theorem exists_getElem?_zero_of_map_eq_range' {key : α → Nat} {l : List α} {b n : Nat}
    (h : l.map key = List.range' b n) (hn : 0 < n) : ∃ x, l[0]? = some x ∧ key x = b := by
  have hlen : l.length = n := by simpa using congrArg List.length h
  obtain ⟨x, hx⟩ : ∃ x, l[0]? = some x := ⟨_, List.getElem?_eq_getElem (by omega)⟩
  exact ⟨x, hx, key_of_map_eq_range' h hx⟩

end Machine
