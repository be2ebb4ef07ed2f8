import Mathlib.Data.List.Basic
import Walrus.Machine.Run

/-! # Slices, chunks and loops over mutable slices

Rust code that fills buffers works on slices: `&l[a..b]` borrows a range, `copy_from_slice`
overwrites a range with a slice of the same length, `chunks(n)` cuts a slice into pieces of
`n` elements (the last one shorter), and `v[i]` reads one element of a vector. Each of these
panics outside its bounds; a panic is an `Except.error` carrying the message Rust prints. A loop
`for (x, y) in xs.iter_mut().zip(ys)` rewrites the elements of `xs` that have a partner in `ys`
and leaves the others (`zipModifyM`).

A buffer of `m` blocks of `s` elements is the `flatten` of a list of `m` lists of length `s`
(`Uniform s`). The lemmas say what each operation does to such a buffer block by block: reading
a block (`range_flatten`) or a prefix of blocks (`range_flatten_take`), writing a block
(`copyFromSlice_flatten`), cutting the buffer back into its blocks (`chunks_flatten`), and
writing a shorter slice into the front of a buffer of zeros (`rightpad_eq_flatten`).

A write into a range is `overwrite`: what it leaves in a range before, after or around the
written one (`rangeOf_overwrite_of_le`, `rangeOf_overwrite_of_ge`, `rangeOf_overwrite_within`),
two writes side by side (`overwrite_overwrite`), and a write inside one block of a buffer
(`overwrite_flatten_of_uniform`).

Nothing here names the system being verified.
-/

namespace Machine.Slice

variable {α β : Type}

/-! ## The operations -/

/-- The elements of `&l[a..b]`, for `a ≤ b ≤ l.len()`. -/
def rangeOf (l : List α) (a b : Nat) : List α := (l.drop a).take (b - a)

/-- `&l[a..b]`: it panics when the range is reversed or runs past the end. -/
def range (l : List α) (a b : Nat) : Except String (List α) :=
  let len := l.length
  if a ≤ b then
    if b ≤ len then .ok (rangeOf l a b)
    else .error s!"range end index {b} out of range for slice of length {len}"
  else .error s!"slice index starts at {a} but ends at {b}"

/-- `l[a..b].copy_from_slice(src)`: the range overwritten by `src`, which must have its length. -/
def copyFromSlice (l : List α) (a b : Nat) (src : List α) : Except String (List α) := do
  let dst ← range l a b
  let srcLen := src.length
  let dstLen := dst.length
  if srcLen = dstLen then pure (l.take a ++ src ++ l.drop b)
  else throw s!"copy_from_slice: source slice length ({srcLen}) does not match destination slice length ({dstLen})"

/-- `l.chunks(n)`: the pieces of `n` elements, the last one shorter. Rust panics on `n = 0`;
every caller here passes a positive size. -/
def chunks (n : Nat) (l : List α) : List (List α) :=
  (List.range ((l.length + n - 1) / n)).map fun i => (l.drop (i * n)).take n

/-- `v[i]` on a vector. -/
def get (l : List α) (i : Nat) : Except String α :=
  if h : i < l.length then .ok l[i]
  else
    let len := l.length
    .error s!"index out of bounds: the len is {len} but the index is {i}"

/-- `for (x, y) in xs.iter_mut().zip(ys) { *x = f(x, y)? }`: the elements with a partner
rewritten in order, the rest untouched. -/
def zipModifyM (f : α → β → Except String α) : List α → List β → Except String (List α)
  | x :: xs, y :: ys => do
    let x ← f x y
    let xs ← zipModifyM f xs ys
    pure (x :: xs)
  | xs, _ => pure xs

/-! ## The operations in bounds -/

theorem range_eq_ok {l : List α} {a b : Nat} (hab : a ≤ b) (hb : b ≤ l.length) :
    range l a b = .ok (rangeOf l a b) := by
  simp [range, hab, hb]

theorem range_eq_ok_iff {l d : List α} {a b : Nat} :
    range l a b = .ok d ↔ a ≤ b ∧ b ≤ l.length ∧ rangeOf l a b = d := by
  unfold range
  by_cases hab : a ≤ b <;> by_cases hb : b ≤ l.length <;> simp [hab, hb]

@[simp] theorem length_rangeOf {l : List α} {a b : Nat} (hb : b ≤ l.length) :
    (rangeOf l a b).length = b - a := by
  simp only [rangeOf, List.length_take, List.length_drop]
  omega

theorem copyFromSlice_eq_ok {l src : List α} {a b : Nat} (hab : a ≤ b) (hb : b ≤ l.length)
    (hsrc : src.length = b - a) :
    copyFromSlice l a b src = .ok (l.take a ++ src ++ l.drop b) := by
  have hlen : src.length = (rangeOf l a b).length := by rw [length_rangeOf hb, hsrc]
  unfold copyFromSlice
  rw [range_eq_ok hab hb]
  simp [bind, Except.bind, hlen, pure, Except.pure]

/-- Writing a slice into the front of a longer one. -/
theorem copyFromSlice_prefix {l src : List α} (h : src.length ≤ l.length) :
    copyFromSlice l 0 src.length src = .ok (src ++ l.drop src.length) := by
  rw [copyFromSlice_eq_ok (Nat.zero_le _) h (by omega)]
  simp

/-- A copy that returns was in bounds. -/
theorem le_length_of_copyFromSlice_eq_ok {l src l' : List α} {a b : Nat}
    (h : copyFromSlice l a b src = .ok l') : a ≤ b ∧ b ≤ l.length := by
  obtain ⟨dst, hdst, -⟩ := bind_eq_ok.mp h
  obtain ⟨hab, hb, -⟩ := range_eq_ok_iff.mp hdst
  exact ⟨hab, hb⟩

theorem length_of_copyFromSlice_eq_ok {l src l' : List α} {a b : Nat}
    (h : copyFromSlice l a b src = .ok l') : l'.length = l.length := by
  obtain ⟨dst, hdst, h⟩ := bind_eq_ok.mp h
  obtain ⟨hab, hb, rfl⟩ := range_eq_ok_iff.mp hdst
  dsimp only at h
  by_cases hsrc : src.length = (rangeOf l a b).length
  · rw [if_pos hsrc] at h
    cases h
    rw [length_rangeOf hb] at hsrc
    simp only [List.length_append, List.length_take, List.length_drop]
    omega
  · rw [if_neg hsrc] at h
    cases h

theorem get_eq_ok {l : List α} {i : Nat} (h : i < l.length) : get l i = .ok l[i] := by
  simp [get, h]

theorem get_eq_ok_of_getElem? {l : List α} {i : Nat} {x : α} (h : l[i]? = some x) :
    get l i = .ok x := by
  obtain ⟨hi, rfl⟩ := List.getElem?_eq_some_iff.mp h
  exact get_eq_ok hi

/-! ## Loops over a mutable slice -/

/-- A loop whose every round succeeds rewrites the elements with a partner and keeps the rest. -/
theorem zipModifyM_eq_ok {f : α → β → Except String α} {F : α → β → α} :
    ∀ {xs : List α} {ys : List β}, (∀ p ∈ xs.zip ys, f p.1 p.2 = .ok (F p.1 p.2)) →
      zipModifyM f xs ys = .ok (List.zipWith F xs ys ++ xs.drop ys.length)
  | [], ys, _ => by cases ys <;> rfl
  | x :: xs, [], _ => rfl
  | x :: xs, y :: ys, h => by
    have hx : f x y = .ok (F x y) := h (x, y) List.mem_cons_self
    have ih : zipModifyM f xs ys = .ok (List.zipWith F xs ys ++ xs.drop ys.length) :=
      zipModifyM_eq_ok fun p hp => h p (List.mem_cons_of_mem _ hp)
    simp [zipModifyM, hx, ih, bind, Except.bind, pure, Except.pure]

/-- The same loop, with the result given element by element: a partner's round gives the
new element, and an element without a partner stays. -/
theorem zipModifyM_eq_ok_of_getElem {f : α → β → Except String α} :
    ∀ {xs zs : List α} {ys : List β}, zs.length = xs.length →
      (∀ i (hx : i < xs.length) (hy : i < ys.length) (hz : i < zs.length), f xs[i] ys[i] = .ok zs[i]) →
      (∀ i (hx : i < xs.length) (hz : i < zs.length), ys.length ≤ i → xs[i] = zs[i]) →
      zipModifyM f xs ys = .ok zs
  | [], zs, ys, hlen, _, _ => by
    rw [List.eq_nil_of_length_eq_zero hlen]
    cases ys <;> rfl
  | x :: xs, zs, [], hlen, _, hrest => by
    have hzs : x :: xs = zs :=
      List.ext_getElem hlen.symm fun i h₁ h₂ => hrest i h₁ h₂ (Nat.zero_le i)
    rw [← hzs]
    rfl
  | x :: xs, z :: zs, y :: ys, hlen, hf, hrest => by
    have hx : f x y = .ok z := hf 0 (by simp) (by simp) (by simp)
    have ih : zipModifyM f xs ys = .ok zs :=
      zipModifyM_eq_ok_of_getElem (by simpa using hlen)
        (fun i hx hy hz => hf (i + 1) (by simpa using hx) (by simpa using hy) (by simpa using hz))
        (fun i hx hz hi => hrest (i + 1) (by simpa using hx) (by simpa using hz)
          (by simp only [List.length_cons]; omega))
    simp [zipModifyM, hx, ih, bind, Except.bind, pure, Except.pure]

/-! ## Chunks -/

@[simp] theorem length_chunks (n : Nat) (l : List α) :
    (chunks n l).length = (l.length + n - 1) / n := by
  simp [chunks]

@[simp] theorem getElem_chunks {n : Nat} {l : List α} {i : Nat} (h : i < (chunks n l).length) :
    (chunks n l)[i] = (l.drop (i * n)).take n := by
  simp [chunks]

/-- A slice of at most `m` pieces of `n` elements has at most `m` chunks. -/
theorem length_chunks_le {n m : Nat} {l : List α} (hn : 0 < n) (h : l.length ≤ m * n) :
    (chunks n l).length ≤ m := by
  rw [length_chunks, Nat.div_le_iff_le_mul_add_pred hn]
  have := Nat.mul_comm m n
  omega

/-- Past the last chunk the slice has nothing left. -/
theorem drop_eq_nil_of_length_chunks_le {n i : Nat} {l : List α} (hn : 0 < n)
    (h : (chunks n l).length ≤ i) : l.drop (i * n) = [] := by
  rw [length_chunks, Nat.div_le_iff_le_mul_add_pred hn] at h
  apply List.drop_eq_nil_of_le
  have := Nat.mul_comm i n
  omega

/-! ## Tabulated slices

A vector built as `(0..n).map(g).collect()` is `(List.range n).map g`; these lemmas say what
the slice operations do to one, entry by entry. -/

/-- Replacing one element of a tabulated list. -/
theorem set_map_range {m i : Nat} {f : Nat → α} (x : α) :
    ((List.range m).map f).set i x = (List.range m).map fun c => if c = i then x else f c := by
  apply List.ext_getElem
  · simp
  · intro c h₁ h₂
    simp only [List.getElem_set, List.getElem_map, List.getElem_range]
    by_cases hc : c = i
    · simp [hc]
    · simp [hc, Ne.symm hc]

theorem take_map_range {m n : Nat} (g : Nat → α) (hm : m ≤ n) :
    ((List.range n).map g).take m = (List.range m).map g := by
  rw [← List.map_take, List.take_range, Nat.min_eq_left hm]

theorem drop_map_range {m n : Nat} (g : Nat → α) :
    ((List.range n).map g).drop m = (List.range (n - m)).map fun t => g (m + t) := by
  apply List.ext_getElem (by simp)
  intro i h₁ h₂
  simp

/-- The consecutive pieces of `c` elements from piece `start` on, one after the other: the
elements from `c * start` on, `c * m` of them. -/
theorem flatten_map_range'_pieces (l : List α) (c : Nat) :
    ∀ (start m : Nat),
      ((List.range' start m).map fun j => (l.drop (c * j)).take c).flatten =
        (l.drop (c * start)).take (c * m)
  | _, 0 => by simp
  | start, m + 1 => by
    rw [List.range'_succ, List.map_cons, List.flatten_cons,
      flatten_map_range'_pieces l c (start + 1) m, Nat.mul_succ c m, Nat.add_comm (c * m) c,
      List.take_add, List.drop_drop, Nat.mul_succ c start]

/-- A tabulated list cut at `m`. -/
theorem map_range_eq_append {m n : Nat} (g : Nat → α) (hm : m ≤ n) :
    (List.range n).map g = (List.range m).map g ++ (List.range (n - m)).map fun t => g (m + t) := by
  rw [← take_map_range g hm, ← drop_map_range g, List.take_append_drop]

theorem reverse_map_range {n : Nat} (g : Nat → α) :
    ((List.range n).map g).reverse = (List.range n).map fun i => g (n - 1 - i) := by
  apply List.ext_getElem (by simp)
  intro i h₁ h₂
  simp only [List.getElem_reverse, List.getElem_map, List.getElem_range, List.length_map,
    List.length_range]

theorem zipWith_map_range {γ : Type} {n : Nat} (F : α → β → γ) (g : Nat → α) (h : Nat → β) :
    List.zipWith F ((List.range n).map g) ((List.range n).map h) =
      (List.range n).map fun i => F (g i) (h i) := by
  apply List.ext_getElem (by simp)
  intro i h₁ h₂
  simp

/-- The entries of a tabulated slice, each with its index, as `iter().enumerate()` yields
them. -/
theorem zipIdx_map_range {n : Nat} (g : Nat → α) :
    ((List.range n).map g).zipIdx = (List.range n).map fun k => (g k, k) := by
  apply List.ext_getElem (by simp)
  intro i h₁ h₂
  simp

/-- The zip loop over a tabulated slice: entry `i` becomes `h i`, by its round where it has a
partner and because it stays where it has none. -/
theorem zipModifyM_map_range {f : α → β → Except String α} {g h : Nat → α} {n : Nat}
    {ys : List β} (hf : ∀ i (hi : i < ys.length), i < n → f (g i) ys[i] = .ok (h i))
    (hrest : ∀ i < n, ys.length ≤ i → g i = h i) :
    zipModifyM f ((List.range n).map g) ys = .ok ((List.range n).map h) := by
  apply zipModifyM_eq_ok_of_getElem (by simp)
  · intro i hx hy hz
    simp only [List.getElem_map, List.getElem_range]
    exact hf i hy (by simpa using hx)
  · intro i hx hz hi
    simp only [List.getElem_map, List.getElem_range]
    exact hrest i (by simpa using hx) hi

/-! ## Buffers of blocks -/

/-- Every block has `s` elements. -/
def Uniform (s : Nat) (xs : List (List α)) : Prop := ∀ x ∈ xs, x.length = s

theorem Uniform.cons {s : Nat} {x : List α} {xs : List (List α)} (hx : x.length = s)
    (h : Uniform s xs) : Uniform s (x :: xs) := by
  intro y hy
  rcases List.mem_cons.mp hy with rfl | hy
  · exact hx
  · exact h y hy

theorem Uniform.of_cons {s : Nat} {x : List α} {xs : List (List α)} (h : Uniform s (x :: xs)) :
    x.length = s ∧ Uniform s xs :=
  ⟨h x List.mem_cons_self, fun y hy => h y (List.mem_cons_of_mem x hy)⟩

theorem Uniform.set {s i : Nat} {x : List α} {xs : List (List α)} (h : Uniform s xs)
    (hx : x.length = s) : Uniform s (xs.set i x) := by
  intro y hy
  rcases List.mem_or_eq_of_mem_set hy with hy | rfl
  · exact h y hy
  · exact hx

theorem Uniform.map {s : Nat} {l : List β} {f : β → List α} (h : ∀ b ∈ l, (f b).length = s) :
    Uniform s (l.map f) := by
  intro y hy
  obtain ⟨b, hb, rfl⟩ := List.mem_map.mp hy
  exact h b hb

theorem Uniform.length_getD {s i : Nat} {xs : List (List α)} (h : Uniform s xs)
    (hi : i < xs.length) : (xs.getD i []).length = s := by
  rw [List.getD_eq_getElem?_getD, List.getElem?_eq_getElem hi, Option.getD_some]
  exact h _ (List.getElem_mem hi)

theorem length_flatten_of_uniform {s : Nat} :
    ∀ {xs : List (List α)}, Uniform s xs → xs.flatten.length = s * xs.length
  | [], _ => by simp
  | x :: xs, h => by
    obtain ⟨hx, hxs⟩ := h.of_cons
    rw [List.flatten_cons, List.length_append, length_flatten_of_uniform hxs, hx,
      List.length_cons, Nat.mul_succ]
    omega

/-- Dropping whole blocks. -/
theorem drop_flatten_of_uniform {s : Nat} :
    ∀ {xs : List (List α)} (i : Nat), Uniform s xs → xs.flatten.drop (s * i) = (xs.drop i).flatten
  | [], _, _ => by simp
  | x :: xs, 0, _ => by simp
  | x :: xs, i + 1, h => by
    obtain ⟨hx, hxs⟩ := h.of_cons
    rw [List.flatten_cons, Nat.mul_succ, Nat.add_comm, ← List.drop_drop,
      List.drop_left' hx, drop_flatten_of_uniform i hxs, List.drop_succ_cons]

/-- Taking whole blocks. -/
theorem take_flatten_of_uniform {s : Nat} :
    ∀ {xs : List (List α)} (i : Nat), Uniform s xs → xs.flatten.take (s * i) = (xs.take i).flatten
  | [], _, _ => by simp
  | x :: xs, 0, _ => by simp
  | x :: xs, i + 1, h => by
    obtain ⟨hx, hxs⟩ := h.of_cons
    rw [List.flatten_cons, Nat.mul_succ, Nat.add_comm, List.take_append, hx,
      List.take_of_length_le (by omega), Nat.add_sub_cancel_left, take_flatten_of_uniform i hxs,
      List.take_succ_cons, List.flatten_cons]

/-- The block at `i`. -/
theorem take_drop_flatten_of_uniform {s i : Nat} {xs : List (List α)} (h : Uniform s xs)
    (hi : i < xs.length) : (xs.flatten.drop (s * i)).take s = xs[i] := by
  have hlen : xs[i].length = s := h _ (List.getElem_mem hi)
  rw [drop_flatten_of_uniform i h, List.drop_eq_getElem_cons hi, List.flatten_cons,
    List.take_append, hlen, List.take_of_length_le (Nat.le_of_eq hlen), Nat.sub_self,
    List.take_zero, List.append_nil]

/-- `&buf[s * i..s * (i + 1)]` is the block at `i`. -/
theorem range_flatten {s i : Nat} {xs : List (List α)} (h : Uniform s xs) (hi : i < xs.length) :
    range xs.flatten (s * i) (s * (i + 1)) = .ok xs[i] := by
  have hlen := length_flatten_of_uniform h
  rw [range_eq_ok (Nat.mul_le_mul_left s (Nat.le_succ i))
    (by rw [hlen]; exact Nat.mul_le_mul_left s hi)]
  unfold rangeOf
  rw [show s * (i + 1) - s * i = s by rw [Nat.mul_succ]; omega,
    take_drop_flatten_of_uniform h hi]

/-- `&buf[s * 0..s * m]` is the first `m` blocks. -/
theorem range_flatten_take {s m : Nat} {xs : List (List α)} (h : Uniform s xs)
    (hm : m ≤ xs.length) : range xs.flatten (s * 0) (s * m) = .ok (xs.take m).flatten := by
  have hlen := length_flatten_of_uniform h
  rw [range_eq_ok (Nat.mul_le_mul_left s (Nat.zero_le m))
    (by rw [hlen]; exact Nat.mul_le_mul_left s hm)]
  simp only [rangeOf, Nat.mul_zero, List.drop_zero, Nat.sub_zero]
  rw [take_flatten_of_uniform m h]

/-- `buf[s * i..s * (i + 1)].copy_from_slice(src)` replaces the block at `i`. -/
theorem copyFromSlice_flatten {s i : Nat} {xs : List (List α)} {src : List α} (h : Uniform s xs)
    (hi : i < xs.length) (hsrc : src.length = s) :
    copyFromSlice xs.flatten (s * i) (s * (i + 1)) src = .ok (xs.set i src).flatten := by
  have hlen := length_flatten_of_uniform h
  rw [copyFromSlice_eq_ok (Nat.mul_le_mul_left s (Nat.le_succ i))
    (by rw [hlen]; exact Nat.mul_le_mul_left s hi) (by rw [hsrc, Nat.mul_succ]; omega)]
  rw [take_flatten_of_uniform i h, drop_flatten_of_uniform (i + 1) h,
    List.set_eq_take_append_cons_drop, if_pos hi, List.flatten_append, List.flatten_cons,
    List.append_assoc]

/-- Cutting a buffer of blocks into pieces of the block size gives the blocks back. -/
theorem chunks_flatten {s : Nat} (hs : 0 < s) {xs : List (List α)} (h : Uniform s xs) :
    chunks s xs.flatten = xs := by
  have hlen := length_flatten_of_uniform h
  have hcount : (xs.flatten.length + s - 1) / s = xs.length := by
    rw [hlen, show s * xs.length + s - 1 = (s - 1) + xs.length * s by
      rw [Nat.mul_comm]; omega, Nat.add_mul_div_right _ _ hs, Nat.div_eq_of_lt (by omega),
      Nat.zero_add]
  apply List.ext_getElem
  · simp only [chunks, List.length_map, List.length_range, hcount]
  · intro i h₁ h₂
    simp only [chunks, List.getElem_map, List.getElem_range]
    rw [Nat.mul_comm]
    exact take_drop_flatten_of_uniform h h₂

/-- Writing a slice of at most `m * s` elements into the front of `m * s` copies of `z`: the
blocks of the slice, each padded with `z` to `s` elements. -/
theorem rightpad_eq_flatten {s : Nat} (z : α) :
    ∀ (m : Nat) {l : List α}, l.length ≤ s * m →
      l.rightpad (s * m) z = ((List.range m).map fun c => ((l.drop (s * c)).take s).rightpad s z).flatten
  | 0, l, hl => by
    have : l = [] := List.eq_nil_of_length_eq_zero (by omega)
    subst this
    simp [List.rightpad]
  | m + 1, l, hl => by
    -- the first block, then the rest shifted by one block
    have ih := rightpad_eq_flatten (s := s) z m (l := l.drop s)
      (by simp only [List.length_drop]; rw [Nat.mul_succ] at hl; omega)
    rw [List.range_succ_eq_map, List.map_cons, List.flatten_cons, List.map_map]
    have hshift : (List.range m).map ((fun c => ((l.drop (s * c)).take s).rightpad s z) ∘ Nat.succ) =
        (List.range m).map fun c => (((l.drop s).drop (s * c)).take s).rightpad s z := by
      apply List.map_congr_left
      intro c _
      simp only [Function.comp, List.drop_drop, Nat.mul_succ]
      rw [Nat.add_comm (s * c) s]
    rw [hshift, ← ih]
    simp only [List.rightpad, Nat.mul_zero, List.drop_zero, List.length_take, List.length_drop]
    by_cases hls : s ≤ l.length
    · rw [Nat.min_eq_left hls, Nat.sub_self, List.replicate_zero, List.append_nil,
        ← List.append_assoc, List.take_append_drop]
      congr 2
      rw [Nat.mul_succ]
      omega
    · rw [List.drop_eq_nil_of_le (by omega), List.take_of_length_le (by omega)]
      simp only [List.nil_append, List.append_assoc,
        List.replicate_append_replicate, Nat.min_eq_right (by omega : l.length ≤ s)]
      congr 2
      rw [Nat.mul_succ]
      omega

/-! ## Overwriting a range -/

/-- `l` with the elements from `a` on overwritten by `src`: what
`l[a..a + src.len()].copy_from_slice(src)` leaves. -/
def overwrite (l : List α) (a : Nat) (src : List α) : List α :=
  l.take a ++ src ++ l.drop (a + src.length)

section Overwrite

variable {l src src' : List α} {a x n : Nat}

theorem copyFromSlice_eq_overwrite (h : a + src.length ≤ l.length) :
    copyFromSlice l a (a + src.length) src = .ok (overwrite l a src) :=
  copyFromSlice_eq_ok (Nat.le_add_right a _) h (by omega)

theorem length_overwrite (h : a + src.length ≤ l.length) :
    (overwrite l a src).length = l.length := by
  simp only [overwrite, List.length_append, List.length_take, List.length_drop]
  omega

@[simp] theorem overwrite_nil : overwrite l a [] = l := by
  simp [overwrite]

/-- The written elements read back. -/
theorem rangeOf_overwrite_self (h : a ≤ l.length) :
    rangeOf (overwrite l a src) a (a + src.length) = src := by
  have htake : (l.take a).length = a := List.length_take_of_le h
  rw [rangeOf, overwrite, List.append_assoc, List.drop_left' htake, Nat.add_sub_cancel_left,
    List.take_left]

/-- Two writes side by side are one write. -/
theorem overwrite_overwrite (h : a ≤ l.length) :
    overwrite (overwrite l a src) (a + src.length) src' = overwrite l a (src ++ src') := by
  have hprefix : (l.take a ++ src).length = a + src.length := by
    rw [List.length_append, List.length_take_of_le h]
  have hmid : overwrite l a src = (l.take a ++ src) ++ l.drop (a + src.length) := rfl
  have hdrop : (overwrite l a src).drop (a + src.length + src'.length) =
      l.drop (a + (src ++ src').length) := by
    rw [hmid, ← List.drop_drop, List.drop_left' hprefix, List.drop_drop, List.length_append,
      Nat.add_assoc]
  rw [overwrite, hdrop, hmid, List.take_left' hprefix]
  simp only [overwrite, List.append_assoc]

/-- A range that ends before the write is left alone. -/
theorem rangeOf_overwrite_of_le (hx : x + n ≤ a) (ha : a ≤ l.length) :
    rangeOf (overwrite l a src) x (x + n) = rangeOf l x (x + n) := by
  have htake : (l.take a).length = a := List.length_take_of_le ha
  rw [rangeOf, rangeOf, Nat.add_sub_cancel_left, overwrite, List.append_assoc,
    List.drop_append_of_le_length (by omega), List.take_append_of_le_length
      (by rw [List.length_drop]; omega), List.drop_take, List.take_take, Nat.min_eq_left (by omega)]

/-- A range that starts after the write is left alone. -/
theorem rangeOf_overwrite_of_ge (hx : a + src.length ≤ x) (ha : a ≤ l.length) :
    rangeOf (overwrite l a src) x (x + n) = rangeOf l x (x + n) := by
  have hprefix : (l.take a ++ src).length = a + src.length := by
    rw [List.length_append, List.length_take_of_le ha]
  have hdrop : (overwrite l a src).drop x = l.drop x := by
    rw [overwrite, show x = (a + src.length) + (x - (a + src.length)) by omega, ← List.drop_drop,
      List.drop_left' hprefix, List.drop_drop]
  rw [rangeOf, rangeOf, hdrop]

/-- A range around the write holds the write at its offset. -/
theorem rangeOf_overwrite_within (hxa : x ≤ a) (hax : a + src.length ≤ x + n)
    (hn : x + n ≤ l.length) :
    rangeOf (overwrite l a src) x (x + n) = overwrite (rangeOf l x (x + n)) (a - x) src := by
  have htake : (l.take a).length = a := List.length_take_of_le (by omega)
  -- both sides are the part of `l` from `x` to `a`, the written elements, and the rest of `l`
  -- up to `x + n`
  have hfront : ((l.drop x).take n).take (a - x) = (l.take a).drop x := by
    rw [List.take_take, Nat.min_eq_left (by omega), List.take_drop, Nat.add_sub_cancel' hxa]
  have hback : ((l.drop x).take n).drop (a - x + src.length) =
      (l.drop (a + src.length)).take (n - (a - x + src.length)) := by
    rw [List.drop_take, List.drop_drop]
    congr 2
    omega
  have hleft : ((overwrite l a src).drop x).take n = (l.take a).drop x ++
      (src ++ (l.drop (a + src.length)).take (n - (a - x + src.length))) := by
    have hdrop : (overwrite l a src).drop x =
        (l.take a).drop x ++ (src ++ l.drop (a + src.length)) := by
      rw [overwrite, List.append_assoc]
      exact List.drop_append_of_le_length (by omega)
    have hfrontLen : ((l.take a).drop x).length = a - x := by rw [List.length_drop, htake]
    rw [hdrop, List.take_append, List.take_of_length_le (by omega), hfrontLen, List.take_append,
      List.take_of_length_le (show src.length ≤ n - (a - x) by omega), Nat.sub_sub]
  rw [rangeOf, rangeOf, Nat.add_sub_cancel_left, hleft, overwrite, hfront, hback,
    List.append_assoc]

/-- A write past a prefix is a write in what follows it. -/
theorem overwrite_append_of_length_le {p : List α} (h : p.length ≤ a) :
    overwrite (p ++ l) a src = p ++ overwrite l (a - p.length) src := by
  simp only [overwrite, List.take_append, List.take_of_length_le h, List.drop_append,
    List.drop_eq_nil_of_le (show p.length ≤ a + src.length by omega), List.nil_append,
    List.append_assoc, show a + src.length - p.length = a - p.length + src.length by omega]

/-- A write that ends inside the first part leaves the second alone. -/
theorem overwrite_append_of_le_length {r : List α} (h : a + src.length ≤ l.length) :
    overwrite (l ++ r) a src = overwrite l a src ++ r := by
  simp only [overwrite, List.take_append_of_le_length (show a ≤ l.length by omega),
    List.drop_append_of_le_length h, List.append_assoc]

/-- A write inside the block at `k` of a buffer of blocks rewrites that block. -/
theorem overwrite_flatten_of_uniform {s k o : Nat} {xs : List (List α)} (h : Uniform s xs)
    (hk : k < xs.length) (ho : o + src.length ≤ s) :
    overwrite xs.flatten (s * k + o) src = (xs.set k (overwrite xs[k] o src)).flatten := by
  have hblock : xs[k].length = s := h _ (List.getElem_mem hk)
  have hfront : (xs.take k).flatten.length = s * k := by
    rw [length_flatten_of_uniform (fun y hy => h y (List.mem_of_mem_take hy)),
      List.length_take_of_le (Nat.le_of_lt hk)]
  have hsplit : xs.flatten = (xs.take k).flatten ++ (xs[k] ++ (xs.drop (k + 1)).flatten) := by
    conv_lhs => rw [← List.take_append_drop k xs, List.drop_eq_getElem_cons hk]
    simp only [List.flatten_append, List.flatten_cons]
  rw [List.set_eq_take_append_cons_drop, if_pos hk, List.flatten_append, List.flatten_cons, hsplit,
    overwrite_append_of_length_le (by omega), hfront, Nat.add_sub_cancel_left,
    overwrite_append_of_le_length (by omega)]

end Overwrite

end Machine.Slice
