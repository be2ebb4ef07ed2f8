import Mathlib.Data.List.Range
import Mathlib.Data.List.DropRight
import Mathlib.Data.Nat.Bitwise

/-! # Bitmaps of bytes

A set of small numbers sent as a vector of bytes: number `i` is bit `i % 8` of byte `i / 8`,
counting from the least significant bit. The writer sets a bit with `bitmap[i / 8] |= 1 << (i %
8)`; the reader tests it with `(byte >> (i % 8)) & 1 == 1`, reading a byte past the end of the
vector as zero.

Bytes are kept as natural numbers. Every byte the writer produces is below `256`
(`setBit_lt`), and on such bytes the `u8` operations of the code are the operations on natural
numbers.
-/

namespace Machine.Bitmap

/-- Bit `i` of a byte, as `(byte >> i) & 1 == 1` reads it. -/
def bitOf (byte i : Nat) : Bool := (byte >>> i) &&& 1 == 1

/-- `bitmap[i / 8] |= 1 << (i % 8)`. -/
def setBit (bitmap : List Nat) (i : Nat) : List Nat :=
  bitmap.modify (i / 8) (· ||| 1 <<< (i % 8))

/-- Bit `i` of a bitmap, zero past its end. -/
def getBit (bitmap : List Nat) (i : Nat) : Bool :=
  bitOf (bitmap.getD (i / 8) 0) (i % 8)

/-- The bitmap of `bytes` bytes with the bits of `xs` set, in the order of `xs`. -/
def ofList (bytes : Nat) (xs : List Nat) : List Nat :=
  xs.foldl setBit (List.replicate bytes 0)

theorem bitOf_eq_testBit (byte i : Nat) : bitOf byte i = byte.testBit i := by
  unfold bitOf
  rw [Nat.and_one_is_mod, Nat.shiftRight_eq_div_pow, Nat.testBit_eq_decide_div_mod_eq]
  rfl

/-- Bit `i` of byte `b` is bit `8 * b + i` of the bitmap. -/
theorem getBit_eight_mul_add (bitmap : List Nat) {b i : Nat} (hi : i < 8) :
    getBit bitmap (8 * b + i) = bitOf (bitmap.getD b 0) i := by
  unfold getBit
  rw [show (8 * b + i) / 8 = b by omega, show (8 * b + i) % 8 = i by omega]

/-- No bit is set past the end of the bitmap. -/
theorem getBit_of_length_le {bitmap : List Nat} {i : Nat} (hi : 8 * bitmap.length ≤ i) :
    getBit bitmap i = false := by
  unfold getBit
  rw [List.getD_eq_getElem?_getD, List.getElem?_eq_none (by omega)]
  simp [bitOf_eq_testBit]

@[simp] theorem length_setBit (bitmap : List Nat) (i : Nat) :
    (setBit bitmap i).length = bitmap.length :=
  List.length_modify _ _ _

@[simp] theorem length_ofList (bytes : Nat) (xs : List Nat) : (ofList bytes xs).length = bytes := by
  unfold ofList
  induction xs using List.reverseRecOn with
  | nil => simp
  | append_singleton xs x ih => simp [List.foldl_append, ih]

/-- Setting a bit inside the bitmap sets that bit and no other. -/
theorem getBit_setBit {bitmap : List Nat} {i : Nat} (hi : i / 8 < bitmap.length) (j : Nat) :
    getBit (setBit bitmap i) j = (getBit bitmap j || decide (i = j)) := by
  unfold getBit setBit
  rw [List.getD_eq_getElem?_getD, List.getD_eq_getElem?_getD, List.getElem?_modify]
  by_cases hbyte : i / 8 = j / 8
  case pos =>
    rw [← hbyte, List.getElem?_eq_getElem hi]
    simp only [Option.map_eq_map, Option.map_some, if_true, Option.getD_some, bitOf_eq_testBit,
      Nat.testBit_or, Nat.one_shiftLeft, Nat.testBit_two_pow]
    -- in the same byte, two numbers are equal exactly when their bit positions are
    have hiff : (i % 8 = j % 8) ↔ i = j := by omega
    simp only [hiff]
  case neg =>
    have hne : i ≠ j := fun h => hbyte (h ▸ rfl)
    cases hj : bitmap[j / 8]? <;> simp [hbyte, hne]

@[simp] theorem getBit_replicate_zero (bytes i : Nat) : getBit (List.replicate bytes 0) i = false := by
  unfold getBit
  rw [List.getD_eq_getElem?_getD, List.getElem?_replicate]
  split <;> simp [bitOf_eq_testBit]

/-- A bitmap wide enough for the numbers of `xs` has exactly their bits set. -/
theorem getBit_ofList {bytes : Nat} {xs : List Nat} (hxs : ∀ x ∈ xs, x / 8 < bytes) (j : Nat) :
    getBit (ofList bytes xs) j = decide (j ∈ xs) := by
  unfold ofList
  induction xs using List.reverseRecOn with
  | nil => simp
  | append_singleton xs x ih =>
    have hx : x / 8 < (xs.foldl setBit (List.replicate bytes 0)).length := by
      have := length_ofList bytes xs
      unfold ofList at this
      rw [this]
      exact hxs x (by simp)
    rw [List.foldl_append, List.foldl_cons, List.foldl_nil, getBit_setBit hx,
      ih (fun y hy => hxs y (by simp [hy]))]
    simp [eq_comm]

/-- The writer keeps every byte below `256`. -/
theorem setBit_lt {bitmap : List Nat} (h : ∀ b ∈ bitmap, b < 256) (i : Nat) :
    ∀ b ∈ setBit bitmap i, b < 256 := by
  intro b hb
  obtain ⟨k, hk⟩ := List.mem_iff_getElem?.mp hb
  rw [setBit, List.getElem?_modify] at hk
  cases hb' : bitmap[k]? with
  | none => simp [hb'] at hk
  | some b' =>
    have hlt : b' < 256 := h b' (List.mem_of_getElem? hb')
    simp only [hb', Option.map_eq_map, Option.map_some, Option.some.injEq] at hk
    split at hk
    case isTrue =>
      have hbit : 1 <<< (i % 8) < 2 ^ 8 := by
        rw [Nat.one_shiftLeft]
        exact Nat.pow_lt_pow_right (by decide) (Nat.mod_lt i (by decide))
      rw [← hk]
      exact Nat.or_lt_two_pow hlt hbit
    case isFalse => exact hk ▸ hlt

/-! ## Bitmaps with the same bits -/

/-- Trailing zero bytes read like the zero bytes past the end. -/
theorem getD_rdropWhile_zero (l : List Nat) (i : Nat) :
    (l.rdropWhile (· == 0)).getD i 0 = l.getD i 0 := by
  have hsplit := @List.rdropWhile_append_rtakeWhile _ (fun x => x == 0) l
  conv_rhs => rw [← hsplit]
  by_cases hi : i < (l.rdropWhile (· == 0)).length
  · rw [List.getD_append _ _ _ _ hi]
  · rw [List.getD_append_right _ _ _ _ (Nat.le_of_not_lt hi),
      List.getD_eq_default _ _ (Nat.le_of_not_lt hi)]
    -- what follows the kept bytes are zeros
    rw [List.getD_eq_getElem?_getD]
    rcases h : (l.rtakeWhile (· == 0))[i - (l.rdropWhile (· == 0)).length]? with _ | x
    · rfl
    · have hx := List.mem_rtakeWhile_imp (List.mem_of_getElem? h)
      simpa using (beq_iff_eq.mp hx).symm

/-- Two byte lists without trailing zeros that read alike everywhere are equal. -/
theorem eq_of_getD_eq {a b : List Nat} (ha : ∀ h : a ≠ [], a.getLast h ≠ 0)
    (hb : ∀ h : b ≠ [], b.getLast h ≠ 0) (h : ∀ i, a.getD i 0 = b.getD i 0) : a = b := by
  -- the last byte of the longer list would be read as zero in the shorter one
  have hlast : ∀ {a b : List Nat}, (∀ h : b ≠ [], b.getLast h ≠ 0) →
      (∀ i, a.getD i 0 = b.getD i 0) → b.length ≤ a.length := by
    intro a b hb h
    by_contra hlt
    have hne : b ≠ [] := List.ne_nil_of_length_pos (by omega)
    have hread := h (b.length - 1)
    rw [List.getD_eq_default _ _ (by omega), List.getD_eq_getElem _ _ (by omega),
      ← List.getLast_eq_getElem hne] at hread
    exact hb hne hread.symm
  have hlen : a.length = b.length :=
    Nat.le_antisymm (hlast ha fun i => (h i).symm) (hlast hb h)
  apply List.ext_getElem hlen
  intro i hia hib
  have hi := h i
  rwa [List.getD_eq_getElem _ _ hia, List.getD_eq_getElem _ _ hib] at hi

/-- Bytes below `256` are read whole through their eight bits. -/
theorem getD_eq_of_getBit_eq {a b : List Nat} (ha : ∀ x ∈ a, x < 256) (hb : ∀ x ∈ b, x < 256)
    (h : ∀ j, getBit a j = getBit b j) (i : Nat) : a.getD i 0 = b.getD i 0 := by
  have hbyte : ∀ {l : List Nat}, (∀ x ∈ l, x < 256) → l.getD i 0 < 2 ^ 8 := by
    intro l hl
    rw [List.getD_eq_getElem?_getD]
    rcases hx : l[i]? with _ | x
    · exact Nat.two_pow_pos 8
    · exact hl x (List.mem_of_getElem? hx)
  apply Nat.eq_of_testBit_eq
  intro j
  by_cases hj : j < 8
  · -- bit `j` of byte `i` is bit `8 i + j` of the bitmap
    have hbit := h (8 * i + j)
    unfold getBit at hbit
    rwa [show (8 * i + j) / 8 = i by omega, show (8 * i + j) % 8 = j by omega,
      bitOf_eq_testBit, bitOf_eq_testBit] at hbit
  · rw [Nat.testBit_eq_false_of_lt ((hbyte ha).trans_le (Nat.pow_le_pow_right (by decide)
      (by omega))), Nat.testBit_eq_false_of_lt ((hbyte hb).trans_le
      (Nat.pow_le_pow_right (by decide) (by omega)))]

/-- Two bitmaps of bytes have the same bits exactly when they are equal once their trailing
zero bytes are dropped. -/
theorem getBit_eq_iff_rdropWhile_eq {a b : List Nat} (ha : ∀ x ∈ a, x < 256)
    (hb : ∀ x ∈ b, x < 256) :
    (∀ j, getBit a j = getBit b j) ↔ a.rdropWhile (· == 0) = b.rdropWhile (· == 0) := by
  constructor
  · intro h
    apply eq_of_getD_eq
    · intro hne
      simpa using List.rdropWhile_last_not _ _ hne
    · intro hne
      simpa using List.rdropWhile_last_not _ _ hne
    · intro i
      rw [getD_rdropWhile_zero, getD_rdropWhile_zero]
      exact getD_eq_of_getBit_eq ha hb h i
  · intro h j
    unfold getBit
    rw [← getD_rdropWhile_zero a, ← getD_rdropWhile_zero b, h]

end Machine.Bitmap
