import Mathlib.Data.List.Basic
import Mathlib.Data.List.Induction
import Mathlib.Algebra.Order.Group.Nat

/-! # BCS integers, readers and the writer

BCS writes an unsigned integer of `width` bytes least significant byte first, and a fixed
array of bytes as its bytes. A reader holds the bytes not read yet and takes a fixed number of
them from the front; it fails when fewer are left.

`leBytes` and `leNat` are the two directions of the little-endian encoding; `peel` is the
reader. The round trips are `leNat_leBytes` and `leBytes_leNat`, and a reader given the
concatenation of two encodings reads the first (`peel_append`).

The writer (`bcs::to_bytes`) is given for the shapes of serde's data model that a string, a
sequence and a map take: a length in ULEB128, refused above `MAX_SEQUENCE_LENGTH`, before the
bytes of a string, the elements of a sequence and the entries of a map; a map writes its entries
in the order of their serialized keys, a repeated key once (`mapBytes`). `bcs::serialized_size`
runs the same serializer into a counter (`serializedSize`).
-/

namespace Machine.Bcs

/-- The `width` bytes of `n`, least significant first. -/
def leBytes : (width n : Nat) → List UInt8
  | 0, _ => []
  | width + 1, n => UInt8.ofNat (n % 256) :: leBytes width (n / 256)

/-- The number whose bytes, least significant first, are `bytes`. -/
def leNat : List UInt8 → Nat
  | [] => 0
  | b :: bytes => b.toNat + 256 * leNat bytes

/-- Read `n` bytes from the front. -/
def peel (n : Nat) (bytes : List UInt8) : Option (Vector UInt8 n × List UInt8) :=
  if h : n ≤ bytes.length then
    some (⟨(bytes.take n).toArray, by simp [h]⟩, bytes.drop n)
  else none

@[simp] theorem length_leBytes (width n : Nat) : (leBytes width n).length = width := by
  induction width generalizing n with
  | zero => rfl
  | succ width ih => simp [leBytes, ih]

/-- Reading back the bytes of a number that fits them gives the number. -/
theorem leNat_leBytes {width n : Nat} (h : n < 256 ^ width) : leNat (leBytes width n) = n := by
  induction width generalizing n with
  | zero =>
    simp only [Nat.pow_zero] at h
    simp [leNat, leBytes]
    omega
  | succ width ih =>
    have hdiv : n / 256 < 256 ^ width := by
      rw [Nat.div_lt_iff_lt_mul (by decide), ← Nat.pow_succ]
      exact h
    rw [leBytes, leNat, ih hdiv, UInt8.toNat_ofNat']
    have := Nat.div_add_mod n 256
    omega

/-- Writing back the number of some bytes gives the bytes. -/
theorem leBytes_leNat (bytes : List UInt8) : leBytes bytes.length (leNat bytes) = bytes := by
  induction bytes with
  | nil => rfl
  | cons b bytes ih =>
    have hb := b.toNat_lt
    have hmod : (b.toNat + 256 * leNat bytes) % 256 = b.toNat := by omega
    have hdiv : (b.toNat + 256 * leNat bytes) / 256 = leNat bytes := by omega
    rw [List.length_cons, leBytes, leNat, hmod, hdiv, ih, UInt8.ofNat_toNat]

/-- A reader reads a prefix of the length it asks for. -/
theorem peel_append {n : Nat} {xs ys : List UInt8} (h : xs.length = n) :
    peel n (xs ++ ys) = some (⟨xs.toArray, by simp [h]⟩, ys) := by
  unfold peel
  rw [dif_pos (by simp [h])]
  congr
  · exact List.take_left' h
  · exact List.drop_left' h

/-! ## Big-endian numbers -/

/-- The number whose bytes, most significant first, are `bytes`. -/
def beNat (bytes : List UInt8) : Nat :=
  leNat bytes.reverse

theorem beNat_concat (bytes : List UInt8) (b : UInt8) :
    beNat (bytes ++ [b]) = beNat bytes * 256 + b.toNat := by
  rw [beNat, List.reverse_concat, leNat, beNat]
  omega

/-- Horner's method reducing after each byte computes the big-endian number modulo `m`. -/
theorem foldl_horner_mod (m : Nat) (bytes : List UInt8) :
    bytes.foldl (fun acc b => (acc * 256 + b.toNat) % m) 0 = beNat bytes % m := by
  induction bytes using List.reverseRecOn with
  | nil => rfl
  | append_singleton bytes b ih =>
    rw [List.foldl_concat, ih, beNat_concat, Nat.add_mod, Nat.mul_mod, Nat.mod_mod,
      ← Nat.mul_mod, ← Nat.add_mod]

/-- Horner's method computes the big-endian number. -/
theorem foldl_horner (bytes : List UInt8) :
    bytes.foldl (fun acc b => acc * 256 + b.toNat) 0 = beNat bytes := by
  induction bytes using List.reverseRecOn with
  | nil => rfl
  | append_singleton bytes b ih => rw [List.foldl_concat, ih, beNat_concat]

/-- Byte strings of one length are their big-endian numbers: the last byte is the number
modulo `256`, and the others the number divided by `256`. -/
theorem beNat_injective {a b : List UInt8} (hlen : a.length = b.length)
    (h : beNat a = beNat b) : a = b := by
  induction a using List.reverseRecOn generalizing b with
  | nil =>
    rw [List.length_nil, eq_comm, List.length_eq_zero_iff] at hlen
    rw [hlen]
  | append_singleton a x ih =>
    rcases List.eq_nil_or_concat b with rfl | ⟨b, y, rfl⟩
    · simp at hlen
    rw [List.concat_eq_append] at hlen h ⊢
    simp only [List.length_append, List.length_singleton, Nat.add_right_cancel_iff] at hlen
    rw [beNat_concat, beNat_concat] at h
    have hx := x.toNat_lt
    have hy := y.toNat_lt
    have hxy : x.toNat = y.toNat := by omega
    have hab : beNat a = beNat b := by omega
    rw [ih hlen hab, UInt8.toNat_inj.mp hxy]

/-! ## The writer -/

/-- `MAX_SEQUENCE_LENGTH`. -/
def maxSequenceLength : Nat := 2 ^ 31 - 1

/-- ULEB128: seven bits a byte, least significant first, with the high bit set on every byte
but the last. -/
def uleb128 (n : Nat) : List UInt8 :=
  if n < 128 then [UInt8.ofNat n]
  else UInt8.ofNat (n % 128 + 128) :: uleb128 (n / 128)
termination_by n
decreasing_by omega

/-- `output_seq_len`: the length of a sequence, a string or a map. -/
def seqLenBytes (len : Nat) : Except String (List UInt8) :=
  if len > maxSequenceLength then .error s!"exceeded max sequence length: {len}"
  else .ok (uleb128 len)

/-- A string: its UTF-8 bytes after their number. -/
def strBytes (s : String) : Except String (List UInt8) := do
  let bytes := s.toUTF8.toList
  pure ((← seqLenBytes bytes.length) ++ bytes)

/-- A sequence: its length, then each element. -/
def seqBytes {α : Type} (element : α → Except String (List UInt8)) (xs : List α) :
    Except String (List UInt8) := do
  let len ← seqLenBytes xs.length
  let elements ← xs.mapM element
  pure (len ++ elements.flatten)

/-- The order of `Vec<u8>`: lexicographic, a prefix first. -/
def lexLe : List UInt8 → List UInt8 → Bool
  | [], _ => true
  | _ :: _, [] => false
  | a :: as, b :: bs => a < b || (a == b && lexLe as bs)

/-- A map: each entry serialized, the entries sorted by their serialized keys and a repeated
key kept once (`sort_by` and `dedup_by` of `MapSerializer::end`), their number, then each key
and its value. -/
def mapBytes {κ ν : Type} (key : κ → Except String (List UInt8))
    (value : ν → Except String (List UInt8)) (entries : List (κ × ν)) :
    Except String (List UInt8) := do
  let serialized ← entries.mapM fun entry => do pure (← key entry.1, ← value entry.2)
  let sorted := (serialized.mergeSort fun e₁ e₂ => lexLe e₁.1 e₂.1).destutter
    fun e₁ e₂ => e₁.1 ≠ e₂.1
  let len ← seqLenBytes sorted.length
  pure (len ++ (sorted.map fun e => e.1 ++ e.2).flatten)

/-- `serialized_size`: the number of bytes `to_bytes` writes, or its error. -/
def serializedSize (bytes : Except String (List UInt8)) : Except String Nat :=
  bytes.map List.length

@[simp] theorem serializedSize_ok {bytes : List UInt8} :
    serializedSize (.ok bytes) = .ok bytes.length := rfl

@[simp] theorem serializedSize_error {e : String} : serializedSize (.error e) = .error e := rfl

end Machine.Bcs
