import Mathlib.Data.Vector.Basic

/-! # Identifiers and fixed-width counters shared by the models

The storage node and the contracts identify blobs by a 32-byte `BlobId`, Sui objects by a
32-byte `ObjectID`, and on-chain events by an `EventID` (transaction digest and sequence
number). The models only compare and store these values, so they are kept as the byte
arrays they are.

Epochs are `u32` in both the Rust crates and the Move contracts. The storage-node code only
compares epochs and takes maxima of them, so the models write them as natural numbers; the
contract models check the `u32` bound where Move arithmetic on epochs would abort.
-/

namespace Walrus

/-- The largest value of a `u16`. -/
def u16Max : Nat := 2 ^ 16 - 1

/-- The largest value of a `u32`. -/
def u32Max : Nat := 2 ^ 32 - 1

/-- The largest value of a `u64`. -/
def u64Max : Nat := 2 ^ 64 - 1

/-- The largest value of a `u128`. -/
def u128Max : Nat := 2 ^ 128 - 1

/-- The ID of a blob: 32 bytes. -/
structure BlobId where
  bytes : Vector UInt8 32
deriving DecidableEq, Repr

/-- The ID of a Sui object: 32 bytes. -/
structure ObjectID where
  bytes : Vector UInt8 32
deriving DecidableEq, Repr

/-- `to_address().to_u256()`: the ID read as a big-endian number, the order in which the
contracts sort node IDs. -/
def ObjectID.toU256 (id : ObjectID) : Nat :=
  id.bytes.toList.foldl (fun acc b => acc * 256 + b.toNat) 0

/-- The ID of a Sui event: the digest of the emitting transaction and the sequence number of
the event in it. -/
structure EventID where
  txDigest : Vector UInt8 32
  eventSeq : UInt64
deriving DecidableEq, Repr

/-- A `NonZeroU32`: a `u32` that carries its own proof of being positive. -/
structure NonZeroU32 where
  get : UInt32
  ne_zero : get ≠ 0
deriving DecidableEq

namespace NonZeroU32

/-- The count `1`. -/
def one : NonZeroU32 := ⟨1, by decide⟩

/-- `NonZeroU32::saturating_add(1)`: the successor, or `u32::MAX` when already there. -/
def saturatingAddOne (n : NonZeroU32) : NonZeroU32 :=
  if h : n.get = UInt32.ofNat u32Max then n
  else ⟨n.get + 1, by
    intro h1
    apply h
    have h2 : n.get = n.get + 1 - 1 := by simp
    rw [h2, h1]
    decide⟩

theorem toNat_pos (n : NonZeroU32) : 0 < n.get.toNat := by
  have h := n.ne_zero
  have : n.get.toNat ≠ 0 := by
    intro h0
    apply h
    exact UInt32.toNat_inj.mp (by simpa using h0)
  omega

theorem toNat_le_max (n : NonZeroU32) : n.get.toNat ≤ u32Max := by
  have := n.get.toNat_lt
  simp [u32Max]
  omega

/-- Below `u32::MAX` the saturating successor adds one. -/
theorem saturatingAddOne_toNat_of_lt {n : NonZeroU32} (h : n.get.toNat < u32Max) :
    (saturatingAddOne n).get.toNat = n.get.toNat + 1 := by
  have hne : n.get ≠ UInt32.ofNat u32Max := by
    intro heq
    rw [heq] at h
    simp [u32Max] at h
  simp only [saturatingAddOne, hne, dite_false]
  rw [UInt32.toNat_add]
  simp [u32Max] at h ⊢
  omega

/-- The saturating successor never decreases the count and adds at most one. -/
theorem saturatingAddOne_toNat (n : NonZeroU32) :
    (saturatingAddOne n).get.toNat = min (n.get.toNat + 1) u32Max := by
  by_cases hlt : n.get.toNat < u32Max
  · rw [saturatingAddOne_toNat_of_lt hlt]
    omega
  · have heq : n.get = UInt32.ofNat u32Max := by
      have := toNat_le_max n
      apply UInt32.toNat_inj.mp
      simp [u32Max] at hlt this ⊢
      omega
    simp only [saturatingAddOne, heq, dite_true]
    simp [u32Max]

end NonZeroU32

end Walrus
