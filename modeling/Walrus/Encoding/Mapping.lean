import Walrus.Encoding.Symbols
import Walrus.Machine.Ring
import Walrus.Machine.Bcs

/-! # Sliver pairs and shards

`encoding::mapping`: the sliver pair `i` of a blob is stored on the shard `(i + r) % n`, where the
offset `r` is the blob ID read as a big-endian number, modulo the number `n` of shards
(`bytes_mod`, by Horner's method). `rotate_pairs` puts the pairs of a blob in shard order in
place, the last `r` pairs moving to the front. It leaves alone a slice already in shard order and
refuses one that is not a rotation of the pairs in index order.

Translation notes.
* Shard and pair indices are the `u16` values of `ShardIndex` and `SliverPairIndex`. The two
  conversions end in a `try_into().expect(..)` that cannot fail, the result being below
  `n ≤ u16::MAX`.
* `bytes_mod` panics on a zero modulus and its `usize` products wrap only past `2 ^ 56`; every
  caller passes a `NonZeroU16` or the length of a non-empty slice, and the model reads the
  arithmetic as exact.
* `rotate_pairs` rotates its slice in place: the model returns the result together with the slice
  afterwards, so that what an error leaves behind can be stated. More than `u16::MAX` pairs panic.

The conversions are inverse maps of the shards (`toShardIndex_toPairIndex`,
`toPairIndex_toShardIndex`); `rotate_pairs` sends the pairs in index order to shard order and
then leaves them there (`rotatePairs_of_indices`), and an error leaves the slice as it was
(`rotatePairs_error`). Rotating twice rotates by the sum of the offsets
(`rotatePairsUnchecked_rotatePairsUnchecked`).
-/

namespace Walrus.Encoding

open Machine

/-- `SliverAssignmentError`. -/
inductive SliverAssignmentError where
  | inconsistentRotation
  | invalidInputOrder
deriving DecidableEq, Repr

/-- `SliverPair::index`: the index of the primary sliver. -/
def SliverPair.index (self : SliverPair) : Nat :=
  self.primary.index

/-- `bytes_mod`: the bytes read as a big-endian number modulo `modulus`, by Horner's method. -/
def bytesMod (bytes : List UInt8) (modulus : Nat) : Nat :=
  bytes.foldl (fun acc byte => (acc * 256 + byte.toNat) % modulus) 0

/-- `rotation_offset`. -/
def rotationOffset (nShards : NonZeroU16) (blobId : BlobId) : Nat :=
  bytesMod blobId.bytes.toList nShards.get

/-- `SliverPairIndex::to_shard_index`. -/
def SliverPairIndex.toShardIndex (self : Nat) (nShards : NonZeroU16) (blobId : BlobId) : Nat :=
  (self + rotationOffset nShards blobId) % nShards.get

/-- `ShardIndex::to_pair_index`. -/
def ShardIndex.toPairIndex (self : Nat) (nShards : NonZeroU16) (blobId : BlobId) : Nat :=
  (nShards.get + self - rotationOffset nShards blobId) % nShards.get

/-- `rotate_by_bytes`: `rotate_right` by the rotation modulo the length of the slice. -/
def rotateByBytes {T : Type} (slice : List T) (rotation : List UInt8) : List T :=
  slice.rotateRight (bytesMod rotation slice.length)

/-- `is_rotation`: the indices count up from the first one, modulo the length. -/
def isRotation (pairs : List SliverPair) : Bool :=
  match pairs with
  | [] => true
  | first :: _ =>
    pairs.zipIdx.all fun (pair, index) => pair.index == (index + first.index) % pairs.length

/-- `rotate_pairs`: the result, and the slice afterwards. -/
def rotatePairs (pairs : List SliverPair) (blobId : BlobId) :
    Except String (Except SliverAssignmentError Unit × List SliverPair) :=
  if hmax : pairs.length ≤ u16Max then
    if hpos : 0 < pairs.length then
      let nPairs : NonZeroU16 := ⟨pairs.length, hpos, hmax⟩
      if isRotation pairs then
        if pairs[0].index = 0 then pure (.ok (), rotateByBytes pairs blobId.bytes.toList)
        else if pairs[0].index ≠ ShardIndex.toPairIndex 0 nPairs blobId then
          pure (.error .inconsistentRotation, pairs)
        else pure (.ok (), pairs)
      else pure (.error .invalidInputOrder, pairs)
    else
      -- nothing to do for an empty slice
      pure (.ok (), pairs)
  else throw "there must not be more than `u16::MAX` sliver pairs"

/-- `rotate_pairs_unchecked`. -/
def rotatePairsUnchecked (pairs : List SliverPair) (blobId : BlobId) : List SliverPair :=
  if pairs.isEmpty then pairs else rotateByBytes pairs blobId.bytes.toList

/-! ## The offset and the two conversions -/

theorem bytesMod_eq (bytes : List UInt8) (m : Nat) : bytesMod bytes m = Bcs.beNat bytes % m :=
  Bcs.foldl_horner_mod m bytes

theorem bytesMod_lt (bytes : List UInt8) {m : Nat} (hm : 0 < m) : bytesMod bytes m < m := by
  rw [bytesMod_eq]
  exact Nat.mod_lt _ hm

theorem rotationOffset_lt (nShards : NonZeroU16) (blobId : BlobId) :
    rotationOffset nShards blobId < nShards.get :=
  bytesMod_lt _ nShards.pos

theorem toShardIndex_lt (x : Nat) (nShards : NonZeroU16) (blobId : BlobId) :
    SliverPairIndex.toShardIndex x nShards blobId < nShards.get :=
  Nat.mod_lt _ nShards.pos

theorem toPairIndex_lt (x : Nat) (nShards : NonZeroU16) (blobId : BlobId) :
    ShardIndex.toPairIndex x nShards blobId < nShards.get :=
  Nat.mod_lt _ nShards.pos

/-- The pair stored on a shard is stored on that shard. -/
theorem toShardIndex_toPairIndex {x : Nat} {nShards : NonZeroU16} (blobId : BlobId)
    (hx : x < nShards.get) :
    SliverPairIndex.toShardIndex (ShardIndex.toPairIndex x nShards blobId) nShards blobId = x :=
  sub_add_mod_cancel (rotationOffset_lt nShards blobId) hx

/-- The shard of a pair stores that pair. -/
theorem toPairIndex_toShardIndex {x : Nat} {nShards : NonZeroU16} (blobId : BlobId)
    (hx : x < nShards.get) :
    ShardIndex.toPairIndex (SliverPairIndex.toShardIndex x nShards blobId) nShards blobId = x :=
  add_sub_mod_cancel (rotationOffset_lt nShards blobId) hx

/-! ## Rotating a slice -/

/-- After `rotate_by_bytes` by a blob ID, shard `s` holds the pair `to_pair_index(s)`. -/
theorem getElem?_rotateByBytes {T : Type} {slice : List T} {nShards : NonZeroU16}
    (blobId : BlobId) (hlen : slice.length = nShards.get) {s : Nat} (hs : s < nShards.get) :
    (rotateByBytes slice blobId.bytes.toList)[s]? =
      slice[ShardIndex.toPairIndex s nShards blobId]? := by
  have hoff := rotationOffset_lt nShards blobId
  rw [rotationOffset] at hoff
  rw [rotateByBytes, hlen, rotateRight_eq_rotate (by omega), List.getElem?_rotate (by omega),
    ShardIndex.toPairIndex, rotationOffset, hlen]
  congr 2
  omega

/-- `rotate_right` by nothing leaves the slice as it is. -/
theorem rotateByBytes_of_bytesMod_eq_zero {T : Type} {slice : List T} {rotation : List UInt8}
    (hpos : 0 < slice.length) (h : bytesMod rotation slice.length = 0) :
    rotateByBytes slice rotation = slice := by
  rw [rotateByBytes, h, rotateRight_eq_rotate hpos, Nat.sub_zero, List.rotate_length]

theorem rotatePairsUnchecked_of_length_pos {pairs : List SliverPair} (blobId : BlobId)
    (hpos : 0 < pairs.length) :
    rotatePairsUnchecked pairs blobId = rotateByBytes pairs blobId.bytes.toList := by
  have hne : pairs.isEmpty = false := by
    rw [List.isEmpty_eq_false_iff]
    exact List.ne_nil_of_length_pos hpos
  rw [rotatePairsUnchecked, hne, if_neg Bool.false_ne_true]

/-- Rotating twice by blob IDs rotates by the sum of their offsets. -/
theorem rotatePairsUnchecked_rotatePairsUnchecked {pairs : List SliverPair}
    {nShards : NonZeroU16} (hlen : pairs.length = nShards.get) (id₁ id₂ : BlobId) :
    rotatePairsUnchecked (rotatePairsUnchecked pairs id₁) id₂ =
      pairs.rotateRight
        ((rotationOffset nShards id₁ + rotationOffset nShards id₂) % nShards.get) := by
  have hpos : 0 < pairs.length := by
    rw [hlen]
    exact nShards.pos
  have hlen₁ : (rotateByBytes pairs id₁.bytes.toList).length = pairs.length := by
    rw [rotateByBytes, length_rotateRight]
  rw [rotatePairsUnchecked_of_length_pos id₁ hpos,
    rotatePairsUnchecked_of_length_pos id₂ (by rw [hlen₁]; exact hpos), rotateByBytes, hlen₁,
    rotateByBytes, rotateRight_rotateRight (bytesMod_lt _ hpos) (bytesMod_lt _ hpos), hlen]
  rfl

/-! ## `rotate_pairs` -/

/-- `rotate_pairs` on a non-empty slice of `n ≤ u16::MAX` pairs: it checks that the slice is a
rotation, rotates it when its first pair is pair 0, and otherwise keeps it only when its first
pair is the one of shard 0. -/
theorem rotatePairs_cons {first : SliverPair} {rest : List SliverPair} (nShards : NonZeroU16)
    (hlen : (first :: rest).length = nShards.get) (blobId : BlobId) :
    rotatePairs (first :: rest) blobId =
      .ok (if isRotation (first :: rest) then
        if first.index = 0 then (.ok (), rotateByBytes (first :: rest) blobId.bytes.toList)
        else if first.index ≠ ShardIndex.toPairIndex 0 nShards blobId then
          (.error .inconsistentRotation, first :: rest)
        else (.ok (), first :: rest)
      else (.error .invalidInputOrder, first :: rest)) := by
  obtain ⟨n, hpos, hmax⟩ := nShards
  dsimp only at hlen
  subst hlen
  rw [rotatePairs, dif_pos hmax, dif_pos hpos]
  simp only [List.getElem_cons_zero]
  split_ifs <;> rfl

/-- An error of `rotate_pairs` leaves the slice as it was. -/
theorem rotatePairs_error {pairs after : List SliverPair} {blobId : BlobId}
    {e : SliverAssignmentError} (h : rotatePairs pairs blobId = .ok (.error e, after)) :
    after = pairs := by
  unfold rotatePairs at h
  -- each branch returns the slice it was given, rotated only on success
  dsimp only at h
  split_ifs at h <;> cases h <;> rfl

/-- A slice whose indices count up from `c` modulo its length is a rotation. -/
theorem isRotation_of_index {pairs : List SliverPair} {c : Nat} (hc : c < pairs.length)
    (h : ∀ j (hj : j < pairs.length), pairs[j].index = (j + c) % pairs.length) :
    isRotation pairs = true := by
  cases pairs with
  | nil => simp at hc
  | cons first rest =>
    have hfirst : first.index = c := by
      have h0 := h 0 (by simp)
      rwa [Nat.zero_add, Nat.mod_eq_of_lt hc] at h0
    rw [isRotation, List.all_eq_true]
    rintro ⟨pair, index⟩ hmem
    have hget : (first :: rest)[index]? = some pair := List.mem_zipIdx_iff_getElem?.mp hmem
    obtain ⟨hj, rfl⟩ := List.getElem?_eq_some_iff.mp hget
    rw [beq_iff_eq, hfirst]
    exact h index hj

/-- A slice holding the pairs `0, …, n - 1` in index order has `n` pairs. -/
theorem length_of_indices {pairs : List SliverPair} {n : Nat}
    (hidx : pairs.map SliverPair.index = List.range n) : pairs.length = n := by
  simpa using congrArg List.length hidx

/-- In a slice holding the pairs in index order, position `j` holds pair `j`. -/
theorem index_of_indices {pairs : List SliverPair} {n : Nat}
    (hidx : pairs.map SliverPair.index = List.range n) (j : Nat) (hj : j < pairs.length) :
    pairs[j].index = j := by
  have hlen := length_of_indices hidx
  have h := congrArg (·[j]?) hidx
  simpa [List.getElem?_eq_getElem hj, hlen ▸ hj] using h

/-- After `rotate_by_bytes`, shard `s` holds the pair `to_pair_index(s)` of a slice that held the
pairs in index order. -/
theorem index_rotateByBytes {nShards : NonZeroU16} (blobId : BlobId) {pairs : List SliverPair}
    (hidx : pairs.map SliverPair.index = List.range nShards.get) {s : Nat}
    (hs : s < (rotateByBytes pairs blobId.bytes.toList).length) :
    (rotateByBytes pairs blobId.bytes.toList)[s].index =
      ShardIndex.toPairIndex s nShards blobId := by
  have hlen : pairs.length = nShards.get := length_of_indices hidx
  have hs' : s < nShards.get := by
    rwa [rotateByBytes, length_rotateRight, hlen] at hs
  have hk : ShardIndex.toPairIndex s nShards blobId < pairs.length := by
    rw [hlen]
    exact toPairIndex_lt s nShards blobId
  have h := getElem?_rotateByBytes blobId hlen hs'
  rw [List.getElem?_eq_getElem hs, List.getElem?_eq_getElem hk, Option.some.injEq] at h
  rw [h, index_of_indices hidx _ hk]

/-- `rotate_pairs` puts the pairs in index order into shard order, and a second call with the
same blob ID keeps them there. -/
theorem rotatePairs_of_indices {nShards : NonZeroU16} (blobId : BlobId)
    {pairs : List SliverPair} (hidx : pairs.map SliverPair.index = List.range nShards.get) :
    rotatePairs pairs blobId = .ok (.ok (), rotateByBytes pairs blobId.bytes.toList) ∧
      rotatePairs (rotateByBytes pairs blobId.bytes.toList) blobId =
        .ok (.ok (), rotateByBytes pairs blobId.bytes.toList) := by
  have hlen : pairs.length = nShards.get := length_of_indices hidx
  have hoff := rotationOffset_lt nShards blobId
  have hrlen : (rotateByBytes pairs blobId.bytes.toList).length = nShards.get := by
    rw [rotateByBytes, length_rotateRight, hlen]
  constructor
  · -- the first pair is pair 0: the slice is a rotation by 0, and gets rotated
    obtain ⟨first, rest, hfr⟩ := List.exists_cons_of_length_pos (hlen ▸ nShards.pos)
    subst hfr
    have hrot : isRotation (first :: rest) = true := by
      apply isRotation_of_index (c := 0) (by simp)
      intro j hj
      rw [index_of_indices hidx j hj, Nat.add_zero, Nat.mod_eq_of_lt hj]
    have hfirst : first.index = 0 := index_of_indices hidx 0 (by simp)
    rw [rotatePairs_cons nShards hlen, if_pos hrot, if_pos hfirst]
  · -- the rotated slice is a rotation by `n - r`, and its first pair is the one of shard 0
    obtain ⟨first, rest, hfr⟩ := List.exists_cons_of_length_pos (hrlen ▸ nShards.pos)
    have hidx' : ∀ j (hj : j < (first :: rest).length),
        (first :: rest)[j].index = ShardIndex.toPairIndex j nShards blobId := by
      intro j hj
      have hj' : j < (rotateByBytes pairs blobId.bytes.toList).length := by rwa [hfr]
      rw [← index_rotateByBytes blobId hidx hj']
      simp only [hfr]
    have hrot : isRotation (first :: rest) = true := by
      apply isRotation_of_index (c := (nShards.get - rotationOffset nShards blobId) % nShards.get)
      · rw [← hfr, hrlen]
        exact Nat.mod_lt _ nShards.pos
      · intro j hj
        rw [hidx' j hj, ShardIndex.toPairIndex, ← hfr, hrlen, Nat.add_mod_mod]
        congr 1
        omega
    have hfirst : first.index = ShardIndex.toPairIndex 0 nShards blobId := hidx' 0 (by simp)
    rw [hfr, rotatePairs_cons nShards (by rw [← hfr, hrlen]), if_pos hrot]
    by_cases h0 : first.index = 0
    · -- a rotation by 0 leaves the slice as it is
      have hzero : rotationOffset nShards blobId = 0 := by
        rw [hfirst, ShardIndex.toPairIndex, Nat.add_zero] at h0
        rcases Nat.eq_zero_or_pos (rotationOffset nShards blobId) with h | h
        · exact h
        · rw [Nat.mod_eq_of_lt (by omega)] at h0
          omega
      rw [if_pos h0, rotateByBytes_of_bytesMod_eq_zero (by simp)]
      rw [← hfr, hrlen]
      exact hzero
    · rw [if_neg h0, if_neg (not_not.mpr hfirst)]

/-- The assignment of sliver pairs to shards is a bijection that `rotate_pairs` implements: the
two conversions undo each other on the shards, the offset is the blob ID modulo the number of
shards, the pairs in index order end up with shard `s` holding pair `to_pair_index(s)`, a second
call changes nothing, and an error leaves the slice as it was. -/
theorem rotatePairs_assigns_pairs_to_shards (nShards : NonZeroU16) (blobId : BlobId) :
    (∀ x < nShards.get,
      SliverPairIndex.toShardIndex (ShardIndex.toPairIndex x nShards blobId) nShards blobId = x ∧
        ShardIndex.toPairIndex (SliverPairIndex.toShardIndex x nShards blobId) nShards blobId =
          x) ∧
    (∀ (bytes : List UInt8) (m : Nat), 0 < m → m ≤ u16Max →
      bytesMod bytes m = Bcs.beNat bytes % m) ∧
    (∀ pairs : List SliverPair, pairs.map SliverPair.index = List.range nShards.get →
      ∃ rotated, rotatePairs pairs blobId = .ok (.ok (), rotated) ∧
        (∀ s < nShards.get, rotated[s]? = pairs[ShardIndex.toPairIndex s nShards blobId]? ∧
          rotated[s]?.map SliverPair.index = some (ShardIndex.toPairIndex s nShards blobId)) ∧
        rotatePairs rotated blobId = .ok (.ok (), rotated)) ∧
    (∀ (pairs after : List SliverPair) (e : SliverAssignmentError),
      rotatePairs pairs blobId = .ok (.error e, after) → after = pairs) := by
  refine ⟨?_, ?_, ?_, ?_⟩
  · intro x hx
    exact ⟨toShardIndex_toPairIndex blobId hx, toPairIndex_toShardIndex blobId hx⟩
  · intro bytes m _ _
    exact bytesMod_eq bytes m
  · intro pairs hidx
    have hlen : pairs.length = nShards.get := length_of_indices hidx
    obtain ⟨hfirst, hsecond⟩ := rotatePairs_of_indices blobId hidx
    refine ⟨rotateByBytes pairs blobId.bytes.toList, hfirst, ?_, hsecond⟩
    intro s hs
    have hs' : s < (rotateByBytes pairs blobId.bytes.toList).length := by
      rwa [rotateByBytes, length_rotateRight, hlen]
    refine ⟨getElem?_rotateByBytes blobId hlen hs, ?_⟩
    rw [List.getElem?_eq_getElem hs', Option.map_some, index_rotateByBytes blobId hidx hs']
  · intro pairs after e h
    exact rotatePairs_error h

/-- Four sliver pairs in index order, of empty slivers. -/
def fourPairs : List SliverPair :=
  (List.range 4).map fun i =>
    ⟨SliverData.newEmpty 1 (nonZeroU16 2 rfl rfl) i,
      SliverData.newEmpty 1 (nonZeroU16 2 rfl rfl) (3 - i)⟩

/-- A blob ID of 32 one-bytes is `1` modulo four shards: shard `0` holds pair `3`, shard `1`
pair `0`, and rotating again changes nothing. -/
theorem rotatePairs_assigns_pairs_to_shards_four_shards :
    ∃ rotated, rotatePairs fourPairs ⟨Vector.replicate 32 1⟩ = .ok (.ok (), rotated) ∧
      rotated[0]?.map SliverPair.index = some 3 ∧ rotated[1]?.map SliverPair.index = some 0 ∧
      rotatePairs rotated ⟨Vector.replicate 32 1⟩ = .ok (.ok (), rotated) := by
  obtain ⟨-, -, hrotate, -⟩ :=
    rotatePairs_assigns_pairs_to_shards (nonZeroU16 4 rfl rfl) ⟨Vector.replicate 32 1⟩
  obtain ⟨rotated, hrot, hshards, hagain⟩ := hrotate fourPairs (by decide)
  refine ⟨rotated, hrot, ?_, ?_, hagain⟩
  · exact (hshards 0 (by decide)).2.trans (by decide)
  · exact (hshards 1 (by decide)).2.trans (by decide)

end Walrus.Encoding
