import Walrus.Contracts.Move
import Walrus.Encoding.Config

/-! # The encoded size of a blob in the contracts

`walrus::redstuff` charges storage for the encoded length of a blob: the slivers of all shards
with their metadata. It computes that length by hand, in the `u16` and `u64` arithmetic of
Move, and its comment asks that it be kept in sync with `encoded_blob_length_for_n_shards` of
`walrus-core`.

The two agree. Over every number of shards in `[1, 65535]` and every `u64` length, the Rust
function returns `Some` of the Move result when Move returns, and `None` when Move aborts, with
one exception: one shard and a blob of `u64::MAX` bytes, where Move aborts on its `u16` cast but
the Rust `next_multiple_of(2)` wraps to zero and `compute_symbol_size` panics.

Both computations are first brought to one closed form, over `Encoding.paddedSymbolSize`
(`encodedBlobLength_eq` and `encodedBlobLengthForNShards_eq`); the agreement is then a matter
of distributing one product.
-/

namespace Walrus.System.Redstuff

open Machine Encoding

/-- `DIGEST_LEN`. -/
def digestLen : Nat := 32

/-- `BLOB_ID_LEN`. -/
def blobIdLen : Nat := 32

/-- `max_byzantine`. -/
def maxByzantine (nShards : Nat) : Except Abort Nat := do
  let m ← checkedSub nShards 1
  pure (m / 3)

/-- `source_symbols_primary`. -/
def sourceSymbolsPrimary (nShards : Nat) : Except Abort Nat := do
  let f ← maxByzantine nShards
  let twoF ← checkedMul u16Max 2 f
  checkedSub nShards twoF

/-- `source_symbols_secondary`. -/
def sourceSymbolsSecondary (nShards : Nat) : Except Abort Nat := do
  let f ← maxByzantine nShards
  checkedSub nShards f

/-- `n_source_symbols`. -/
def nSourceSymbols (nShards : Nat) : Except Abort Nat := do
  let primary ← sourceSymbolsPrimary nShards
  let secondary ← sourceSymbolsSecondary nShards
  checkedMul u64Max primary secondary

/-- `symbol_size`: the rounded-up quotient, cast to `u16` and made even. -/
def symbolSize (unencodedLength nShards : Nat) : Except Abort Nat := do
  let unencodedLength := if unencodedLength = 0 then 1 else unencodedLength
  let nSymbols ← nSourceSymbols nShards
  let pred ← checkedSub unencodedLength 1
  let quot ← checkedDiv pred nSymbols
  let size ← u64Add quot 1
  let symbolSize ← u16Cast size
  -- For Reed-Solomon, the symbol size must be a multiple of 2.
  if symbolSize % 2 = 1 then u16Add symbolSize 1 else pure symbolSize

/-- `metadata_size`: the sliver root hashes and the blob ID. -/
def metadataSize (nShards : Nat) : Except Abort Nat := do
  let hashes ← checkedMul u64Max nShards digestLen
  let hashes ← checkedMul u64Max hashes 2
  u64Add hashes blobIdLen

/-- `encoded_blob_length`. -/
def encodedBlobLength (unencodedLength nShards : Nat) : Except Abort Nat := do
  let primary ← sourceSymbolsPrimary nShards
  let secondary ← sourceSymbolsSecondary nShards
  let symbols ← u64Add primary secondary
  let symbolSize ← symbolSize unencodedLength nShards
  let sliversSize ← checkedMul u64Max symbols symbolSize
  let metadata ← metadataSize nShards
  let shardSize ← u64Add sliversSize metadata
  checkedMul u64Max nShards shardSize

/-! ## The closed form of the Move computation

For a number of shards `n` in `[1, 65535]` none of the `u16` and `u64` operations before the
symbol size can abort, and none after it either: the result stays below `2 ^ 50`. The only
abort left is the one of the symbol size, which happens exactly when the padded size leaves
`u16`. -/

section ClosedForm

variable {n : Nat}

theorem maxByzantine_eq (h1 : 1 ≤ n) : maxByzantine n = .ok ((n - 1) / 3) := by
  unfold maxByzantine checkedSub
  rw [if_pos h1]
  rfl

theorem sourceSymbolsPrimary_eq (h1 : 1 ≤ n) (h2 : n ≤ u16Max) :
    sourceSymbolsPrimary n = .ok (n - 2 * ((n - 1) / 3)) := by
  unfold sourceSymbolsPrimary
  rw [maxByzantine_eq h1]
  simp only [checkedMul, checkedSub, bind, Except.bind,
    if_pos (show 2 * ((n - 1) / 3) ≤ u16Max by omega), if_pos (show 2 * ((n - 1) / 3) ≤ n by omega)]

theorem sourceSymbolsSecondary_eq (h1 : 1 ≤ n) :
    sourceSymbolsSecondary n = .ok (n - (n - 1) / 3) := by
  unfold sourceSymbolsSecondary
  rw [maxByzantine_eq h1]
  exact if_pos (by omega)

theorem nSourceSymbols_eq (h1 : 1 ≤ n) (h2 : n ≤ u16Max) :
    nSourceSymbols n = .ok ((n - 2 * ((n - 1) / 3)) * (n - (n - 1) / 3)) := by
  have hp : n - 2 * ((n - 1) / 3) ≤ u16Max := by omega
  have hs : n - (n - 1) / 3 ≤ u16Max := by omega
  have hprod := Nat.mul_le_mul hp hs
  unfold nSourceSymbols
  rw [sourceSymbolsPrimary_eq h1 h2, sourceSymbolsSecondary_eq h1]
  unfold checkedMul
  apply if_pos
  unfold u16Max at hprod
  unfold u64Max
  omega

/-- The Move symbol size is the padded size, or an abort when that leaves `u16`. -/
theorem symbolSize_eq (h1 : 1 ≤ n) (h2 : n ≤ u16Max) {len : Nat} (hlen : len ≤ u64Max) :
    symbolSize len n =
      if paddedSymbolSize len ((n - 2 * ((n - 1) / 3)) * (n - (n - 1) / 3)) ≤ u16Max then
        .ok (paddedSymbolSize len ((n - 2 * ((n - 1) / 3)) * (n - (n - 1) / 3)))
      else .error .arithmeticError := by
  generalize hkdef : (n - 2 * ((n - 1) / 3)) * (n - (n - 1) / 3) = k
  have hk : 0 < k := by
    rw [← hkdef]
    exact Nat.mul_pos (by omega) (by omega)
  have hmax : (if len = 0 then 1 else len) = max len 1 := by
    split <;> omega
  have hquot : (max len 1 - 1) / k ≤ max len 1 - 1 := Nat.div_le_self _ _
  unfold symbolSize
  rw [nSourceSymbols_eq h1 h2, hkdef]
  simp only [hmax, checkedSub, checkedDiv, u64Add, bind, Except.bind,
    if_pos (show 1 ≤ max len 1 by omega), if_neg (Nat.pos_iff_ne_zero.mp hk),
    if_pos (show (max len 1 - 1) / k + 1 ≤ u64Max by unfold u64Max at hlen ⊢; omega)]
  rw [paddedSymbolSize_eq]
  generalize (max len 1 - 1) / k + 1 = q
  unfold u16Cast
  -- the cast aborts above `u16`; below, an odd size is rounded up, which aborts at the top
  by_cases hq : q ≤ u16Max
  · rw [if_pos hq]
    dsimp only
    rcases Nat.mod_two_eq_zero_or_one q with heven | hodd
    · rw [if_neg (by omega), heven, Nat.add_zero, if_pos hq]
      rfl
    · rw [if_pos hodd, hodd]
      rfl
  · rw [if_neg hq, if_neg (by omega)]

theorem metadataSize_eq (h2 : n ≤ u16Max) : metadataSize n = .ok (n * 32 * 2 + 32) := by
  unfold metadataSize checkedMul u64Add digestLen blobIdLen
  unfold u16Max at h2
  rw [if_pos (by unfold u64Max; omega)]
  dsimp only [bind, Except.bind]
  rw [if_pos (by unfold u64Max; omega)]
  exact if_pos (by unfold u64Max; omega)

/-- The closed form of `encoded_blob_length`. -/
theorem encodedBlobLength_eq (h1 : 1 ≤ n) (h2 : n ≤ u16Max) {len : Nat} (hlen : len ≤ u64Max) :
    encodedBlobLength len n =
      if paddedSymbolSize len ((n - 2 * ((n - 1) / 3)) * (n - (n - 1) / 3)) ≤ u16Max then
        .ok (n * ((n - 2 * ((n - 1) / 3) + (n - (n - 1) / 3)) * paddedSymbolSize len ((n - 2 * ((n - 1) / 3)) * (n - (n - 1) / 3)) +
          (n * 32 * 2 + 32)))
      else .error .arithmeticError := by
  have hsize := symbolSize_eq h1 h2 hlen
  generalize (n - 2 * ((n - 1) / 3)) * (n - (n - 1) / 3) = k at hsize ⊢
  unfold encodedBlobLength
  rw [sourceSymbolsPrimary_eq h1 h2, sourceSymbolsSecondary_eq h1, metadataSize_eq h2]
  simp only [bind, Except.bind, u64Add, if_pos (show n - 2 * ((n - 1) / 3) + (n - (n - 1) / 3)
    ≤ u64Max by unfold u16Max at h2; unfold u64Max; omega)]
  rw [hsize]
  by_cases hpad : paddedSymbolSize len k ≤ u16Max
  case neg => rw [if_neg hpad, if_neg hpad]
  case pos =>
    rw [if_pos hpad, if_pos hpad]
    -- the sliver size stays below `2 ^ 34`, the encoded length below `2 ^ 50`
    have hsym : n - 2 * ((n - 1) / 3) + (n - (n - 1) / 3) ≤ 2 * u16Max := by omega
    generalize n - 2 * ((n - 1) / 3) + (n - (n - 1) / 3) = m at hsym ⊢
    generalize paddedSymbolSize len k = pad at hpad ⊢
    have hsliv : m * pad ≤ 2 * u16Max * u16Max := Nat.mul_le_mul hsym hpad
    have hshard : m * pad + (n * 32 * 2 + 32) ≤ 2 * u16Max * u16Max + (u16Max * 32 * 2 + 32) := by
      omega
    have htotal := Nat.mul_le_mul h2 hshard
    unfold u16Max at hsliv hshard htotal
    simp only [checkedMul, if_pos (show m * pad ≤ u64Max by unfold u64Max; omega),
      if_pos (show m * pad + (n * 32 * 2 + 32) ≤ u64Max by unfold u64Max; omega),
      if_pos (show n * (m * pad + (n * 32 * 2 + 32)) ≤ u64Max by unfold u64Max; omega)]

/-- The contract's own test: a blob that fills a hundred rows of the `4 × 7` matrix of ten
shards. -/
example : encodedBlobLength ((4 * 7) * 100) 10 = .ok (10 * ((4 + 7) * 100 + 10 * 2 * 32 + 32)) := by
  decide

end ClosedForm

/-! ## Agreement with `walrus-core` -/

/-- Off the input where the Rust side panics, `encoded_blob_length_for_n_shards` returns `Some`
of the contract's encoded length when the contract returns it, and `None` when the contract
aborts. -/
theorem encodedLength_agree (nShards : NonZeroU16) (len : Nat) (hlen : len ≤ u64Max)
    (hwrap : ¬ (nShards.get = 1 ∧ len = u64Max)) :
    encodedBlobLengthForNShards nShards len .rs2 =
      .ok (encodedBlobLength len nShards.get).toOption := by
  rw [encodedBlobLengthForNShards_eq nShards hlen hwrap,
    encodedBlobLength_eq nShards.pos nShards.le_max hlen, sourceSymbolsPerBlobForNShards_eq,
    sourceSymbolsForNShards_fst, sourceSymbolsForNShards_snd]
  split
  case isTrue =>
    -- the contract multiplies the sum of slivers and metadata, the crate sums the products
    simp only [Except.toOption, metadataLengthForNShards, Encoding.digestLen, blobIdLength]
    congr 2
    ring
  case isFalse => rfl

/-- At the boundary of one shard and a blob one byte short of `u64::MAX`, the symbol size is too
large on both sides: the crate returns `None` and the contract aborts. -/
theorem encodedLength_agree_one_shard :
    u64Max - 1 ≤ u64Max ∧ ¬ ((⟨1, Nat.one_pos, by decide⟩ : NonZeroU16).get = 1 ∧
      u64Max - 1 = u64Max) ∧
    encodedBlobLengthForNShards ⟨1, Nat.one_pos, by decide⟩ (u64Max - 1) .rs2 =
      .ok (encodedBlobLength (u64Max - 1) 1).toOption :=
  ⟨by decide, by decide, encodedLength_agree ⟨1, Nat.one_pos, by decide⟩ (u64Max - 1) (by decide)
    (by decide)⟩

/-- One shard and a blob of `u64::MAX` bytes: the contract aborts on the cast of the symbol
size, while the crate does not return `None` but panics, the rounding up to an even size having
wrapped to zero. -/
theorem encodedLength_one_shard_max_panics :
    encodedBlobLengthForNShards ⟨1, Nat.one_pos, by decide⟩ u64Max .rs2 =
        .error "we start with something positive and always round up" ∧
      encodedBlobLength u64Max 1 = .error .arithmeticError := by
  constructor
  case left =>
    unfold encodedBlobLengthForNShards encodedSliversLengthForNShards
      EncodingType.requiredAlignment
    rw [show sourceSymbolsPerBlobForNShards ⟨1, Nat.one_pos, by decide⟩ = 1 from rfl,
      computeSymbolSize_one_max]
    rfl
  case right =>
    rw [encodedBlobLength_eq le_rfl (by decide) le_rfl, if_neg (by decide)]

end Walrus.System.Redstuff
