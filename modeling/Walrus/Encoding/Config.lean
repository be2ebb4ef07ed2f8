import Walrus.Core.Types
import Walrus.Machine.UInt

/-! # Encoding parameters of `walrus-core`

The sizes the Red Stuff encoding derives from the number of shards `n`: the BFT bounds
`f = (n - 1) / 3` and `n - f` (`bft.rs`), the two source-symbol counts `n - 2f` and `n - f` of
the message matrix, the symbol size of a blob (`utils::compute_symbol_size`) and the encoded
length of a blob with its metadata (`encoded_blob_length_for_n_shards`).

Translation notes.
* `NonZeroU16` carries its bounds, so the `expect`s of `min_n_correct` and
  `source_symbols_for_n_shards` are discharged where the values are built.
* A panic is an `Except.error` carrying its message. The release profile has no overflow
  checks, so `next_multiple_of` wraps (`Machine.nextMultipleOf 64`); the one input at which it
  does is the only way `compute_symbol_size` reaches its `expect`.
* The `u64` products of `encoded_slivers_length_for_n_shards` and
  `encoded_blob_length_for_n_shards` stay below `2 ^ 50`; they are the exact products.
* `source_symbols_per_blob_for_n_shards` is a `NonZeroU32` whose `checked_mul` never fails:
  the model keeps the number and proves it positive.
-/

namespace Walrus.Encoding

open Machine

/-- A `NonZeroU16`. -/
structure NonZeroU16 where
  get : Nat
  pos : 0 < get
  le_max : get ≤ u16Max
deriving DecidableEq

/-- A `NonZeroU16` literal, as in `nonZeroU16 4 rfl rfl`: evaluation checks its bounds. The
checks read `true = _` so that each `rfl` is the closed term `@rfl Bool true` and a literal carries
no proof of its own bounds. -/
def nonZeroU16 (n : Nat) (hpos : true = Nat.ble 1 n) (hmax : true = Nat.ble n u16Max) :
    NonZeroU16 :=
  ⟨n, Nat.le_of_ble_eq_true hpos.symm, Nat.le_of_ble_eq_true hmax.symm⟩

/-- `EncodingType`. The RaptorQ variant is kept only for its BCS tag. -/
inductive EncodingType where
  | redStuffRaptorQ
  | rs2
deriving DecidableEq, Repr

/-- The `u8` of an `EncodingType`: its discriminant. -/
def EncodingType.toU8 : EncodingType → UInt8
  | .redStuffRaptorQ => 0
  | .rs2 => 1

/-- `EncodingType::required_alignment`: symbols have an even size. -/
def EncodingType.requiredAlignment (_ : EncodingType) : Nat := 2

/-- `EncodingType::max_symbol_size`: `u16::MAX - 1`, the largest even `u16`. -/
def EncodingType.maxSymbolSize (_ : EncodingType) : Nat := u16Max - 1

/-- `DataTooLargeError`. -/
inductive DataTooLargeError where
  | mk
deriving DecidableEq, Repr

/-- `merkle::DIGEST_LEN`. -/
def digestLen : Nat := 32

/-- `BlobId::LENGTH`. -/
def blobIdLength : Nat := 32

/-! ## BFT bounds and source symbols -/

/-- `bft::max_n_faulty`. -/
def maxNFaulty (n : NonZeroU16) : Nat := (n.get - 1) / 3

/-- `bft::min_n_correct`. -/
def minNCorrect (n : NonZeroU16) : NonZeroU16 where
  get := n.get - maxNFaulty n
  pos := by
    have := n.pos
    unfold maxNFaulty
    omega
  le_max := by
    have := n.le_max
    omega

/-- `source_symbols_for_n_shards`: `(n - 2f, n - f)`. -/
def sourceSymbolsForNShards (nShards : NonZeroU16) : NonZeroU16 × NonZeroU16 :=
  let minNCorrect := minNCorrect nShards
  (⟨minNCorrect.get - maxNFaulty nShards, by
      have := nShards.pos
      simp only [minNCorrect, Encoding.minNCorrect, maxNFaulty]
      omega,
    by
      have := minNCorrect.le_max
      omega⟩,
    minNCorrect)

/-- `source_symbols_per_blob_for_n_shards`: the number of symbols of the message matrix. -/
def sourceSymbolsPerBlobForNShards (nShards : NonZeroU16) : Nat :=
  let (sourceSymbolsPrimary, sourceSymbolsSecondary) := sourceSymbolsForNShards nShards
  sourceSymbolsPrimary.get * sourceSymbolsSecondary.get

/-- `max_blob_size_for_n_shards`: the `u64` product stays below `2 ^ 48`. -/
def maxBlobSizeForNShards (nShards : NonZeroU16) (encodingType : EncodingType) : Nat :=
  sourceSymbolsPerBlobForNShards nShards * encodingType.maxSymbolSize

/-- `metadata_length_for_n_shards`: two hashes per shard and the blob ID. -/
def metadataLengthForNShards (nShards : NonZeroU16) : Nat :=
  nShards.get * digestLen * 2 + blobIdLength

@[simp] theorem sourceSymbolsForNShards_fst (n : NonZeroU16) :
    (sourceSymbolsForNShards n).1.get = n.get - 2 * ((n.get - 1) / 3) := by
  simp only [sourceSymbolsForNShards, minNCorrect, maxNFaulty]
  omega

@[simp] theorem sourceSymbolsForNShards_snd (n : NonZeroU16) :
    (sourceSymbolsForNShards n).2.get = n.get - (n.get - 1) / 3 := rfl

theorem sourceSymbolsPerBlobForNShards_eq (n : NonZeroU16) :
    sourceSymbolsPerBlobForNShards n =
      (n.get - 2 * ((n.get - 1) / 3)) * (n.get - (n.get - 1) / 3) := by
  simp [sourceSymbolsPerBlobForNShards]

theorem sourceSymbolsPerBlobForNShards_pos (n : NonZeroU16) :
    0 < sourceSymbolsPerBlobForNShards n := by
  unfold sourceSymbolsPerBlobForNShards
  exact Nat.mul_pos (sourceSymbolsForNShards n).1.pos (sourceSymbolsForNShards n).2.pos

/-- A single source symbol needs a single shard. -/
theorem eq_one_of_sourceSymbolsPerBlobForNShards_eq_one {n : NonZeroU16}
    (h : sourceSymbolsPerBlobForNShards n = 1) : n.get = 1 := by
  have hs : n.get - (n.get - 1) / 3 = 1 := Nat.eq_one_of_mul_eq_one_left h
  have := n.pos
  omega

/-- Off one shard, a blob of `u64::MAX` bytes is not spread over a single source symbol. -/
theorem not_one_symbol_of_not_one_shard {n : NonZeroU16} {len : Nat}
    (h : ¬ (n.get = 1 ∧ len = u64Max)) :
    ¬ (sourceSymbolsPerBlobForNShards n = 1 ∧ len = u64Max) := by
  rintro ⟨hk1, hmax⟩
  exact h ⟨eq_one_of_sourceSymbolsPerBlobForNShards_eq_one hk1, hmax⟩

/-! ## The symbol size

Both the Rust crates and the contracts give a blob of `len` bytes, spread over `k` source
symbols, the least even symbol size at which the symbols hold the blob (and at least one byte,
for the empty blob). `paddedSymbolSize` is that size in closed form. -/

/-- The least even size at which `k` symbols hold `max len 1` bytes. -/
def paddedSymbolSize (len k : Nat) : Nat :=
  let q := (max len 1 - 1) / k + 1
  q + q % 2

theorem paddedSymbolSize_eq (len k : Nat) :
    paddedSymbolSize len k = (max len 1 - 1) / k + 1 + ((max len 1 - 1) / k + 1) % 2 := rfl

/-- `paddedSymbolSize` is what its name says: `k` symbols of that size hold the blob, it is
even, and no smaller even size does. -/
theorem paddedSymbolSize_least {len k : Nat} (hk : 0 < k) :
    max len 1 ≤ k * paddedSymbolSize len k ∧ paddedSymbolSize len k % 2 = 0 ∧
      ∀ s, s % 2 = 0 → max len 1 ≤ k * s → paddedSymbolSize len k ≤ s := by
  unfold paddedSymbolSize
  dsimp only
  have hd := Nat.div_add_mod (max len 1 - 1) k
  have hlt := Nat.mod_lt (max len 1 - 1) hk
  refine ⟨?cover, ?even, ?least⟩
  case cover =>
    have hle : k * ((max len 1 - 1) / k + 1) ≤ k * ((max len 1 - 1) / k + 1 +
        ((max len 1 - 1) / k + 1) % 2) := Nat.mul_le_mul_left _ (by omega)
    rw [Nat.mul_succ] at hle
    omega
  case even => omega
  case least =>
    intro s hs hcover
    -- `k * s` covers the blob, so `s` is above the quotient; being even, it is above the
    -- quotient's even round-up
    have hq : (max len 1 - 1) / k < s := by
      rw [Nat.div_lt_iff_lt_mul hk, Nat.mul_comm]
      omega
    omega

theorem paddedSymbolSize_pos (len k : Nat) : 0 < paddedSymbolSize len k :=
  Nat.lt_of_lt_of_le (Nat.succ_pos _) (Nat.le_add_right _ _)

/-- The padded symbol size fits a `u16` exactly for the blobs that `k` symbols of the largest
even `u16` size hold. -/
theorem paddedSymbolSize_le_u16Max_iff {len k : Nat} (hk : 0 < k) :
    paddedSymbolSize len k ≤ u16Max ↔ len ≤ k * (u16Max - 1) := by
  obtain ⟨hcover, heven, hleast⟩ := @paddedSymbolSize_least len k hk
  constructor
  · intro hle
    -- an even size up to `u16::MAX` is at most `u16::MAX - 1`
    have hmax : paddedSymbolSize len k ≤ u16Max - 1 := by
      unfold u16Max at hle ⊢
      omega
    calc len ≤ max len 1 := Nat.le_max_left _ _
      _ ≤ k * paddedSymbolSize len k := hcover
      _ ≤ k * (u16Max - 1) := Nat.mul_le_mul_left k hmax
  · intro hlen
    have hone : 1 ≤ k * (u16Max - 1) := Nat.mul_pos hk (by decide)
    have hfit : max len 1 ≤ k * (u16Max - 1) := Nat.max_le.mpr ⟨hlen, hone⟩
    have hle := hleast (u16Max - 1) (by decide) hfit
    omega

/-- The padded size less one even step no longer holds the blob. -/
theorem lt_of_paddedSymbolSize {len k : Nat} (hk : 0 < k) :
    k * (paddedSymbolSize len k - 2) < max len 1 := by
  obtain ⟨-, heven, hleast⟩ := @paddedSymbolSize_least len k hk
  have hpos := paddedSymbolSize_pos len k
  by_contra hcover
  have hle := hleast (paddedSymbolSize len k - 2) (by omega) (Nat.le_of_not_lt hcover)
  omega

/-- `k` symbols of an even size `s` are given that size back. -/
theorem paddedSymbolSize_mul {k s : Nat} (hk : 0 < k) (hs : 0 < s) (heven : s % 2 = 0) :
    paddedSymbolSize (k * s) k = s := by
  have hks : max (k * s) 1 = k * s := Nat.max_eq_left (Nat.mul_pos hk hs)
  -- `k * s - 1 = k * (s - 1) + (k - 1)`, whose quotient by `k` is `s - 1`
  have hq : (k * s - 1) / k = s - 1 := by
    rw [show k * s - 1 = (k - 1) + k * (s - 1) by
      rw [Nat.mul_sub_one]; have := Nat.le_mul_of_pos_right k hs; omega,
      Nat.add_mul_div_left _ _ hk, Nat.div_eq_of_lt (by omega), Nat.zero_add]
  rw [paddedSymbolSize_eq, hks, hq]
  omega

/-! ## The Rust computation -/

/-- `utils::compute_symbol_size`. The outer `Except` is a panic. -/
def computeSymbolSize (dataLength nSymbols requiredAlignment : Nat) :
    Except String (Except DataTooLargeError NonZeroU16) :=
  -- Use a 1-byte symbol size for the empty blob.
  let dataLength := max dataLength 1
  let symbolSize := nextMultipleOf 64 (divCeil dataLength nSymbols) requiredAlignment
  -- `u16::try_from(symbol_size).map_err(|_| DataTooLargeError)?`
  if hle : symbolSize ≤ u16Max then
    if hpos : 0 < symbolSize then .ok (.ok ⟨symbolSize, hpos, hle⟩)
    else .error "we start with something positive and always round up"
  else .ok (.error .mk)

/-- `encoded_slivers_length_for_n_shards`: the slivers of all shards. -/
def encodedSliversLengthForNShards (nShards : NonZeroU16) (unencodedLength : Nat)
    (encodingType : EncodingType) : Except String (Option Nat) := do
  let (sourceSymbolsPrimary, sourceSymbolsSecondary) := sourceSymbolsForNShards nShards
  let symbolSize ← computeSymbolSize unencodedLength (sourceSymbolsPerBlobForNShards nShards)
    encodingType.requiredAlignment
  -- `.ok()?`
  match symbolSize with
  | .error _ => pure none
  | .ok symbolSize =>
    let singleShardSliversSize :=
      (sourceSymbolsPrimary.get + sourceSymbolsSecondary.get) * symbolSize.get
    pure (some (nShards.get * singleShardSliversSize))

/-- `encoded_blob_length_for_n_shards`: the slivers and the metadata of all shards. -/
def encodedBlobLengthForNShards (nShards : NonZeroU16) (unencodedLength : Nat)
    (encodingType : EncodingType) : Except String (Option Nat) := do
  let sliversSize ← encodedSliversLengthForNShards nShards unencodedLength encodingType
  -- `?` on the `Option`
  match sliversSize with
  | none => pure none
  | some sliversSize => pure (some (nShards.get * metadataLengthForNShards nShards + sliversSize))

/-- Off the one input where `next_multiple_of` wraps, `compute_symbol_size` with alignment 2
never panics and returns the padded symbol size when it fits a `u16`. -/
theorem computeSymbolSize_eq {len k : Nat} (hk : 0 < k) (hlen : len ≤ u64Max)
    (hwrap : ¬ (k = 1 ∧ len = u64Max)) :
    computeSymbolSize len k 2 =
      .ok (if h : paddedSymbolSize len k ≤ u16Max then
        .ok ⟨paddedSymbolSize len k, paddedSymbolSize_pos len k, h⟩ else .error .mk) := by
  have hceil : divCeil (max len 1) k = (max len 1 - 1) / k + 1 :=
    divCeil_eq (by omega) hk
  -- the quotient is below the top of `u64` unless the blob fills it and `k = 1`
  have hq : (max len 1 - 1) / k + 1 + 1 < 2 ^ 64 := by
    rcases Nat.lt_or_ge 1 k with hk2 | hk1
    · have hdiv : (max len 1 - 1) / k ≤ (max len 1 - 1) / 2 := Nat.div_le_div_left hk2 (by omega)
      unfold u64Max at hlen
      omega
    · have hk1 : k = 1 := by omega
      subst hk1
      unfold u64Max at hlen hwrap
      omega
  have hsize : nextMultipleOf 64 (divCeil (max len 1) k) 2 = paddedSymbolSize len k := by
    rw [hceil, nextMultipleOf_two (by omega)]
    rfl
  unfold computeSymbolSize
  dsimp only
  simp only [hsize]
  by_cases hle : paddedSymbolSize len k ≤ u16Max
  case pos => simp only [dif_pos hle, dif_pos (paddedSymbolSize_pos len k)]
  case neg => simp only [dif_neg hle]

/-- At `n = 1` and a blob of `u64::MAX` bytes, `next_multiple_of(2)` wraps to zero and the
`expect` of `compute_symbol_size` panics. -/
theorem computeSymbolSize_one_max :
    computeSymbolSize u64Max 1 2 = .error "we start with something positive and always round up" := by
  have hceil : divCeil (max u64Max 1) 1 = 2 ^ 64 - 1 := by
    rw [divCeil_eq (by decide) (by decide)]
    decide
  unfold computeSymbolSize
  dsimp only
  rw [hceil, nextMultipleOf_two_max (by decide)]
  rfl

/-- The closed form of `encoded_blob_length_for_n_shards`, off the input where
`compute_symbol_size` panics. -/
theorem encodedBlobLengthForNShards_eq (nShards : NonZeroU16) {len : Nat} (hlen : len ≤ u64Max)
    (hwrap : ¬ (nShards.get = 1 ∧ len = u64Max)) :
    encodedBlobLengthForNShards nShards len .rs2 =
      .ok (if paddedSymbolSize len (sourceSymbolsPerBlobForNShards nShards) ≤ u16Max then
        some (nShards.get * metadataLengthForNShards nShards +
          nShards.get * (((sourceSymbolsForNShards nShards).1.get +
            (sourceSymbolsForNShards nShards).2.get) *
              paddedSymbolSize len (sourceSymbolsPerBlobForNShards nShards)))
      else none) := by
  unfold encodedBlobLengthForNShards encodedSliversLengthForNShards EncodingType.requiredAlignment
  rw [computeSymbolSize_eq (sourceSymbolsPerBlobForNShards_pos nShards) hlen
    (not_one_symbol_of_not_one_shard hwrap)]
  by_cases hpad : paddedSymbolSize len (sourceSymbolsPerBlobForNShards nShards) ≤ u16Max
  case pos =>
    simp only [dif_pos hpad, if_pos hpad]
    rfl
  case neg =>
    simp only [dif_neg hpad, if_neg hpad]
    rfl

/-! ## The Reed–Solomon encoding configuration -/

/-- `MAX_SOURCE_SYMBOLS`. -/
def maxSourceSymbols : Nat := u16Max

/-- The two axes of the message matrix, the marker types `Primary` and `Secondary`. -/
inductive EncodingAxis where
  | primary
  | secondary
deriving DecidableEq, Repr

/-- `EncodingAxis::IS_PRIMARY`. -/
def EncodingAxis.isPrimary : EncodingAxis → Bool
  | .primary => true
  | .secondary => false

/-- `EncodingAxis::OrthogonalAxis`. -/
def EncodingAxis.orthogonal : EncodingAxis → EncodingAxis
  | .primary => .secondary
  | .secondary => .primary

/-- `ReedSolomonEncodingConfig`, with the assertions `new_from_nonzero_parameters` makes before
it builds one: fewer source symbols than `MAX_SOURCE_SYMBOLS` on each axis, at most `n - 2f`
primary and at most `n - f` secondary ones. -/
structure ReedSolomonEncodingConfig where
  sourceSymbolsPrimary : NonZeroU16
  sourceSymbolsSecondary : NonZeroU16
  nShards : NonZeroU16
  primary_lt_max : sourceSymbolsPrimary.get < maxSourceSymbols
  secondary_lt_max : sourceSymbolsSecondary.get < maxSourceSymbols
  secondary_le : sourceSymbolsSecondary.get ≤ nShards.get - maxNFaulty nShards
  primary_le : sourceSymbolsPrimary.get ≤ nShards.get - 2 * maxNFaulty nShards

namespace ReedSolomonEncodingConfig

/-- `new_from_nonzero_parameters`; the outer `Except` is a panic. -/
def newFromNonzeroParameters (sourceSymbolsPrimary sourceSymbolsSecondary nShards : NonZeroU16) :
    Except String ReedSolomonEncodingConfig :=
  if hmax : sourceSymbolsPrimary.get < maxSourceSymbols ∧
      sourceSymbolsSecondary.get < maxSourceSymbols then
    if hs : sourceSymbolsSecondary.get ≤ nShards.get - maxNFaulty nShards then
      if hp : sourceSymbolsPrimary.get ≤ nShards.get - 2 * maxNFaulty nShards then
        .ok ⟨sourceSymbolsPrimary, sourceSymbolsSecondary, nShards, hmax.1, hmax.2, hs, hp⟩
      else .error "the primary encoding can be at most an n-2f encoding"
    else .error "the secondary encoding can be at most a n-f encoding"
  else .error "the number of source symbols can be at most MAX_SOURCE_SYMBOLS"

/-- `ReedSolomonEncodingConfig::new`: the source symbols of `source_symbols_for_n_shards`. -/
def new (nShards : NonZeroU16) : Except String ReedSolomonEncodingConfig :=
  newFromNonzeroParameters (sourceSymbolsForNShards nShards).1 (sourceSymbolsForNShards nShards).2
    nShards

/-- `n_source_symbols::<T>`. -/
def nSourceSymbols (self : ReedSolomonEncodingConfig) (axis : EncodingAxis) : NonZeroU16 :=
  if axis.isPrimary then self.sourceSymbolsPrimary else self.sourceSymbolsSecondary

/-- `source_symbols_per_blob`: the symbols of the message matrix. -/
def sourceSymbolsPerBlob (self : ReedSolomonEncodingConfig) : Nat :=
  self.sourceSymbolsPrimary.get * self.sourceSymbolsSecondary.get

/-- `encoding_type`. -/
def encodingType (_ : ReedSolomonEncodingConfig) : EncodingType := .rs2

/-- `max_blob_size`: the bound of the number of shards, not of the configuration's own symbols. -/
def maxBlobSize (self : ReedSolomonEncodingConfig) : Nat :=
  maxBlobSizeForNShards self.nShards self.encodingType

/-- `symbol_size_for_blob`. -/
def symbolSizeForBlob (self : ReedSolomonEncodingConfig) (blobSize : Nat) :
    Except String (Except DataTooLargeError NonZeroU16) :=
  computeSymbolSize blobSize self.sourceSymbolsPerBlob self.encodingType.requiredAlignment

/-- `sliver_size_for_blob::<T>`: a sliver has a symbol for each source symbol of the orthogonal
axis. -/
def sliverSizeForBlob (self : ReedSolomonEncodingConfig) (axis : EncodingAxis) (blobSize : Nat) :
    Except String (Except DataTooLargeError Nat) := do
  match ← self.symbolSizeForBlob blobSize with
  | .error e => pure (.error e)
  | .ok symbolSize =>
    -- `checked_mul` of `NonZeroU32`, then `ok_or(DataTooLargeError)`
    let size := (self.nSourceSymbols axis.orthogonal).get * symbolSize.get
    if size ≤ u32Max then pure (.ok size) else pure (.error .mk)

/-- A configuration for every number of shards: `new` never panics. -/
theorem new_isOk (nShards : NonZeroU16) : ∃ config, new nShards = .ok config := by
  have hn := nShards.le_max
  have hp := sourceSymbolsForNShards_fst nShards
  have hs := sourceSymbolsForNShards_snd nShards
  have hmax : (sourceSymbolsForNShards nShards).1.get < maxSourceSymbols ∧
      (sourceSymbolsForNShards nShards).2.get < maxSourceSymbols := by
    simp only [maxSourceSymbols, u16Max] at hn ⊢
    omega
  have hsec : (sourceSymbolsForNShards nShards).2.get ≤ nShards.get - maxNFaulty nShards := by
    simp only [maxNFaulty]
    omega
  have hpri : (sourceSymbolsForNShards nShards).1.get ≤ nShards.get - 2 * maxNFaulty nShards := by
    simp only [maxNFaulty]
    omega
  exact ⟨_, by unfold new newFromNonzeroParameters; rw [dif_pos hmax, dif_pos hsec, dif_pos hpri]⟩

@[simp] theorem nSourceSymbols_primary (self : ReedSolomonEncodingConfig) :
    self.nSourceSymbols .primary = self.sourceSymbolsPrimary := rfl

@[simp] theorem nSourceSymbols_secondary (self : ReedSolomonEncodingConfig) :
    self.nSourceSymbols .secondary = self.sourceSymbolsSecondary := rfl

theorem nSourceSymbols_le (self : ReedSolomonEncodingConfig) (axis : EncodingAxis) :
    (self.nSourceSymbols axis).get ≤ self.nShards.get := by
  have hp := self.primary_le
  have hs := self.secondary_le
  cases axis <;> simp only [nSourceSymbols_primary, nSourceSymbols_secondary] <;> omega

theorem sourceSymbolsPerBlob_pos (self : ReedSolomonEncodingConfig) :
    0 < self.sourceSymbolsPerBlob :=
  Nat.mul_pos self.sourceSymbolsPrimary.pos self.sourceSymbolsSecondary.pos

/-- The configuration `new` builds has the source symbols of `source_symbols_for_n_shards`. -/
theorem of_new {nShards : NonZeroU16} {config : ReedSolomonEncodingConfig}
    (h : new nShards = .ok config) :
    config.nShards = nShards ∧
      config.sourceSymbolsPerBlob = sourceSymbolsPerBlobForNShards nShards := by
  unfold new newFromNonzeroParameters at h
  split_ifs at h
  cases h
  exact ⟨rfl, rfl⟩

/-- For the configuration of `n` shards, `max_blob_size` is `k` symbols of `u16::MAX - 1` bytes. -/
theorem maxBlobSize_of_new {nShards : NonZeroU16} {config : ReedSolomonEncodingConfig}
    (h : new nShards = .ok config) :
    config.maxBlobSize = config.sourceSymbolsPerBlob * (u16Max - 1) := by
  obtain ⟨hn, hk⟩ := of_new h
  rw [maxBlobSize, maxBlobSizeForNShards, hn, hk]
  rfl

/-- `symbol_size_for_blob` off the one input where `compute_symbol_size` panics: the padded
symbol size when it fits a `u16`, and `DataTooLargeError` otherwise. -/
theorem symbolSizeForBlob_eq (self : ReedSolomonEncodingConfig) {len : Nat} (hlen : len ≤ u64Max)
    (hwrap : ¬ (self.sourceSymbolsPerBlob = 1 ∧ len = u64Max)) :
    self.symbolSizeForBlob len =
      .ok (if h : paddedSymbolSize len self.sourceSymbolsPerBlob ≤ u16Max then
        .ok ⟨paddedSymbolSize len self.sourceSymbolsPerBlob, paddedSymbolSize_pos _ _, h⟩
      else .error .mk) :=
  computeSymbolSize_eq self.sourceSymbolsPerBlob_pos hlen hwrap

/-- What `symbol_size_for_blob` returns is the padded symbol size, and it never panics on a blob
below `u64::MAX` or with more than one source symbol. -/
theorem symbolSizeForBlob_eq_ok {self : ReedSolomonEncodingConfig} {len : Nat}
    (hlen : len ≤ u64Max) {s : NonZeroU16} (h : self.symbolSizeForBlob len = .ok (.ok s)) :
    s.get = paddedSymbolSize len self.sourceSymbolsPerBlob ∧
      paddedSymbolSize len self.sourceSymbolsPerBlob ≤ u16Max := by
  by_cases hwrap : self.sourceSymbolsPerBlob = 1 ∧ len = u64Max
  · -- the panicking input returns nothing
    obtain ⟨hk, rfl⟩ := hwrap
    rw [symbolSizeForBlob, hk] at h
    exact absurd h (by rw [EncodingType.requiredAlignment, computeSymbolSize_one_max]; simp)
  · rw [symbolSizeForBlob_eq self hlen hwrap] at h
    split at h
    · rename_i hfit
      cases h
      exact ⟨rfl, hfit⟩
    · cases h

/-- A blob of the configuration for `n` shards has a symbol size exactly when it is at most
`max_blob_size`. -/
theorem symbolSizeForBlob_isOk_iff {nShards : NonZeroU16} {config : ReedSolomonEncodingConfig}
    (hconfig : new nShards = .ok config) {len : Nat} (hlen : len ≤ u64Max) :
    (∃ s, config.symbolSizeForBlob len = .ok (.ok s)) ↔ len ≤ config.maxBlobSize := by
  rw [maxBlobSize_of_new hconfig, ← paddedSymbolSize_le_u16Max_iff config.sourceSymbolsPerBlob_pos]
  constructor
  · rintro ⟨s, hs⟩
    exact (symbolSizeForBlob_eq_ok hlen hs).2
  · intro hfit
    -- a fitting blob is not the panicking one, which needs `u64::MAX` bytes in one symbol
    have hwrap : ¬ (config.sourceSymbolsPerBlob = 1 ∧ len = u64Max) := by
      rintro ⟨hk, rfl⟩
      rw [hk, paddedSymbolSize_le_u16Max_iff Nat.one_pos] at hfit
      exact absurd hfit (by decide)
    rw [symbolSizeForBlob_eq config hlen hwrap, dif_pos hfit]
    exact ⟨_, rfl⟩

/-- Off the one input where `compute_symbol_size` panics, a blob above `max_blob_size` gets
`DataTooLargeError`. -/
theorem symbolSizeForBlob_eq_tooLarge {nShards : NonZeroU16} {config : ReedSolomonEncodingConfig}
    (hconfig : new nShards = .ok config) {len : Nat} (hlen : len ≤ u64Max)
    (hwrap : ¬ (nShards.get = 1 ∧ len = u64Max)) (hbig : config.maxBlobSize < len) :
    config.symbolSizeForBlob len = .ok (.error .mk) := by
  obtain ⟨-, hk⟩ := of_new hconfig
  have hwrap' : ¬ (config.sourceSymbolsPerBlob = 1 ∧ len = u64Max) := by
    rw [hk]
    exact not_one_symbol_of_not_one_shard hwrap
  have hnofit : ¬ paddedSymbolSize len config.sourceSymbolsPerBlob ≤ u16Max := by
    rw [paddedSymbolSize_le_u16Max_iff config.sourceSymbolsPerBlob_pos,
      ← maxBlobSize_of_new hconfig]
    omega
  rw [symbolSizeForBlob_eq config hlen hwrap', dif_neg hnofit]

/-- One shard and a blob of `u64::MAX` bytes, above `max_blob_size`: `symbol_size_for_blob`
does not return `DataTooLargeError` but panics, the rounding up to an even size having wrapped
to zero. -/
theorem symbol_size_for_blob_panics_at_u64_max :
    ∃ config, new ⟨1, Nat.one_pos, by decide⟩ = .ok config ∧ config.maxBlobSize < u64Max ∧
      config.symbolSizeForBlob u64Max =
        .error "we start with something positive and always round up" := by
  obtain ⟨config, hconfig⟩ := new_isOk ⟨1, Nat.one_pos, by decide⟩
  obtain ⟨-, hk⟩ := of_new hconfig
  -- one shard has one source symbol on each axis
  have hk1 : config.sourceSymbolsPerBlob = 1 := hk.trans rfl
  refine ⟨config, hconfig, ?_, ?_⟩
  · rw [maxBlobSize_of_new hconfig, hk1]
    decide
  · rw [symbolSizeForBlob, hk1]
    exact computeSymbolSize_one_max

/-- With a symbol size, the sliver size is the product with the orthogonal axis's source
symbols, which fits a `u32`. -/
theorem sliverSizeForBlob_eq_ok (self : ReedSolomonEncodingConfig) (axis : EncodingAxis)
    {len : Nat} {s : NonZeroU16} (h : self.symbolSizeForBlob len = .ok (.ok s)) :
    self.sliverSizeForBlob axis len =
      .ok (.ok ((self.nSourceSymbols axis.orthogonal).get * s.get)) := by
  have hfit : (self.nSourceSymbols axis.orthogonal).get * s.get ≤ u32Max :=
    calc (self.nSourceSymbols axis.orthogonal).get * s.get ≤ u16Max * u16Max :=
          Nat.mul_le_mul (self.nSourceSymbols axis.orthogonal).le_max s.le_max
      _ ≤ u32Max := by decide
  rw [sliverSizeForBlob, h]
  exact if_pos hfit

end ReedSolomonEncodingConfig

/-- `EncodingConfig`: the number of shards and the Reed–Solomon configuration. -/
structure EncodingConfig where
  nShards : NonZeroU16
  reedSolomon : ReedSolomonEncodingConfig

namespace EncodingConfig

/-- `EncodingConfig::new`. -/
def new (nShards : NonZeroU16) : Except String EncodingConfig := do
  let reedSolomon ← ReedSolomonEncodingConfig.new nShards
  pure ⟨nShards, reedSolomon⟩

/-- `get_for_type`: the configuration of the encoding type; only `RS2` is supported. -/
def getForType (self : EncodingConfig) (encodingType : EncodingType) :
    Except String ReedSolomonEncodingConfig :=
  match encodingType with
  | .rs2 => .ok self.reedSolomon
  | .redStuffRaptorQ => .error "unsupported encoding type: RedStuffRaptorQ"

theorem of_new {nShards : NonZeroU16} {config : EncodingConfig} (h : new nShards = .ok config) :
    config.nShards = nShards ∧ ReedSolomonEncodingConfig.new nShards = .ok config.reedSolomon := by
  unfold new at h
  cases hrs : ReedSolomonEncodingConfig.new nShards with
  | error e =>
    rw [hrs] at h
    cases h
  | ok rs =>
    rw [hrs] at h
    cases h
    exact ⟨rfl, rfl⟩

end EncodingConfig

end Walrus.Encoding
