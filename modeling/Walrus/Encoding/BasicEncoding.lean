import Walrus.Encoding.Symbols

/-! # The Reed–Solomon encoder of one axis

`ReedSolomonEncoder` (`basic_encoding.rs`) checks its data, cuts it into source symbols and
hands them to the encoder of the `reed_solomon_simd` crate; `encode_all_repair_symbols` of the
configuration (`config.rs`) returns the repair symbols of one row or one column of the message
matrix.

The `reed_solomon_simd` crate is outside this repository and stays a parameter,
`ReedSolomonSimd`. For a number of original shards, a number of recovery shards and a shard
size it either rejects them, or gives the encoding, whose recovery shards are as many as asked
for and of the shard size. Its errors are about those counts and sizes only, never about the
data, which the type of `encoder` says.

Translation notes.
* A panic is the outer `Except` (the `assert_eq!` of `ReedSolomonEncoder::new`, the `expect`
  of `compute_symbol_size`); a returned `EncodeError` is the inner one. The error the crate
  returns is not modelled: `IncompatibleParameters` carries nothing.
* `compute_symbol_size_from_usize` converts the length to a `u64`, which cannot fail for a
  `usize` of a 64-bit platform; the model checks the bound all the same.
-/

namespace Walrus.Encoding

open Machine

/-- The encoder of `reed_solomon_simd`: `encoder k r b` is `ReedSolomonEncoder::new(k, r, b)`
followed by `add_original_shard` of `k` shards of `b` bytes and `encode()`; it is `none` when
the crate rejects the counts or the size, and otherwise maps the original shards to the `r`
recovery shards of `b` bytes. -/
structure ReedSolomonSimd where
  encoder : (originalCount recoveryCount shardBytes : Nat) →
    Option (List (List UInt8) → List (List UInt8))
  length_encode : ∀ {originalCount recoveryCount shardBytes : Nat}
    {encode : List (List UInt8) → List (List UInt8)},
    encoder originalCount recoveryCount shardBytes = some encode →
      ∀ originals, (encode originals).length = recoveryCount
  uniform_encode : ∀ {originalCount recoveryCount shardBytes : Nat}
    {encode : List (List UInt8) → List (List UInt8)},
    encoder originalCount recoveryCount shardBytes = some encode →
      ∀ originals, Slice.Uniform shardBytes (encode originals)

/-- `InvalidDataSizeError`. -/
inductive InvalidDataSizeError where
  | dataTooLarge
  | emptyData
deriving DecidableEq, Repr

/-- `EncodeError`. -/
inductive EncodeError where
  | invalidDataSize (error : InvalidDataSizeError)
  | misalignedData (nSourceSymbols : NonZeroU16)
  | incompatibleParameters
deriving DecidableEq

/-- `utils::compute_symbol_size_from_usize`. -/
def computeSymbolSizeFromUsize (dataLength nSymbols requiredAlignment : Nat) :
    Except String (Except DataTooLargeError NonZeroU16) :=
  if dataLength ≤ u64Max then computeSymbolSize dataLength nSymbols requiredAlignment
  else .ok (.error .mk)

/-- What `compute_symbol_size_from_usize` returns when it returns a size: the padded symbol size
of `paddedSymbolSize`. -/
theorem computeSymbolSizeFromUsize_eq_ok {len k : Nat} {s : NonZeroU16} (hk : 0 < k)
    (h : computeSymbolSizeFromUsize len k 2 = .ok (.ok s)) : s.get = paddedSymbolSize len k := by
  unfold computeSymbolSizeFromUsize at h
  by_cases hlen : len ≤ u64Max
  · rw [if_pos hlen] at h
    by_cases hwrap : k = 1 ∧ len = u64Max
    · obtain ⟨rfl, rfl⟩ := hwrap
      rw [computeSymbolSize_one_max] at h
      cases h
    · rw [computeSymbolSize_eq hk hlen hwrap] at h
      by_cases hpad : paddedSymbolSize len k ≤ u16Max
      · rw [dif_pos hpad] at h
        cases h
        rfl
      · rw [dif_neg hpad] at h
        cases h
  · rw [if_neg hlen] at h
    cases h

/-- `ReedSolomonEncoder`: the recovery shards the crate's encoder computes from the source
symbols, and the parameters. -/
structure ReedSolomonEncoder where
  recovery : List (List UInt8)
  nSourceSymbols : NonZeroU16
  nShards : NonZeroU16
  symbolSize : NonZeroU16
  sourceSymbols : List (List UInt8)

namespace ReedSolomonEncoder

/-- `ASSOCIATED_ENCODING_TYPE`. -/
def associatedEncodingType : EncodingType := .rs2

/-- `check_parameters_and_compute_symbol_size`: the data is not empty and is `n_source_symbols`
symbols of the size `compute_symbol_size` gives it. -/
def checkParametersAndComputeSymbolSize (data : List UInt8) (nSourceSymbols : NonZeroU16) :
    Except String (Except EncodeError NonZeroU16) :=
  if data.isEmpty then pure (.error (.invalidDataSize .emptyData))
  else do
    let symbolSize ← computeSymbolSizeFromUsize data.length nSourceSymbols.get
      associatedEncodingType.requiredAlignment
    pure <| match symbolSize with
      | .error _ => .error (.invalidDataSize .dataTooLarge)
      | .ok symbolSize =>
        if data.length ≠ nSourceSymbols.get * symbolSize.get then
          .error (.misalignedData nSourceSymbols)
        else .ok symbolSize

/-- `ReedSolomonEncoder::new`. -/
def new (lib : ReedSolomonSimd) (data : List UInt8) (nSourceSymbols nShards : NonZeroU16) :
    Except String (Except EncodeError ReedSolomonEncoder) := do
  let symbolSize ← checkParametersAndComputeSymbolSize data nSourceSymbols
  match symbolSize with
  | .error e => pure (.error e)
  | .ok symbolSize =>
    let sourceSymbols := Slice.chunks symbolSize.get data
    if sourceSymbols.length ≠ nSourceSymbols.get then
      throw "assertion `left == right` failed"
    -- the crate's encoder, given every source symbol as an original shard
    match lib.encoder nSourceSymbols.get (nShards.get - nSourceSymbols.get) symbolSize.get with
    | none => pure (.error .incompatibleParameters)
    | some encode =>
      pure (.ok ⟨encode sourceSymbols, nSourceSymbols, nShards, symbolSize, sourceSymbols⟩)

/-- `encode_all_repair_symbols`: the `n_shards - n_source_symbols` repair symbols. -/
def encodeAllRepairSymbols (self : ReedSolomonEncoder) : List (List UInt8) := self.recovery

end ReedSolomonEncoder

namespace ReedSolomonEncodingConfig

/-- `get_encoder::<E>`. -/
def getEncoder (self : ReedSolomonEncodingConfig) (lib : ReedSolomonSimd) (axis : EncodingAxis)
    (data : List UInt8) : Except String (Except EncodeError ReedSolomonEncoder) :=
  ReedSolomonEncoder.new lib data (self.nSourceSymbols axis) self.nShards

/-- `encode_all_repair_symbols::<E>`. -/
def encodeAllRepairSymbols (self : ReedSolomonEncodingConfig) (lib : ReedSolomonSimd)
    (axis : EncodingAxis) (data : List UInt8) :
    Except String (Except EncodeError (List (List UInt8))) := do
  let encoder ← self.getEncoder lib axis data
  pure (encoder.map ReedSolomonEncoder.encodeAllRepairSymbols)

/-- `encode_all_repair_symbols::<E>(data).expect("size has already been checked")`, as each
caller in `blob_encoding.rs` writes it. -/
def expectRepairSymbols (self : ReedSolomonEncodingConfig) (lib : ReedSolomonSimd)
    (axis : EncodingAxis) (data : List UInt8) : Except String (List (List UInt8)) := do
  let symbols ← self.encodeAllRepairSymbols lib axis data
  match symbols with
  | .ok symbols => pure symbols
  | .error _ => throw "size has already been checked"

/-- The repair symbols of `n_source_symbols` symbols of an even size: what the crate computes
from them, or the panic of the `expect` when it rejects the counts or the size. -/
theorem expectRepairSymbols_ofList (self : ReedSolomonEncodingConfig) (lib : ReedSolomonSimd)
    (axis : EncodingAxis) {xs : List (List UInt8)} {s : NonZeroU16}
    (hlen : xs.length = (self.nSourceSymbols axis).get) (h : Slice.Uniform s.get xs)
    (heven : s.get % 2 = 0) :
    self.expectRepairSymbols lib axis (Symbols.ofList xs s).data =
      match lib.encoder (self.nSourceSymbols axis).get
          (self.nShards.get - (self.nSourceSymbols axis).get) s.get with
      | none => .error "size has already been checked"
      | some encode => .ok (encode xs) := by
  set k := (self.nSourceSymbols axis).get with hk
  have hkpos : 0 < k := (self.nSourceSymbols axis).pos
  have hdata : (Symbols.ofList xs s).data.length = k * s.get := by
    rw [Symbols.ofList, Slice.length_flatten_of_uniform h, hlen, Nat.mul_comm]
  have hks : k * s.get ≤ u16Max * u16Max :=
    Nat.mul_le_mul (Nat.le_trans (self.nSourceSymbols_le axis) self.nShards.le_max) s.le_max
  -- the symbol size computed back from the data is `s`
  have hsize : computeSymbolSizeFromUsize (k * s.get) k 2 = .ok (.ok s) := by
    have hle : k * s.get ≤ u64Max := by simp only [u16Max, u64Max] at hks ⊢; omega
    have hwrap : ¬ (k = 1 ∧ k * s.get = u64Max) := by
      simp only [u16Max, u64Max] at hks ⊢; omega
    unfold computeSymbolSizeFromUsize
    rw [if_pos hle, computeSymbolSize_eq hkpos hle hwrap]
    simp only [paddedSymbolSize_mul hkpos s.pos heven, dif_pos s.le_max]
  have hcheck : ReedSolomonEncoder.checkParametersAndComputeSymbolSize
      (Symbols.ofList xs s).data (self.nSourceSymbols axis) = .ok (.ok s) := by
    have hne : (Symbols.ofList xs s).data.isEmpty = false := by
      rw [List.isEmpty_eq_false_iff, ← List.length_pos_iff, hdata]
      exact Nat.mul_pos hkpos s.pos
    unfold ReedSolomonEncoder.checkParametersAndComputeSymbolSize
    rw [hne, if_neg Bool.false_ne_true, hdata]
    simp only [← hk, EncodingType.requiredAlignment, hsize, bind, Except.bind, pure, Except.pure,
      ne_eq, not_true_eq_false, if_false]
  have hchunks : Slice.chunks s.get (Symbols.ofList xs s).data = xs :=
    Slice.chunks_flatten s.pos h
  unfold expectRepairSymbols encodeAllRepairSymbols getEncoder ReedSolomonEncoder.new
  rw [hcheck]
  simp only [bind, Except.bind, hchunks, hlen, ← hk, ne_eq, not_true_eq_false, if_false]
  cases lib.encoder k (self.nShards.get - k) s.get <;> rfl

end ReedSolomonEncodingConfig

end Walrus.Encoding
