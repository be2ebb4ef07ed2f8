import Walrus.Core.Merkle
import Walrus.Core.Messages

/-! # Blob metadata

The metadata of a blob (`metadata.rs`): for every sliver pair the Merkle roots over the
symbols of its primary and of its secondary sliver, then the encoding type and the unencoded
length. The blob ID hashes the encoding type, the length and the Merkle root over the pairs'
two roots (`BlobId::from_sliver_pair_metadata`).

Digests are the 32 bytes of Blake2b-256, which is a parameter: the Merkle trees are over
`Vector UInt8 32`, with the hashes `merkleHash` builds from it. `BlobMetadata` has one version,
`BlobMetadataV1`, whose fields it has.
-/

namespace Walrus

open Merkle Encoding

/-- The hashes of `MerkleTree<Blake2b256>`: `LEAF_PREFIX` or `INNER_PREFIX` before what is
hashed, and `EMPTY_NODE` the zero digest. -/
def merkleHash (blake2b256 : List UInt8 → Vector UInt8 32) : MerkleHash (Vector UInt8 32) where
  leafHash input := blake2b256 (0 :: input)
  innerHash left right := blake2b256 (1 :: (left.toList ++ right.toList))
  emptyNode := Vector.replicate 32 0

/-- `SliverPairMetadata`. -/
structure SliverPairMetadata where
  primaryHash : Node (Vector UInt8 32)
  secondaryHash : Node (Vector UInt8 32)
deriving DecidableEq

/-- `pair_leaf_input`: the bytes of the two roots. -/
def SliverPairMetadata.pairLeafInput (H : MerkleHash (Vector UInt8 32))
    (self : SliverPairMetadata) : List UInt8 :=
  (self.primaryHash.bytes H).toList ++ (self.secondaryHash.bytes H).toList

/-- `BlobMetadata`. -/
structure BlobMetadata where
  encodingType : EncodingType
  unencodedLength : UInt64
  hashes : List SliverPairMetadata
deriving DecidableEq

/-- `compute_root_hash`: the root of the tree over the pairs' leaf inputs. -/
def BlobMetadata.computeRootHash (H : MerkleHash (Vector UInt8 32)) (self : BlobMetadata) :
    Node (Vector UInt8 32) :=
  (MerkleTree.build H (self.hashes.map (SliverPairMetadata.pairLeafInput H))).root

/-- `BlobId::from_sliver_pair_metadata`. -/
def BlobId.fromSliverPairMetadata (blake2b256 : List UInt8 → Vector UInt8 32)
    (blobMetadata : BlobMetadata) : BlobId :=
  let H := merkleHash blake2b256
  BlobId.fromMetadata blake2b256 ((blobMetadata.computeRootHash H).bytes H)
    blobMetadata.encodingType blobMetadata.unencodedLength

/-- `VerifiedBlobMetadataWithId`: metadata and the blob ID computed from it. -/
structure VerifiedBlobMetadataWithId where
  blobId : BlobId
  metadata : BlobMetadata
deriving DecidableEq

/-- `new_verified_from_metadata`. -/
def VerifiedBlobMetadataWithId.newVerifiedFromMetadata
    (blake2b256 : List UInt8 → Vector UInt8 32) (sliverPairMeta : List SliverPairMetadata)
    (encoding : EncodingType) (unencodedLength : UInt64) : VerifiedBlobMetadataWithId :=
  let blobMetadata : BlobMetadata := ⟨encoding, unencodedLength, sliverPairMeta⟩
  ⟨BlobId.fromSliverPairMetadata blake2b256 blobMetadata, blobMetadata⟩

/-! ## Verifying metadata against its blob ID -/

/-- `VerificationError`. -/
inductive VerificationError where
  | invalidHashCount (actual expected : Nat)
  | blobIdMismatch
  | unencodedLengthTooLarge
deriving DecidableEq, Repr

/-- `UnverifiedBlobMetadataWithId`: metadata with the blob ID it is meant to have. -/
structure UnverifiedBlobMetadataWithId where
  blobId : BlobId
  metadata : BlobMetadata
deriving DecidableEq

/-- `BlobMetadataApi::symbol_size`; the outer `Except` is a panic. -/
def BlobMetadata.symbolSize (self : BlobMetadata) (encodingConfig : EncodingConfig) :
    Except String (Except DataTooLargeError NonZeroU16) := do
  let config ← encodingConfig.getForType self.encodingType
  config.symbolSizeForBlob self.unencodedLength.toNat

/-- `UnverifiedBlobMetadataWithId::verify`: the number of hashes, the length, then the blob ID;
the outer `Except` is a panic. -/
def UnverifiedBlobMetadataWithId.verify (blake2b256 : List UInt8 → Vector UInt8 32)
    (self : UnverifiedBlobMetadataWithId) (config : EncodingConfig) :
    Except String (Except VerificationError VerifiedBlobMetadataWithId) :=
  let nHashes := self.metadata.hashes.length
  let nShards := config.nShards.get
  if nHashes = nShards then do
    let typed ← config.getForType self.metadata.encodingType
    if self.metadata.unencodedLength.toNat ≤ typed.maxBlobSize then
      let computedBlobId := BlobId.fromSliverPairMetadata blake2b256 self.metadata
      if computedBlobId = self.blobId then pure (.ok ⟨self.blobId, self.metadata⟩)
      else pure (.error .blobIdMismatch)
    else pure (.error .unencodedLengthTooLarge)
  else pure (.error (.invalidHashCount nHashes nShards))

/-- What `verify` accepts: one hash per shard, the Reed–Solomon encoding, a length up to
`max_blob_size`, and the blob ID of the metadata; it returns them unchanged. -/
theorem verify_eq_ok {blake2b256 : List UInt8 → Vector UInt8 32}
    {self : UnverifiedBlobMetadataWithId} {config : EncodingConfig}
    {verified : VerifiedBlobMetadataWithId} (h : self.verify blake2b256 config = .ok (.ok verified)) :
    self.metadata.hashes.length = config.nShards.get ∧ self.metadata.encodingType = .rs2 ∧
      self.metadata.unencodedLength.toNat ≤ config.reedSolomon.maxBlobSize ∧
      BlobId.fromSliverPairMetadata blake2b256 self.metadata = self.blobId ∧
      verified = ⟨self.blobId, self.metadata⟩ := by
  unfold UnverifiedBlobMetadataWithId.verify at h
  dsimp only at h
  by_cases hn : self.metadata.hashes.length = config.nShards.get
  case neg =>
    rw [if_neg hn] at h
    cases h
  rw [if_pos hn] at h
  cases htype : self.metadata.encodingType with
  | redStuffRaptorQ =>
    -- `get_for_type` panics
    rw [htype] at h
    simp [EncodingConfig.getForType, bind, Except.bind] at h
  | rs2 =>
    rw [htype] at h
    change (if self.metadata.unencodedLength.toNat ≤ config.reedSolomon.maxBlobSize then _
      else _) = _ at h
    by_cases hlen : self.metadata.unencodedLength.toNat ≤ config.reedSolomon.maxBlobSize
    case neg =>
      rw [if_neg hlen] at h
      cases h
    rw [if_pos hlen] at h
    by_cases hid : BlobId.fromSliverPairMetadata blake2b256 self.metadata = self.blobId
    case neg =>
      rw [if_neg hid] at h
      cases h
    rw [if_pos hid] at h
    cases h
    exact ⟨hn, rfl, hlen, hid, rfl⟩

/-- Metadata that `verify` accepts under the configuration of `n` shards has a symbol size. -/
theorem symbolSize_of_verify {nShards : NonZeroU16} {config : EncodingConfig}
    (hconfig : EncodingConfig.new nShards = .ok config)
    {blake2b256 : List UInt8 → Vector UInt8 32} {self : UnverifiedBlobMetadataWithId}
    {verified : VerifiedBlobMetadataWithId} (h : self.verify blake2b256 config = .ok (.ok verified)) :
    ∃ s, verified.metadata.symbolSize config = .ok (.ok s) := by
  obtain ⟨-, htype, hlen, -, rfl⟩ := verify_eq_ok h
  obtain ⟨-, hrs⟩ := EncodingConfig.of_new hconfig
  have hu64 : self.metadata.unencodedLength.toNat ≤ u64Max := by
    have := self.metadata.unencodedLength.toNat_lt
    unfold u64Max
    omega
  obtain ⟨s, hs⟩ := (ReedSolomonEncodingConfig.symbolSizeForBlob_isOk_iff hrs hu64).mpr hlen
  refine ⟨s, ?_⟩
  rw [BlobMetadata.symbolSize, htype]
  exact hs

/-- The symbol size is exact at its limits. For `n` shards, `source_symbols_for_n_shards` gives
`n - 2f ≥ 1` and `n - f` source symbols, which pass the assertions of
`new_from_nonzero_parameters`. With `k` their product, a blob of `L ≤ u64::MAX` bytes has a
symbol size exactly when `L ≤ max_blob_size = k * (u16::MAX - 1)`; the size is then the least
even one at which `k` symbols hold the blob, and the sliver sizes exist too. A larger blob gets
`DataTooLargeError`, except for one shard and `u64::MAX` bytes, where `compute_symbol_size`
panics. Metadata that `verify` accepts has a symbol size. -/
theorem symbolSize_exact_at_limits (nShards : NonZeroU16) :
    ((sourceSymbolsForNShards nShards).1.get = nShards.get - 2 * maxNFaulty nShards ∧
      1 ≤ (sourceSymbolsForNShards nShards).1.get ∧
      (sourceSymbolsForNShards nShards).2.get = nShards.get - maxNFaulty nShards ∧
      ∃ config, ReedSolomonEncodingConfig.newFromNonzeroParameters
        (sourceSymbolsForNShards nShards).1 (sourceSymbolsForNShards nShards).2 nShards =
          .ok config) ∧
    (∀ config : ReedSolomonEncodingConfig, ReedSolomonEncodingConfig.new nShards = .ok config →
      config.maxBlobSize = sourceSymbolsPerBlobForNShards nShards * 65534 ∧
      ∀ L ≤ u64Max,
        ((∃ s, config.symbolSizeForBlob L = .ok (.ok s)) ↔ L ≤ config.maxBlobSize) ∧
        (config.maxBlobSize < L → ¬ (nShards.get = 1 ∧ L = u64Max) →
          config.symbolSizeForBlob L = .ok (.error .mk)) ∧
        ∀ s, config.symbolSizeForBlob L = .ok (.ok s) →
          s.get % 2 = 0 ∧ s.get ≤ 65534 ∧
          max L 1 ≤ sourceSymbolsPerBlobForNShards nShards * s.get ∧
          sourceSymbolsPerBlobForNShards nShards * (s.get - 2) < max L 1 ∧
          ∀ axis, ∃ size, config.sliverSizeForBlob axis L = .ok (.ok size)) ∧
    (∀ encodingConfig : EncodingConfig, EncodingConfig.new nShards = .ok encodingConfig →
      ∀ (blake2b256 : List UInt8 → Vector UInt8 32) (metadata : UnverifiedBlobMetadataWithId)
        (verified : VerifiedBlobMetadataWithId),
        metadata.verify blake2b256 encodingConfig = .ok (.ok verified) →
          ∃ s, verified.metadata.symbolSize encodingConfig = .ok (.ok s)) := by
  refine ⟨⟨sourceSymbolsForNShards_fst nShards, (sourceSymbolsForNShards nShards).1.pos,
    rfl, ?_⟩, ?_, ?_⟩
  · obtain ⟨config, hconfig⟩ := ReedSolomonEncodingConfig.new_isOk nShards
    exact ⟨config, hconfig⟩
  · intro config hconfig
    obtain ⟨-, hk⟩ := ReedSolomonEncodingConfig.of_new hconfig
    refine ⟨?_, ?_⟩
    · rw [ReedSolomonEncodingConfig.maxBlobSize_of_new hconfig, hk]
      rfl
    intro L hL
    refine ⟨ReedSolomonEncodingConfig.symbolSizeForBlob_isOk_iff hconfig hL, fun hbig hwrap =>
      ReedSolomonEncodingConfig.symbolSizeForBlob_eq_tooLarge hconfig hL hwrap hbig, ?_⟩
    intro s hs
    obtain ⟨hsize, hfit⟩ := ReedSolomonEncodingConfig.symbolSizeForBlob_eq_ok hL hs
    rw [hk] at hsize hfit
    have hkpos := sourceSymbolsPerBlobForNShards_pos nShards
    obtain ⟨hcover, heven, -⟩ := @paddedSymbolSize_least L _ hkpos
    have hlast := @lt_of_paddedSymbolSize L _ hkpos
    refine ⟨?_, ?_, ?_, ?_, ?_⟩
    · rw [hsize]
      exact heven
    · -- an even size up to `u16::MAX` is at most `u16::MAX - 1`
      rw [hsize]
      unfold u16Max at hfit
      omega
    · rw [hsize]
      exact hcover
    · rw [hsize]
      exact hlast
    · intro axis
      exact ⟨_, ReedSolomonEncodingConfig.sliverSizeForBlob_eq_ok config axis hs⟩
  · intro encodingConfig hconfig blake2b256 metadata verified h
    exact symbolSize_of_verify hconfig h

/-- Four shards have `2 * 3` source symbols. A blob of 100 bytes gets the symbol size 18, the
least even size at which six symbols hold it. -/
theorem symbolSize_exact_at_limits_four_shards :
    ∃ config, ReedSolomonEncodingConfig.new (nonZeroU16 4 rfl rfl) = .ok config ∧
      config.maxBlobSize = 6 * 65534 ∧
      ∃ s, config.symbolSizeForBlob 100 = .ok (.ok s) ∧ s.get = 18 := by
  obtain ⟨-, hlimits, -⟩ := symbolSize_exact_at_limits (nonZeroU16 4 rfl rfl)
  obtain ⟨config, hconfig⟩ := ReedSolomonEncodingConfig.new_isOk (nonZeroU16 4 rfl rfl)
  obtain ⟨hmax, hL⟩ := hlimits config hconfig
  obtain ⟨hiff, -, hsize⟩ := hL 100 (by decide)
  have hk : sourceSymbolsPerBlobForNShards (nonZeroU16 4 rfl rfl) = 6 := by decide
  obtain ⟨s, hs⟩ := hiff.mpr (by rw [hmax, hk]; decide)
  -- the size is even, six symbols of it hold 100 bytes, and six of two bytes less do not
  obtain ⟨heven, -, hcover, hlast, -⟩ := hsize s hs
  rw [hk, show max 100 1 = 100 from rfl] at hcover hlast
  refine ⟨config, hconfig, by rw [hmax, hk], s, hs, ?_⟩
  omega

end Walrus
