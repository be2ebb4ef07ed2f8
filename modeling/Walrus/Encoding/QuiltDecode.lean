import Walrus.Encoding.QuiltColumns
import Walrus.Machine.Bcs

/-! # Decoding a quilt (`encoding/quilt_encoding.rs`, `metadata.rs`)

A quilt is read through a column reader, `QuiltColumnRangeReader::range_read_from_columns`, of
which QuiltColumns models the two: the reader of the quilt's data and the reader of a decoder's
slivers. `decode_quilt_index` reads the version byte, the size of the index and the index from
column `0`; `decode_blob` reads a blob from the first byte of its first column: a header of six
bytes (the version byte, the length, the mask), the identifier with its size, the tags with
their size if the mask says so, and the data. A blob is addressed by its patch, or by its
`QuiltPatchInternalIdV1`, five bytes that hold the version byte and the patch's columns.

The two byte formats round trip (`QuiltPatchInternalIdV1.fromBytes_toBytes`,
`BlobHeaderV1.fromBytes_asBytes`), and accept only what they write.

Decoding is not total. `QuiltV1::new_from_quilt_blob` divides by the row size, which is zero for
the empty blob (`newFromQuiltBlob_nil`), and `BlobHeaderV1::from_bytes` asserts the version byte,
which a reader returns from whatever column a patch id names (`decodeBlob_of_version_ne`).

Translation notes.
* `bcs::from_bytes` is not modelled: the decoder is given the three deserializations it uses
  (`BcsFromBytes`), with an error as its message. No path to a panic goes through them.
* A `BTreeMap` of tags is the list of its pairs in key order; a `HashSet` of identifiers is the
  list of the identifiers asked for, without repeats, in the order asked for.
* `usize` subtraction wraps in the release profile (`usizeSub`); the other `usize` sums are of
  small offsets and stay exact.
* A panic keeps the first line of its message.
-/

namespace Walrus.Quilt

open Machine Machine.Bcs
open Walrus.Encoding (ReedSolomonEncodingConfig SliverData)

/-- `QuiltVersionV1::QUILT_VERSION_BYTE`. -/
def quiltVersionByte : UInt8 := 1

/-- `QuiltVersionV1::BLOB_HEADER_SIZE`. -/
def blobHeaderSize : Nat := 6

/-- The number of bytes that store the size of a blob's identifier. -/
def blobIdentifierSizeBytesLength : Nat := 2

/-- The number of bytes that store the size of a blob's tags. -/
def tagsSizeBytesLength : Nat := 2

/-- The longest identifier, in bytes: the largest size its two bytes hold. -/
def maxBlobIdentifierBytesLength : Nat := 2 ^ (8 * blobIdentifierSizeBytesLength) - 1

/-- A `usize` subtraction of the release profile: below zero it wraps. -/
def usizeSub (a b : Nat) : Nat := usizeWrap (a + 2 ^ 64 - b)

/-! ## The blob header -/

/-- `BlobHeaderV1`: the length of the serialized blob (a `u32`) and the mask. -/
structure BlobHeaderV1 where
  length : Nat
  mask : UInt8
deriving DecidableEq, Repr

namespace BlobHeaderV1

/-- `TAGS_ENABLED`: the bit of the mask that says the blob has tags. -/
def tagsEnabled : UInt8 := 1

/-- `from_bytes`: the version byte, which is asserted, the length in four bytes least
significant first, and the mask. Its argument is a `[u8; 6]`, which `decode_blob` makes of the
bytes it read with an `expect`. -/
def fromBytes : List UInt8 → Except QuiltFailure BlobHeaderV1
  | [version, l₀, l₁, l₂, l₃, mask] => do
    unless version = quiltVersionByte do throw (.panic "assertion `left == right` failed")
    pure ⟨leNat [l₀, l₁, l₂, l₃], mask⟩
  | _ => throw (.panic "header_bytes should be 6 bytes")

/-- `as_bytes`. -/
def asBytes (self : BlobHeaderV1) : List UInt8 :=
  quiltVersionByte :: leBytes 4 self.length ++ [self.mask]

/-- `has_tags`. -/
def hasTags (self : BlobHeaderV1) : Bool := self.mask &&& tagsEnabled != 0

/-- A header reads back from its bytes. -/
theorem fromBytes_asBytes {header : BlobHeaderV1} (hlen : header.length < 2 ^ 32) :
    fromBytes header.asBytes = .ok header := by
  obtain ⟨l₀, l₁, l₂, l₃, hl⟩ :
      ∃ l₀ l₁ l₂ l₃, leBytes 4 header.length = [l₀, l₁, l₂, l₃] :=
    ⟨_, _, _, _, rfl⟩
  have hlength : leNat [l₀, l₁, l₂, l₃] = header.length := by
    rw [← hl]
    exact leNat_leBytes (lt_of_lt_of_eq hlen (by norm_num))
  rw [asBytes, hl]
  simp [fromBytes, hlength]
  rfl

/-- What `from_bytes` accepts is the bytes of the header it returns. -/
theorem asBytes_of_fromBytes {bytes : List UInt8} {header : BlobHeaderV1}
    (h : fromBytes bytes = .ok header) : header.asBytes = bytes := by
  unfold fromBytes at h
  split at h
  case h_1 version l₀ l₁ l₂ l₃ mask =>
    by_cases hv : version = quiltVersionByte
    · simp [hv, pure, Except.pure] at h
      subst h
      have hl := leBytes_leNat [l₀, l₁, l₂, l₃]
      simp only [List.length_cons, List.length_nil] at hl
      rw [asBytes, hl, hv]
      rfl
    · simp [hv, throw, throwThe, MonadExceptOf.throw] at h
  case h_2 => cases h

/-- `from_bytes` asserts the version byte. -/
theorem fromBytes_of_version_ne {version l₀ l₁ l₂ l₃ mask : UInt8}
    (hversion : version ≠ quiltVersionByte) :
    fromBytes [version, l₀, l₁, l₂, l₃, mask] =
      .error (.panic "assertion `left == right` failed") := by
  simp [fromBytes, hversion, throw, throwThe, MonadExceptOf.throw]

end BlobHeaderV1

/-! ## The patch id -/

/-- `QuiltPatchInternalIdV1`: the columns of a patch, from `start_index` to below
`end_index` (two `u16`s). -/
structure QuiltPatchInternalIdV1 where
  startIndex : Nat
  endIndex : Nat
deriving DecidableEq, Repr

namespace QuiltPatchInternalIdV1

/-- `to_bytes`: the version byte, then both indices least significant byte first. -/
def toBytes (self : QuiltPatchInternalIdV1) : List UInt8 :=
  quiltVersionByte :: leBytes 2 self.startIndex ++ leBytes 2 self.endIndex

/-- `from_bytes`: five bytes, the first the version byte. -/
def fromBytes : List UInt8 → Except QuiltError QuiltPatchInternalIdV1
  | [version, s₀, s₁, e₀, e₁] =>
    if version = quiltVersionByte then pure ⟨leNat [s₀, s₁], leNat [e₀, e₁]⟩
    else throw (.quiltVersionMismatch version quiltVersionByte)
  | _ => throw (.other "QuiltPatchInternalIdV1 requires 5 bytes")

/-- A patch id of two `u16` indices reads back from its bytes. -/
theorem fromBytes_toBytes {patchInternalId : QuiltPatchInternalIdV1}
    (hstart : patchInternalId.startIndex < 2 ^ 16)
    (hend : patchInternalId.endIndex < 2 ^ 16) :
    fromBytes patchInternalId.toBytes = .ok patchInternalId := by
  obtain ⟨s₀, s₁, hs⟩ :
      ∃ s₀ s₁, leBytes 2 patchInternalId.startIndex = [s₀, s₁] :=
    ⟨_, _, rfl⟩
  obtain ⟨e₀, e₁, he⟩ : ∃ e₀ e₁, leBytes 2 patchInternalId.endIndex = [e₀, e₁] :=
    ⟨_, _, rfl⟩
  have hstart' : leNat [s₀, s₁] = patchInternalId.startIndex := by
    rw [← hs]
    exact leNat_leBytes (lt_of_lt_of_eq hstart (by norm_num))
  have hend' : leNat [e₀, e₁] = patchInternalId.endIndex := by
    rw [← he]
    exact leNat_leBytes (lt_of_lt_of_eq hend (by norm_num))
  rw [toBytes, hs, he]
  simp [fromBytes, hstart', hend']
  rfl

/-- What `from_bytes` accepts is the bytes of the patch id it returns. -/
theorem toBytes_of_fromBytes {bytes : List UInt8} {patchInternalId : QuiltPatchInternalIdV1}
    (h : fromBytes bytes = .ok patchInternalId) : patchInternalId.toBytes = bytes := by
  unfold fromBytes at h
  split at h
  case h_1 version s₀ s₁ e₀ e₁ =>
    by_cases hv : version = quiltVersionByte
    · rw [if_pos hv] at h
      cases h
      have hs := leBytes_leNat [s₀, s₁]
      have he := leBytes_leNat [e₀, e₁]
      simp only [List.length_cons, List.length_nil] at hs he
      rw [toBytes, hs, he, hv]
      rfl
    · rw [if_neg hv] at h
      cases h
  case h_2 => cases h

end QuiltPatchInternalIdV1

/-! ## Identifiers and stored blobs -/

/-- `char::is_whitespace`: the characters of Unicode's `White_Space`. -/
def isWhitespace (c : Char) : Bool :=
  let n := c.toNat
  (0x09 ≤ n && n ≤ 0x0D) || n = 0x20 || n = 0x85 || n = 0xA0 || n = 0x1680 ||
    (0x2000 ≤ n && n ≤ 0x200A) || n = 0x2028 || n = 0x2029 || n = 0x202F || n = 0x205F ||
    n = 0x3000

/-- `char::is_control`: the characters of the general category `Cc`. -/
def isControl (c : Char) : Bool :=
  let n := c.toNat
  n < 0x20 || (0x7F ≤ n && n ≤ 0x9F)

/-- `str::trim_end`: the string without its trailing whitespace. -/
def trimEnd (s : String) : String :=
  String.ofList (s.toList.reverse.dropWhile isWhitespace).reverse

/-- `validate_quilt_identifier`. -/
def validateQuiltIdentifier (identifier : String) : Except QuiltError Unit := do
  if identifier.utf8ByteSize > maxBlobIdentifierBytesLength then
    throw (.invalidIdentifier ("identifier too long: " ++ toString identifier.utf8ByteSize))
  if identifier.isEmpty then
    throw (.invalidIdentifier "identifier is empty")
  if trimEnd identifier ≠ identifier then
    throw (.invalidIdentifier ("identifier contains trailing whitespace: " ++ identifier))
  if identifier.toList.any isControl then
    throw (.invalidIdentifier ("identifier contains control characters: " ++ identifier))

/-- `QuiltStoreBlob`: a blob with its identifier and tags. -/
structure QuiltStoreBlob where
  blob : List UInt8
  identifier : String
  tags : List (String × String)
deriving DecidableEq, Repr

/-- `QuiltStoreBlob::new_owned`: the identifier is validated. -/
def QuiltStoreBlob.newOwned (blob : List UInt8) (identifier : String) :
    Except QuiltError QuiltStoreBlob := do
  validateQuiltIdentifier identifier
  pure ⟨blob, identifier, []⟩

/-- `with_tags`. -/
def QuiltStoreBlob.withTags (self : QuiltStoreBlob) (tags : List (String × String)) :
    QuiltStoreBlob :=
  { self with tags := tags }

/-! ## Decoding from a column reader -/

/-- `bcs::from_bytes` at the three types the decoder reads. -/
structure BcsFromBytes where
  string : List UInt8 → Except String String
  tags : List UInt8 → Except String (List (String × String))
  quiltIndex : List UInt8 → Except String QuiltIndexV1

section Decode

variable (bcs : BcsFromBytes) (read : Nat → Nat → Nat → Except QuiltFailure (List UInt8))

/-- `decode_blob_identifier`: the identifier and the bytes it takes with its size. -/
def decodeBlobIdentifier (startCol initialOffset : Nat) : Except QuiltFailure (String × Nat) := do
  let sizeBuffer ← read startCol initialOffset blobIdentifierSizeBytesLength
  let offset := initialOffset + blobIdentifierSizeBytesLength
  let [b₀, b₁] := sizeBuffer | throw (.panic "size_buffer should be 2 bytes")
  let identifierSize := leNat [b₀, b₁]
  let identifierBytes ← read startCol offset identifierSize
  let identifier ← (bcs.string identifierBytes).mapError
    fun _ => .err (.invalidIdentifier "Failed to deserialize identifier")
  pure (identifier, blobIdentifierSizeBytesLength + identifierSize)

/-- `decode_blob_tags`: the tags and the bytes they take with their size. -/
def decodeBlobTags (startCol initialOffset : Nat) :
    Except QuiltFailure (List (String × String) × Nat) := do
  let sizeBytes ← read startCol initialOffset tagsSizeBytesLength
  let [b₀, b₁] := sizeBytes
    | throw (.panic "assertion failed: size_bytes.len() == TAGS_SIZE_BYTES_LENGTH")
  let tagsSize := leNat [b₀, b₁]
  let offset := initialOffset + tagsSizeBytesLength
  let tagsBytes ← read startCol offset tagsSize
  let tags ← (bcs.tags tagsBytes).mapError fun e => .err (.failedToDecodeExtension "tags" e)
  pure (tags, offset + tagsSize - initialOffset)

/-- `QuiltVersionV1::decode_blob`: the blob whose first column is `start_col`. -/
def decodeBlob (startCol : Nat) : Except QuiltFailure QuiltStoreBlob := do
  let headerBytes ← read startCol 0 blobHeaderSize
  unless headerBytes.length = blobHeaderSize do
    throw (.panic "assertion failed: header_bytes.len() == Self::BLOB_HEADER_SIZE")
  let blobHeader ← BlobHeaderV1.fromBytes headerBytes
  let offset := blobHeaderSize
  let (identifier, bytesConsumed) ← decodeBlobIdentifier bcs read startCol offset
  let offset := offset + bytesConsumed
  let blobBytesSize := usizeSub blobHeader.length bytesConsumed
  let (tags, offset, blobBytesSize) ← if blobHeader.hasTags then do
      let (tags, bytesConsumed) ← decodeBlobTags bcs read startCol offset
      pure (tags, offset + bytesConsumed, usizeSub blobBytesSize bytesConsumed)
    else pure ([], offset, blobBytesSize)
  let dataBytes ← read startCol offset blobBytesSize
  unless dataBytes.length = blobBytesSize do
    throw (.panic "assertion failed: data_bytes.len() == blob_bytes_size")
  let blob ← (QuiltStoreBlob.newOwned dataBytes identifier).mapError .err
  pure (blob.withTags tags)

/-- Where the reader returns, at the start of column `start_col`, a first byte other than the
version byte, `decode_blob` panics in `BlobHeaderV1::from_bytes`. -/
theorem decodeBlob_of_version_ne {startCol : Nat} {version l₀ l₁ l₂ l₃ mask : UInt8}
    (hread : read startCol 0 blobHeaderSize = .ok [version, l₀, l₁, l₂, l₃, mask])
    (hversion : version ≠ quiltVersionByte) :
    decodeBlob bcs read startCol = .error (.panic "assertion `left == right` failed") := by
  rw [decodeBlob, hread, ok_bind]
  simp [blobHeaderSize, BlobHeaderV1.fromBytes_of_version_ne hversion, error_bind]

/-- `utils::check_quilt_version`. -/
def checkQuiltVersion (data : List UInt8) : Except QuiltError Unit := do
  let some quiltVersionByte' := data.head? | throw (.emptyInput "data")
  unless quiltVersionByte' = quiltVersionByte do
    throw (.quiltVersionMismatch quiltVersionByte' quiltVersionByte)

/-- `QuiltIndexV1::populate_start_indices`: each patch starts where the one before it ends, the
first at `first_start`. -/
def populateStartIndices : Nat → List QuiltPatchV1 → List QuiltPatchV1
  | _, [] => []
  | prevEndIndex, patch :: patches =>
    { patch with startIndex := prevEndIndex } :: populateStartIndices patch.endIndex patches

/-- `QuiltVersionV1::decode_quilt_index`: the index in the first columns, each `column_size`
bytes. -/
def decodeQuiltIndex (columnSize : Nat) : Except QuiltFailure QuiltIndexV1 := do
  let quiltVersionBytes ← read 0 0 quiltVersionBytesLength
  unless quiltVersionBytes.length = quiltVersionBytesLength do
    throw (.panic "assertion failed: quilt_version_bytes.len() == QUILT_VERSION_BYTES_LENGTH")
  (checkQuiltVersion quiltVersionBytes).mapError .err
  let sizeBytes ← read 0 quiltVersionBytesLength quiltIndexSizeBytesLength
  unless sizeBytes.length = quiltIndexSizeBytesLength do
    throw (.panic "assertion failed: size_bytes.len() == QUILT_INDEX_SIZE_BYTES_LENGTH")
  let indexSize := leNat sizeBytes
  let indexBytes ← read 0 quiltIndexPrefixSize indexSize
  unless indexBytes.length = indexSize do
    throw (.panic "assertion failed: index_bytes.len() == index_size")
  let quiltIndex ← (bcs.quiltIndex indexBytes).mapError fun e => .err (.quiltIndexSerDerError e)
  let totalSize := indexSize + quiltIndexPrefixSize
  let columnsNeeded ← usizeDivCeil totalSize columnSize
  unless columnsNeeded ≤ u16Max do throw (.panic "columns_needed should fit in u16")
  pure ⟨populateStartIndices columnsNeeded quiltIndex.quiltPatches⟩

end Decode

/-! ## Finding patches in the index -/

namespace QuiltIndexV1

/-- `get_quilt_patches_by_identifiers`: the first patch of each identifier asked for, in the
order of the index; an identifier with no patch is an error. -/
def getQuiltPatchesByIdentifiers (self : QuiltIndexV1) (identifiers : List String) :
    Except QuiltError (List QuiltPatchV1) :=
  let (remaining, patches) := self.quiltPatches.foldl
    (fun (remaining, patches) patch =>
      if patch.identifier ∈ remaining then (remaining.erase patch.identifier, patches ++ [patch])
      else (remaining, patches))
    (identifiers.dedup, [])
  if remaining.isEmpty then pure patches else throw (.blobsNotFoundInQuilt remaining)

/-- `has_matched_tag`. -/
def hasMatchedTag (patch : QuiltPatchV1) (targetTag targetValue : String) : Bool :=
  patch.tags.lookup targetTag == some targetValue

/-- `get_quilt_patches_by_tag`. -/
def getQuiltPatchesByTag (self : QuiltIndexV1) (targetTag targetValue : String) :
    List QuiltPatchV1 :=
  self.quiltPatches.filter fun patch => hasMatchedTag patch targetTag targetValue

end QuiltIndexV1

/-! ## A quilt read from its data -/

namespace QuiltV1

variable (bcs : BcsFromBytes)

/-- `quilt_index`. -/
def getQuiltIndex (self : QuiltV1) : Except QuiltError QuiltIndexV1 :=
  match self.quiltIndex with
  | some quiltIndex => pure quiltIndex
  | none => throw .missingQuiltIndex

/-- `get_or_decode_quilt_index`: the index, and the quilt holding it. -/
def getOrDecodeQuiltIndex (self : QuiltV1) : Except QuiltFailure (QuiltIndexV1 × QuiltV1) :=
  match self.quiltIndex with
  | some quiltIndex => pure (quiltIndex, self)
  | none => do
    let columnsSize := (← usizeDiv self.data.length self.rowSize) * self.symbolSize
    let quiltIndex ← decodeQuiltIndex bcs self.rangeReadFromColumns columnsSize
    pure (quiltIndex, { self with quiltIndex := some quiltIndex })

/-- `new_from_quilt_blob`: a quilt of the configuration's shape whose index decodes. -/
def newFromQuiltBlob (quiltBlob : List UInt8) (encodingConfig : ReedSolomonEncodingConfig) :
    Except QuiltFailure QuiltV1 := do
  let nPrimarySourceSymbols := (encodingConfig.nSourceSymbols .primary).get
  let nSecondarySourceSymbols := (encodingConfig.nSourceSymbols .secondary).get
  let nSourceSymbols := nPrimarySourceSymbols * nSecondarySourceSymbols
  if nSourceSymbols = 0 then throw (.err (.other "n_source_symbols cannot be zero"))
  if quiltBlob.length % nSourceSymbols ≠ 0 then
    throw (.err (.invalidFormatNotAligned ("quilt_blob length " ++ toString quiltBlob.length ++
      " is not a multiple of n_source_symbols " ++ toString nSourceSymbols)))
  let symbolSize := quiltBlob.length / nSourceSymbols
  let rowSize := symbolSize * nSecondarySourceSymbols
  let quilt : QuiltV1 := ⟨quiltBlob, rowSize, symbolSize, none⟩
  let (_, quilt) ← quilt.getOrDecodeQuiltIndex bcs
  pure quilt

/-- The empty blob has symbols of no bytes: the row size is zero, and decoding the index divides
by it. -/
theorem newFromQuiltBlob_nil (encodingConfig : ReedSolomonEncodingConfig) :
    newFromQuiltBlob bcs [] encodingConfig = .error (.panic "attempt to divide by zero") := by
  -- the configuration has source symbols, so the blob is aligned and its symbols are empty
  have hprimary : encodingConfig.sourceSymbolsPrimary.get ≠ 0 :=
    Nat.pos_iff_ne_zero.mp encodingConfig.sourceSymbolsPrimary.pos
  have hsecondary : encodingConfig.sourceSymbolsSecondary.get ≠ 0 :=
    Nat.pos_iff_ne_zero.mp encodingConfig.sourceSymbolsSecondary.pos
  simp [newFromQuiltBlob, getOrDecodeQuiltIndex, usizeDiv, hprimary, hsecondary, throw, throwThe,
    MonadExceptOf.throw, error_bind]

/-- `get_blob_by_patch_internal_id`. -/
def getBlobByPatchInternalId (self : QuiltV1) (patchInternalId : List UInt8) :
    Except QuiltFailure QuiltStoreBlob := do
  let patchInternalId ← (QuiltPatchInternalIdV1.fromBytes patchInternalId).mapError .err
  decodeBlob bcs self.rangeReadFromColumns patchInternalId.startIndex

/-- A patch id whose first column does not start with the version byte makes
`get_blob_by_patch_internal_id` panic. -/
theorem getBlobByPatchInternalId_of_version_ne {self : QuiltV1} {bytes : List UInt8}
    {patchInternalId : QuiltPatchInternalIdV1} {version l₀ l₁ l₂ l₃ mask : UInt8}
    (hid : QuiltPatchInternalIdV1.fromBytes bytes = .ok patchInternalId)
    (hread : self.rangeReadFromColumns patchInternalId.startIndex 0 blobHeaderSize =
      .ok [version, l₀, l₁, l₂, l₃, mask])
    (hversion : version ≠ quiltVersionByte) :
    self.getBlobByPatchInternalId bcs bytes =
      .error (.panic "assertion `left == right` failed") := by
  rw [getBlobByPatchInternalId, hid]
  exact decodeBlob_of_version_ne bcs _ hread hversion

/-- `get_blobs_by_identifiers`. -/
def getBlobsByIdentifiers (self : QuiltV1) (identifiers : List String) :
    Except QuiltFailure (List QuiltStoreBlob) := do
  let quiltIndex ← self.getQuiltIndex.mapError .err
  let patches ← (quiltIndex.getQuiltPatchesByIdentifiers identifiers).mapError .err
  patches.mapM fun patch => decodeBlob bcs self.rangeReadFromColumns patch.startIndex

/-- `get_blobs_by_tag`. -/
def getBlobsByTag (self : QuiltV1) (targetTag targetValue : String) :
    Except QuiltFailure (List QuiltStoreBlob) := do
  let quiltIndex ← self.getQuiltIndex.mapError .err
  (quiltIndex.getQuiltPatchesByTag targetTag targetValue).mapM
    fun patch => decodeBlob bcs self.rangeReadFromColumns patch.startIndex

/-- `get_all_blobs`. -/
def getAllBlobs (self : QuiltV1) : Except QuiltFailure (List QuiltStoreBlob) := do
  let quiltIndex ← self.getQuiltIndex.mapError .err
  quiltIndex.quiltPatches.mapM fun patch =>
    decodeBlob bcs self.rangeReadFromColumns patch.startIndex

end QuiltV1

/-! ## A quilt read from its slivers -/

namespace QuiltDecoderV1

variable (bcs : BcsFromBytes)

/-- `get_or_decode_quilt_index`: the index, and the decoder holding it. -/
def getOrDecodeQuiltIndex (self : QuiltDecoderV1) :
    Except QuiltFailure (QuiltIndexV1 × QuiltDecoderV1) :=
  match self.quiltIndex with
  | some quiltIndex => pure (quiltIndex, self)
  | none => do
    self.checkMissingSlivers 0 1
    let some columnSize := self.columnSize | throw (.panic "column size should be set")
    let quiltIndex ← decodeQuiltIndex bcs self.rangeReadFromColumns columnSize
    pure (quiltIndex, { self with quiltIndex := some quiltIndex })

/-- `get_blob_by_quilt_patch`: the columns of the patch are checked, then the blob read. -/
def getBlobByQuiltPatch (self : QuiltDecoderV1) (quiltPatch : QuiltPatchV1) :
    Except QuiltFailure QuiltStoreBlob := do
  self.checkMissingSlivers quiltPatch.startIndex quiltPatch.endIndex
  decodeBlob bcs self.rangeReadFromColumns quiltPatch.startIndex

/-- `get_blob_by_patch_internal_id`. -/
def getBlobByPatchInternalId (self : QuiltDecoderV1) (patchInternalId : List UInt8) :
    Except QuiltFailure QuiltStoreBlob := do
  let patchInternalId ← (QuiltPatchInternalIdV1.fromBytes patchInternalId).mapError .err
  self.checkMissingSlivers patchInternalId.startIndex patchInternalId.endIndex
  decodeBlob bcs self.rangeReadFromColumns patchInternalId.startIndex

/-- Where the slivers of a patch id are all there and the first does not start with the version
byte, `get_blob_by_patch_internal_id` panics. -/
theorem getBlobByPatchInternalId_of_version_ne {self : QuiltDecoderV1} {bytes : List UInt8}
    {patchInternalId : QuiltPatchInternalIdV1} {version l₀ l₁ l₂ l₃ mask : UInt8}
    (hid : QuiltPatchInternalIdV1.fromBytes bytes = .ok patchInternalId)
    (hmissing : self.checkMissingSlivers patchInternalId.startIndex patchInternalId.endIndex =
      .ok ())
    (hread : self.rangeReadFromColumns patchInternalId.startIndex 0 blobHeaderSize =
      .ok [version, l₀, l₁, l₂, l₃, mask])
    (hversion : version ≠ quiltVersionByte) :
    self.getBlobByPatchInternalId bcs bytes =
      .error (.panic "assertion `left == right` failed") := by
  rw [getBlobByPatchInternalId, hid]
  show (self.checkMissingSlivers patchInternalId.startIndex patchInternalId.endIndex >>=
    fun _ => decodeBlob bcs self.rangeReadFromColumns patchInternalId.startIndex) = _
  rw [hmissing, ok_bind]
  exact decodeBlob_of_version_ne bcs _ hread hversion

/-- The index the decoder holds, `MissingQuiltIndex` otherwise. -/
def getQuiltIndex (self : QuiltDecoderV1) : Except QuiltError QuiltIndexV1 :=
  match self.quiltIndex with
  | some quiltIndex => pure quiltIndex
  | none => throw .missingQuiltIndex

/-- `get_blobs_by_identifiers`. -/
def getBlobsByIdentifiers (self : QuiltDecoderV1) (identifiers : List String) :
    Except QuiltFailure (List QuiltStoreBlob) := do
  let quiltIndex ← self.getQuiltIndex.mapError .err
  let patches ← (quiltIndex.getQuiltPatchesByIdentifiers identifiers).mapError .err
  patches.mapM (self.getBlobByQuiltPatch bcs)

/-- `get_blobs_by_tag`. -/
def getBlobsByTag (self : QuiltDecoderV1) (targetTag targetValue : String) :
    Except QuiltFailure (List QuiltStoreBlob) := do
  let quiltIndex ← self.getQuiltIndex.mapError .err
  (quiltIndex.getQuiltPatchesByTag targetTag targetValue).mapM (self.getBlobByQuiltPatch bcs)

end QuiltDecoderV1

/-- A sliver of six zero bytes at index `0`, in symbols of two bytes. -/
def zeroSliver : SliverData .secondary := ⟨⟨List.replicate 6 0, encoderFourShards.symbolSize⟩, 0⟩

/-- The empty blob, and a decoder given one sliver of zeros asked for the patch of column `0`. -/
theorem quilt_decoding_panics (bcs : BcsFromBytes) (encodingConfig : ReedSolomonEncodingConfig) :
    QuiltV1.newFromQuiltBlob bcs [] encodingConfig =
        .error (.panic "attempt to divide by zero") ∧
      (QuiltDecoderV1.new [zeroSliver]).getBlobByPatchInternalId bcs [1, 0, 0, 1, 0] =
        .error (.panic "assertion `left == right` failed") :=
  ⟨QuiltV1.newFromQuiltBlob_nil bcs encodingConfig,
    QuiltDecoderV1.getBlobByPatchInternalId_of_version_ne bcs rfl (by decide)
      (show (QuiltDecoderV1.new [zeroSliver]).rangeReadFromColumns 0 0 blobHeaderSize =
        .ok [0, 0, 0, 0, 0, 0] by decide)
      (by decide)⟩

end Walrus.Quilt
