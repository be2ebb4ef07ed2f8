import Mathlib.Data.String.Basic
import Walrus.Encoding.QuiltDecode

/-! # Constructing a quilt (`QuiltEncoderV1::construct_quilt`)

`construct_quilt` sorts the blobs by identifier, refuses two with one identifier, and sizes the
matrix: the index, with a prefix of its version byte and its size, and each blob, serialized,
take whole columns, and `compute_symbol_size` picks the symbol size. The index goes in the first
columns and the blobs after it, each from the first byte of a column; `add_blob_to_quilt` writes
a blob's header and extensions (`get_header_and_extension_bytes`) and then its data, through
`write_bytes_to_columns`, and the blob's patch records the columns it took.

What is proved, for every input on which `construct_quilt` returns a quilt (the theorem at the
end of the module):

* the blobs are laid out in the column-major order (`LaidOut`): each blob's bytes from the first
  byte of its patch's first column, the patch spanning the columns they take, the next patch
  starting where it ends, and the last ending by the last column;
* the index is written before them, from the first byte of column `0` on, and its region and
  the blobs' come one after the other inside the data (`LaidOut.regions_pairwise`);
* the patches are sorted strictly by identifier, the first starts at the columns the index takes,
  at most ten, and `serialized_blob_size` of a blob is the number of bytes written for it
  (`serializedBlobSize_eq`).

The run is read through one lemma per writer: `writeBytesToColumns_ok` and `writeBytesToColumns_eq`
of `write_bytes_to_columns`, `addBlobToQuilt_ok` of a blob, `placeBlobs_ok` of the placement loop.
That the last patch ends by the last column is not a check of the loop: it holds because the
symbol size fits the blobs (`Fits` of `compute_symbol_size`). Seeing that `compute_symbol_size`
computed without wrapping takes a bound on the sizes, which the writes give: a write that ran
past the last column by a whole column would have gone past the end of the data and panicked
(`writeCells_ok`, `sizes_sum_lt`).

Translation notes.
* `bcs::to_bytes` of the index is `Machine.Bcs`'s writer at the shapes of the types: a patch is
  its `end_index` (a `u16`), its identifier and its tags; `start_index` is not serialized.
* `sort_by` of the identifiers is a stable sort, as `List.mergeSort` is; `String::cmp` compares
  the UTF-8 bytes, which is the order of the characters.
* `QuiltStoreBlob::new` borrows the bytes and `new_owned` owns them; in the model both are the
  bytes.
* An `expect` panics with its message; `debug_assert_eq!` is not checked in the release profile.
-/

namespace Walrus.Quilt

open Machine Machine.Bcs Machine.Slice
open Walrus.Encoding (ReedSolomonEncodingConfig)

/-- The message of `TryFromIntError`. -/
def tryFromIntError : String := "out of range integral type conversion attempted"

/-! ## The serialized index -/

/-- `bcs::to_bytes` of the tags of a blob, a `BTreeMap<String, String>`. -/
def tagsBcsBytes (tags : List (String × String)) : Except String (List UInt8) :=
  mapBytes strBytes strBytes tags

namespace QuiltPatchV1

/-- `bcs::to_bytes` of a patch: `end_index`, the identifier and the tags. -/
def bcsBytes (self : QuiltPatchV1) : Except String (List UInt8) := do
  let identifier ← strBytes self.identifier
  let tags ← tagsBcsBytes self.tags
  pure (leBytes 2 self.endIndex ++ identifier ++ tags)

/-- `QuiltPatchV1::new_with_tags`: the identifier is validated. -/
def newWithTags (identifier : String) (tags : List (String × String)) :
    Except QuiltError QuiltPatchV1 := do
  validateQuiltIdentifier identifier
  pure ⟨0, 0, identifier, tags⟩

/-- `set_range`. -/
def setRange (self : QuiltPatchV1) (startIndex endIndex : Nat) : QuiltPatchV1 :=
  { self with startIndex := startIndex, endIndex := endIndex }

end QuiltPatchV1

/-- `bcs::to_bytes` of an index: its patches as a sequence. -/
def QuiltIndexV1.bcsBytes (self : QuiltIndexV1) : Except String (List UInt8) :=
  seqBytes QuiltPatchV1.bcsBytes self.quiltPatches

/-- `QuiltStoreBlob::new`: the identifier is validated. -/
def QuiltStoreBlob.new (blob : List UInt8) (identifier : String) :
    Except QuiltError QuiltStoreBlob :=
  QuiltStoreBlob.newOwned blob identifier

/-- `BlobHeaderV1::set_has_tags`. -/
def BlobHeaderV1.setHasTags (self : BlobHeaderV1) (hasTags : Bool) : BlobHeaderV1 :=
  if hasTags then { self with mask := self.mask ||| BlobHeaderV1.tagsEnabled }
  else { self with mask := self.mask &&& ~~~BlobHeaderV1.tagsEnabled }

/-! ## The encoder -/

/-- `QuiltEncoderV1`: the blobs and the encoding configuration. -/
structure QuiltEncoderV1 where
  blobs : List QuiltStoreBlob
  config : ReedSolomonEncodingConfig

namespace QuiltEncoderV1

/-- `get_header_and_extension_bytes`: the header, the identifier after its size in two bytes,
and, when the blob has tags, the tags after their size in two bytes. -/
def getHeaderAndExtensionBytes (blob : QuiltStoreBlob) : Except QuiltError (List UInt8) := do
  let identifierSize ← (serializedSize (strBytes blob.identifier)).mapError fun e =>
    .invalidIdentifier s!"Failed to serialize identifier: {e}"
  unless identifierSize < 2 ^ 16 do
    throw (.invalidIdentifier s!"Failed to convert identifier size to u16: {tryFromIntError}")
  let identifierBytes ← (strBytes blob.identifier).mapError fun e =>
    .invalidIdentifier s!"Failed to serialize identifier: {e}"
  let (header, tagsBytes) ← if !blob.tags.isEmpty then do
      let serializedTags ← (tagsBcsBytes blob.tags).mapError fun e =>
        .other s!"Failed to serialize tags: {e}"
      unless serializedTags.length < 2 ^ 16 do
        throw (.other s!"Failed to convert tags size to u16: {tryFromIntError}")
      pure ((⟨0, 0⟩ : BlobHeaderV1).setHasTags true,
        leBytes 2 serializedTags.length ++ serializedTags)
    else pure (⟨0, 0⟩, [])
  let extensionBytes := leBytes 2 identifierSize ++ identifierBytes ++ tagsBytes
  -- `total_size as u32`
  let header := { header with length := (extensionBytes.length + blob.blob.length) % 2 ^ 32 }
  pure (header.asBytes ++ extensionBytes)

/-- `QuiltVersionV1::serialized_blob_size`. -/
def serializedBlobSize (blob : QuiltStoreBlob) : Except QuiltError Nat := do
  let identifierSize ← (serializedSize (strBytes blob.identifier)).mapError fun e =>
    .other s!"Failed to compute identifier size: {e}"
  if identifierSize ≥ maxBlobIdentifierBytesLength then
    throw (.invalidIdentifier
      s!"identifier size exceeds maximum allowed value: {maxBlobIdentifierBytesLength}")
  let prefixSize := identifierSize + blobIdentifierSizeBytesLength
  let prefixSize ← if !blob.tags.isEmpty then do
      let tagsSize ← (serializedSize (tagsBcsBytes blob.tags)).mapError fun e =>
        .other s!"Failed to compute tags size: {e}"
      pure (prefixSize + tagsSize + tagsSizeBytesLength)
    else pure prefixSize
  pure (prefixSize + blob.blob.length + blobHeaderSize)

/-- `add_blob_to_quilt`: `data` with the blob written from the first byte of column
`current_col` on, and the number of columns it takes. The index is written without a header. -/
def addBlobToQuilt (data : List UInt8) (blob : QuiltStoreBlob) (isMetaBlob : Bool)
    (currentCol columnSize rowSize symbolSize : Nat) :
    Except QuiltFailure (List UInt8 × Nat) := do
  unless (← usizeRem columnSize symbolSize) = 0 do
    throw (.panic "assertion failed: column_size % symbol_size == 0")
  let (data, totalBytesWritten) ← if !isMetaBlob then do
      let prefixBytes ← (getHeaderAndExtensionBytes blob).mapError .err
      let data ← writeBytesToColumns data prefixBytes currentCol rowSize columnSize symbolSize 0
      pure (data, prefixBytes.length)
    else pure (data, 0)
  let data ←
    writeBytesToColumns data blob.blob currentCol rowSize columnSize symbolSize totalBytesWritten
  let totalBytesWritten := totalBytesWritten + blob.blob.length
  pure (data, ← usizeDivCeil totalBytesWritten columnSize)

/-- The duplicate check of `construct_quilt`: two neighbours of the sorted blobs
(`windows(2)`) with one identifier. -/
def checkDuplicateIdentifiers : List QuiltStoreBlob → Except QuiltError Unit
  | first :: second :: rest => do
    if first.identifier = second.identifier then
      throw (.duplicateIdentifier first.identifier)
    checkDuplicateIdentifiers (second :: rest)
  | _ => pure ()

/-- The placement loop of `construct_quilt`: each blob from column `current_col` on, and its
patch given the columns it took. -/
def placeBlobs (columnSize rowSize symbolSize : Nat) :
    List UInt8 → Nat → List (QuiltStoreBlob × QuiltPatchV1) →
      Except QuiltFailure (List UInt8 × List QuiltPatchV1)
  | data, _, [] => pure (data, [])
  | data, currentCol, (blob, patch) :: rest => do
    let (data, colsNeeded) ←
      addBlobToQuilt data blob false currentCol columnSize rowSize symbolSize
    unless currentCol < 2 ^ 16 do throw (.panic "current_col should fit in u16")
    unless currentCol + colsNeeded < 2 ^ 16 do
      throw (.panic "current_col + cols_needed should fit in u16")
    let (data, patches) ← placeBlobs columnSize rowSize symbolSize data (currentCol + colsNeeded) rest
    pure (data, patch.setRange currentCol (currentCol + colsNeeded) :: patches)

/-- `construct_quilt`. -/
def constructQuilt (self : QuiltEncoderV1) : Except QuiltFailure QuiltV1 := do
  let nRows := (self.config.nSourceSymbols .primary).get
  let nColumns := (self.config.nSourceSymbols .secondary).get
  let blobPairs := self.blobs.mergeSort fun a b => decide (a.identifier ≤ b.identifier)
  (checkDuplicateIdentifiers blobPairs).mapError .err
  let quiltPatches ← (blobPairs.mapM fun blob =>
    QuiltPatchV1.newWithTags blob.identifier blob.tags).mapError .err
  let serializedIndexSize ← (serializedSize (QuiltIndexV1.bcsBytes ⟨quiltPatches⟩)).mapError
    fun e => .err (.quiltIndexSerDerError e)
  unless serializedIndexSize < 2 ^ 32 do
    throw (.panic "serialized_index_size should fit in u32")
  let indexTotalSize := quiltIndexPrefixSize + serializedIndexSize
  let allSizes ← (blobPairs.mapM serializedBlobSize).mapError .err
  let symbolSize ← computeSymbolSize (indexTotalSize :: allSizes) nColumns nRows
    maxNumSliversForQuiltIndex self.config.encodingType
  let rowSize := symbolSize * nColumns
  let data := List.replicate (rowSize * nRows) 0
  let columnSize := symbolSize * nRows
  let indexColsNeeded ← usizeDivCeil indexTotalSize columnSize
  unless indexColsNeeded ≤ maxNumSliversForQuiltIndex do
    throw (.panic "assertion failed: index_cols_needed <= MAX_NUM_SLIVERS_FOR_QUILT_INDEX")
  let (data, quiltPatches) ←
    placeBlobs columnSize rowSize symbolSize data indexColsNeeded (blobPairs.zip quiltPatches)
  let serializedIndex ← (QuiltIndexV1.bcsBytes ⟨quiltPatches⟩).mapError fun _ =>
    .panic "serialization should succeed"
  let metaBlobData := quiltVersionByte :: leBytes 4 serializedIndexSize ++ serializedIndex
  unless metaBlobData.length = indexTotalSize do
    throw (.panic "assertion `left == right` failed")
  let metaBlob ← (QuiltStoreBlob.new metaBlobData "quilt_index").mapError .err
  let (data, _) ← addBlobToQuilt data metaBlob true 0 columnSize rowSize symbolSize
  pure ⟨data, rowSize, symbolSize, some ⟨quiltPatches⟩⟩

end QuiltEncoderV1

/-! ## Layouts of the column-major order -/

/-- Byte strings laid out in the column-major order `cm` of columns of `column_size` bytes from
column `col` on: each from the first byte of its patch's first column, its patch spanning the
columns it takes, the next patch starting where it ends. -/
def LaidOut (cm : List UInt8) (columnSize : Nat) :
    Nat → List QuiltPatchV1 → List (List UInt8) → Prop
  | _, [], [] => True
  | col, patch :: patches, bytes :: rest =>
    patch.startIndex = col ∧ patch.endIndex = col + divCeil bytes.length columnSize ∧
      rangeOf cm (col * columnSize) (col * columnSize + bytes.length) = bytes ∧
      LaidOut cm columnSize patch.endIndex patches rest
  | _, _, _ => False

/-- The byte ranges of the column-major order that hold the byte strings of a layout. -/
def regions (columnSize : Nat) (patches : List QuiltPatchV1) (spans : List (List UInt8)) :
    List (Nat × Nat) :=
  List.zipWith (fun patch bytes => (patch.startIndex * columnSize,
    patch.startIndex * columnSize + bytes.length)) patches spans

section Layout

variable {cm : List UInt8} {columnSize : Nat}

theorem LaidOut.length_eq : ∀ {col : Nat} {patches : List QuiltPatchV1}
    {spans : List (List UInt8)}, LaidOut cm columnSize col patches spans →
      patches.length = spans.length
  | _, [], [], _ => rfl
  | _, _ :: _, _ :: _, ⟨_, _, _, hrest⟩ => by
    rw [List.length_cons, List.length_cons, LaidOut.length_eq hrest]

/-- Each patch starts where the one before it ends. -/
theorem LaidOut.isChain : ∀ {col : Nat} {patches : List QuiltPatchV1}
    {spans : List (List UInt8)}, LaidOut cm columnSize col patches spans →
      patches.IsChain fun patch next => patch.endIndex = next.startIndex
  | _, [], _, _ => .nil
  | _, [_], _ :: _, _ => .singleton _
  | _, _ :: _ :: _, _ :: _ :: _, ⟨_, _, _, hrest⟩ =>
    .cons_cons hrest.1.symm (LaidOut.isChain hrest)

/-- The first patch starts at the layout's first column. -/
theorem LaidOut.head_startIndex {col : Nat} {patches : List QuiltPatchV1}
    {spans : List (List UInt8)} (h : LaidOut cm columnSize col patches spans) :
    ∀ patch ∈ patches.head?, patch.startIndex = col := by
  intro patch hpatch
  cases patches with
  | nil => cases hpatch
  | cons first patches =>
    cases spans with
    | nil => exact h.elim
    | cons bytes spans =>
      cases hpatch
      exact h.1

/-- A patch of nonempty bytes spans at least one column. -/
theorem LaidOut.startIndex_lt_endIndex (hcolumnSize : 0 < columnSize) :
    ∀ {col : Nat} {patches : List QuiltPatchV1} {spans : List (List UInt8)},
      LaidOut cm columnSize col patches spans → (∀ bytes ∈ spans, 0 < bytes.length) →
      ∀ patch ∈ patches, patch.startIndex < patch.endIndex
  | _, [], _, _, _ => fun _ hpatch => by cases hpatch
  | _, _ :: _, bytes :: _, ⟨hstart, hend, _, hrest⟩, hpos => by
    intro patch hpatch
    rcases List.mem_cons.mp hpatch with rfl | hmem
    · have hcols : 0 < divCeil bytes.length columnSize := by
        have hcover := (le_mul_divCeil bytes.length hcolumnSize).1
        have hbytes := hpos bytes List.mem_cons_self
        rcases Nat.eq_zero_or_pos (divCeil bytes.length columnSize) with h0 | h0
        · rw [h0, Nat.mul_zero] at hcover
          omega
        · exact h0
      omega
    · exact LaidOut.startIndex_lt_endIndex hcolumnSize hrest
        (fun b hb => hpos b (List.mem_cons_of_mem _ hb)) patch hmem

/-- The last patch ends at the columns the layout takes. -/
theorem LaidOut.getLast_endIndex : ∀ {col : Nat} {patches : List QuiltPatchV1}
    {spans : List (List UInt8)}, LaidOut cm columnSize col patches spans →
      ∀ patch ∈ patches.getLast?,
        patch.endIndex = col + requiredColumns (spans.map List.length) columnSize
  | _, [], _, _ => fun _ hpatch => by cases hpatch
  | col, [_], [bytes], ⟨_, hend, _, _⟩ => by
    intro patch hpatch
    rw [List.getLast?_singleton, Option.mem_some_iff] at hpatch
    subst hpatch
    rw [hend, requiredColumns, List.map_cons, List.map_cons, List.map_nil, List.map_nil,
      List.sum_cons, List.sum_nil, Nat.add_zero]
  | col, first :: second :: patches, bytes :: spans, ⟨_, hend, _, hrest⟩ => by
    intro patch hpatch
    rw [List.getLast?_cons_cons] at hpatch
    rw [LaidOut.getLast_endIndex hrest patch hpatch, hend, requiredColumns, requiredColumns,
      List.map_cons, List.map_cons, List.sum_cons, Nat.add_assoc]

/-- The bytes of a layout end by the end of their patch's columns. -/
theorem end_le_of_laidOut {col : Nat} {bytes : List UInt8} (hcolumnSize : 0 < columnSize) :
    col * columnSize + bytes.length ≤ (col + divCeil bytes.length columnSize) * columnSize := by
  have hcover := (le_mul_divCeil bytes.length hcolumnSize).1
  rw [Nat.add_mul, Nat.mul_comm (divCeil _ _)]
  omega

/-- The regions of a layout come one after the other, from the first byte of its first column
to the end of the columns it takes. -/
theorem LaidOut.regions_pairwise (hcolumnSize : 0 < columnSize) :
    ∀ {col : Nat} {patches : List QuiltPatchV1} {spans : List (List UInt8)},
      LaidOut cm columnSize col patches spans →
      (regions columnSize patches spans).Pairwise (fun r r' => r.2 ≤ r'.1) ∧
        ∀ r ∈ regions columnSize patches spans, col * columnSize ≤ r.1 ∧
          r.2 ≤ (col + requiredColumns (spans.map List.length) columnSize) * columnSize
  | _, [], [], _ => by simp [regions]
  | col, patch :: patches, bytes :: spans, ⟨hstart, hend, _, hrest⟩ => by
    obtain ⟨hpair, hbounds⟩ := LaidOut.regions_pairwise hcolumnSize hrest
    have hfirst : col * columnSize + bytes.length ≤
        (col + divCeil bytes.length columnSize) * columnSize := end_le_of_laidOut hcolumnSize
    rw [hend] at hbounds
    rw [regions, List.zipWith_cons_cons, List.pairwise_cons, List.map_cons, requiredColumns_cons]
    refine ⟨⟨fun r hr => ?_, hpair⟩, fun r hr => ?_⟩
    · rw [hstart]
      exact hfirst.trans (hbounds r hr).1
    · rcases List.mem_cons.mp hr with rfl | hr
      · rw [hstart]
        refine ⟨le_refl _, hfirst.trans (Nat.mul_le_mul_right _ ?_)⟩
        omega
      · obtain ⟨hlo, hhi⟩ := hbounds r hr
        refine ⟨le_trans (Nat.mul_le_mul_right _ (Nat.le_add_right _ _)) hlo, ?_⟩
        rwa [Nat.add_assoc] at hhi

/-- A layout is one of every order that agrees with its order on the columns it takes. -/
theorem LaidOut.of_rangeOf_eq {cm' : List UInt8} (hcolumnSize : 0 < columnSize) :
    ∀ {col : Nat} {patches : List QuiltPatchV1} {spans : List (List UInt8)},
      LaidOut cm columnSize col patches spans →
      (∀ x n, col * columnSize ≤ x →
        x + n ≤ (col + requiredColumns (spans.map List.length) columnSize) * columnSize →
          rangeOf cm' x (x + n) = rangeOf cm x (x + n)) →
      LaidOut cm' columnSize col patches spans
  | _, [], [], _, _ => trivial
  | col, patch :: patches, bytes :: spans, ⟨hstart, hend, hbytes, hrest⟩, hagree => by
    rw [List.map_cons, requiredColumns_cons, ← Nat.add_assoc] at hagree
    refine ⟨hstart, hend, ?_, LaidOut.of_rangeOf_eq hcolumnSize hrest fun x n hx hxn => ?_⟩
    · rw [hagree _ _ (le_refl _) ((end_le_of_laidOut hcolumnSize).trans
        (Nat.mul_le_mul_right _ (Nat.le_add_right _ _))), hbytes]
    · rw [hend] at hx hxn
      exact hagree x n ((Nat.mul_le_mul_right _ (Nat.le_add_right _ _)).trans hx) hxn

end Layout

/-! ## The writers of the encoder -/

namespace QuiltEncoderV1

/-- A blob whose size `serialized_blob_size` computes and whose header and extensions
`get_header_and_extension_bytes` writes takes as many bytes as they and its data: both count
the header, the identifier with its size, and the tags with theirs when there are any. -/
theorem serializedBlobSize_eq {blob : QuiltStoreBlob} {size : Nat} {prefixBytes : List UInt8}
    (hsize : serializedBlobSize blob = .ok size)
    (hheaderBytes : getHeaderAndExtensionBytes blob = .ok prefixBytes) :
    size = prefixBytes.length + blob.blob.length ∧ blobHeaderSize ≤ prefixBytes.length := by
  cases hid : strBytes blob.identifier with
  | error e =>
    simp [getHeaderAndExtensionBytes, hid, error_bind] at hheaderBytes
  | ok identifierBytes =>
    -- the identifier passed the size checks of both
    have hshort : identifierBytes.length < maxBlobIdentifierBytesLength := by
      by_contra hlong
      simp [serializedBlobSize, hid, Nat.le_of_not_lt hlong, throw, throwThe,
        MonadExceptOf.throw, bind, Except.bind] at hsize
    have hu16 : identifierBytes.length < 65536 := by
      unfold maxBlobIdentifierBytesLength blobIdentifierSizeBytesLength at hshort
      omega
    cases htags : blob.tags.isEmpty with
    | true =>
      simp [getHeaderAndExtensionBytes, serializedBlobSize, hid, htags, ok_bind, hu16,
        Nat.not_le_of_lt hshort, pure, Except.pure] at hheaderBytes hsize
      subst hheaderBytes hsize
      simp [BlobHeaderV1.asBytes, blobIdentifierSizeBytesLength, blobHeaderSize]
      omega
    | false =>
      cases htb : tagsBcsBytes blob.tags with
      | error e =>
        simp [getHeaderAndExtensionBytes, hid, htags, htb, hu16, bind, Except.bind] at hheaderBytes
      | ok tagsBytes =>
        have htshort : tagsBytes.length < 65536 := by
          by_contra hlong
          simp [getHeaderAndExtensionBytes, hid, htags, htb, hu16, hlong, throw, throwThe,
            MonadExceptOf.throw, bind, Except.bind] at hheaderBytes
        simp [getHeaderAndExtensionBytes, serializedBlobSize, hid, htags, htb, ok_bind, hu16,
          htshort, Nat.not_le_of_lt hshort, pure, Except.pure] at hheaderBytes hsize
        subst hheaderBytes hsize
        simp [BlobHeaderV1.asBytes, blobIdentifierSizeBytesLength, blobHeaderSize,
          tagsSizeBytesLength]
        omega

section Matrix

variable {nRows nColumns symbolSize : Nat}

/-- An `add_blob_to_quilt` of a blob into a matrix of `n_rows` rows and `n_columns` columns
that returns wrote the blob's header and extensions and then its data from the first byte of
column `current_col` on, and returns the columns they take. The column is inside the matrix, the
bytes end before the last symbol of the column past the last one, and where they end by the
last column the column-major order is overwritten with them. -/
theorem addBlobToQuilt_ok {data data' : List UInt8} {blob : QuiltStoreBlob}
    {currentCol colsNeeded : Nat} (hs : 0 < symbolSize) (hrows : 0 < nRows)
    (hlen : data.length = nRows * (nColumns * symbolSize))
    (hrun : addBlobToQuilt data blob false currentCol (symbolSize * nRows)
      (nColumns * symbolSize) symbolSize = .ok (data', colsNeeded)) :
    ∃ prefixBytes, getHeaderAndExtensionBytes blob = .ok prefixBytes ∧
      colsNeeded = divCeil (prefixBytes ++ blob.blob).length (symbolSize * nRows) ∧
      data'.length = data.length ∧ currentCol < nColumns ∧
      currentCol * (symbolSize * nRows) + (prefixBytes ++ blob.blob).length ≤
        symbolSize * (nColumns * nRows + (nRows - 1)) ∧
      (currentCol * (symbolSize * nRows) + (prefixBytes ++ blob.blob).length ≤
          nColumns * (symbolSize * nRows) →
        columnMajor data' (nColumns * symbolSize) symbolSize nRows nColumns =
          overwrite (columnMajor data (nColumns * symbolSize) symbolSize nRows nColumns)
            (currentCol * (symbolSize * nRows)) (prefixBytes ++ blob.blob)) := by
  have hcolumnSize : 0 < symbolSize * nRows := Nat.mul_pos hs hrows
  simp only [addBlobToQuilt, usizeRem_of_pos hs, Nat.mul_mod_right, ok_bind, if_true,
    Bool.not_false, pure_bind, usizeDivCeil_of_pos hcolumnSize] at hrun
  obtain ⟨prefixBytes, hheaderBytes, hrun⟩ := bind_eq_ok.mp hrun
  obtain ⟨data₁, hwrite₁, hrun⟩ := bind_eq_ok.mp hrun
  obtain ⟨data₂, hwrite₂, hret⟩ := bind_eq_ok.mp hrun
  cases hret
  -- the header and extensions from the first byte of the column, then the data after them
  obtain ⟨hlen₁, hstart₁, hend₁⟩ := writeBytesToColumns_ok hs hrows hlen hwrite₁
  obtain ⟨hlen₂, hstart₂, hend₂⟩ := writeBytesToColumns_ok hs hrows (hlen₁.trans hlen) hwrite₂
  have hcol : currentCol < nColumns := by
    rw [Nat.add_zero] at hstart₁
    exact Nat.lt_of_mul_lt_mul_right hstart₁
  refine ⟨prefixBytes, mapError_eq_ok.mp hheaderBytes, by rw [List.length_append], hlen₂.trans hlen₁,
    hcol, ?_, fun hfits => ?_⟩
  · -- the last write of some bytes ended before the symbol past the matrix's last
    have hmatrix : nColumns * (symbolSize * nRows) ≤
        symbolSize * (nColumns * nRows + (nRows - 1)) := by
      rw [Nat.mul_add, Nat.mul_left_comm]
      exact Nat.le_add_right _ _
    rw [List.length_append]
    by_cases hdata : blob.blob = []
    · by_cases hpre : prefixBytes = []
      · rw [hdata, hpre, List.length_nil]
        omega
      · have := hend₁ hpre
        rw [hdata, List.length_nil]
        omega
    · have := hend₂ hdata
      omega
  · -- both writes are inside the matrix, one after the other
    rw [List.length_append] at hfits
    obtain ⟨data₁', hwrite₁', -, hmajor₁⟩ := writeBytesToColumns_eq hs hrows hlen hstart₁
      (by omega : currentCol * (symbolSize * nRows) + 0 + prefixBytes.length ≤
        nColumns * (symbolSize * nRows))
    obtain ⟨data₂', hwrite₂', -, hmajor₂⟩ := writeBytesToColumns_eq hs hrows (hlen₁.trans hlen)
      hstart₂ (by omega : currentCol * (symbolSize * nRows) + prefixBytes.length +
        blob.blob.length ≤ nColumns * (symbolSize * nRows))
    rw [hwrite₁, Except.ok.injEq] at hwrite₁'
    rw [hwrite₂, Except.ok.injEq] at hwrite₂'
    subst hwrite₁' hwrite₂'
    rw [hmajor₂, hmajor₁, Nat.add_zero, overwrite_overwrite (by
      rw [length_columnMajor hlen, Nat.mul_left_comm]
      exact Nat.mul_le_mul_left _ (Nat.mul_le_mul_right _ hcol.le))]

/-- An `add_blob_to_quilt` of the index that returns kept the length of the data, and, where the
index ends by the last column, overwrote the column-major order with it from the first byte of
column `current_col` on. -/
theorem addBlobToQuilt_meta_ok {data data' : List UInt8} {blob : QuiltStoreBlob}
    {currentCol colsNeeded : Nat} (hs : 0 < symbolSize) (hrows : 0 < nRows)
    (hlen : data.length = nRows * (nColumns * symbolSize))
    (hrun : addBlobToQuilt data blob true currentCol (symbolSize * nRows)
      (nColumns * symbolSize) symbolSize = .ok (data', colsNeeded)) :
    data'.length = data.length ∧
      (currentCol * (symbolSize * nRows) + blob.blob.length ≤ nColumns * (symbolSize * nRows) →
        columnMajor data' (nColumns * symbolSize) symbolSize nRows nColumns =
          overwrite (columnMajor data (nColumns * symbolSize) symbolSize nRows nColumns)
            (currentCol * (symbolSize * nRows)) blob.blob) := by
  have hcolumnSize : 0 < symbolSize * nRows := Nat.mul_pos hs hrows
  simp only [addBlobToQuilt, usizeRem_of_pos hs, Nat.mul_mod_right, ok_bind, if_true,
    Bool.not_true, Bool.false_eq_true, if_false, pure_bind,
    usizeDivCeil_of_pos hcolumnSize] at hrun
  obtain ⟨data₁, hwrite, hret⟩ := bind_eq_ok.mp hrun
  cases hret
  obtain ⟨hlen₁, hstart, -⟩ := writeBytesToColumns_ok hs hrows hlen hwrite
  refine ⟨hlen₁, fun hfits => ?_⟩
  obtain ⟨data₁', hwrite', -, hmajor⟩ := writeBytesToColumns_eq hs hrows hlen hstart
    (by rwa [Nat.add_zero])
  rw [hwrite, Except.ok.injEq] at hwrite'
  subst hwrite'
  rw [hmajor, Nat.add_zero]

/-- A run of the placement loop from column `col` that returns wrote each blob as its header and
extensions and then its data (`spans`), and gave each patch the blob's columns; the bytes end
before the last symbol of the column past the last one. When they end by the last column, the
blobs are laid out from `col` on, and the order before `col` is left alone. -/
theorem placeBlobs_ok (hs : 0 < symbolSize) (hrows : 0 < nRows) :
    ∀ (pairs : List (QuiltStoreBlob × QuiltPatchV1)) (data data' : List UInt8) (col : Nat)
      (patches : List QuiltPatchV1),
      data.length = nRows * (nColumns * symbolSize) →
      placeBlobs (symbolSize * nRows) (nColumns * symbolSize) symbolSize data col pairs =
        .ok (data', patches) →
      ∃ spans : List (List UInt8),
        List.Forall₂ (fun pair bytes => ∃ prefixBytes,
          getHeaderAndExtensionBytes pair.1 = .ok prefixBytes ∧ bytes = prefixBytes ++ pair.1.blob)
          pairs spans ∧
        List.Forall₂ (fun pair patch => patch.identifier = pair.2.identifier ∧
          patch.tags = pair.2.tags) pairs patches ∧
        data'.length = data.length ∧
        (spans ≠ [] → col * (symbolSize * nRows) + (spans.map List.length).sum ≤
          symbolSize * (nColumns * nRows + (nRows - 1))) ∧
        (col + requiredColumns (spans.map List.length) (symbolSize * nRows) ≤ nColumns →
          LaidOut (columnMajor data' (nColumns * symbolSize) symbolSize nRows nColumns)
              (symbolSize * nRows) col patches spans ∧
            ∀ x n, x + n ≤ col * (symbolSize * nRows) →
              rangeOf (columnMajor data' (nColumns * symbolSize) symbolSize nRows nColumns) x
                  (x + n) =
                rangeOf (columnMajor data (nColumns * symbolSize) symbolSize nRows nColumns) x
                  (x + n)) := by
  have hcolumnSize : 0 < symbolSize * nRows := Nat.mul_pos hs hrows
  intro pairs
  induction pairs with
  | nil =>
    intro data data' col patches _ hrun
    cases hrun
    exact ⟨[], .nil, .nil, rfl, fun hne => absurd rfl hne, fun _ => ⟨trivial, fun _ _ _ => rfl⟩⟩
  | cons pair rest ih =>
    intro data data' col patches hlen hrun
    obtain ⟨blob, patch⟩ := pair
    rw [placeBlobs] at hrun
    obtain ⟨⟨data₁, colsNeeded⟩, hadd, hrun⟩ := bind_eq_ok.mp hrun
    dsimp only at hrun
    obtain ⟨-, hrun⟩ := ite_throw_bind_eq_ok.mp hrun
    obtain ⟨-, hrun⟩ := ite_throw_bind_eq_ok.mp hrun
    obtain ⟨⟨data₂, patches'⟩, hrec, hret⟩ := bind_eq_ok.mp hrun
    cases hret
    -- this blob, then the others from the column after its last
    obtain ⟨prefixBytes, hheaderBytes, hcols, hlen₁, -, hbound, hwritten⟩ :=
      addBlobToQuilt_ok hs hrows hlen hadd
    obtain ⟨spans, hspans, hpatches, hlen₂, hbounds, hlaidOut⟩ :=
      ih data₁ data₂ (col + colsNeeded) patches' (hlen₁.trans hlen) hrec
    have hend : col * (symbolSize * nRows) + (prefixBytes ++ blob.blob).length ≤
        (col + colsNeeded) * (symbolSize * nRows) := by
      rw [hcols]
      exact end_le_of_laidOut hcolumnSize
    refine ⟨(prefixBytes ++ blob.blob) :: spans, .cons ⟨prefixBytes, hheaderBytes, rfl⟩ hspans,
      .cons ⟨rfl, rfl⟩ hpatches, hlen₂.trans hlen₁, fun _ => ?_, fun hfits => ?_⟩
    · rw [List.map_cons, List.sum_cons]
      by_cases hnil : spans = []
      · rw [hnil, List.map_nil, List.sum_nil, Nat.add_zero]
        exact hbound
      · have := hbounds hnil
        omega
    · rw [List.map_cons, requiredColumns_cons, ← hcols, ← Nat.add_assoc] at hfits
      obtain ⟨hrest, hframe⟩ := hlaidOut hfits
      have hmatrix : (col + colsNeeded) * (symbolSize * nRows) ≤ nColumns * (symbolSize * nRows) :=
        Nat.mul_le_mul_right _ (by omega)
      have hmajor := hwritten (hend.trans hmatrix)
      have hinside : col * (symbolSize * nRows) ≤
          (columnMajor data (nColumns * symbolSize) symbolSize nRows nColumns).length := by
        rw [length_columnMajor hlen, Nat.mul_left_comm]
        exact Nat.mul_le_mul_left _ (Nat.mul_le_mul_right _ (by omega))
      refine ⟨⟨rfl, by rw [hcols]; rfl, ?_, hrest⟩, fun x n hx => ?_⟩
      · rw [hframe _ _ hend, hmajor, rangeOf_overwrite_self hinside]
      · rw [hframe x n (hx.trans (Nat.mul_le_mul_right _ (Nat.le_add_right _ _))), hmajor,
          rangeOf_overwrite_of_le hx hinside]

end Matrix

end QuiltEncoderV1

/-! ## The sorted blobs and their patches -/

theorem forall₂_of_zip {α β γ : Type} {R : α → β → Prop} {S : α × β → γ → Prop} :
    ∀ {as : List α} {bs : List β} {cs : List γ}, List.Forall₂ R as bs →
      List.Forall₂ S (as.zip bs) cs → List.Forall₂ (fun a c => ∃ b, R a b ∧ S (a, b) c) as cs
  | [], [], [], .nil, .nil => .nil
  | _ :: _, b :: _, _ :: _, .cons hab hrest, .cons hs hzip =>
    .cons ⟨b, hab, hs⟩ (forall₂_of_zip hrest hzip)

theorem QuiltPatchV1.newWithTags_ok {identifier : String} {tags : List (String × String)}
    {patch : QuiltPatchV1} (h : QuiltPatchV1.newWithTags identifier tags = .ok patch) :
    patch.identifier = identifier ∧ patch.tags = tags := by
  obtain ⟨_, -, h⟩ := bind_eq_ok.mp h
  cases h
  exact ⟨rfl, rfl⟩

namespace QuiltEncoderV1

/-- Blobs that pass the duplicate check have no two neighbours with one identifier. -/
theorem checkDuplicateIdentifiers_ok : ∀ {blobs : List QuiltStoreBlob},
    checkDuplicateIdentifiers blobs = .ok () →
      (blobs.map (·.identifier)).IsChain (· ≠ ·)
  | [], _ => .nil
  | [_], _ => .singleton _
  | first :: second :: rest, h => by
    rw [checkDuplicateIdentifiers] at h
    by_cases hsame : first.identifier = second.identifier
    · simp [hsame, throw, throwThe, MonadExceptOf.throw, bind, Except.bind] at h
    · simp only [hsame, if_false] at h
      have hrest := checkDuplicateIdentifiers_ok h
      rw [List.map_cons] at hrest
      exact .cons_cons hsame hrest

/-- The blobs as `construct_quilt` sorts them, once they pass the duplicate check, have strictly
increasing identifiers. -/
theorem identifiers_lt_of_checkDuplicateIdentifiers {blobs : List QuiltStoreBlob}
    (h : checkDuplicateIdentifiers
      (blobs.mergeSort fun a b => decide (a.identifier ≤ b.identifier)) = .ok ()) :
    ((blobs.mergeSort fun a b => decide (a.identifier ≤ b.identifier)).map (·.identifier)).Pairwise
      (· < ·) := by
  have hsorted : (blobs.mergeSort fun a b => decide (a.identifier ≤ b.identifier)).Pairwise
      fun a b => decide (a.identifier ≤ b.identifier) := List.pairwise_mergeSort
    (fun a b c hab hbc => by
      simp only [decide_eq_true_eq] at hab hbc ⊢
      exact le_trans hab hbc)
    (fun a b => by
      simp only [Bool.or_eq_true, decide_eq_true_eq]
      exact le_total _ _) blobs
  have hle : ((blobs.mergeSort fun a b => decide (a.identifier ≤ b.identifier)).map
      (·.identifier)).IsChain (· ≤ ·) :=
    (List.pairwise_map.mpr (hsorted.imp fun hab => by simpa using hab)).isChain
  have hne := checkDuplicateIdentifiers_ok h
  have hlt : ((blobs.mergeSort fun a b => decide (a.identifier ≤ b.identifier)).map
      (·.identifier)).IsChain (· < ·) :=
    List.isChain_iff_getElem.mpr fun i hi => lt_of_le_of_ne (hle.getElem i hi) (hne.getElem i hi)
  exact hlt.pairwise

/-- The sizes `serialized_blob_size` computes for blobs written as `spans` are the lengths of
the spans, each at least a header. -/
theorem sizes_eq_of_forall₂ : ∀ {blobs : List QuiltStoreBlob} {sizes : List Nat}
    {spans : List (List UInt8)},
    List.Forall₂ (fun blob size => serializedBlobSize blob = .ok size) blobs sizes →
    List.Forall₂ (fun blob bytes => ∃ prefixBytes,
      getHeaderAndExtensionBytes blob = .ok prefixBytes ∧ bytes = prefixBytes ++ blob.blob)
      blobs spans →
    sizes = spans.map List.length ∧ (∀ bytes ∈ spans, blobHeaderSize ≤ bytes.length) ∧
      List.Forall₂ (fun blob bytes => ∃ prefixBytes,
        getHeaderAndExtensionBytes blob = .ok prefixBytes ∧ bytes = prefixBytes ++ blob.blob ∧
          serializedBlobSize blob = .ok bytes.length) blobs spans
  | [], [], [], .nil, .nil => ⟨rfl, (fun _ hbytes => by cases hbytes), .nil⟩
  | _ :: _, _ :: _, _ :: _, .cons hsize hsizes, .cons hspan hspans => by
    obtain ⟨prefixBytes, hheaderBytes, hbytes⟩ := hspan
    obtain ⟨hrest, hheaders, hforall⟩ := sizes_eq_of_forall₂ hsizes hspans
    obtain ⟨hsizeEq, hheader⟩ := serializedBlobSize_eq hsize hheaderBytes
    subst hbytes
    refine ⟨by rw [hrest, List.map_cons, List.length_append, hsizeEq], fun bytes hmem => ?_,
      .cons ⟨prefixBytes, hheaderBytes, rfl, by rw [List.length_append, ← hsizeEq]; exact hsize⟩
        hforall⟩
    rcases List.mem_cons.mp hmem with rfl | hmem
    · rw [List.length_append]
      omega
    · exact hheaders bytes hmem

/-! ## The quilt `construct_quilt` returns -/

/-- Sizes that fit the matrix at a symbol size of the encoding sum to less than `2 ^ 63`: the
index takes at most ten columns and the blobs end before the column past the last is full. -/
theorem sizes_sum_lt {encodingType : Encoding.EncodingType} {first symbolSize nRows nColumns : Nat}
    {rest : List Nat} (hs : symbolSize ≤ encodingType.maxSymbolSize) (hrows : nRows ≤ u16Max)
    (hcols : nColumns ≤ u16Max)
    (hfirst : first ≤ symbolSize * nRows * maxNumSliversForQuiltIndex)
    (hrest : rest.sum ≤ symbolSize * (nColumns * nRows + (nRows - 1))) :
    (first :: rest).sum < 2 ^ 63 := by
  unfold Encoding.EncodingType.maxSymbolSize u16Max at hs
  unfold u16Max at hrows hcols
  have hcolumn : symbolSize * nRows ≤ 65534 * 65535 := Nat.mul_le_mul hs hrows
  have hmatrix : symbolSize * (nColumns * nRows + (nRows - 1)) ≤
      65534 * (65535 * 65535 + 65535) := by
    have hcells := Nat.mul_le_mul hcols hrows
    exact Nat.mul_le_mul hs (by omega)
  rw [List.sum_cons]
  unfold maxNumSliversForQuiltIndex at hfirst
  omega

/-- The quilt `construct_quilt` returns holds its index and its blobs, laid out. For a matrix
of `n_rows` rows and `n_columns` columns, and the blobs as it sorts them:
* the patches are the blobs', sorted strictly by identifier;
* the index (its version byte, its size and its BCS) is written from the first byte of column
  `0` on, and the first patch starts at the columns it takes, at most ten;
* each blob is written as its header and extensions and then its data, as many bytes as
  `serialized_blob_size` counts, laid out (`LaidOut`) from the first patch's column on: each
  patch starts before it ends and where the one before it ends, and the last ends by the last
  column;
* the regions of the index and of the blobs come one after the other and end inside the data. -/
theorem construct_quilt_layout {encoder : QuiltEncoderV1} {quilt : QuiltV1} {nRows nColumns : Nat}
    (hrows : (encoder.config.nSourceSymbols .primary).get = nRows)
    (hcols : (encoder.config.nSourceSymbols .secondary).get = nColumns)
    (h : encoder.constructQuilt = .ok quilt) :
    ∃ (blobs : List QuiltStoreBlob) (patches : List QuiltPatchV1) (serializedIndex : List UInt8)
      (spans : List (List UInt8)),
      blobs.Perm encoder.blobs ∧ quilt.quiltIndex = some ⟨patches⟩ ∧
      List.Forall₂ (fun blob patch => patch.identifier = blob.identifier ∧ patch.tags = blob.tags)
        blobs patches ∧
      (patches.map (·.identifier)).Pairwise (· < ·) ∧
      QuiltIndexV1.bcsBytes ⟨patches⟩ = .ok serializedIndex ∧
      rangeOf (columnMajor quilt.data quilt.rowSize quilt.symbolSize nRows nColumns) 0
          (quiltIndexPrefixSize + serializedIndex.length) =
        quiltVersionByte :: leBytes 4 serializedIndex.length ++ serializedIndex ∧
      (∀ patch ∈ patches.head?, patch.startIndex =
          divCeil (quiltIndexPrefixSize + serializedIndex.length) (quilt.symbolSize * nRows) ∧
        patch.startIndex ≤ maxNumSliversForQuiltIndex) ∧
      List.Forall₂ (fun blob bytes => ∃ prefixBytes,
        getHeaderAndExtensionBytes blob = .ok prefixBytes ∧ bytes = prefixBytes ++ blob.blob ∧
          serializedBlobSize blob = .ok bytes.length) blobs spans ∧
      LaidOut (columnMajor quilt.data quilt.rowSize quilt.symbolSize nRows nColumns)
        (quilt.symbolSize * nRows)
        (divCeil (quiltIndexPrefixSize + serializedIndex.length) (quilt.symbolSize * nRows))
        patches spans ∧
      (∀ patch ∈ patches, patch.startIndex < patch.endIndex) ∧
      patches.IsChain (fun patch next => patch.endIndex = next.startIndex) ∧
      (∀ patch ∈ patches.getLast?, patch.endIndex ≤ nColumns) ∧
      ((0, quiltIndexPrefixSize + serializedIndex.length) ::
          regions (quilt.symbolSize * nRows) patches spans).Pairwise (fun r r' => r.2 ≤ r'.1) ∧
      ∀ r ∈ (0, quiltIndexPrefixSize + serializedIndex.length) ::
          regions (quilt.symbolSize * nRows) patches spans, r.2 ≤ quilt.data.length := by
  -- each step of `construct_quilt` returned
  simp only [constructQuilt, bind_eq_ok, ite_throw_bind_eq_ok] at h
  obtain ⟨⟨⟩, hdup, quiltPatches, hpatches, serializedIndexSize, -, -, allSizes, hsizes,
    symbolSize, hsymbol, indexColsNeeded, hindexCols, hten, ⟨data₁, patches⟩, hplace,
    serializedIndex, hindex, hmetaLen, metaBlob, hmeta, ⟨data₂, _⟩, hadd, h⟩ := h
  cases h
  simp only [hrows, hcols] at hsymbol hindexCols hplace hadd ⊢
  -- the shape of the matrix
  have hnRows : 0 < nRows := hrows ▸ (encoder.config.nSourceSymbols .primary).pos
  have hnRowsMax : nRows ≤ u16Max := hrows ▸ (encoder.config.nSourceSymbols .primary).le_max
  have hnColumnsMax : nColumns ≤ u16Max := hcols ▸ (encoder.config.nSourceSymbols .secondary).le_max
  have hs : 0 < symbolSize := by
    rcases Nat.eq_zero_or_pos symbolSize with h0 | h0
    · rw [h0, Nat.zero_mul] at hindexCols
      simp [usizeDivCeil, throw, throwThe, MonadExceptOf.throw] at hindexCols
    · exact h0
  have hcs : 0 < symbolSize * nRows := Nat.mul_pos hs hnRows
  rw [usizeDivCeil_of_pos hcs, Except.ok.injEq] at hindexCols
  subst hindexCols
  have hmax := (computeSymbolSize_ok hsymbol).1
  -- the index bytes: the version byte, the size of the index and the index
  have hserialized : serializedIndexSize = serializedIndex.length := by
    simp only [List.length_cons, List.length_append, length_leBytes, quiltIndexPrefixSize_eq]
      at hmetaLen
    omega
  subst hserialized
  rw [quiltIndexPrefixSize_eq] at *
  -- the sorted blobs, their patches and their sizes
  set blobs := encoder.blobs.mergeSort fun a b => decide (a.identifier ≤ b.identifier)
    with hblobs
  have hpatchesOk := mapM_eq_ok_iff.mp (mapError_eq_ok.mp hpatches)
  have hsizesOk := mapM_eq_ok_iff.mp (mapError_eq_ok.mp hsizes)
  -- the blobs placed from the columns the index takes on
  rw [Nat.mul_comm symbolSize nColumns] at hplace hadd ⊢
  have hdata : (List.replicate (nColumns * symbolSize * nRows) (0 : UInt8)).length =
      nRows * (nColumns * symbolSize) := by
    rw [List.length_replicate, Nat.mul_comm]
  obtain ⟨spans, hspans, hpatchIds, hlen₁, hbound, hlaidOut⟩ :=
    placeBlobs_ok hs hnRows _ _ _ _ _ hdata hplace
  have hblobSpans : List.Forall₂ (fun blob bytes => ∃ prefixBytes,
      getHeaderAndExtensionBytes blob = .ok prefixBytes ∧ bytes = prefixBytes ++ blob.blob)
      blobs spans :=
    (forall₂_of_zip hpatchesOk hspans).imp fun _ _ hpair => by
      obtain ⟨_, -, hbytes⟩ := hpair
      exact hbytes
  obtain ⟨hallSizes, hheaders, hblobBytes⟩ := sizes_eq_of_forall₂ hsizesOk hblobSpans
  subst hallSizes
  -- the sizes were computed without wrapping: the index takes at most ten columns, and the
  -- blobs end before the last symbol of the column past the last
  have hindexLe : 5 + serializedIndex.length ≤ symbolSize * nRows * maxNumSliversForQuiltIndex :=
    (divCeil_le_iff hcs).mp hten
  have hsum : ((5 + serializedIndex.length) :: spans.map List.length).sum < 2 ^ 63 := by
    refine sizes_sum_lt hmax hnRowsMax hnColumnsMax hindexLe ?_
    by_cases hnil : spans = []
    · simp [hnil]
    · exact le_trans (Nat.le_add_left _ _) (hbound hnil)
  have hfits := fits_of_computeSymbolSize_ok encoder.config.encodingType
    (by rw [quiltIndexPrefixSize_eq]; omega) hnRows (by decide) hsum hnColumnsMax hnRowsMax
    (by decide) hsymbol
  have hcolumns := hfits.1
  rw [requiredColumns_cons] at hcolumns
  obtain ⟨hlaid, -⟩ := hlaidOut hcolumns
  -- the index written over the first byte of its first column on, before the blobs
  have hmetaBlob : metaBlob.blob = quiltVersionByte :: leBytes 4 serializedIndex.length ++
      serializedIndex := by
    obtain ⟨_, -, hret⟩ := bind_eq_ok.mp (mapError_eq_ok.mp hmeta)
    cases hret
    rfl
  have hcover := (le_mul_divCeil (5 + serializedIndex.length) hcs).1
  have hfirstCol : 5 + serializedIndex.length ≤
      divCeil (5 + serializedIndex.length) (symbolSize * nRows) * (symbolSize * nRows) := by
    rwa [Nat.mul_comm] at hcover
  have hlast : (divCeil (5 + serializedIndex.length) (symbolSize * nRows) +
      requiredColumns (spans.map List.length) (symbolSize * nRows)) * (symbolSize * nRows) ≤
        (columnMajor data₁ (nColumns * symbolSize) symbolSize nRows nColumns).length := by
    rw [length_columnMajor (hlen₁.trans hdata)]
    calc _ ≤ nColumns * (symbolSize * nRows) := Nat.mul_le_mul_right _ hcolumns
      _ = symbolSize * (nColumns * nRows) := by ring
  obtain ⟨hlen₂, hwritten⟩ := addBlobToQuilt_meta_ok hs hnRows (hlen₁.trans hdata) hadd
  have hmetaLength : metaBlob.blob.length = 5 + serializedIndex.length := by
    rw [hmetaBlob]
    exact hmetaLen
  have hinside : divCeil (5 + serializedIndex.length) (symbolSize * nRows) * (symbolSize * nRows) ≤
      nColumns * (symbolSize * nRows) :=
    Nat.mul_le_mul_right _ (le_trans (Nat.le_add_right _ _) hcolumns)
  have hmajor := hwritten (by
    rw [Nat.zero_mul, Nat.zero_add, hmetaLength]
    exact hfirstCol.trans hinside)
  rw [Nat.zero_mul] at hmajor
  -- the blobs stay laid out: the index ends before their first column
  have hlaid₂ : LaidOut (columnMajor data₂ (nColumns * symbolSize) symbolSize nRows nColumns)
      (symbolSize * nRows) (divCeil (5 + serializedIndex.length) (symbolSize * nRows))
      patches spans :=
    hlaid.of_rangeOf_eq hcs fun x n hx _ => by
      rw [hmajor]
      exact rangeOf_overwrite_of_ge (by rw [Nat.zero_add, hmetaLength]; exact hfirstCol.trans hx)
        (Nat.zero_le _)
  obtain ⟨hpairwise, hbounds⟩ := hlaid₂.regions_pairwise hcs
  -- the patches are the sorted blobs'
  have hpatchesBlobs : List.Forall₂ (fun blob patch => patch.identifier = blob.identifier ∧
      patch.tags = blob.tags) blobs patches :=
    (forall₂_of_zip hpatchesOk hpatchIds).imp fun _ _ hpair => by
      obtain ⟨_, hnew, hid, htags⟩ := hpair
      obtain ⟨hid', htags'⟩ := QuiltPatchV1.newWithTags_ok hnew
      exact ⟨hid.trans hid', htags.trans htags'⟩
  have hids : patches.map (·.identifier) = blobs.map (·.identifier) := by
    rw [← List.forall₂_eq_eq_eq, List.forall₂_map_left_iff, List.forall₂_map_right_iff]
    exact hpatchesBlobs.flip.imp fun _ _ h => h.1
  have hdataLen : data₂.length = nColumns * (symbolSize * nRows) := by
    rw [hlen₂, hlen₁, hdata]
    ring
  refine ⟨blobs, patches, serializedIndex, spans, List.mergeSort_perm _ _, rfl, hpatchesBlobs,
    hids ▸ identifiers_lt_of_checkDuplicateIdentifiers (mapError_eq_ok.mp hdup),
    mapError_eq_ok.mp hindex, ?_, fun patch hpatch => ⟨hlaid₂.head_startIndex patch hpatch, ?_⟩,
    hblobBytes, hlaid₂, hlaid₂.startIndex_lt_endIndex hcs fun bytes hbytes => ?_, hlaid₂.isChain,
    fun patch hpatch => ?_, List.pairwise_cons.mpr ⟨fun r hr => ?_, hpairwise⟩, fun r hr => ?_⟩
  · -- the index reads back
    rw [hmajor, ← hmetaLength, ← hmetaBlob, ← Nat.zero_add metaBlob.blob.length]
    exact rangeOf_overwrite_self (Nat.zero_le _)
  · rw [hlaid₂.head_startIndex patch hpatch]
    exact hten
  · have := hheaders bytes hbytes
    unfold blobHeaderSize at this
    omega
  · rw [hlaid₂.getLast_endIndex patch hpatch]
    exact hcolumns
  · exact hfirstCol.trans (hbounds r hr).1
  · rw [hdataLen]
    rcases List.mem_cons.mp hr with rfl | hr
    · exact hfirstCol.trans hinside
    · exact (hbounds r hr).2.trans (Nat.mul_le_mul_right _ hcolumns)
/-- Two blobs given out of order, the second with a tag, in a matrix of two rows of three
columns: the index takes the first column of twelve bytes, each blob one more. -/
def encoderTwoBlobs : QuiltEncoderV1 :=
  ⟨[⟨[7, 8, 9], "b", [("k", "v")]⟩, ⟨[1, 2], "a", []⟩], configFourShards⟩

/-- The quilt of `encoderTwoBlobs`: symbols of ten bytes. -/
def quiltTwoBlobs : QuiltV1 :=
  ⟨[1, 15, 0, 0, 0, 2, 2, 0, 1, 97, 1, 6, 0, 0, 0, 0, 2, 0, 1, 97, 1, 14, 0, 0, 0, 1, 2, 0, 1, 98,
    0, 3, 0, 1, 98, 1, 1, 107, 1, 118, 1, 2, 0, 0, 0, 0, 0, 0, 0, 0, 5, 0, 1, 1, 107, 1, 118, 7, 8,
    9], 30, 10, some ⟨[⟨1, 2, "a", []⟩, ⟨2, 3, "b", [("k", "v")]⟩]⟩⟩

theorem construct_quilt_layout_two_blobs :
    (encoderTwoBlobs.config.nSourceSymbols .primary).get = 2 ∧
      (encoderTwoBlobs.config.nSourceSymbols .secondary).get = 3 ∧
      encoderTwoBlobs.constructQuilt = .ok quiltTwoBlobs ∧
    ∃ (blobs : List QuiltStoreBlob) (patches : List QuiltPatchV1) (serializedIndex : List UInt8)
      (spans : List (List UInt8)),
      blobs.Perm encoderTwoBlobs.blobs ∧ quiltTwoBlobs.quiltIndex = some ⟨patches⟩ ∧
      List.Forall₂ (fun blob patch => patch.identifier = blob.identifier ∧ patch.tags = blob.tags)
        blobs patches ∧
      (patches.map (·.identifier)).Pairwise (· < ·) ∧
      QuiltIndexV1.bcsBytes ⟨patches⟩ = .ok serializedIndex ∧
      rangeOf (columnMajor quiltTwoBlobs.data quiltTwoBlobs.rowSize quiltTwoBlobs.symbolSize 2 3) 0
          (quiltIndexPrefixSize + serializedIndex.length) =
        quiltVersionByte :: leBytes 4 serializedIndex.length ++ serializedIndex ∧
      (∀ patch ∈ patches.head?, patch.startIndex =
          divCeil (quiltIndexPrefixSize + serializedIndex.length) (quiltTwoBlobs.symbolSize * 2) ∧
        patch.startIndex ≤ maxNumSliversForQuiltIndex) ∧
      List.Forall₂ (fun blob bytes => ∃ prefixBytes,
        getHeaderAndExtensionBytes blob = .ok prefixBytes ∧ bytes = prefixBytes ++ blob.blob ∧
          serializedBlobSize blob = .ok bytes.length) blobs spans ∧
      LaidOut (columnMajor quiltTwoBlobs.data quiltTwoBlobs.rowSize quiltTwoBlobs.symbolSize 2 3)
        (quiltTwoBlobs.symbolSize * 2)
        (divCeil (quiltIndexPrefixSize + serializedIndex.length) (quiltTwoBlobs.symbolSize * 2))
        patches spans ∧
      (∀ patch ∈ patches, patch.startIndex < patch.endIndex) ∧
      patches.IsChain (fun patch next => patch.endIndex = next.startIndex) ∧
      (∀ patch ∈ patches.getLast?, patch.endIndex ≤ 3) ∧
      ((0, quiltIndexPrefixSize + serializedIndex.length) ::
          regions (quiltTwoBlobs.symbolSize * 2) patches spans).Pairwise (fun r r' => r.2 ≤ r'.1) ∧
      ∀ r ∈ (0, quiltIndexPrefixSize + serializedIndex.length) ::
          regions (quiltTwoBlobs.symbolSize * 2) patches spans, r.2 ≤ quiltTwoBlobs.data.length :=
  have hrun : encoderTwoBlobs.constructQuilt = .ok quiltTwoBlobs := by
    -- the kernel does not run `mergeSort`'s well-founded recursion: sort first
    have hsort : (encoderTwoBlobs.blobs.mergeSort fun a b => decide (a.identifier ≤ b.identifier)) =
        [⟨[1, 2], "a", []⟩, ⟨[7, 8, 9], "b", [("k", "v")]⟩] := by
      simp [encoderTwoBlobs, List.mergeSort]
    rw [constructQuilt, hsort]
    decide +kernel
  ⟨rfl, rfl, hrun, construct_quilt_layout rfl rfl hrun⟩

end QuiltEncoderV1

end Walrus.Quilt
