import Walrus.Encoding.BasicEncoding
import Walrus.Core.Metadata

/-! # Encoding a blob

`BlobEncoder` (`blob_encoding.rs`) lays a blob out on the message matrix of `n_rows` by
`n_columns` symbols, row after row, padded with zeros. Encoding every column on the primary
axis and every row on the secondary axis gives the expanded matrix of `n_shards` by `n_shards`
symbols. The primary sliver `i` is row `i` cut to its first `n_columns` symbols, the secondary
sliver `j` is column `j` cut to its first `n_rows` symbols, and sliver pair `i` holds primary
sliver `i` and secondary sliver `n_shards - 1 - i`.

Two paths compute the sliver pairs. `encode` fills the slivers from the blob and encodes only
what they hold. `encode_with_metadata` builds the whole expanded matrix
(`ExpandedMessageMatrix`), takes the metadata from it, drops the symbols that no sliver holds
and reads the slivers out of what is left; `compute_metadata` builds the matrix for the
metadata alone.

Translation notes.
* A loop over `iter_mut().zip(..)` is `Slice.zipModifyM`, which stops where the shorter side
  ends. `expanded_column_symbols` is lazy: the rows of a column are indexed inside the loop that
  writes a secondary sliver (`expandedColumnSymbol`), so rows past the end of that loop are
  never read.
* A panic is `Except.error` with Rust's message; an `expect` on an encoding result panics with
  its own message, without the error's `Debug` text.
* The tracing span is not modelled.
-/

namespace Walrus.Encoding

open Machine Merkle

/-- `BlobEncoder`. -/
structure BlobEncoder where
  blob : List UInt8
  symbolSize : NonZeroU16
  nRows : Nat
  nColumns : Nat
  config : ReedSolomonEncodingConfig

namespace BlobEncoder

/-- `BlobEncoder::new`: the symbol size at which the message matrix holds the blob. -/
def new (config : ReedSolomonEncodingConfig) (blob : List UInt8) :
    Except String (Except DataTooLargeError BlobEncoder) := do
  let symbolSize ← computeSymbolSizeFromUsize blob.length config.sourceSymbolsPerBlob
    config.encodingType.requiredAlignment
  pure <| symbolSize.map fun symbolSize =>
    ⟨blob, symbolSize, (config.nSourceSymbols .primary).get,
      (config.nSourceSymbols .secondary).get, config⟩

/-- `symbol_usize`. -/
def symbolUsize (self : BlobEncoder) : Nat := self.symbolSize.get

/-- `symbol_at`: the bytes of the blob at the symbol `(row_index, col_index)` of the message
matrix, shorter than a symbol where the blob ends. -/
def symbolAt (self : BlobEncoder) (rowIndex colIndex : Nat) : List UInt8 :=
  let startIndex :=
    min (self.symbolUsize * (self.nColumns * rowIndex + colIndex)) self.blob.length
  let endIndex := min (startIndex + self.symbolUsize) self.blob.length
  Slice.rangeOf self.blob startIndex endIndex

/-- `column_symbols`: the columns of the message matrix, each a list of its symbols. -/
def columnSymbols (self : BlobEncoder) : List (List (List UInt8)) :=
  (List.range self.nColumns).map fun colIndex =>
    (List.range self.nRows).map fun rowIndex => self.symbolAt rowIndex colIndex

/-- `rows`: the rows of the message matrix. -/
def rows (self : BlobEncoder) : List (List UInt8) :=
  Slice.chunks (self.nColumns * self.symbolUsize) self.blob

/-- `empty_slivers::<T>`: a sliver of zeros for every shard. -/
def emptySlivers (self : BlobEncoder) (axis : EncodingAxis) : List (SliverData axis) :=
  (List.range self.config.nShards.get).map fun i =>
    SliverData.newEmpty (self.config.nSourceSymbols axis.orthogonal).get self.symbolSize i

/-- `empty_sliver_pairs`. -/
def emptySliverPairs (self : BlobEncoder) : List SliverPair :=
  (List.range self.config.nShards.get).map fun i =>
    SliverPair.newEmpty self.config self.symbolSize i

/-- `encode`. -/
def encode (self : BlobEncoder) (lib : ReedSolomonSimd) : Except String (List SliverPair) := do
  let primarySlivers := self.emptySlivers .primary
  let secondarySlivers := self.emptySlivers .secondary
  -- The first `n_rows` primary slivers and the last `n_columns` secondary slivers can be
  -- directly copied from the blob.
  let primarySlivers ← Slice.zipModifyM (fun sliver row => do
      let symbols ← sliver.symbols.copyDataFromSlice 0 row.length row
      pure { sliver with symbols }) primarySlivers self.rows
  let secondarySlivers ← Slice.zipModifyM (fun sliver column => do
      let symbols ← sliver.symbols.zipSymbolsMut column fun dest src =>
        Slice.copyFromSlice dest 0 src.length src
      pure { sliver with symbols }) secondarySlivers self.columnSymbols
  -- Compute the remaining primary slivers by encoding the columns (i.e., secondary slivers).
  let primarySlivers ← (secondarySlivers.take self.nColumns).zipIdx.foldlM
    (fun primarySlivers (column, colIndex) => do
      let symbols ← self.config.expectRepairSymbols lib .primary column.symbols.data
      let repaired ← Slice.zipModifyM (fun sliver symbol => sliver.copySymbolTo colIndex symbol)
        (primarySlivers.drop self.nRows) symbols
      pure (primarySlivers.take self.nRows ++ repaired)) primarySlivers
  -- Compute the remaining secondary slivers by encoding the rows (i.e., primary slivers).
  let secondarySlivers ← (primarySlivers.take self.nRows).zipIdx.foldlM
    (fun secondarySlivers (row, r) => do
      let symbols ← self.config.expectRepairSymbols lib .secondary row.symbols.data
      let repaired ← Slice.zipModifyM (fun sliver symbol => sliver.copySymbolTo r symbol)
        (secondarySlivers.drop self.nColumns) symbols
      pure (secondarySlivers.take self.nColumns ++ repaired)) secondarySlivers
  pure ((primarySlivers.zip secondarySlivers.reverse).map fun (primary, secondary) =>
    ⟨primary, secondary⟩)

end BlobEncoder

/-- `ExpandedMessageMatrix`: the rows of the matrix, and the blob and sizes it came from. -/
structure ExpandedMessageMatrix where
  matrix : List Symbols
  blob : List UInt8
  config : ReedSolomonEncodingConfig
  nRows : Nat
  nColumns : Nat
  symbolSize : NonZeroU16

namespace ExpandedMessageMatrix

/-- `fill_systematic_with_rows`: the rows of the blob into the first rows of the matrix. -/
def fillSystematicWithRows (self : ExpandedMessageMatrix) : Except String ExpandedMessageMatrix := do
  let matrix ← Slice.zipModifyM
    (fun destinationRow row => destinationRow.copyDataFromSlice 0 row.length row)
    self.matrix (Slice.chunks (self.nColumns * self.symbolSize.get) self.blob)
  pure { self with matrix }

/-- `expand_rows_for_secondary`: the repair symbols of the first `n_rows` rows after their
source symbols. -/
def expandRowsForSecondary (self : ExpandedMessageMatrix) (lib : ReedSolomonSimd) :
    Except String ExpandedMessageMatrix := do
  let expanded ← (self.matrix.take self.nRows).mapM fun row => do
    let source ← row.indexRange 0 self.nColumns
    let symbols ← self.config.expectRepairSymbols lib .secondary source
    symbols.zipIdx.foldlM (fun row (symbol, colIndex) =>
      row.copySymbolFromSlice (self.nColumns + colIndex) symbol) row
  pure { self with matrix := expanded ++ self.matrix.drop self.nRows }

/-- `expand_all_columns`: the repair symbols of every column below its first `n_rows`
symbols. -/
def expandAllColumns (self : ExpandedMessageMatrix) (lib : ReedSolomonSimd) :
    Except String ExpandedMessageMatrix :=
  (List.range self.config.nShards.get).foldlM (fun self colIndex => do
      let column ← (self.matrix.take self.nRows).foldlM (fun column row => do
          let symbol ← row.index colIndex
          -- `let _ = column.extend(..)`: an error is dropped
          pure (match column.extend symbol with
            | .ok column => column
            | .error _ => column))
        (Symbols.withCapacity self.nRows self.symbolSize)
      let symbols ← self.config.expectRepairSymbols lib .primary column.data
      let matrix ← symbols.zipIdx.foldlM (fun matrix (symbol, rowIndex) => do
          let row ← Slice.get matrix (self.nRows + rowIndex)
          let row ← row.copySymbolFromSlice colIndex symbol
          pure (matrix.set (self.nRows + rowIndex) row)) self.matrix
      pure { self with matrix }) self

/-- `ExpandedMessageMatrix::new`: a matrix of zeros, filled with the blob, then its rows and
its columns expanded. -/
def new (lib : ReedSolomonSimd) (config : ReedSolomonEncodingConfig) (symbolSize : NonZeroU16)
    (blob : List UInt8) : Except String ExpandedMessageMatrix := do
  let matrix := List.replicate config.nShards.get (Symbols.zeros config.nShards.get symbolSize)
  let expandedMatrix : ExpandedMessageMatrix := ⟨matrix, blob, config,
    (config.nSourceSymbols .primary).get, (config.nSourceSymbols .secondary).get, symbolSize⟩
  let expandedMatrix ← expandedMatrix.fillSystematicWithRows
  let expandedMatrix ← expandedMatrix.expandRowsForSecondary lib
  expandedMatrix.expandAllColumns lib

/-- The symbol of `row` that `expanded_column_symbols` yields for the column `col_index`: the
columns come in reverse order, `n_shards - col_index - 1`. -/
def expandedColumnSymbol (self : ExpandedMessageMatrix) (colIndex : Nat) (row : Symbols) :
    Except String (List UInt8) :=
  match SliverPairIndex.tryFrom colIndex with
  | none => .error "size has already been checked"
  | some pairIndex => row.index (SliverPairIndex.toSliverIndex .secondary self.config.nShards pairIndex)

/-- `get_metadata`: the Merkle roots over every row and every column, the columns in reverse
order, and the blob ID of those roots. -/
def getMetadata (self : ExpandedMessageMatrix) (blake2b256 : List UInt8 → Vector UInt8 32) :
    Except String VerifiedBlobMetadataWithId := do
  let H := merkleHash blake2b256
  let nShards := self.config.nShards.get
  let leafHashRows ← (List.range nShards).mapM fun row =>
    (List.range nShards).mapM fun col => do
      let symbols ← Slice.get self.matrix row
      let symbol ← symbols.index col
      pure (leafHash H symbol)
  let leafHashes := leafHashRows.flatten
  let metadata ← (List.range nShards).mapM fun sliverIndex => do
    let primaryLeaves ← Slice.range leafHashes (nShards * sliverIndex) (nShards * (sliverIndex + 1))
    let secondaryLeaves ← (List.range nShards).mapM fun symbolIndex =>
      Slice.get leafHashes (nShards * symbolIndex + nShards - 1 - sliverIndex)
    pure (⟨(MerkleTree.buildFromLeafHashes H primaryLeaves).root,
      (MerkleTree.buildFromLeafHashes H secondaryLeaves).root⟩ : SliverPairMetadata)
  if self.blob.length ≤ u64Max then
    pure (VerifiedBlobMetadataWithId.newVerifiedFromMetadata blake2b256 metadata
      self.config.encodingType (UInt64.ofNat self.blob.length))
  else throw "any valid blob size fits into a u64"

/-- `drop_recovery_symbols`: the rows below the first `n_rows` cut to `n_columns` symbols. -/
def dropRecoverySymbols (self : ExpandedMessageMatrix) : ExpandedMessageMatrix :=
  { self with matrix := self.matrix.take self.nRows ++
      (self.matrix.drop self.nRows).map fun row => row.truncate self.nColumns }

/-- `write_secondary_slivers`: the secondary sliver of pair `i` is column `n_shards - 1 - i`. -/
def writeSecondarySlivers (self : ExpandedMessageMatrix) (sliverPairs : List SliverPair) :
    Except String (List SliverPair) :=
  Slice.zipModifyM (fun sliverPair colIndex => do
      let symbols ← sliverPair.secondary.symbols.zipSymbolsMut self.matrix fun targetSlice row => do
        let symbol ← self.expandedColumnSymbol colIndex row
        Slice.copyFromSlice targetSlice 0 targetSlice.length symbol
      pure { sliverPair with secondary := { sliverPair.secondary with symbols } })
    sliverPairs (List.range self.matrix.length)

/-- `write_primary_slivers`: the primary sliver of pair `i` is row `i`, cut to its source
symbols. -/
def writePrimarySlivers (self : ExpandedMessageMatrix) (sliverPairs : List SliverPair) :
    List SliverPair :=
  List.zipWith (fun sliverPair row => { sliverPair with primary :=
      { sliverPair.primary with symbols := row.truncate self.config.sourceSymbolsSecondary.get } })
    sliverPairs self.matrix ++ sliverPairs.drop self.matrix.length

end ExpandedMessageMatrix

namespace BlobEncoder

/-- `get_expanded_matrix`. -/
def getExpandedMatrix (self : BlobEncoder) (lib : ReedSolomonSimd) :
    Except String ExpandedMessageMatrix :=
  ExpandedMessageMatrix.new lib self.config self.symbolSize self.blob

/-- `encode_with_metadata`. -/
def encodeWithMetadata (self : BlobEncoder) (lib : ReedSolomonSimd)
    (blake2b256 : List UInt8 → Vector UInt8 32) :
    Except String (List SliverPair × VerifiedBlobMetadataWithId) := do
  let expandedMatrix ← self.getExpandedMatrix lib
  let metadata ← expandedMatrix.getMetadata blake2b256
  -- This is just an optimization to free memory that is no longer needed at this point.
  let expandedMatrix := expandedMatrix.dropRecoverySymbols
  let sliverPairs := self.emptySliverPairs
  -- First compute the secondary slivers -- does not require consuming the matrix.
  let sliverPairs ← expandedMatrix.writeSecondarySlivers sliverPairs
  -- Then consume the matrix to get the primary slivers.
  let sliverPairs := expandedMatrix.writePrimarySlivers sliverPairs
  pure (sliverPairs, metadata)

/-- `compute_metadata`. -/
def computeMetadata (self : BlobEncoder) (lib : ReedSolomonSimd)
    (blake2b256 : List UInt8 → Vector UInt8 32) : Except String VerifiedBlobMetadataWithId := do
  let expandedMatrix ← self.getExpandedMatrix lib
  expandedMatrix.getMetadata blake2b256

end BlobEncoder

end Walrus.Encoding
