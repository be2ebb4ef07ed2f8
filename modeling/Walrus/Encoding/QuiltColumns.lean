import Walrus.Encoding.QuiltUtils
import Walrus.Encoding.ExpandedMatrix
import Walrus.Machine.Slice

/-! # The columns of a quilt (`encoding/quilt_encoding.rs`)

A quilt is a message matrix of `n_rows` rows and `n_columns` columns of symbols of
`symbol_size` bytes, held row after row in `data`, `row_size = n_columns * symbol_size` bytes a
row. A blob takes consecutive columns and its bytes run down each column, symbol after symbol:
the column-major order of the matrix (`columnMajor`). Three loops walk that order.

* `QuiltV1::range_read_from_columns` reads the row-major `data` symbol by symbol, the first from
  an offset, moving to the next row and after the last row to the next column.
* `QuiltDecoderV1::range_read_from_columns` reads whole columns, the secondary slivers of the
  encoded quilt, one after the other.
* `QuiltEncoderV1::write_bytes_to_columns` writes bytes symbol by symbol in the order of the
  first reader.

`readCells_eq`, `readSlivers_eq` and `writeCells_eq` give a whole run of each loop: a read
returns a range of the column-major order, a write overwrites one. The secondary sliver
`j < n_columns` of the encoded quilt is column `j` (`secondarySliver_data`), so both readers
return the same range, and a read after a write returns what was written. An empty read at
`start_col = n_columns` reads no column, but the decoder checks that sliver `n_columns` is there:
the first repair column, which an encoded quilt has.

Translation notes.
* The loops run on fuel. A round of a read or a write takes at least one byte, so one round
  more than there are bytes is enough, which the lemmas show by computing the whole run.
* The `usize` products of indices are exact: they stay below the length of the data.
* `QuiltDecoderV1` keeps its slivers in a `HashMap` by index. The model keeps them in the order
  they were added and looks up the last one of an index, the one the map holds. `new` takes the
  column size from the first sliver, where the code takes the first value the map yields.
-/

namespace Walrus.Quilt

open Machine Slice
open Walrus.Encoding (SliverData BlobEncoder ReedSolomonEncodingConfig paddedSymbolSize_mul
  nonZeroU16)

/-- `usize` division, which panics on a zero divisor. -/
def usizeDiv (a b : Nat) : Except QuiltFailure Nat :=
  if b = 0 then throw (.panic "attempt to divide by zero") else pure (a / b)

/-- `usize` remainder, which panics on a zero divisor. -/
def usizeRem (a b : Nat) : Except QuiltFailure Nat :=
  if b = 0 then throw (.panic "attempt to calculate the remainder with a divisor of zero")
  else pure (a % b)

/-- A slice operation of `Machine.Slice`, whose error is a panic. -/
def slicePanic {α : Type} (x : Except String α) : Except QuiltFailure α :=
  x.mapError .panic

theorem usizeDiv_of_pos {a b : Nat} (hb : 0 < b) : usizeDiv a b = .ok (a / b) := by
  simp [usizeDiv, Nat.pos_iff_ne_zero.mp hb, pure, Except.pure]

theorem usizeRem_of_pos {a b : Nat} (hb : 0 < b) : usizeRem a b = .ok (a % b) := by
  simp [usizeRem, Nat.pos_iff_ne_zero.mp hb, pure, Except.pure]

theorem slicePanic_ok {α : Type} {a : α} : slicePanic (.ok a) = .ok a := rfl

/-! ## Quilts and their index (`metadata.rs`) -/

/-- `QuiltPatchV1`: a blob of the quilt, in the columns from `start_index` to below
`end_index`, with its identifier and tags. -/
structure QuiltPatchV1 where
  startIndex : Nat
  endIndex : Nat
  identifier : String
  tags : List (String × String)
deriving DecidableEq, Repr

/-- `QuiltIndexV1`. -/
structure QuiltIndexV1 where
  quiltPatches : List QuiltPatchV1
deriving DecidableEq, Repr

/-- `QuiltV1`: the data of the matrix row after row, the size of a row and of a symbol, and the
index once decoded. -/
structure QuiltV1 where
  data : List UInt8
  rowSize : Nat
  symbolSize : Nat
  quiltIndex : Option QuiltIndexV1
deriving DecidableEq, Repr

/-- `QuiltDecoderV1`: the secondary slivers added, in the order they were added, the index once
decoded, and the size of a column. -/
structure QuiltDecoderV1 where
  slivers : List (SliverData .secondary)
  quiltIndex : Option QuiltIndexV1
  columnSize : Option Nat

/-! ## The column-major order -/

/-- The symbol in column `col` and row `row` of a matrix held row after row in `data`. -/
def symbolAt (data : List UInt8) (rowSize symbolSize col row : Nat) : List UInt8 :=
  rangeOf data (row * rowSize + col * symbolSize) (row * rowSize + col * symbolSize + symbolSize)

/-- The symbols of the matrix in column-major order: column `0` from the first row down, then
column `1`, and so on. -/
def columnSymbols (data : List UInt8) (rowSize symbolSize nRows nColumns : Nat) :
    List (List UInt8) :=
  (List.range (nColumns * nRows)).map fun k =>
    symbolAt data rowSize symbolSize (k / nRows) (k % nRows)

/-- The bytes of the matrix in column-major order. -/
def columnMajor (data : List UInt8) (rowSize symbolSize nRows nColumns : Nat) : List UInt8 :=
  (columnSymbols data rowSize symbolSize nRows nColumns).flatten

/-! ## The reader of a `QuiltV1` -/

namespace QuiltV1

/-- `get_slice` of `range_read_from_columns`: the bytes of the symbol at `(col, row)` from
`skip` on, at most `limit` of them. -/
def getSlice (self : QuiltV1) (col row skip limit : Nat) : Except QuiltFailure (List UInt8) :=
  let baseIndex := row * self.rowSize + col * self.symbolSize
  let startIndex := baseIndex + skip
  let endIndex := min (min (baseIndex + self.symbolSize) (startIndex + limit)) self.data.length
  if startIndex ≥ self.data.length then
    throw (.err (.indexOutOfBounds startIndex self.data.length))
  else slicePanic (range self.data startIndex endIndex)

/-- The loop of `range_read_from_columns` from the symbol at `(col, row)`, for at most `fuel`
symbols. `advance_position` moves to the next row, and after the last row to the next
column. -/
def readCells (self : QuiltV1) (nRows : Nat) :
    Nat → Nat → Nat → Nat → Nat → Except QuiltFailure (List UInt8)
  | 0, _, _, _, _ => pure []
  | fuel + 1, col, row, bytesToSkip, bytesToReturn =>
    if bytesToReturn > 0 then do
      let slice ← self.getSlice col row bytesToSkip bytesToReturn
      let row' := (row + 1) % nRows
      let col' := if row' = 0 then col + 1 else col
      let rest ← self.readCells nRows fuel col' row' 0 (bytesToReturn - slice.length)
      pure (slice ++ rest)
    else pure []

/-- `QuiltColumnRangeReader::range_read_from_columns` of a `QuiltV1`. -/
def rangeReadFromColumns (self : QuiltV1) (startCol bytesToSkip bytesToReturn : Nat) :
    Except QuiltFailure (List UInt8) := do
  if self.symbolSize = 0 ∨ self.rowSize = 0 ∨ self.data.isEmpty then
    throw (.err (.other "empty quilt data"))
  let nRows := self.data.length / self.rowSize
  let symbolsToSkip := bytesToSkip / self.symbolSize
  let currentCol := startCol + (← usizeDiv symbolsToSkip nRows)
  let currentRow ← usizeRem symbolsToSkip nRows
  self.readCells nRows (bytesToReturn + 1) currentCol currentRow
    (bytesToSkip - symbolsToSkip * self.symbolSize) bytesToReturn

end QuiltV1

/-! ## The reader of a `QuiltDecoderV1` -/

namespace QuiltDecoderV1

/-- `new`: the slivers by index, and the column size of one of them. -/
def new (slivers : List (SliverData .secondary)) : QuiltDecoderV1 :=
  ⟨slivers, none, slivers.head?.map fun sliver => sliver.symbols.data.length⟩

/-- `slivers.get(&SliverIndex(index as u16))`: the sliver the map holds at that index, the
last one added. -/
def getSliver (self : QuiltDecoderV1) (index : Nat) : Option (SliverData .secondary) :=
  (self.slivers.filter fun sliver => sliver.index = index % 2 ^ 16).getLast?

/-- `check_missing_slivers`: the indices from `start_idx` to below `end_idx` the map does not
hold. -/
def checkMissingSlivers (self : QuiltDecoderV1) (startIdx endIdx : Nat) :
    Except QuiltFailure Unit := do
  let missingSlivers := ((List.range' startIdx (endIdx - startIdx)).map (· % 2 ^ 16)).filter
    fun index => (self.getSliver index).isNone
  if !missingSlivers.isEmpty then
    throw (.err (.missingSlivers missingSlivers))

/-- `*self.slivers.get(&SliverIndex::new(col as u16)).expect("sliver exists")`. -/
def expectSliver (self : QuiltDecoderV1) (col : Nat) :
    Except QuiltFailure (SliverData .secondary) :=
  match self.getSliver col with
  | some sliver => pure sliver
  | none => throw (.panic "sliver exists")

/-- The loop of `range_read_from_columns` over the columns read: skip whole columns, then copy
from each column until enough bytes are read. -/
def readSlivers : List (List UInt8) → Nat → Nat → List UInt8
  | [], _, _ => []
  | data :: rest, bytesToSkip, bytesToReturn =>
    if bytesToReturn = 0 then []
    else if bytesToSkip ≥ data.length then
      readSlivers rest (bytesToSkip - data.length) bytesToReturn
    else
      let copyLen := min (data.length - bytesToSkip) bytesToReturn
      (data.drop bytesToSkip).take copyLen ++ readSlivers rest 0 (bytesToReturn - copyLen)

/-- `QuiltColumnRangeReader::range_read_from_columns` of a `QuiltDecoderV1`. -/
def rangeReadFromColumns (self : QuiltDecoderV1) (startCol bytesToSkip bytesToReturn : Nat) :
    Except QuiltFailure (List UInt8) := do
  self.checkMissingSlivers startCol (startCol + 1)
  let some columnSize := self.columnSize | throw (.panic "column size should be set")
  let endCol := startCol + (← usizeDivCeil (bytesToSkip + bytesToReturn) columnSize)
  self.checkMissingSlivers startCol endCol
  let slivers ← (List.range' startCol (endCol - startCol)).mapM self.expectSliver
  pure (readSlivers (slivers.map fun sliver => sliver.symbols.data) bytesToSkip bytesToReturn)

end QuiltDecoderV1

/-! ## The writer -/

/-- The loop of `write_bytes_to_columns` from the symbol at `(col, row)`, the first from
`offset`, for at most `fuel` symbols: `idx` bytes are written. -/
def writeCells (bytes : List UInt8) (rowSize symbolSize nRows : Nat) :
    Nat → List UInt8 → Nat → Nat → Nat → Nat → Except QuiltFailure (List UInt8)
  | 0, data, _, _, _, _ => pure data
  | fuel + 1, data, col, row, offset, idx =>
    if idx < bytes.length then do
      let startIdx := row * rowSize + col * symbolSize + offset
      let len := min (symbolSize - offset) (bytes.length - idx)
      let chunk ← slicePanic (range bytes idx (idx + len))
      let data ← slicePanic (copyFromSlice data startIdx (startIdx + len) chunk)
      let row' := (row + 1) % nRows
      writeCells bytes rowSize symbolSize nRows fuel data (if row' = 0 then col + 1 else col) row'
        0 (idx + len)
    else pure data

/-- `QuiltEncoderV1::write_bytes_to_columns`: `data` after the bytes are written from position
`bytes_to_skip` of column `start_col` on. -/
def writeBytesToColumns (data bytes : List UInt8)
    (startCol rowSize columnSize symbolSize bytesToSkip : Nat) :
    Except QuiltFailure (List UInt8) := do
  let nRows ← usizeDiv columnSize symbolSize
  let nCols ← usizeDiv rowSize symbolSize
  let currentCol := startCol + (← usizeDiv bytesToSkip columnSize)
  unless currentCol < nCols do throw (.panic "assertion failed: current_col < n_cols")
  let currentRow ← usizeRem (bytesToSkip / symbolSize) nRows
  let offset := bytesToSkip % symbolSize
  unless offset < symbolSize do throw (.panic "assertion failed: offset < symbol_size")
  writeCells bytes rowSize symbolSize nRows (bytes.length + 1) data currentCol currentRow offset 0

/-! ## The column-major order of a matrix of the quilt's shape

From here on `data` holds `n_rows` rows of `n_columns` symbols of `symbol_size` bytes. -/

section Shape

variable {data : List UInt8} {nRows nColumns symbolSize : Nat}

/-- Symbol `k` of the column-major order is in column `k / n_rows` and row `k % n_rows`. -/
theorem div_mod_symbol {col row : Nat} (hrow : row < nRows) :
    (col * nRows + row) / nRows = col ∧ (col * nRows + row) % nRows = row := by
  have hpos : 0 < nRows := by omega
  constructor
  · rw [Nat.add_comm, Nat.add_mul_div_right _ _ hpos, Nat.div_eq_of_lt hrow, Nat.zero_add]
  · rw [Nat.add_comm, Nat.add_mul_mod_self_right, Nat.mod_eq_of_lt hrow]

/-- The next symbol of the column-major order: the next row, after the last row the next
column. -/
theorem advance_symbol {col row : Nat} (hrow : row < nRows) :
    (if (row + 1) % nRows = 0 then col + 1 else col) * nRows + (row + 1) % nRows =
      col * nRows + row + 1 := by
  by_cases hlast : row + 1 = nRows
  · rw [hlast, Nat.mod_self, if_pos rfl, Nat.succ_mul]
    omega
  · have hnext : (row + 1) % nRows = row + 1 := Nat.mod_eq_of_lt (by omega)
    rw [hnext, if_neg (by omega)]
    omega

/-- A symbol of the matrix lies in it: its index is below `n_columns * n_rows`. -/
theorem col_lt_of_symbol_lt {col row : Nat}
    (h : col * nRows + row < nColumns * nRows) : col < nColumns :=
  Nat.lt_of_mul_lt_mul_right (Nat.lt_of_le_of_lt (Nat.le_add_right _ row) h)

/-- The place of symbol `k` of the column-major order in the row-major order tells `k`. -/
theorem rowMajor_index_inj {k k' : Nat} (hk : k < nColumns * nRows) (hk' : k' < nColumns * nRows)
    (h : k % nRows * nColumns + k / nRows = k' % nRows * nColumns + k' / nRows) : k = k' := by
  have hcols : 0 < nColumns := Nat.pos_of_ne_zero fun h0 => by simp [h0] at hk
  have hc : k / nRows < nColumns := Nat.div_lt_of_lt_mul (by rw [Nat.mul_comm]; exact hk)
  have hc' : k' / nRows < nColumns := Nat.div_lt_of_lt_mul (by rw [Nat.mul_comm]; exact hk')
  -- the column is the remainder by `n_columns`, the row the quotient
  have hcol : ∀ j, j / nRows < nColumns →
      (j % nRows * nColumns + j / nRows) % nColumns = j / nRows :=
    fun j hj => by rw [Nat.mul_comm, Nat.mul_add_mod, Nat.mod_eq_of_lt hj]
  have hrow : ∀ j, j / nRows < nColumns →
      (j % nRows * nColumns + j / nRows) / nColumns = j % nRows :=
    fun j hj => by
      rw [Nat.add_comm, Nat.add_mul_div_right _ _ hcols, Nat.div_eq_of_lt hj, Nat.zero_add]
  have hdiv : k / nRows = k' / nRows := by rw [← hcol k hc, ← hcol k' hc', h]
  have hmod : k % nRows = k' % nRows := by rw [← hrow k hc, ← hrow k' hc', h]
  rw [← Nat.div_add_mod' k nRows, ← Nat.div_add_mod' k' nRows, hdiv, hmod]

/-- Two distinct symbols of the matrix lie in disjoint ranges of the row-major data. -/
theorem symbol_disjoint {k k' : Nat} (hk : k < nColumns * nRows) (hk' : k' < nColumns * nRows)
    (hne : k' ≠ k) :
    k' % nRows * (nColumns * symbolSize) + k' / nRows * symbolSize + symbolSize ≤
        k % nRows * (nColumns * symbolSize) + k / nRows * symbolSize ∨
      k % nRows * (nColumns * symbolSize) + k / nRows * symbolSize + symbolSize ≤
        k' % nRows * (nColumns * symbolSize) + k' / nRows * symbolSize := by
  have hbase : ∀ j, j % nRows * (nColumns * symbolSize) + j / nRows * symbolSize =
      symbolSize * (j % nRows * nColumns + j / nRows) := fun j => by ring
  have hplace : k' % nRows * nColumns + k' / nRows ≠ k % nRows * nColumns + k / nRows :=
    fun h => hne (rowMajor_index_inj hk' hk h)
  rw [hbase k, hbase k', ← Nat.mul_succ, ← Nat.mul_succ]
  rcases Nat.lt_or_gt_of_ne hplace with hlt | hlt
  · exact .inl (Nat.mul_le_mul_left _ hlt)
  · exact .inr (Nat.mul_le_mul_left _ hlt)

variable (hlen : data.length = nRows * (nColumns * symbolSize))
include hlen

/-- A symbol of the matrix ends inside the data. -/
theorem symbol_end_le {col row : Nat} (hcol : col < nColumns) (hrow : row < nRows) :
    row * (nColumns * symbolSize) + col * symbolSize + symbolSize ≤ data.length := by
  calc row * (nColumns * symbolSize) + col * symbolSize + symbolSize
      = row * (nColumns * symbolSize) + (col + 1) * symbolSize := by
        rw [Nat.succ_mul, Nat.add_assoc]
    _ ≤ row * (nColumns * symbolSize) + nColumns * symbolSize :=
        Nat.add_le_add_left (Nat.mul_le_mul_right _ hcol) _
    _ = (row + 1) * (nColumns * symbolSize) := (Nat.succ_mul _ _).symm
    _ ≤ nRows * (nColumns * symbolSize) := Nat.mul_le_mul_right _ hrow
    _ = data.length := hlen.symm

theorem length_symbolAt {col row : Nat} (hcol : col < nColumns) (hrow : row < nRows) :
    (symbolAt data (nColumns * symbolSize) symbolSize col row).length = symbolSize := by
  rw [symbolAt, length_rangeOf (symbol_end_le hlen hcol hrow)]
  omega

theorem uniform_columnSymbols :
    Uniform symbolSize (columnSymbols data (nColumns * symbolSize) symbolSize nRows nColumns) := by
  apply Uniform.map
  intro k hk
  have hk' : k < nColumns * nRows := List.mem_range.mp hk
  have hpos : 0 < nRows := Nat.pos_of_ne_zero fun h => by simp [h] at hk'
  exact length_symbolAt hlen (Nat.div_lt_of_lt_mul (by rw [Nat.mul_comm]; exact hk'))
    (Nat.mod_lt _ hpos)

theorem length_columnMajor :
    (columnMajor data (nColumns * symbolSize) symbolSize nRows nColumns).length =
      symbolSize * (nColumns * nRows) := by
  rw [columnMajor, length_flatten_of_uniform (uniform_columnSymbols hlen)]
  simp [columnSymbols]

/-- The column-major order from the start of symbol `col * n_rows + row`: that symbol, then the
order from the next one. -/
theorem drop_columnMajor {col row : Nat} (hcol : col < nColumns) (hrow : row < nRows) :
    (columnMajor data (nColumns * symbolSize) symbolSize nRows nColumns).drop
        (symbolSize * (col * nRows + row)) =
      symbolAt data (nColumns * symbolSize) symbolSize col row ++
        (columnMajor data (nColumns * symbolSize) symbolSize nRows nColumns).drop
          (symbolSize * (col * nRows + row + 1)) := by
  have hk : col * nRows + row < nColumns * nRows := by
    calc col * nRows + row < (col + 1) * nRows := by rw [Nat.succ_mul]; omega
      _ ≤ nColumns * nRows := Nat.mul_le_mul_right _ hcol
  have hsymbols := uniform_columnSymbols hlen
  have hlength : (columnSymbols data (nColumns * symbolSize) symbolSize nRows nColumns).length =
      nColumns * nRows := by simp [columnSymbols]
  rw [columnMajor, drop_flatten_of_uniform _ hsymbols, drop_flatten_of_uniform _ hsymbols,
    List.drop_eq_getElem_cons (by rw [hlength]; exact hk), List.flatten_cons]
  congr 1
  simp only [columnSymbols, List.getElem_map, List.getElem_range, (div_mod_symbol hrow).1,
    (div_mod_symbol hrow).2]

/-- A read from offset `skip` of a symbol on: the rest of that symbol, then the order from the
next symbol. -/
theorem take_drop_columnMajor {col row skip ret : Nat} (hcol : col < nColumns)
    (hrow : row < nRows) (hskip : skip ≤ symbolSize) :
    ((columnMajor data (nColumns * symbolSize) symbolSize nRows nColumns).drop
        (symbolSize * (col * nRows + row) + skip)).take ret =
      ((symbolAt data (nColumns * symbolSize) symbolSize col row).drop skip).take ret ++
        ((columnMajor data (nColumns * symbolSize) symbolSize nRows nColumns).drop
          (symbolSize * (col * nRows + row + 1))).take (ret - (symbolSize - skip)) := by
  have hsym := length_symbolAt hlen hcol hrow
  rw [← List.drop_drop, drop_columnMajor hlen hcol hrow,
    List.drop_append_of_le_length (by rw [hsym]; exact hskip), List.take_append, List.length_drop,
    hsym]

/-- Column `col` of the matrix is the piece of `symbol_size * n_rows` bytes at `col` of the
column-major order: its symbols from the first row down. -/
theorem column_columnMajor {col : Nat} (hcol : col < nColumns) :
    ((columnMajor data (nColumns * symbolSize) symbolSize nRows nColumns).drop
        (symbolSize * nRows * col)).take (symbolSize * nRows) =
      ((List.range nRows).map (symbolAt data (nColumns * symbolSize) symbolSize col)).flatten := by
  have hsymbols := uniform_columnSymbols hlen
  have hrest : nRows ≤ nColumns * nRows - nRows * col := by
    have : nRows * (col + 1) ≤ nRows * nColumns := Nat.mul_le_mul_left _ hcol
    rw [Nat.mul_succ, Nat.mul_comm nRows nColumns] at this
    omega
  have hdropped : Uniform symbolSize
      ((columnSymbols data (nColumns * symbolSize) symbolSize nRows nColumns).drop (nRows * col)) :=
    fun x hx => hsymbols x (List.mem_of_mem_drop hx)
  rw [columnMajor, Nat.mul_assoc, drop_flatten_of_uniform _ hsymbols,
    take_flatten_of_uniform _ hdropped, columnSymbols, drop_map_range, take_map_range _ hrest]
  -- row `t` of the column is symbol `n_rows * col + t`
  congr 1
  apply List.map_congr_left
  intro t ht
  have hdm : (col * nRows + t) / nRows = col ∧ (col * nRows + t) % nRows = t :=
    div_mod_symbol (List.mem_range.mp ht)
  rw [Nat.mul_comm nRows col, hdm.1, hdm.2]

/-- A write inside one symbol of the matrix is a write at the place of that symbol in the
column-major order. -/
theorem columnMajor_overwrite {col row offset : Nat} {chunk : List UInt8} (hcol : col < nColumns)
    (hrow : row < nRows) (hchunk : offset + chunk.length ≤ symbolSize) :
    columnMajor (overwrite data (row * (nColumns * symbolSize) + col * symbolSize + offset) chunk)
        (nColumns * symbolSize) symbolSize nRows nColumns =
      overwrite (columnMajor data (nColumns * symbolSize) symbolSize nRows nColumns)
        (symbolSize * (col * nRows + row) + offset) chunk := by
  have hk : col * nRows + row < nColumns * nRows := by
    calc col * nRows + row < (col + 1) * nRows := by rw [Nat.succ_mul]; omega
      _ ≤ nColumns * nRows := Nat.mul_le_mul_right _ hcol
  have hdm : (col * nRows + row) / nRows = col ∧ (col * nRows + row) % nRows = row :=
    div_mod_symbol hrow
  have hend := symbol_end_le hlen hcol hrow
  have hlength : col * nRows + row <
      (columnSymbols data (nColumns * symbolSize) symbolSize nRows nColumns).length := by
    simp [columnSymbols, hk]
  have hsymbol : (columnSymbols data (nColumns * symbolSize) symbolSize nRows nColumns)[
      col * nRows + row] = symbolAt data (nColumns * symbolSize) symbolSize col row := by
    simp only [columnSymbols, List.getElem_map, List.getElem_range, hdm.1, hdm.2]
  rw [columnMajor, columnMajor, overwrite_flatten_of_uniform (uniform_columnSymbols hlen) hlength
    hchunk, hsymbol, columnSymbols, columnSymbols, set_map_range]
  congr 1
  apply List.map_congr_left
  intro k' hk'
  have hk'lt := List.mem_range.mp hk'
  by_cases hsame : k' = col * nRows + row
  · -- the symbol written into
    rw [if_pos hsame, hsame, hdm.1, hdm.2, symbolAt, symbolAt,
      rangeOf_overwrite_within (by omega) (by omega) hend, Nat.add_sub_cancel_left]
  · -- another symbol, before or after the one written into
    rw [if_neg hsame, symbolAt, symbolAt]
    have hdisjoint := @symbol_disjoint nRows nColumns symbolSize _ _ hk hk'lt hsame
    rw [hdm.1, hdm.2] at hdisjoint
    rcases hdisjoint with hbefore | hafter
    · rw [rangeOf_overwrite_of_le (by omega) (by omega)]
    · rw [rangeOf_overwrite_of_ge (by omega) (by omega)]

end Shape

namespace QuiltV1

variable {data : List UInt8} {nRows nColumns symbolSize : Nat} {quiltIndex : Option QuiltIndexV1}

/-- `get_slice` inside the matrix: the symbol from `skip` on, at most `ret` bytes of it. -/
theorem getSlice_eq (hlen : data.length = nRows * (nColumns * symbolSize)) {col row skip ret : Nat}
    (hcol : col < nColumns) (hrow : row < nRows) (hskip : skip < symbolSize) :
    (⟨data, nColumns * symbolSize, symbolSize, quiltIndex⟩ : QuiltV1).getSlice col row skip ret =
      .ok (((symbolAt data (nColumns * symbolSize) symbolSize col row).drop skip).take ret) := by
  have hend := symbol_end_le hlen hcol hrow
  simp only [getSlice]
  rw [if_neg (by omega), Nat.min_eq_left (by omega), range_eq_ok (by omega) (by omega),
    slicePanic_ok, symbolAt, rangeOf, rangeOf, List.drop_take, List.drop_drop, List.take_take]
  congr 3
  omega

/-- The loop of the reader from symbol `col * n_rows + row` and offset `skip` on returns the
next `ret` bytes of the column-major order, given more fuel than bytes. -/
theorem readCells_eq (hs : 0 < symbolSize) (hlen : data.length = nRows * (nColumns * symbolSize)) :
    ∀ (fuel col row skip ret : Nat), row < nRows → skip < symbolSize →
      symbolSize * (col * nRows + row) + skip + ret ≤ symbolSize * (nColumns * nRows) →
      ret < fuel →
      (⟨data, nColumns * symbolSize, symbolSize, quiltIndex⟩ : QuiltV1).readCells nRows fuel col
          row skip ret =
        .ok (((columnMajor data (nColumns * symbolSize) symbolSize nRows nColumns).drop
          (symbolSize * (col * nRows + row) + skip)).take ret) := by
  intro fuel
  induction fuel with
  | zero =>
    intro col row skip ret _ _ _ hfuel
    omega
  | succ fuel ih =>
    intro col row skip ret hrow hskip hbound hfuel
    by_cases hret : ret = 0
    · subst hret
      simp [readCells, pure, Except.pure]
    · -- the symbol read is in the matrix, since a byte of it is
      have hsymbol : col * nRows + row < nColumns * nRows := by
        apply Nat.lt_of_mul_lt_mul_left
          (show symbolSize * (col * nRows + row) < symbolSize * (nColumns * nRows) by omega)
      have hcol := col_lt_of_symbol_lt hsymbol
      have hsym := length_symbolAt hlen hcol hrow
      have hslice : (((symbolAt data (nColumns * symbolSize) symbolSize col row).drop skip).take
          ret).length = min (symbolSize - skip) ret := by
        rw [List.length_take, List.length_drop, hsym, Nat.min_comm]
      have hnextSymbol : symbolSize * (col * nRows + row) + symbolSize ≤
          symbolSize * (nColumns * nRows) := by
        rw [← Nat.mul_succ]
        exact Nat.mul_le_mul_left _ hsymbol
      -- the rest of the read starts at the next symbol, from its first byte
      have hnext := ih (if (row + 1) % nRows = 0 then col + 1 else col) ((row + 1) % nRows) 0
        (ret - min (symbolSize - skip) ret) (Nat.mod_lt _ (by omega)) hs
        (by rw [advance_symbol hrow, Nat.mul_succ]; omega) (by omega)
      rw [advance_symbol hrow] at hnext
      rw [readCells, if_pos (Nat.pos_of_ne_zero hret), getSlice_eq hlen hcol hrow hskip, ok_bind]
      simp only [hslice, hnext, ok_bind]
      rw [take_drop_columnMajor hlen hcol hrow hskip.le, Nat.add_zero,
        show ret - min (symbolSize - skip) ret = ret - (symbolSize - skip) by omega]
      rfl

/-- `range_read_from_columns` of a quilt of `n_rows` rows and `n_columns` columns returns the
range of the column-major order from byte `bytes_to_skip` of column `start_col` on. -/
theorem rangeReadFromColumns_eq (hs : 0 < symbolSize) (hrows : 0 < nRows) (hcols : 0 < nColumns)
    (hlen : data.length = nRows * (nColumns * symbolSize))
    {startCol bytesToSkip bytesToReturn : Nat}
    (hbound : startCol * (symbolSize * nRows) + bytesToSkip + bytesToReturn ≤
      nColumns * (symbolSize * nRows)) :
    (⟨data, nColumns * symbolSize, symbolSize, quiltIndex⟩ : QuiltV1).rangeReadFromColumns startCol
        bytesToSkip bytesToReturn =
      .ok (((columnMajor data (nColumns * symbolSize) symbolSize nRows nColumns).drop
        (startCol * (symbolSize * nRows) + bytesToSkip)).take bytesToReturn) := by
  have hrowSize : 0 < nColumns * symbolSize := Nat.mul_pos hcols hs
  have hdata : 0 < data.length := by rw [hlen]; exact Nat.mul_pos hrows hrowSize
  have hcond : ¬(symbolSize = 0 ∨ nColumns * symbolSize = 0 ∨ data.isEmpty = true) := by
    simp only [List.isEmpty_iff, not_or]
    exact ⟨by omega, by omega, fun h => by simp [h] at hdata⟩
  have hnRows : data.length / (nColumns * symbolSize) = nRows := by
    rw [hlen, Nat.mul_div_cancel _ hrowSize]
  -- the read starts at symbol `start_col * n_rows + bytes_to_skip / symbol_size`, at the offset
  -- `bytes_to_skip % symbol_size`
  have hskipped : bytesToSkip / symbolSize * symbolSize ≤ bytesToSkip := Nat.div_mul_le_self _ _
  have hcell : (startCol + bytesToSkip / symbolSize / nRows) * nRows +
      bytesToSkip / symbolSize % nRows = startCol * nRows + bytesToSkip / symbolSize := by
    rw [Nat.add_mul, Nat.add_assoc, Nat.div_add_mod']
  have hpos : symbolSize * (startCol * nRows + bytesToSkip / symbolSize) +
      (bytesToSkip - bytesToSkip / symbolSize * symbolSize) =
        startCol * (symbolSize * nRows) + bytesToSkip := by
    rw [Nat.mul_add, show symbolSize * (startCol * nRows) = startCol * (symbolSize * nRows) by ring,
      Nat.mul_comm symbolSize (bytesToSkip / symbolSize)]
    omega
  simp only [rangeReadFromColumns, if_neg hcond, hnRows, usizeDiv_of_pos hrows,
    usizeRem_of_pos hrows, ok_bind]
  rw [readCells_eq hs hlen (bytesToReturn + 1) (startCol + bytesToSkip / symbolSize / nRows)
    (bytesToSkip / symbolSize % nRows) (bytesToSkip - bytesToSkip / symbolSize * symbolSize)
    bytesToReturn (Nat.mod_lt _ hrows) (by rw [← Nat.mod_eq_sub_div_mul]; exact Nat.mod_lt _ hs)
    (by rw [hcell, hpos, show symbolSize * (nColumns * nRows) = nColumns * (symbolSize * nRows) by
      ring]; exact hbound) (Nat.lt_succ_self _), hcell, hpos]

end QuiltV1

namespace QuiltDecoderV1

variable {self : QuiltDecoderV1}

/-- The loop over the columns read returns a range of their concatenation. -/
theorem readSlivers_eq :
    ∀ (columns : List (List UInt8)) (skip ret : Nat),
      readSlivers columns skip ret = (columns.flatten.drop skip).take ret
  | [], _, _ => by simp [readSlivers]
  | data :: rest, skip, ret => by
    by_cases hret : ret = 0
    · simp [readSlivers, hret]
    by_cases hskip : data.length ≤ skip
    · -- the whole column is skipped
      rw [readSlivers, if_neg hret, if_pos hskip, readSlivers_eq rest, List.flatten_cons,
        List.drop_append, List.drop_eq_nil_of_le hskip, List.nil_append]
    · -- the column is read from `skip` on
      have hcopy : (data.drop skip).take (min (data.length - skip) ret) =
          (data.drop skip).take ret := by
        rcases Nat.le_total ret (data.length - skip) with hle | hle
        · rw [Nat.min_eq_right hle]
        · rw [Nat.min_eq_left hle, List.take_of_length_le (by rw [List.length_drop]),
            List.take_of_length_le (by rw [List.length_drop]; omega)]
      rw [readSlivers, if_neg hret, if_neg hskip]
      dsimp only
      rw [readSlivers_eq rest, List.flatten_cons,
        List.drop_append_of_le_length (by omega), List.take_append, List.length_drop, hcopy,
        List.drop_zero, show ret - min (data.length - skip) ret = ret - (data.length - skip) by
          omega]

theorem getSliver_mod (index : Nat) : self.getSliver (index % 2 ^ 16) = self.getSliver index := by
  simp [getSliver]

/-- No sliver is missing when the map holds every index of the range. -/
theorem checkMissingSlivers_ok {startIdx endIdx : Nat}
    (h : ∀ j, startIdx ≤ j → j < endIdx → (self.getSliver j).isSome) :
    self.checkMissingSlivers startIdx endIdx = .ok () := by
  have hnone : (((List.range' startIdx (endIdx - startIdx)).map (· % 2 ^ 16)).filter
      fun index => (self.getSliver index).isNone) = [] := by
    rw [List.filter_eq_nil_iff]
    intro index hindex
    obtain ⟨j, hj, rfl⟩ := List.mem_map.mp hindex
    rw [List.mem_range'_1] at hj
    rw [getSliver_mod]
    simpa [Option.isSome_iff_ne_none] using h j hj.1 (by omega)
  rw [checkMissingSlivers]
  simp only [hnone]
  rfl

/-- Looking up the columns of a range one by one: the slivers the map holds there. -/
theorem mapM_expectSliver {column : Nat → List UInt8} :
    ∀ {cols : List Nat},
      (∀ j ∈ cols, (self.getSliver j).map (fun sliver => sliver.symbols.data) = some (column j)) →
      ∃ slivers, cols.mapM self.expectSliver = .ok slivers ∧
        slivers.map (fun sliver => sliver.symbols.data) = cols.map column
  | [], _ => ⟨[], rfl, rfl⟩
  | j :: cols, h => by
    obtain ⟨sliver, hget, hdata⟩ := Option.map_eq_some_iff.mp (h j List.mem_cons_self)
    obtain ⟨slivers, hmapM, hrest⟩ :=
      mapM_expectSliver fun j' hj' => h j' (List.mem_cons_of_mem _ hj')
    refine ⟨sliver :: slivers, ?_, ?_⟩
    · rw [List.mapM_cons, expectSliver, hget]
      simp [hmapM, pure, Except.pure, bind, Except.bind]
    · rw [List.map_cons, List.map_cons, hdata, hrest]

/-- The reader of a decoder that holds a sliver at column `start_col`, and whose slivers from
there to the last column it reads are the pieces of `column_size` bytes of `bytes`: the range of
`bytes` from byte `bytes_to_skip` of column `start_col` on. An empty read reads no column, but
still checks that the first one is there. -/
theorem rangeReadFromColumns_eq {bytes : List UInt8}
    {columnSize startCol bytesToSkip bytesToReturn : Nat}
    (hcs : 0 < columnSize) (hsize : self.columnSize = some columnSize)
    (hstart : (self.getSliver startCol).isSome)
    (hholds : ∀ j, startCol ≤ j → j < startCol + divCeil (bytesToSkip + bytesToReturn) columnSize →
      (self.getSliver j).map (fun sliver => sliver.symbols.data) =
        some ((bytes.drop (columnSize * j)).take columnSize)) :
    self.rangeReadFromColumns startCol bytesToSkip bytesToReturn =
      .ok ((bytes.drop (columnSize * startCol + bytesToSkip)).take bytesToReturn) := by
  have hcover := (le_mul_divCeil (bytesToSkip + bytesToReturn) hcs).1
  -- the first check, on column `start_col`, and the check of every column read
  have hfirst : self.checkMissingSlivers startCol (startCol + 1) = .ok () := by
    refine checkMissingSlivers_ok fun j hj hlt => ?_
    obtain rfl : j = startCol := by omega
    exact hstart
  have hall : self.checkMissingSlivers startCol
      (startCol + divCeil (bytesToSkip + bytesToReturn) columnSize) = .ok () := by
    refine checkMissingSlivers_ok fun j hj hlt => ?_
    obtain ⟨sliver, hget, -⟩ := Option.map_eq_some_iff.mp (hholds j hj hlt)
    rw [hget]
    rfl
  have hread : ∃ slivers, (List.range' startCol (startCol +
      divCeil (bytesToSkip + bytesToReturn) columnSize - startCol)).mapM self.expectSliver =
        .ok slivers ∧ slivers.map (fun sliver => sliver.symbols.data) =
          (List.range' startCol (divCeil (bytesToSkip + bytesToReturn) columnSize)).map
            fun j => (bytes.drop (columnSize * j)).take columnSize := by
    rw [Nat.add_sub_cancel_left]
    apply mapM_expectSliver
    intro j hj
    rw [List.mem_range'_1] at hj
    exact hholds j hj.1 (by omega)
  obtain ⟨slivers, hmapM, hdata⟩ := hread
  simp only [rangeReadFromColumns, hfirst, hsize, usizeDivCeil_of_pos hcs, hall, hmapM, ok_bind]
  rw [hdata, readSlivers_eq, flatten_map_range'_pieces, List.drop_take, List.take_take,
    Nat.min_eq_left (by omega), List.drop_drop]
  rfl

end QuiltDecoderV1

/-! ## The writer of a `QuiltEncoderV1` -/

section Writer

variable {nRows nColumns symbolSize : Nat}

/-- The cells loop of `write_bytes_to_columns` writes `bytes` from `idx` on into the
column-major order, from byte `offset` of symbol `(col, row)` on, and nowhere else. -/
theorem writeCells_eq (bytes : List UInt8) (hs : 0 < symbolSize) :
    ∀ (fuel : Nat) (data : List UInt8) (col row offset idx : Nat),
      data.length = nRows * (nColumns * symbolSize) → row < nRows → offset < symbolSize →
      symbolSize * (col * nRows + row) + offset + (bytes.length - idx) ≤
        symbolSize * (nColumns * nRows) →
      bytes.length - idx < fuel →
      ∃ data', writeCells bytes (nColumns * symbolSize) symbolSize nRows fuel data col row offset
          idx = .ok data' ∧ data'.length = data.length ∧
        columnMajor data' (nColumns * symbolSize) symbolSize nRows nColumns =
          overwrite (columnMajor data (nColumns * symbolSize) symbolSize nRows nColumns)
            (symbolSize * (col * nRows + row) + offset) (bytes.drop idx) := by
  intro fuel
  induction fuel with
  | zero =>
    intro data col row offset idx _ _ _ _ hfuel
    omega
  | succ fuel ih =>
    intro data col row offset idx hlen hrow hoffset hbound hfuel
    by_cases hidx : idx < bytes.length
    · -- a chunk of the rest of the symbol or the rest of the bytes, whichever is shorter
      obtain ⟨len, hlenDef⟩ : ∃ len, len = min (symbolSize - offset) (bytes.length - idx) :=
        ⟨_, rfl⟩
      have hsymbol : col * nRows + row < nColumns * nRows :=
        Nat.lt_of_mul_lt_mul_left
          (show symbolSize * (col * nRows + row) < symbolSize * (nColumns * nRows) by omega)
      have hcol := col_lt_of_symbol_lt hsymbol
      have hnextSymbol : symbolSize * (col * nRows + row) + symbolSize ≤
          symbolSize * (nColumns * nRows) := by
        rw [← Nat.mul_succ]
        exact Nat.mul_le_mul_left _ hsymbol
      have hend := symbol_end_le hlen hcol hrow
      have hchunkLen : ((bytes.drop idx).take len).length = len := by
        simp only [List.length_take, List.length_drop]
        omega
      have hfits : row * (nColumns * symbolSize) + col * symbolSize + offset +
          ((bytes.drop idx).take len).length ≤ data.length := by
        rw [hchunkLen]
        omega
      have hcopy : copyFromSlice data (row * (nColumns * symbolSize) + col * symbolSize + offset)
          (row * (nColumns * symbolSize) + col * symbolSize + offset + len)
            ((bytes.drop idx).take len) =
          .ok (overwrite data (row * (nColumns * symbolSize) + col * symbolSize + offset)
            ((bytes.drop idx).take len)) := by
        have h := copyFromSlice_eq_overwrite hfits
        rwa [hchunkLen] at h
      have hwrite : columnMajor (overwrite data
            (row * (nColumns * symbolSize) + col * symbolSize + offset) ((bytes.drop idx).take len))
            (nColumns * symbolSize) symbolSize nRows nColumns =
          overwrite (columnMajor data (nColumns * symbolSize) symbolSize nRows nColumns)
            (symbolSize * (col * nRows + row) + offset) ((bytes.drop idx).take len) :=
        columnMajor_overwrite hlen hcol hrow (by rw [hchunkLen]; omega)
      -- the rest is written from the first byte of the next symbol on
      obtain ⟨data', hrun, hlen', hmajor⟩ := ih
        (overwrite data (row * (nColumns * symbolSize) + col * symbolSize + offset)
          ((bytes.drop idx).take len))
        (if (row + 1) % nRows = 0 then col + 1 else col) ((row + 1) % nRows) 0 (idx + len)
        (by rw [length_overwrite hfits, hlen]) (Nat.mod_lt _ (by omega)) hs
        (by rw [advance_symbol hrow, Nat.mul_succ]; omega) (by omega)
      refine ⟨data', ?_, by rw [hlen', length_overwrite hfits], ?_⟩
      · rw [writeCells, if_pos hidx, ← hlenDef]
        dsimp only
        rw [range_eq_ok (by omega) (by omega), rangeOf, Nat.add_sub_cancel_left]
        simp only [slicePanic_ok, ok_bind, hcopy, hrun]
      · rw [hmajor, advance_symbol hrow, hwrite]
        by_cases hfull : symbolSize - offset ≤ bytes.length - idx
        · -- the symbol is filled up, and the rest follows it
          have hnext : symbolSize * (col * nRows + row + 1) =
              symbolSize * (col * nRows + row) + offset + ((bytes.drop idx).take len).length := by
            rw [hchunkLen, Nat.mul_succ]
            omega
          rw [Nat.add_zero, hnext, overwrite_overwrite (by rw [length_columnMajor hlen]; omega),
            ← List.drop_drop, List.take_append_drop]
        · -- the bytes end inside the symbol
          rw [List.drop_eq_nil_of_le (show bytes.length ≤ idx + len by omega), overwrite_nil,
            List.take_of_length_le (show (bytes.drop idx).length ≤ len by
              rw [List.length_drop]; omega)]
    · -- nothing is left to write
      refine ⟨data, by rw [writeCells, if_neg hidx]; rfl, rfl, ?_⟩
      rw [List.drop_eq_nil_of_le (show bytes.length ≤ idx by omega), overwrite_nil]

/-- The write of `write_bytes_to_columns` starts in column
`start_col + bytes_to_skip / column_size`, in row `bytes_to_skip / symbol_size % n_rows`, at
the offset `bytes_to_skip % symbol_size`: at byte `start_col * column_size + bytes_to_skip` of
the column-major order. -/
theorem start_symbol_eq (startCol bytesToSkip : Nat) :
    symbolSize * ((startCol + bytesToSkip / (symbolSize * nRows)) * nRows +
      bytesToSkip / symbolSize % nRows) + bytesToSkip % symbolSize =
        startCol * (symbolSize * nRows) + bytesToSkip := by
  have hinColumn : symbolSize * (bytesToSkip / symbolSize % nRows) + bytesToSkip % symbolSize =
      bytesToSkip % (symbolSize * nRows) := by
    rw [← Nat.mod_mul_right_div_self, ← Nat.mod_mul_right_mod bytesToSkip symbolSize nRows,
      Nat.div_add_mod]
  calc _ = startCol * (symbolSize * nRows) + (symbolSize * nRows * (bytesToSkip /
          (symbolSize * nRows)) + (symbolSize * (bytesToSkip / symbolSize % nRows) +
            bytesToSkip % symbolSize)) := by ring
    _ = startCol * (symbolSize * nRows) + bytesToSkip := by rw [hinColumn, Nat.div_add_mod]

/-- The first column of a write is inside the matrix exactly when its first byte is. -/
theorem start_column_lt_iff {startCol bytesToSkip : Nat} (hcolumnSize : 0 < symbolSize * nRows) :
    startCol + bytesToSkip / (symbolSize * nRows) < nColumns ↔
      startCol * (symbolSize * nRows) + bytesToSkip < nColumns * (symbolSize * nRows) := by
  constructor
  · intro hcol
    have hnext : (startCol + bytesToSkip / (symbolSize * nRows) + 1) * (symbolSize * nRows) ≤
        nColumns * (symbolSize * nRows) := Nat.mul_le_mul_right _ hcol
    have hdiv := Nat.div_add_mod bytesToSkip (symbolSize * nRows)
    have hmod := Nat.mod_lt bytesToSkip hcolumnSize
    rw [Nat.add_mul, Nat.add_mul, Nat.one_mul, Nat.mul_comm (bytesToSkip / _)] at hnext
    omega
  · intro hstart
    apply Nat.lt_of_mul_lt_mul_right (a := symbolSize * nRows)
    calc (startCol + bytesToSkip / (symbolSize * nRows)) * (symbolSize * nRows)
        ≤ startCol * (symbolSize * nRows) + bytesToSkip := by
          rw [Nat.add_mul]
          exact Nat.add_le_add_left (Nat.div_mul_le_self _ _) _
      _ < nColumns * (symbolSize * nRows) := hstart

/-- `write_bytes_to_columns` into a matrix of `n_rows` rows and `n_columns` columns overwrites
the column-major order with `bytes` from byte `bytes_to_skip` of column `start_col` on. -/
theorem writeBytesToColumns_eq {data bytes : List UInt8} {startCol bytesToSkip : Nat}
    (hs : 0 < symbolSize) (hrows : 0 < nRows) (hlen : data.length = nRows * (nColumns * symbolSize))
    (hstart : startCol * (symbolSize * nRows) + bytesToSkip < nColumns * (symbolSize * nRows))
    (hbound : startCol * (symbolSize * nRows) + bytesToSkip + bytes.length ≤
      nColumns * (symbolSize * nRows)) :
    ∃ data', writeBytesToColumns data bytes startCol (nColumns * symbolSize) (symbolSize * nRows)
        symbolSize bytesToSkip = .ok data' ∧ data'.length = data.length ∧
      columnMajor data' (nColumns * symbolSize) symbolSize nRows nColumns =
        overwrite (columnMajor data (nColumns * symbolSize) symbolSize nRows nColumns)
          (startCol * (symbolSize * nRows) + bytesToSkip) bytes := by
  have hcolumnSize : 0 < symbolSize * nRows := Nat.mul_pos hs hrows
  have hpos : symbolSize * ((startCol + bytesToSkip / (symbolSize * nRows)) * nRows +
      bytesToSkip / symbolSize % nRows) + bytesToSkip % symbolSize =
        startCol * (symbolSize * nRows) + bytesToSkip := start_symbol_eq startCol bytesToSkip
  have hcol := (start_column_lt_iff hcolumnSize).mpr hstart
  have hfits : symbolSize * ((startCol + bytesToSkip / (symbolSize * nRows)) * nRows +
      bytesToSkip / symbolSize % nRows) + bytesToSkip % symbolSize + (bytes.length - 0) ≤
        symbolSize * (nColumns * nRows) := by
    rw [hpos, Nat.sub_zero, Nat.mul_left_comm symbolSize nColumns nRows]
    exact hbound
  obtain ⟨data', hrun, hlen', hmajor⟩ := writeCells_eq bytes hs (bytes.length + 1) data
    (startCol + bytesToSkip / (symbolSize * nRows)) (bytesToSkip / symbolSize % nRows)
    (bytesToSkip % symbolSize) 0 hlen (Nat.mod_lt _ hrows) (Nat.mod_lt _ hs) hfits (by omega)
  refine ⟨data', ?_, hlen', by rw [hmajor, hpos, List.drop_zero]⟩
  simp only [writeBytesToColumns, usizeDiv_of_pos hs, usizeDiv_of_pos hcolumnSize,
    usizeRem_of_pos hrows, Nat.mul_div_cancel _ hs, Nat.mul_div_cancel_left _ hs, ok_bind,
    hcol, Nat.mod_lt _ hs, hrun]
  rfl

/-- A run of the cells loop that returns kept the length of the data and, had it the fuel for
the bytes left, wrote them all before symbol `(n_columns, n_rows - 1)` of the column-major
order: that symbol would start at the end of the row-major data, where a copy panics. -/
theorem writeCells_ok (bytes : List UInt8) (hs : 0 < symbolSize) (hrows : 0 < nRows) :
    ∀ (fuel : Nat) (data data' : List UInt8) (col row offset idx : Nat),
      data.length = nRows * (nColumns * symbolSize) → row < nRows → offset < symbolSize →
      col * nRows + row ≤ nColumns * nRows + (nRows - 1) →
      writeCells bytes (nColumns * symbolSize) symbolSize nRows fuel data col row offset idx =
        .ok data' →
      data'.length = data.length ∧ (idx < bytes.length → bytes.length - idx < fuel →
        symbolSize * (col * nRows + row) + offset + (bytes.length - idx) ≤
          symbolSize * (nColumns * nRows + (nRows - 1))) := by
  intro fuel
  induction fuel with
  | zero =>
    intro data data' col row offset idx _ _ _ _ hrun
    cases hrun
    exact ⟨rfl, fun _ hfuel => absurd hfuel (Nat.not_lt_zero _)⟩
  | succ fuel ih =>
    intro data data' col row offset idx hlen hrow hoffset hsymbol hrun
    by_cases hidx : idx < bytes.length
    · rw [writeCells, if_pos hidx] at hrun
      dsimp only at hrun
      obtain ⟨chunk, -, hrun⟩ := bind_eq_ok.mp hrun
      obtain ⟨data₁, hcopy, hrun⟩ := bind_eq_ok.mp hrun
      have hcopy' := mapError_eq_ok.mp hcopy
      have hlen₁ := length_of_copyFromSlice_eq_ok hcopy'
      have hin := (le_length_of_copyFromSlice_eq_ok hcopy').2
      have hchunk : 0 < min (symbolSize - offset) (bytes.length - idx) := by omega
      -- symbol `(n_columns, n_rows - 1)` starts at the end of the data, so this is an earlier one
      have hbefore : col * nRows + row < nColumns * nRows + (nRows - 1) := by
        refine lt_of_le_of_ne hsymbol fun hlast => ?_
        have hthis : (col * nRows + row) / nRows = col ∧ (col * nRows + row) % nRows = row :=
          div_mod_symbol hrow
        have hthat : (nColumns * nRows + (nRows - 1)) / nRows = nColumns ∧
            (nColumns * nRows + (nRows - 1)) % nRows = nRows - 1 := div_mod_symbol (by omega)
        rw [hlast, hthat.1, hthat.2] at hthis
        obtain ⟨hcol', hrow'⟩ := hthis
        have hend : (nRows - 1) * (nColumns * symbolSize) + nColumns * symbolSize =
            nRows * (nColumns * symbolSize) := by
          rw [← Nat.succ_mul, Nat.succ_eq_add_one, Nat.sub_add_cancel hrows]
        rw [← hrow', ← hcol'] at hin
        omega
      obtain ⟨hlen', hbound⟩ := ih data₁ data' _ _ 0 _ (by rw [hlen₁, hlen])
        (Nat.mod_lt _ hrows) hs (by rw [advance_symbol hrow]; omega) hrun
      refine ⟨hlen'.trans hlen₁, fun _ hfuel => ?_⟩
      have hnext : symbolSize * (col * nRows + row + 1) =
          symbolSize * (col * nRows + row) + symbolSize := Nat.mul_succ _ _
      have hnextLe : symbolSize * (col * nRows + row + 1) ≤
          symbolSize * (nColumns * nRows + (nRows - 1)) := Nat.mul_le_mul_left _ hbefore
      by_cases hrest : idx + min (symbolSize - offset) (bytes.length - idx) < bytes.length
      · -- the symbol is filled up, and the rest is written from the next one on
        have h := hbound hrest (by omega)
        rw [advance_symbol hrow] at h
        omega
      · -- the bytes end inside this symbol
        omega
    · rw [writeCells, if_neg hidx] at hrun
      cases hrun
      exact ⟨rfl, fun h => absurd h hidx⟩

/-- A `write_bytes_to_columns` into a matrix of `n_rows` rows and `n_columns` columns that
returns kept the length of the data, started inside the matrix (its assertion), and, when it
wrote anything, ended before the last symbol of the column past the last one. -/
theorem writeBytesToColumns_ok {data data' bytes : List UInt8} {startCol bytesToSkip : Nat}
    (hs : 0 < symbolSize) (hrows : 0 < nRows) (hlen : data.length = nRows * (nColumns * symbolSize))
    (hrun : writeBytesToColumns data bytes startCol (nColumns * symbolSize) (symbolSize * nRows)
      symbolSize bytesToSkip = .ok data') :
    data'.length = data.length ∧
      startCol * (symbolSize * nRows) + bytesToSkip < nColumns * (symbolSize * nRows) ∧
      (bytes ≠ [] → startCol * (symbolSize * nRows) + bytesToSkip + bytes.length ≤
        symbolSize * (nColumns * nRows + (nRows - 1))) := by
  have hcolumnSize : 0 < symbolSize * nRows := Nat.mul_pos hs hrows
  simp only [writeBytesToColumns, usizeDiv_of_pos hs, usizeDiv_of_pos hcolumnSize,
    usizeRem_of_pos hrows, Nat.mul_div_cancel _ hs, Nat.mul_div_cancel_left _ hs, ok_bind,
    Nat.mod_lt _ hs] at hrun
  -- the assertion that the first column is inside the matrix
  have hcol : startCol + bytesToSkip / (symbolSize * nRows) < nColumns := by
    by_contra hge
    simp [hge, throw, throwThe, MonadExceptOf.throw, bind, Except.bind] at hrun
  simp only [hcol, if_true] at hrun
  have hpos : symbolSize * ((startCol + bytesToSkip / (symbolSize * nRows)) * nRows +
      bytesToSkip / symbolSize % nRows) + bytesToSkip % symbolSize =
        startCol * (symbolSize * nRows) + bytesToSkip := start_symbol_eq startCol bytesToSkip
  have hsymbol : (startCol + bytesToSkip / (symbolSize * nRows)) * nRows +
      bytesToSkip / symbolSize % nRows ≤ nColumns * nRows + (nRows - 1) := by
    have hnext : (startCol + bytesToSkip / (symbolSize * nRows) + 1) * nRows ≤ nColumns * nRows :=
      Nat.mul_le_mul_right _ hcol
    have hrow := Nat.mod_lt (bytesToSkip / symbolSize) hrows
    rw [Nat.succ_mul] at hnext
    omega
  obtain ⟨hlen', hbound⟩ := writeCells_ok bytes hs hrows (bytes.length + 1) data data' _ _ _ 0 hlen
    (Nat.mod_lt _ hrows) (Nat.mod_lt _ hs) hsymbol hrun
  refine ⟨hlen', (start_column_lt_iff hcolumnSize).mp hcol, fun hne => ?_⟩
  have h := hbound (List.length_pos_iff.mpr hne) (by omega)
  rwa [hpos, Nat.sub_zero] at h

end Writer

/-! ## The secondary slivers of the encoded quilt -/

/-- The secondary sliver `col < n_columns` of an encoding of the quilt's data, with the quilt's
symbol size and shape, holds column `col` of the quilt. -/
theorem secondarySliver_data {data : List UInt8} {nRows nColumns symbolSize : Nat}
    (hlen : data.length = nRows * (nColumns * symbolSize)) {encoder : BlobEncoder}
    {encodeP encodeS : List (List UInt8) → List (List UInt8)} (hblob : encoder.blob = data)
    (hsize : encoder.symbolUsize = symbolSize) (hrows : encoder.nRows = nRows)
    (hcols : encoder.nColumns = nColumns) {col : Nat} (hcol : col < nColumns) :
    (encoder.secondarySliver encodeP encodeS col).symbols.data =
      ((List.range nRows).map (symbolAt data (nColumns * symbolSize) symbolSize col)).flatten := by
  simp only [BlobEncoder.secondarySliver, Encoding.Symbols.ofList, hrows]
  congr 1
  apply List.map_congr_left
  intro row hrow
  have hrow' : row < encoder.nRows := by rw [hrows]; exact List.mem_range.mp hrow
  have hcol' : col < encoder.nColumns := by rw [hcols]; exact hcol
  -- the source symbol is the bytes of the data there, which need no padding
  have hsymbol := length_symbolAt hlen hcol (List.mem_range.mp hrow)
  have hsource : (encoder.blob.drop (encoder.symbolUsize * (encoder.nColumns * row + col))).take
      encoder.symbolUsize = symbolAt data (nColumns * symbolSize) symbolSize col row := by
    rw [hblob, hsize, hcols, symbolAt, rangeOf, Nat.add_sub_cancel_left]
    congr 2
    ring
  rw [BlobEncoder.entry_of_lt hrow' hcol', BlobEncoder.messageSymbol_of_lt hcol',
    BlobEncoder.sourceSymbol, hsource, hsize, List.rightpad, hsymbol, Nat.sub_self,
    List.replicate_zero, List.append_nil]

/-- A decoder given the slivers `f 0, …, f (n - 1)`, each with its own index, holds `f j` at
every index `j < n`. -/
theorem QuiltDecoderV1.getSliver_new_range {n j : Nat} {f : Nat → SliverData .secondary}
    (hf : ∀ i, (f i).index = i) (hn : n ≤ 2 ^ 16) (hj : j < n) :
    (QuiltDecoderV1.new ((List.range n).map f)).getSliver j = some (f j) := by
  have hfilter : (List.range n).filter (fun i => decide (i = j)) = [j] := by
    rw [List.filter_eq, List.count_eq_one_of_mem List.nodup_range (List.mem_range.mpr hj)]
    rfl
  simp only [QuiltDecoderV1.getSliver, QuiltDecoderV1.new, List.filter_map, Function.comp_def,
    hf, Nat.mod_eq_of_lt (Nat.lt_of_lt_of_le hj hn), hfilter]
  rfl

/-- Over an encoded quilt of the configuration's shape: the secondary sliver `col < n_columns`
is the piece of `symbol_size * n_rows` bytes at `col` of the column-major order. -/
theorem secondarySliver_column {config : ReedSolomonEncodingConfig} {data : List UInt8}
    {symbolSize nRows nColumns : Nat} {encoder : BlobEncoder} (hs : 0 < symbolSize)
    (heven : symbolSize % 2 = 0) (hrows : (config.nSourceSymbols .primary).get = nRows)
    (hcols : (config.nSourceSymbols .secondary).get = nColumns)
    (hlen : data.length = nRows * (nColumns * symbolSize))
    (hencode : BlobEncoder.new config data = .ok (.ok encoder))
    (encodeP encodeS : List (List UInt8) → List (List UInt8)) {col : Nat} (hcol : col < nColumns) :
    (encoder.secondarySliver encodeP encodeS col).symbols.data =
      ((columnMajor data (nColumns * symbolSize) symbolSize nRows nColumns).drop
        (symbolSize * nRows * col)).take (symbolSize * nRows) := by
  obtain ⟨hwell, hblob, hconfig⟩ := BlobEncoder.new_wellFormed hencode
  have hrowsPos : 0 < nRows := hrows ▸ (config.nSourceSymbols .primary).pos
  have hcolsPos : 0 < nColumns := hcols ▸ (config.nSourceSymbols .secondary).pos
  -- the quilt's symbols fill the message matrix, so the encoder keeps the quilt's symbol size
  have hsize : encoder.symbolUsize = symbolSize := by
    rw [BlobEncoder.symbolUsize_of_new hencode, hlen,
      ReedSolomonEncodingConfig.sourceSymbolsPerBlob,
      ← ReedSolomonEncodingConfig.nSourceSymbols_primary,
      ← ReedSolomonEncodingConfig.nSourceSymbols_secondary, hrows, hcols, ← Nat.mul_assoc]
    exact paddedSymbolSize_mul (Nat.mul_pos hrowsPos hcolsPos) hs heven
  have hencRows : encoder.nRows = nRows := by
    rw [hwell.nRows_eq, hconfig, ← ReedSolomonEncodingConfig.nSourceSymbols_primary, hrows]
  have hencCols : encoder.nColumns = nColumns := by
    rw [hwell.nColumns_eq, hconfig, ← ReedSolomonEncodingConfig.nSourceSymbols_secondary, hcols]
  rw [secondarySliver_data hlen hblob hsize hencRows hencCols hcol, column_columnMajor hlen hcol]

/-- A decoder given every secondary sliver of the encoded quilt holds, at each column of the
quilt, the piece of the column-major order at that column; its column size is that of a
column. -/
theorem decoder_columns {config : ReedSolomonEncodingConfig} {data : List UInt8}
    {symbolSize nRows nColumns : Nat} {encoder : BlobEncoder} (hs : 0 < symbolSize)
    (heven : symbolSize % 2 = 0) (hrows : (config.nSourceSymbols .primary).get = nRows)
    (hcols : (config.nSourceSymbols .secondary).get = nColumns)
    (hlen : data.length = nRows * (nColumns * symbolSize))
    (hencode : BlobEncoder.new config data = .ok (.ok encoder))
    (encodeP encodeS : List (List UInt8) → List (List UInt8)) :
    let decoder := QuiltDecoderV1.new ((List.range config.nShards.get).map
      (encoder.secondarySliver encodeP encodeS))
    decoder.columnSize = some (symbolSize * nRows) ∧
      (∀ j, j < config.nShards.get → (decoder.getSliver j).isSome) ∧
      ∀ j, j < nColumns → (decoder.getSliver j).map (fun sliver => sliver.symbols.data) =
        some (((columnMajor data (nColumns * symbolSize) symbolSize nRows nColumns).drop
          (symbolSize * nRows * j)).take (symbolSize * nRows)) := by
  intro decoder
  have hcolsPos : 0 < nColumns := hcols ▸ (config.nSourceSymbols .secondary).pos
  have hshards : nColumns ≤ config.nShards.get := hcols ▸ config.nSourceSymbols_le .secondary
  have hmax : config.nShards.get ≤ 2 ^ 16 := by
    have := config.nShards.le_max
    unfold u16Max at this
    omega
  have hcolumn := fun col (hcol : col < nColumns) =>
    secondarySliver_column hs heven hrows hcols hlen hencode encodeP encodeS hcol
  refine ⟨?_, fun j hj => ?_, fun j hj => ?_⟩
  · -- the first sliver given is column `0`, of `symbol_size * n_rows` bytes
    obtain ⟨m, hm⟩ : ∃ m, config.nShards.get = m + 1 :=
      ⟨config.nShards.get - 1, by have := config.nShards.pos; omega⟩
    have hcs : symbolSize * nRows ≤
        (columnMajor data (nColumns * symbolSize) symbolSize nRows nColumns).length := by
      rw [length_columnMajor hlen, Nat.mul_comm nColumns nRows, ← Nat.mul_assoc]
      exact Nat.le_mul_of_pos_right _ hcolsPos
    simp only [decoder, QuiltDecoderV1.new, hm, List.range_succ_eq_map, List.map_cons,
      List.head?_cons, Option.map_some, hcolumn 0 hcolsPos, Nat.mul_zero, List.drop_zero,
      List.length_take, Nat.min_eq_left hcs]
  · rw [QuiltDecoderV1.getSliver_new_range (fun i => rfl) hmax hj]
    rfl
  · rw [QuiltDecoderV1.getSliver_new_range (fun i => rfl) hmax (by omega), Option.map_some,
      hcolumn j hj]

/-- Over a quilt of the configuration's shape with an even symbol size, whose encoding has a
repair column (`reed_solomon_simd` encodes nothing without a recovery shard, so an encoded quilt
has fewer columns than shards): for a read that ends inside the matrix, the reader of the quilt
returns the range of the column-major order, the reader of a decoder given the secondary
slivers of the encoded quilt returns the same, and reading back from where
`write_bytes_to_columns` wrote returns the bytes written. -/
theorem quilt_column_readers_agree {config : ReedSolomonEncodingConfig} {data : List UInt8}
    {symbolSize nRows nColumns : Nat} {encoder : BlobEncoder} (hs : 0 < symbolSize)
    (heven : symbolSize % 2 = 0) (hrows : (config.nSourceSymbols .primary).get = nRows)
    (hcols : (config.nSourceSymbols .secondary).get = nColumns)
    (hrepair : nColumns < config.nShards.get)
    (hlen : data.length = nRows * (nColumns * symbolSize))
    (hencode : BlobEncoder.new config data = .ok (.ok encoder))
    (encodeP encodeS : List (List UInt8) → List (List UInt8)) (quiltIndex : Option QuiltIndexV1)
    {startCol bytesToSkip bytesToReturn : Nat}
    (hbound : startCol * (symbolSize * nRows) + bytesToSkip + bytesToReturn ≤
      nColumns * (symbolSize * nRows)) :
    (⟨data, nColumns * symbolSize, symbolSize, quiltIndex⟩ : QuiltV1).rangeReadFromColumns
        startCol bytesToSkip bytesToReturn =
      .ok (((columnMajor data (nColumns * symbolSize) symbolSize nRows nColumns).drop
        (startCol * (symbolSize * nRows) + bytesToSkip)).take bytesToReturn) ∧
    (QuiltDecoderV1.new ((List.range config.nShards.get).map
        (encoder.secondarySliver encodeP encodeS))).rangeReadFromColumns startCol bytesToSkip
        bytesToReturn =
      .ok (((columnMajor data (nColumns * symbolSize) symbolSize nRows nColumns).drop
        (startCol * (symbolSize * nRows) + bytesToSkip)).take bytesToReturn) ∧
    ∀ bytes : List UInt8, bytes.length = bytesToReturn →
      startCol * (symbolSize * nRows) + bytesToSkip < nColumns * (symbolSize * nRows) →
      ∃ data', writeBytesToColumns data bytes startCol (nColumns * symbolSize)
          (symbolSize * nRows) symbolSize bytesToSkip = .ok data' ∧
        (⟨data', nColumns * symbolSize, symbolSize, quiltIndex⟩ : QuiltV1).rangeReadFromColumns
          startCol bytesToSkip bytesToReturn = .ok bytes := by
  have hrowsPos : 0 < nRows := hrows ▸ (config.nSourceSymbols .primary).pos
  have hcolsPos : 0 < nColumns := hcols ▸ (config.nSourceSymbols .secondary).pos
  have hcs : 0 < symbolSize * nRows := Nat.mul_pos hs hrowsPos
  obtain ⟨hsize, hsome, hholds⟩ :=
    decoder_columns hs heven hrows hcols hlen hencode encodeP encodeS
  refine ⟨QuiltV1.rangeReadFromColumns_eq hs hrowsPos hcolsPos hlen hbound, ?decoder, ?write⟩
  case decoder =>
    -- the read starts at a column of the quilt, or at the first repair column if it is empty
    have hstart : startCol ≤ nColumns :=
      Nat.le_of_mul_le_mul_right (by omega : startCol * (symbolSize * nRows) ≤
        nColumns * (symbolSize * nRows)) hcs
    -- every column the decoder reads is a column of the quilt
    have hreads : divCeil (bytesToSkip + bytesToReturn) (symbolSize * nRows) ≤
        nColumns - startCol := by
      have hrest : bytesToSkip + bytesToReturn ≤ symbolSize * nRows * (nColumns - startCol) := by
        rw [Nat.mul_sub, Nat.mul_comm _ nColumns, Nat.mul_comm _ startCol]
        omega
      exact (divCeil_le_iff hcs).mpr hrest
    rw [QuiltDecoderV1.rangeReadFromColumns_eq hcs hsize (hsome startCol (by omega))
      (fun j _ hj => hholds j (by omega)), Nat.mul_comm (symbolSize * nRows) startCol]
  case write =>
    intro bytes hbytes hpos
    obtain ⟨data', hwrite, hlen', hmajor⟩ :=
      writeBytesToColumns_eq hs hrowsPos hlen hpos (by rw [hbytes]; exact hbound)
    have hback : rangeOf (overwrite (columnMajor data (nColumns * symbolSize) symbolSize nRows
        nColumns) (startCol * (symbolSize * nRows) + bytesToSkip) bytes)
          (startCol * (symbolSize * nRows) + bytesToSkip)
          (startCol * (symbolSize * nRows) + bytesToSkip + bytes.length) = bytes :=
      rangeOf_overwrite_self (by
        rw [length_columnMajor hlen, Nat.mul_left_comm symbolSize nColumns]
        omega)
    rw [rangeOf, Nat.add_sub_cancel_left, hbytes] at hback
    refine ⟨data', hwrite, ?_⟩
    rw [QuiltV1.rangeReadFromColumns_eq hs hrowsPos hcolsPos (hlen'.trans hlen) hbound, hmajor,
      hback]

/-- The bytes `0, 1, …, n - 1`: quilt data whose bytes tell their place. -/
def countingBytes (n : Nat) : List UInt8 := (List.range n).map Nat.toUInt8

/-- The configuration of four shards: two primary and three secondary source symbols. -/
def configFourShards : ReedSolomonEncodingConfig :=
  ⟨nonZeroU16 2 rfl rfl, nonZeroU16 3 rfl rfl, nonZeroU16 4 rfl rfl,
    Nat.le_of_ble_eq_true rfl, Nat.le_of_ble_eq_true rfl, Nat.le_of_ble_eq_true rfl,
    Nat.le_of_ble_eq_true rfl⟩

/-- The encoder of a quilt of two rows of three symbols of two bytes. -/
def encoderFourShards : BlobEncoder :=
  ⟨countingBytes 12, nonZeroU16 2 rfl rfl, 2, 3, configFourShards⟩

/-- A read that starts inside a symbol of column `1` and crosses into column `2`, and the empty
read after the last column. -/
theorem quilt_column_readers_agree_across_columns :
    ((⟨countingBytes 12, 3 * 2, 2, none⟩ : QuiltV1).rangeReadFromColumns 1 1 5 =
        .ok [3, 8, 9, 4, 5] ∧
      (QuiltDecoderV1.new ((List.range 4).map
        (encoderFourShards.secondarySliver id id))).rangeReadFromColumns 1 1 5 =
          .ok [3, 8, 9, 4, 5]) ∧
    ((⟨countingBytes 12, 3 * 2, 2, none⟩ : QuiltV1).rangeReadFromColumns 3 0 0 = .ok [] ∧
      (QuiltDecoderV1.new ((List.range 4).map
        (encoderFourShards.secondarySliver id id))).rangeReadFromColumns 3 0 0 = .ok []) := by
  have hagree := @quilt_column_readers_agree configFourShards (countingBytes 12) 2 2 3
    encoderFourShards (by decide) (by decide) rfl rfl (by decide) (by decide) rfl id id none
  obtain ⟨hquilt, hdecoder, -⟩ := @hagree 1 1 5 (by decide)
  obtain ⟨hquilt', hdecoder', -⟩ := @hagree 3 0 0 (by decide)
  exact ⟨⟨hquilt.trans (by decide), hdecoder.trans (by decide)⟩,
    ⟨hquilt'.trans (by decide), hdecoder'.trans (by decide)⟩⟩

end Walrus.Quilt
