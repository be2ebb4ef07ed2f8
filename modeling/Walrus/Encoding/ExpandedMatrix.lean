import Walrus.Encoding.BlobEncoding

/-! # The expanded matrix of a blob

What the two encoding paths of `BlobEncoder` compute, stated once, as a function of a row and
a column. `sourceSymbol r c` is the symbol `(r, c)` of the message matrix: the bytes of the blob
there, padded with zeros. A row below `n_rows` is expanded on the secondary axis (`rowEntry`),
and every column of those rows is expanded on the primary axis (`entry`): `entry r c` is the
symbol `(r, c)` of the expanded matrix. The slivers are its rows and columns
(`primarySliver`, `secondarySliver`, `expectedSliverPairs`).

The encoding functions of the two axes are those the `reed_solomon_simd` crate gives for the
two shapes of the configuration, `encodeP` for columns and `encodeS` for rows.

`WellFormed` is what `BlobEncoder::new` establishes about an encoder (`new_wellFormed`): the
numbers of rows and columns of the configuration, an even symbol size, and a message matrix that
holds the blob.
-/

namespace Walrus.Encoding

open Machine Slice

namespace BlobEncoder

/-- What `BlobEncoder::new` establishes about the encoder it returns. -/
structure WellFormed (encoder : BlobEncoder) : Prop where
  nRows_eq : encoder.nRows = encoder.config.sourceSymbolsPrimary.get
  nColumns_eq : encoder.nColumns = encoder.config.sourceSymbolsSecondary.get
  even : encoder.symbolUsize % 2 = 0
  fits : encoder.blob.length ≤ encoder.symbolUsize * (encoder.nColumns * encoder.nRows)

theorem new_wellFormed {config : ReedSolomonEncodingConfig} {blob : List UInt8}
    {self : BlobEncoder} (h : BlobEncoder.new config blob = .ok (.ok self)) :
    self.WellFormed ∧ self.blob = blob ∧ self.config = config := by
  unfold BlobEncoder.new at h
  obtain ⟨size, hsize, h⟩ := bind_eq_ok.mp h
  cases size with
  | error e => cases h
  | ok s =>
    simp only [pure, Except.pure, Except.map, Except.ok.injEq] at h
    subst h
    have hs := computeSymbolSizeFromUsize_eq_ok config.sourceSymbolsPerBlob_pos hsize
    obtain ⟨hcover, heven, -⟩ := @paddedSymbolSize_least blob.length _
      config.sourceSymbolsPerBlob_pos
    refine ⟨⟨rfl, rfl, ?_, ?_⟩, rfl, rfl⟩
    · simpa [symbolUsize, hs] using heven
    · simp only [symbolUsize, hs, ReedSolomonEncodingConfig.nSourceSymbols_primary,
        ReedSolomonEncodingConfig.nSourceSymbols_secondary]
      have hmax := Nat.le_max_left blob.length 1
      rw [ReedSolomonEncodingConfig.sourceSymbolsPerBlob] at hcover ⊢
      rw [Nat.mul_comm config.sourceSymbolsSecondary.get, Nat.mul_comm]
      omega

/-- The symbol size `BlobEncoder::new` picks: the padded symbol size of the blob over the symbols
of the message matrix. -/
theorem symbolUsize_of_new {config : ReedSolomonEncodingConfig} {blob : List UInt8}
    {self : BlobEncoder} (h : BlobEncoder.new config blob = .ok (.ok self)) :
    self.symbolUsize = paddedSymbolSize blob.length config.sourceSymbolsPerBlob := by
  unfold BlobEncoder.new at h
  obtain ⟨size, hsize, h⟩ := bind_eq_ok.mp h
  cases size with
  | error e => cases h
  | ok s =>
    simp only [pure, Except.pure, Except.map, Except.ok.injEq] at h
    subst h
    exact computeSymbolSizeFromUsize_eq_ok config.sourceSymbolsPerBlob_pos hsize

theorem WellFormed.nRows_pos {self : BlobEncoder} (hw : self.WellFormed) : 0 < self.nRows :=
  hw.nRows_eq ▸ self.config.sourceSymbolsPrimary.pos

theorem WellFormed.nColumns_pos {self : BlobEncoder} (hw : self.WellFormed) :
    0 < self.nColumns :=
  hw.nColumns_eq ▸ self.config.sourceSymbolsSecondary.pos

theorem WellFormed.nRows_le {self : BlobEncoder} (hw : self.WellFormed) :
    self.nRows ≤ self.config.nShards.get :=
  hw.nRows_eq ▸ self.config.nSourceSymbols_le .primary

theorem WellFormed.nColumns_le {self : BlobEncoder} (hw : self.WellFormed) :
    self.nColumns ≤ self.config.nShards.get :=
  hw.nColumns_eq ▸ self.config.nSourceSymbols_le .secondary

variable (self : BlobEncoder)

/-- The symbol `(r, c)` of the message matrix: the bytes of the blob there, padded with zeros. -/
def sourceSymbol (r c : Nat) : List UInt8 :=
  ((self.blob.drop (self.symbolUsize * (self.nColumns * r + c))).take self.symbolUsize).rightpad
    self.symbolUsize 0

/-- The source symbols of row `r`. -/
def sourceRow (r : Nat) : List (List UInt8) :=
  (List.range self.nColumns).map (self.sourceSymbol r)

/-- The source symbols of column `c`. -/
def sourceColumn (c : Nat) : List (List UInt8) :=
  (List.range self.nRows).map fun r => self.sourceSymbol r c

/-- The symbol `(r, c)` of the matrix once it is filled from the blob: the source symbol in
the first `n_columns` columns, zeros right of them. -/
def messageSymbol (r c : Nat) : List UInt8 :=
  if c < self.nColumns then self.sourceSymbol r c else List.replicate self.symbolUsize 0

/-- Row `r` of the matrix after it is filled from the blob, `m` symbols long. -/
def filledRow (m r : Nat) : List (List UInt8) :=
  (List.range m).map (self.messageSymbol r)

variable (encodeP encodeS : List (List UInt8) → List (List UInt8))

/-- Row `r < n_rows` of the expanded matrix: its source symbols, then the repair symbols of
the row on the secondary axis. -/
def rowEntry (r c : Nat) : List UInt8 :=
  if c < self.nColumns then self.sourceSymbol r c
  else (encodeS (self.sourceRow r)).getD (c - self.nColumns) []

/-- The symbol `(r, c)` of the expanded matrix: the rows below `n_rows` hold the repair symbols
of their column on the primary axis. -/
def entry (r c : Nat) : List UInt8 :=
  if r < self.nRows then self.rowEntry encodeS r c
  else (encodeP ((List.range self.nRows).map fun r' => self.rowEntry encodeS r' c)).getD
    (r - self.nRows) []

/-- The expanded matrix, row by row. -/
def expandedRows : List Symbols :=
  (List.range self.config.nShards.get).map fun r =>
    Symbols.ofList ((List.range self.config.nShards.get).map (self.entry encodeP encodeS r))
      self.symbolSize

/-- Primary sliver `i`: row `i` of the expanded matrix, cut to its first `n_columns` symbols. -/
def primarySliver (i : Nat) : SliverData .primary :=
  ⟨Symbols.ofList ((List.range self.nColumns).map (self.entry encodeP encodeS i)) self.symbolSize, i⟩

/-- Secondary sliver `j`: column `j` of the expanded matrix, cut to its first `n_rows`
symbols. -/
def secondarySliver (j : Nat) : SliverData .secondary :=
  ⟨Symbols.ofList ((List.range self.nRows).map fun r => self.entry encodeP encodeS r j)
    self.symbolSize, j⟩

/-- The sliver pairs of the blob: pair `i` holds primary sliver `i` and secondary sliver
`n_shards - 1 - i`. -/
def expectedSliverPairs : List SliverPair :=
  (List.range self.config.nShards.get).map fun i =>
    ⟨self.primarySliver encodeP encodeS i,
      self.secondarySliver encodeP encodeS (self.config.nShards.get - 1 - i)⟩

/-! ## Source symbols -/

variable {self}

theorem length_sourceSymbol (r c : Nat) : (self.sourceSymbol r c).length = self.symbolUsize := by
  simp [sourceSymbol]

/-- A zero symbol past the end of the blob. -/
theorem sourceSymbol_of_drop_eq_nil {r c : Nat}
    (h : self.blob.drop (self.symbolUsize * (self.nColumns * r)) = []) :
    self.sourceSymbol r c = List.replicate self.symbolUsize 0 := by
  have hdrop : self.blob.drop (self.symbolUsize * (self.nColumns * r + c)) = [] := by
    rw [Nat.mul_add, ← List.drop_drop, h, List.drop_nil]
  simp [sourceSymbol, hdrop, List.rightpad]

/-- The rows below the message matrix are zero. -/
theorem sourceSymbol_of_le (hw : self.WellFormed) {r c : Nat} (hr : self.nRows ≤ r) :
    self.sourceSymbol r c = List.replicate self.symbolUsize 0 := by
  apply sourceSymbol_of_drop_eq_nil
  apply List.drop_eq_nil_of_le
  calc self.blob.length ≤ self.symbolUsize * (self.nColumns * self.nRows) := hw.fits
    _ ≤ self.symbolUsize * (self.nColumns * r) :=
      Nat.mul_le_mul_left _ (Nat.mul_le_mul_left _ hr)

theorem length_messageSymbol (r c : Nat) :
    (self.messageSymbol r c).length = self.symbolUsize := by
  unfold messageSymbol
  split
  · exact length_sourceSymbol r c
  · simp

theorem messageSymbol_of_lt {r c : Nat} (hc : c < self.nColumns) :
    self.messageSymbol r c = self.sourceSymbol r c :=
  if_pos hc

theorem messageSymbol_of_nColumns_le {r c : Nat} (hc : self.nColumns ≤ c) :
    self.messageSymbol r c = List.replicate self.symbolUsize 0 :=
  if_neg (Nat.not_lt.mpr hc)

theorem messageSymbol_of_nRows_le (hw : self.WellFormed) {r c : Nat} (hr : self.nRows ≤ r) :
    self.messageSymbol r c = List.replicate self.symbolUsize 0 := by
  unfold messageSymbol
  split
  · exact sourceSymbol_of_le hw hr
  · rfl

/-- The bytes `symbol_at` reads, padded to a symbol, are the source symbol. -/
theorem rightpad_symbolAt (r c : Nat) :
    (self.symbolAt r c).rightpad self.symbolUsize 0 = self.sourceSymbol r c := by
  unfold symbolAt sourceSymbol rangeOf
  congr 1
  by_cases hp : self.symbolUsize * (self.nColumns * r + c) ≤ self.blob.length
  · -- the symbol starts inside the blob, and ends where the blob or the symbol does
    rw [Nat.min_eq_left hp, List.take_eq_take_iff, List.length_drop]
    omega
  · -- the symbol starts past the end of the blob: nothing is read
    have hnil : self.blob.drop (self.symbolUsize * (self.nColumns * r + c)) = [] :=
      List.drop_eq_nil_of_le (by omega)
    rw [Nat.min_eq_right (by omega)]
    dsimp only
    rw [List.drop_length, hnil]
    simp

theorem length_symbolAt_le (r c : Nat) : (self.symbolAt r c).length ≤ self.symbolUsize := by
  have h := congrArg List.length (@rightpad_symbolAt self r c)
  rw [List.length_rightpad, length_sourceSymbol] at h
  omega

theorem filledRow_nColumns (r : Nat) : self.filledRow self.nColumns r = self.sourceRow r := by
  apply List.map_congr_left
  intro c hc
  exact messageSymbol_of_lt (List.mem_range.mp hc)

theorem length_filledRow (m r : Nat) : (self.filledRow m r).length = m := by
  simp [filledRow]

theorem uniform_filledRow (m r : Nat) : Uniform self.symbolUsize (self.filledRow m r) :=
  Uniform.map fun c _ => length_messageSymbol r c

/-- Row `i` of the blob, written into the front of `m ≥ n_columns` zero symbols, fills the
row. -/
theorem copyDataFromSlice_row {m i : Nat} (hm : self.nColumns ≤ m)
    (hi : i < self.rows.length) :
    (Symbols.zeros m self.symbolSize).copyDataFromSlice 0 self.rows[i].length self.rows[i] =
      .ok (Symbols.ofList (self.filledRow m i) self.symbolSize) := by
  have hrow : self.rows[i] = (self.blob.drop (i * (self.nColumns * self.symbolUsize))).take
      (self.nColumns * self.symbolUsize) := getElem_chunks hi
  have hlen : self.rows[i].length ≤ m * self.symbolSize.get := by
    rw [hrow, List.length_take]
    exact Nat.le_trans (Nat.min_le_left _ _) (Nat.mul_le_mul_right _ hm)
  rw [Symbols.copyDataFromSlice_zeros hlen]
  congr 2
  apply List.map_congr_left
  intro c hc
  have hc := List.mem_range.mp hc
  unfold messageSymbol sourceSymbol
  rw [hrow, List.drop_take, List.drop_drop, List.take_take]
  by_cases hcol : c < self.nColumns
  · -- a symbol inside the row: the bytes of the blob there
    rw [if_pos hcol]
    have hpos : self.symbolUsize * (self.nColumns * i + c) =
        i * (self.nColumns * self.symbolUsize) + self.symbolSize.get * c := by
      simp only [symbolUsize]
      rw [Nat.mul_add]
      congr 1
      ac_rfl
    have hmin : min self.symbolSize.get (self.nColumns * self.symbolUsize -
        self.symbolSize.get * c) = self.symbolSize.get := by
      have : self.symbolSize.get * (c + 1) ≤ self.symbolSize.get * self.nColumns :=
        Nat.mul_le_mul_left _ hcol
      simp only [symbolUsize]
      rw [Nat.mul_succ] at this
      rw [Nat.mul_comm self.nColumns]
      omega
    rw [hmin, hpos]
    rfl
  · -- past the row: nothing of the blob is left there
    rw [if_neg hcol]
    have hnil : self.nColumns * self.symbolUsize - self.symbolSize.get * c = 0 := by
      have : self.symbolSize.get * self.nColumns ≤ self.symbolSize.get * c :=
        Nat.mul_le_mul_left _ (Nat.le_of_not_lt hcol)
      simp only [symbolUsize]
      rw [Nat.mul_comm self.nColumns]
      omega
    rw [hnil, Nat.min_zero, List.take_zero]
    simp [List.rightpad, symbolUsize]

/-- A row past the rows of the blob stays zero, which is what filling it would give. -/
theorem zeros_eq_filledRow (hw : self.WellFormed) {m i : Nat} (hi : self.rows.length ≤ i) :
    Symbols.zeros m self.symbolSize = Symbols.ofList (self.filledRow m i) self.symbolSize := by
  have hnil : self.blob.drop (i * (self.nColumns * self.symbolUsize)) = [] :=
    drop_eq_nil_of_length_chunks_le (Nat.mul_pos hw.nColumns_pos self.symbolSize.pos) hi
  have hzeros : List.replicate m (List.replicate self.symbolSize.get (0 : UInt8)) =
      (List.range m).map fun _ => List.replicate self.symbolUsize 0 := by
    simp [symbolUsize]
  rw [Symbols.zeros_eq_ofList, hzeros]
  congr 1
  apply List.map_congr_left
  intro c _
  unfold messageSymbol
  split
  · -- the row starts past the end of the blob
    have hrow : self.blob.drop (self.symbolUsize * (self.nColumns * i)) = [] := by
      rwa [show self.symbolUsize * (self.nColumns * i) = i * (self.nColumns * self.symbolUsize)
        by ac_rfl]
    rw [sourceSymbol_of_drop_eq_nil hrow]
  · rfl

/-! ## The encoder of each axis -/

/-- The repair symbols of a column of `n_rows` symbols: the crate's encoding of the column, or
the panic of the `expect` when the crate rejects the primary shape. -/
theorem expectRepairSymbols_primary (hw : self.WellFormed) (lib : ReedSolomonSimd)
    {xs : List (List UInt8)} (hlen : xs.length = self.nRows) (hu : Uniform self.symbolUsize xs) :
    self.config.expectRepairSymbols lib .primary (Symbols.ofList xs self.symbolSize).data =
      match lib.encoder self.nRows (self.config.nShards.get - self.nRows) self.symbolUsize with
      | none => .error "size has already been checked"
      | some encode => .ok (encode xs) := by
  have hlen' : xs.length = (self.config.nSourceSymbols .primary).get := by
    rw [hlen, hw.nRows_eq]
    rfl
  rw [self.config.expectRepairSymbols_ofList lib .primary hlen' hu hw.even,
    ReedSolomonEncodingConfig.nSourceSymbols_primary, ← hw.nRows_eq]
  rfl

/-- The repair symbols of a row of `n_columns` symbols, on the secondary axis. -/
theorem expectRepairSymbols_secondary (hw : self.WellFormed) (lib : ReedSolomonSimd)
    {xs : List (List UInt8)} (hlen : xs.length = self.nColumns)
    (hu : Uniform self.symbolUsize xs) :
    self.config.expectRepairSymbols lib .secondary (Symbols.ofList xs self.symbolSize).data =
      match lib.encoder self.nColumns (self.config.nShards.get - self.nColumns) self.symbolUsize with
      | none => .error "size has already been checked"
      | some encode => .ok (encode xs) := by
  have hlen' : xs.length = (self.config.nSourceSymbols .secondary).get := by
    rw [hlen, hw.nColumns_eq]
    rfl
  rw [self.config.expectRepairSymbols_ofList lib .secondary hlen' hu hw.even,
    ReedSolomonEncodingConfig.nSourceSymbols_secondary, ← hw.nColumns_eq]
  rfl

/-! ## The expanded matrix -/

variable {encodeP encodeS : List (List UInt8) → List (List UInt8)}

/-- The message matrix is the systematic part of the expanded matrix. -/
theorem entry_of_lt {r c : Nat} (hr : r < self.nRows) (hc : c < self.nColumns) :
    self.entry encodeP encodeS r c = self.messageSymbol r c := by
  rw [entry, if_pos hr, rowEntry, if_pos hc, messageSymbol_of_lt hc]

/-- Below the first `n_rows` rows, column `c` holds the repair symbols of its first `n_rows`
symbols. -/
theorem entry_of_nRows_le {r c : Nat} (hr : self.nRows ≤ r) :
    self.entry encodeP encodeS r c =
      (encodeP ((List.range self.nRows).map fun r' => self.entry encodeP encodeS r' c)).getD
        (r - self.nRows) [] := by
  have hcolumn : ((List.range self.nRows).map fun r' => self.rowEntry encodeS r' c) =
      (List.range self.nRows).map fun r' => self.entry encodeP encodeS r' c :=
    List.map_congr_left fun r' hr' => (if_pos (List.mem_range.mp hr')).symm
  rw [entry, if_neg (Nat.not_lt.mpr hr), hcolumn]

/-- A repair symbol of a source column. -/
theorem entry_of_nRows_le_of_lt {r c : Nat} (hr : self.nRows ≤ r) (hc : c < self.nColumns) :
    self.entry encodeP encodeS r c =
      (encodeP ((List.range self.nRows).map fun r' => self.messageSymbol r' c)).getD
        (r - self.nRows) [] := by
  rw [entry_of_nRows_le hr]
  congr 2
  apply List.map_congr_left
  intro r' hr'
  exact entry_of_lt (List.mem_range.mp hr') hc

/-- Right of the first `n_columns` columns, row `r < n_rows` holds the repair symbols of its
source symbols. -/
theorem entry_of_nColumns_le {r c : Nat} (hr : r < self.nRows) (hc : self.nColumns ≤ c) :
    self.entry encodeP encodeS r c =
      (encodeS ((List.range self.nColumns).map (self.messageSymbol r))).getD
        (c - self.nColumns) [] := by
  rw [entry, if_pos hr, rowEntry, if_neg (Nat.not_lt.mpr hc), ← filledRow_nColumns]
  rfl

section Lengths

variable {lib : ReedSolomonSimd}

/-- The symbols of a row expanded on the secondary axis have the symbol size once the crate
accepts the shape of the rows. -/
theorem length_rowEntry
    (hS : lib.encoder self.nColumns (self.config.nShards.get - self.nColumns) self.symbolUsize =
      some encodeS)
    {r c : Nat} (hc : c < self.config.nShards.get) :
    (self.rowEntry encodeS r c).length = self.symbolUsize := by
  unfold rowEntry
  split
  · exact length_sourceSymbol r c
  · -- a repair symbol of the row
    apply Uniform.length_getD (lib.uniform_encode hS _)
    rw [lib.length_encode hS]
    omega

/-- The symbols of the first `n_rows` rows have the symbol size once the crate accepts the
shape of the rows. -/
theorem length_entry_of_lt_nRows
    (hS : lib.encoder self.nColumns (self.config.nShards.get - self.nColumns) self.symbolUsize =
      some encodeS)
    {r c : Nat} (hr : r < self.nRows) (hc : c < self.config.nShards.get) :
    (self.entry encodeP encodeS r c).length = self.symbolUsize := by
  rw [entry, if_pos hr]
  exact length_rowEntry hS hc

/-- The symbols below the first `n_rows` rows have the symbol size once the crate accepts the
shape of the columns. -/
theorem length_entry_of_nRows_le
    (hP : lib.encoder self.nRows (self.config.nShards.get - self.nRows) self.symbolUsize =
      some encodeP)
    {r c : Nat} (hr : self.nRows ≤ r) (hr' : r < self.config.nShards.get) :
    (self.entry encodeP encodeS r c).length = self.symbolUsize := by
  rw [entry_of_nRows_le hr]
  apply Uniform.length_getD (lib.uniform_encode hP _)
  rw [lib.length_encode hP]
  omega

/-- Every symbol of the expanded matrix has the symbol size, once the crate accepts the shapes
of both axes. -/
theorem length_entry
    (hP : lib.encoder self.nRows (self.config.nShards.get - self.nRows) self.symbolUsize =
      some encodeP)
    (hS : lib.encoder self.nColumns (self.config.nShards.get - self.nColumns) self.symbolUsize =
      some encodeS)
    {r c : Nat} (hr : r < self.config.nShards.get) (hc : c < self.config.nShards.get) :
    (self.entry encodeP encodeS r c).length = self.symbolUsize := by
  by_cases hr' : r < self.nRows
  · exact length_entry_of_lt_nRows hS hr' hc
  · exact length_entry_of_nRows_le hP (Nat.le_of_not_lt hr') hr

end Lengths

end BlobEncoder

end Walrus.Encoding
