import Walrus.Encoding.DirectEncoding

/-! # `encode_with_metadata` reads the sliver pairs out of the expanded matrix

`ExpandedMessageMatrix::new` fills a matrix of `n_shards` by `n_shards` zero symbols with the
blob, expands the first `n_rows` rows on the secondary axis and then every column on the primary
axis. The result is the expanded matrix of `ExpandedMatrix` (`getExpandedMatrix_eq`).
`get_metadata` never panics on it, and the two writers read the sliver pairs of
`expectedSliverPairs` out of it.

The loops are followed with one state each, a matrix given symbol by symbol (`matrixOf`): after
the rows are expanded, `rowsExpanded`; after the first `k` columns, `columnsExpanded k`.

The main result is `encode_agrees_with_encodeWithMetadata`. For every encoder that
`BlobEncoder::new` returns, `encode` and `encode_with_metadata` give the same sliver pairs, and
`compute_metadata` gives the metadata of `encode_with_metadata`. That includes the case where
the crate rejects a shape: then all three panic with the same message.
-/

namespace Walrus.Encoding

open Machine Slice Merkle

/-- A matrix of `n` by `n` symbols, given symbol by symbol, as a list of rows. -/
def matrixOf (n : Nat) (sym : Nat → Nat → List UInt8) (symbolSize : NonZeroU16) :
    List Symbols :=
  (List.range n).map fun r => Symbols.ofList ((List.range n).map (sym r)) symbolSize

section Matrix

variable {n : Nat} {sym sym' : Nat → Nat → List UInt8} {s : NonZeroU16}

theorem matrixOf_congr (h : ∀ r < n, ∀ c < n, sym r c = sym' r c) :
    matrixOf n sym s = matrixOf n sym' s := by
  apply List.map_congr_left
  intro r hr
  congr 1
  apply List.map_congr_left
  intro c hc
  exact h r (List.mem_range.mp hr) c (List.mem_range.mp hc)

/-- One round of the inner loop of `expand_all_columns`: symbol `x` into row `i`, column `k`. -/
theorem writeSymbol_eq_ok {i k : Nat} {x : List UInt8} (hi : i < n) (hk : k < n)
    (hx : x.length = s.get) (hsym : ∀ r < n, ∀ c < n, (sym r c).length = s.get) :
    (do
      let row ← Slice.get (matrixOf n sym s) i
      let row ← row.copySymbolFromSlice k x
      pure ((matrixOf n sym s).set i row)) =
      (.ok (matrixOf n (fun r c => if r = i ∧ c = k then x else sym r c) s) :
        Except String (List Symbols)) := by
  have hrow : Uniform s.get ((List.range n).map (sym i)) :=
    Uniform.map fun c hc => hsym i hi c (List.mem_range.mp hc)
  rw [Slice.get_eq_ok (by simpa [matrixOf] using hi), ok_bind]
  simp only [matrixOf, List.getElem_map, List.getElem_range]
  rw [Symbols.copySymbolFromSlice_ofList hrow (by simpa using hk) hx, ok_bind, set_map_range,
    set_map_range]
  congr 1
  apply List.map_congr_left
  intro r _
  by_cases hr : r = i
  · subst hr
    rw [if_pos rfl]
    congr 1
    apply List.map_congr_left
    intro c _
    by_cases hc : c = k
    · rw [if_pos hc, if_pos ⟨rfl, hc⟩]
    · rw [if_neg hc, if_neg fun h => hc h.2]
  · rw [if_neg hr]
    congr 1
    apply List.map_congr_left
    intro c _
    rw [if_neg fun h => hr h.1]

/-- The loop of `expand_all_columns` that gathers column `k` of the first `m` rows. -/
theorem gatherColumn_eq {k m : Nat} {g : Nat → List UInt8}
    {f : Symbols → Symbols → Except String Symbols}
    (hf : ∀ column row, f column row = (do
      let symbol ← row.index k
      pure (match column.extend symbol with
        | .ok column => column
        | .error _ => column)))
    (hk : k < n) (hm : m ≤ n) (hsym : ∀ r < n, ∀ c < n, (sym r c).length = s.get)
    (hcol : ∀ r < m, sym r k = g r) :
    ((matrixOf n sym s).take m).foldlM f (Symbols.withCapacity m s) =
      .ok (Symbols.ofList ((List.range m).map g) s) := by
  rw [matrixOf, take_map_range _ hm, List.foldlM_map, Symbols.withCapacity_eq_ofList,
    show ([] : List (List UInt8)) = (List.range 0).map g from rfl]
  apply foldlM_range_eq_ok (F := fun j => Symbols.ofList ((List.range j).map g) s)
  -- round `j` appends symbol `k` of row `j`
  intro j hj
  have hrow : Uniform s.get ((List.range n).map (sym j)) :=
    Uniform.map fun c hc => hsym j (by omega) c (List.mem_range.mp hc)
  rw [hf, Symbols.index_ofList hrow (by simpa using hk), ok_bind]
  simp only [List.getElem_map, List.getElem_range]
  rw [Symbols.extend_ofList (hsym j (by omega) k hk), hcol j hj, List.range_succ, List.map_append]
  rfl

/-- The loop of `expand_all_columns` that writes the repair symbols `symbols` of column `k` into
the rows from `m` on. -/
theorem writeColumn_eq {k m : Nat} {symbols : List (List UInt8)}
    {f : List Symbols → List UInt8 × Nat → Except String (List Symbols)}
    (hf : ∀ matrix symbol rowIndex, f matrix (symbol, rowIndex) = (do
      let row ← Slice.get matrix (m + rowIndex)
      let row ← row.copySymbolFromSlice k symbol
      pure (matrix.set (m + rowIndex) row)))
    (hk : k < n) (hlen : symbols.length = n - m) (hu : Uniform s.get symbols)
    (hsym : ∀ r < n, ∀ c < n, (sym r c).length = s.get) :
    symbols.zipIdx.foldlM f (matrixOf n sym s) =
      .ok (matrixOf n (fun r c => if m ≤ r ∧ c = k then symbols.getD (r - m) [] else sym r c) s) := by
  -- the state after the first `t` rows are written
  let F : Nat → List Symbols := fun t =>
    matrixOf n (fun r c => if m ≤ r ∧ r < m + t ∧ c = k then symbols.getD (r - m) [] else sym r c) s
  have hsymbols : symbols = (List.range (n - m)).map fun t => symbols.getD t [] := by
    apply List.ext_getElem (by simp [hlen])
    intro t h₁ h₂
    simp only [List.getElem_map, List.getElem_range]
    rw [List.getD_eq_getElem?_getD, List.getElem?_eq_getElem h₁, Option.getD_some]
  have h0 : matrixOf n sym s = F 0 :=
    matrixOf_congr fun r _ c _ => (if_neg fun h => Nat.lt_irrefl r (by omega)).symm
  have hend : F (n - m) =
      matrixOf n (fun r c => if m ≤ r ∧ c = k then symbols.getD (r - m) [] else sym r c) s := by
    apply matrixOf_congr
    intro r hr c _
    have hcond : (m ≤ r ∧ r < m + (n - m) ∧ c = k) ↔ (m ≤ r ∧ c = k) := by omega
    simp only [hcond]
  conv_lhs => rw [hsymbols, zipIdx_map_range, List.foldlM_map, h0]
  rw [← hend]
  apply foldlM_range_eq_ok
  -- round `t` writes row `m + t`
  intro t ht
  have hsymF : ∀ r < n, ∀ c < n, ((if m ≤ r ∧ r < m + t ∧ c = k then symbols.getD (r - m) []
      else sym r c)).length = s.get := by
    intro r hr c hc
    split
    · exact Uniform.length_getD hu (by omega)
    · exact hsym r hr c hc
  rw [hf, writeSymbol_eq_ok (by omega) hk (Uniform.length_getD hu (by omega)) hsymF]
  congr 1
  apply matrixOf_congr
  intro r _ c _
  by_cases hrc : r = m + t ∧ c = k
  · obtain ⟨rfl, rfl⟩ := hrc
    rw [if_pos ⟨rfl, rfl⟩, if_pos ⟨Nat.le_add_right m t, by omega, rfl⟩, Nat.add_sub_cancel_left]
  · have hcond : (m ≤ r ∧ r < m + t ∧ c = k) ↔ (m ≤ r ∧ r < m + (t + 1) ∧ c = k) := by omega
    rw [if_neg hrc]
    simp only [hcond]

end Matrix

namespace BlobEncoder

section States

variable (self : BlobEncoder) (encodeP encodeS : List (List UInt8) → List (List UInt8))

/-- The matrix `matrix` of this encoder's blob. -/
def matrixWith (matrix : List Symbols) : ExpandedMessageMatrix :=
  ⟨matrix, self.blob, self.config, self.nRows, self.nColumns, self.symbolSize⟩

/-- The matrix once its first `n_rows` rows are expanded on the secondary axis. -/
def rowsExpanded : List Symbols :=
  matrixOf self.config.nShards.get
    (fun r c => if r < self.nRows then self.rowEntry encodeS r c else self.messageSymbol r c)
    self.symbolSize

/-- The matrix once its first `k` columns are expanded on the primary axis as well. -/
def columnsExpanded (k : Nat) : List Symbols :=
  matrixOf self.config.nShards.get
    (fun r c => if r < self.nRows then self.rowEntry encodeS r c
      else if c < k then self.entry encodeP encodeS r c
      else self.messageSymbol r c)
    self.symbolSize

/-- The matrix once `drop_recovery_symbols` has cut the rows below the first `n_rows` to their
first `n_columns` symbols. -/
def droppedMatrix (sym : Nat → Nat → List UInt8) : List Symbols :=
  (List.range self.config.nShards.get).map fun r => Symbols.ofList
    ((List.range (if r < self.nRows then self.config.nShards.get else self.nColumns)).map (sym r))
    self.symbolSize

end States

variable {self : BlobEncoder} {lib : ReedSolomonSimd}
  {encodeP encodeS : List (List UInt8) → List (List UInt8)}

/-- `fill_systematic_with_rows`: the rows of the blob into the matrix of zeros. -/
theorem fillSystematicWithRows_eq (hw : self.WellFormed) :
    (self.matrixWith (List.replicate self.config.nShards.get
      (Symbols.zeros self.config.nShards.get self.symbolSize))).fillSystematicWithRows =
      .ok (self.matrixWith (matrixOf self.config.nShards.get self.messageSymbol
        self.symbolSize)) := by
  have hzeros : List.replicate self.config.nShards.get
      (Symbols.zeros self.config.nShards.get self.symbolSize) =
      (List.range self.config.nShards.get).map fun _ =>
        Symbols.zeros self.config.nShards.get self.symbolSize := by
    simp
  have hrows : Slice.chunks (self.nColumns * self.symbolSize.get) self.blob = self.rows := rfl
  unfold ExpandedMessageMatrix.fillSystematicWithRows matrixWith
  dsimp only
  rw [hzeros, hrows, zipModifyM_map_range (h := fun r => Symbols.ofList
      (self.filledRow self.config.nShards.get r) self.symbolSize)
    (fun r hr _ => copyDataFromSlice_row hw.nColumns_le hr)
    (fun r _ hr => zeros_eq_filledRow hw hr)]
  rfl

/-- One round of `expand_rows_for_secondary`: row `r < n_rows` gets the repair symbols of its
source symbols after them, or the `expect` panics. -/
theorem expandRow_eq (hw : self.WellFormed) {r : Nat} :
    (do
      let source ← (Symbols.ofList ((List.range self.config.nShards.get).map
        (self.messageSymbol r)) self.symbolSize).indexRange 0 self.nColumns
      let symbols ← self.config.expectRepairSymbols lib .secondary source
      symbols.zipIdx.foldlM (fun (row : Symbols) (symbol, colIndex) =>
          row.copySymbolFromSlice (self.nColumns + colIndex) symbol)
        (Symbols.ofList ((List.range self.config.nShards.get).map (self.messageSymbol r))
          self.symbolSize)) =
      match lib.encoder self.nColumns (self.config.nShards.get - self.nColumns) self.symbolUsize with
      | none => .error "size has already been checked"
      | some encodeS => .ok (Symbols.ofList
          ((List.range self.config.nShards.get).map (self.rowEntry encodeS r)) self.symbolSize) := by
  have hu : Uniform self.symbolSize.get
      ((List.range self.config.nShards.get).map (self.messageSymbol r)) :=
    Uniform.map fun c _ => length_messageSymbol r c
  rw [Symbols.indexRange_ofList hu (by simpa using hw.nColumns_le), ok_bind,
    take_map_range _ hw.nColumns_le, ← Symbols.data_ofList _ self.symbolSize,
    expectRepairSymbols_secondary hw lib (by simp) (Uniform.map fun c _ => length_messageSymbol r c)]
  cases hS : lib.encoder self.nColumns (self.config.nShards.get - self.nColumns)
    self.symbolUsize with
  | none => rfl
  | some encodeS =>
    dsimp only
    rw [ok_bind]
    -- the repair symbols land right of the source symbols
    refine (Symbols.foldlM_copySymbolFromSlice (o := self.nColumns)
      (encodeS ((List.range self.nColumns).map (self.messageSymbol r))) 0
      (fun c _ => length_messageSymbol r c) (lib.uniform_encode hS _)
      (by rw [lib.length_encode hS]; have := hw.nColumns_le; omega)).trans ?_
    congr 2
    apply List.map_congr_left
    intro c hc
    have hc := List.mem_range.mp hc
    by_cases hcol : c < self.nColumns
    · rw [if_neg (by omega), messageSymbol_of_lt hcol, rowEntry, if_pos hcol]
    · have hlen := lib.length_encode hS ((List.range self.nColumns).map (self.messageSymbol r))
      rw [if_pos (by omega), rowEntry, if_neg hcol, ← filledRow_nColumns, Nat.add_zero]
      rfl

/-- `expand_rows_for_secondary`: the first `n_rows` rows expanded on the secondary axis, or the
panic of the `expect` when the crate rejects the shape of the rows. -/
theorem expandRowsForSecondary_eq (hw : self.WellFormed) :
    (self.matrixWith (matrixOf self.config.nShards.get self.messageSymbol
      self.symbolSize)).expandRowsForSecondary lib =
      match lib.encoder self.nColumns (self.config.nShards.get - self.nColumns) self.symbolUsize with
      | none => .error "size has already been checked"
      | some encodeS => .ok (self.matrixWith (self.rowsExpanded encodeS)) := by
  unfold ExpandedMessageMatrix.expandRowsForSecondary matrixWith
  dsimp only
  rw [matrixOf, take_map_range _ hw.nRows_le, List.mapM_map]
  cases hS : lib.encoder self.nColumns (self.config.nShards.get - self.nColumns)
    self.symbolUsize with
  | none =>
    -- the first row panics
    rw [mapM_range_eq_error hw.nRows_pos ((expandRow_eq hw).trans (by rw [hS]))]
    rfl
  | some encodeS =>
    rw [mapM_eq_ok (F := fun r => Symbols.ofList
        ((List.range self.config.nShards.get).map (self.rowEntry encodeS r)) self.symbolSize) ?_,
      ok_bind, drop_map_range]
    · dsimp only
      rw [rowsExpanded, matrixOf, map_range_eq_append _ hw.nRows_le]
      congr 3
      · -- the expanded rows
        apply List.map_congr_left
        intro r hr
        congr 1
        apply List.map_congr_left
        intro c _
        rw [if_pos (List.mem_range.mp hr)]
      · -- the rows below them stay as they were filled
        apply List.map_congr_left
        intro t _
        congr 1
        apply List.map_congr_left
        intro c _
        rw [if_neg (Nat.not_lt.mpr (Nat.le_add_right _ t))]
    · intro r _
      exact (expandRow_eq hw).trans (by rw [hS])

/-- `expand_all_columns`, after the rows are expanded: every column expanded on the primary axis,
or the panic of the `expect` when the crate rejects the shape of the columns. -/
theorem expandAllColumns_eq (hw : self.WellFormed)
    (hS : lib.encoder self.nColumns (self.config.nShards.get - self.nColumns) self.symbolUsize =
      some encodeS) :
    (self.matrixWith (self.rowsExpanded encodeS)).expandAllColumns lib =
      match lib.encoder self.nRows (self.config.nShards.get - self.nRows) self.symbolUsize with
      | none => .error "size has already been checked"
      | some encodeP => .ok (self.matrixWith (self.expandedRows encodeP encodeS)) := by
  have hn : 0 < self.config.nShards.get := Nat.lt_of_lt_of_le hw.nRows_pos hw.nRows_le
  unfold ExpandedMessageMatrix.expandAllColumns
  cases hP : lib.encoder self.nRows (self.config.nShards.get - self.nRows) self.symbolUsize with
  | none =>
    -- column `0` panics
    apply foldlM_range_eq_error hn
    dsimp only [matrixWith, rowsExpanded]
    rw [gatherColumn_eq ?_ hn hw.nRows_le ?_ (g := fun r => self.rowEntry encodeS r 0)
      (fun r hr => if_pos hr), ok_bind,
      expectRepairSymbols_primary hw lib (by simp) (Uniform.map fun r _ => length_rowEntry hS hn), hP]
    · rfl
    · intro column row
      rfl
    · intro r _ c hc
      split
      · exact length_rowEntry hS hc
      · exact length_messageSymbol r c
  | some encodeP =>
    have h0 : self.rowsExpanded encodeS = self.columnsExpanded encodeP encodeS 0 :=
      matrixOf_congr fun r _ c _ => by
        by_cases hr : r < self.nRows
        · rw [if_pos hr, if_pos hr]
        · rw [if_neg hr, if_neg hr, if_neg (Nat.not_lt_zero c)]
    have hend : self.columnsExpanded encodeP encodeS self.config.nShards.get =
        self.expandedRows encodeP encodeS :=
      matrixOf_congr fun r _ c hc => by
        by_cases hr : r < self.nRows
        · rw [if_pos hr, entry, if_pos hr]
        · rw [if_neg hr, if_pos hc]
    dsimp only
    rw [h0, ← hend]
    apply foldlM_range_eq_ok (F := fun k => self.matrixWith (self.columnsExpanded encodeP encodeS k))
    -- round `k` expands column `k`
    intro k hk
    replace hk : k < self.config.nShards.get := hk
    have hsym : ∀ r < self.config.nShards.get, ∀ c < self.config.nShards.get,
        ((if r < self.nRows then self.rowEntry encodeS r c
          else if c < k then self.entry encodeP encodeS r c
          else self.messageSymbol r c)).length = self.symbolSize.get := by
      intro r hr c hc
      split
      · exact length_rowEntry hS hc
      · split
        · exact length_entry_of_nRows_le hP (Nat.le_of_not_lt ‹_›) hr
        · exact length_messageSymbol r c
    dsimp only [matrixWith, columnsExpanded]
    rw [gatherColumn_eq ?_ hk hw.nRows_le hsym (g := fun r => self.rowEntry encodeS r k)
      (fun r hr => if_pos hr), ok_bind,
      expectRepairSymbols_primary hw lib (by simp) (Uniform.map fun r _ => length_rowEntry hS hk),
      hP]
    · dsimp only
      rw [ok_bind, writeColumn_eq ?_ hk (lib.length_encode hP _) (lib.uniform_encode hP _) hsym,
        ok_bind]
      · congr 2
        apply matrixOf_congr
        intro r _ c _
        by_cases hr : r < self.nRows
        · rw [if_neg fun h => Nat.not_le.mpr hr h.1, if_pos hr, if_pos hr]
        · by_cases hc : c = k
          · -- the new repair symbol of column `k`
            subst hc
            rw [if_pos ⟨Nat.le_of_not_lt hr, rfl⟩, if_neg hr, if_pos (Nat.lt_succ_self c), entry,
              if_neg hr]
          · have hck : c < k ↔ c < k + 1 := by omega
            rw [if_neg fun h => hc h.2]
            simp only [hck]
      · intro matrix symbol rowIndex
        rfl
    · intro column row
      rfl

/-- `ExpandedMessageMatrix::new`, as `get_expanded_matrix` calls it: the expanded matrix when
the crate accepts the shapes of both axes, and the panic of an `expect` otherwise. -/
theorem getExpandedMatrix_eq (hw : self.WellFormed) :
    self.getExpandedMatrix lib =
      match lib.encoder self.nRows (self.config.nShards.get - self.nRows) self.symbolUsize,
        lib.encoder self.nColumns (self.config.nShards.get - self.nColumns) self.symbolUsize with
      | some encodeP, some encodeS => .ok (self.matrixWith (self.expandedRows encodeP encodeS))
      | _, _ => .error "size has already been checked" := by
  have hinit : (⟨List.replicate self.config.nShards.get
        (Symbols.zeros self.config.nShards.get self.symbolSize), self.blob, self.config,
        (self.config.nSourceSymbols .primary).get, (self.config.nSourceSymbols .secondary).get,
        self.symbolSize⟩ : ExpandedMessageMatrix) =
      self.matrixWith (List.replicate self.config.nShards.get
        (Symbols.zeros self.config.nShards.get self.symbolSize)) := by
    rw [matrixWith, hw.nRows_eq, hw.nColumns_eq]
    rfl
  unfold getExpandedMatrix ExpandedMessageMatrix.new
  dsimp only
  rw [hinit, fillSystematicWithRows_eq hw, ok_bind, expandRowsForSecondary_eq hw]
  cases hS : lib.encoder self.nColumns (self.config.nShards.get - self.nColumns)
    self.symbolUsize with
  | none =>
    cases lib.encoder self.nRows (self.config.nShards.get - self.nRows) self.symbolUsize <;> rfl
  | some encodeS =>
    dsimp only
    rw [ok_bind, expandAllColumns_eq hw hS]
    cases lib.encoder self.nRows (self.config.nShards.get - self.nRows) self.symbolUsize <;> rfl

/-! ## The metadata and the slivers of the expanded matrix -/

/-- `get_metadata` does not panic on a full matrix of symbols of the symbol size: every symbol
it indexes is there, and the blob of a well-formed encoder fits into a `u64`. -/
theorem getMetadata_isOk (hw : self.WellFormed) (blake2b256 : List UInt8 → Vector UInt8 32)
    {sym : Nat → Nat → List UInt8}
    (hsym : ∀ r < self.config.nShards.get, ∀ c < self.config.nShards.get,
      (sym r c).length = self.symbolSize.get) :
    ∃ metadata, (self.matrixWith (matrixOf self.config.nShards.get sym
      self.symbolSize)).getMetadata blake2b256 = .ok metadata := by
  have hblob : self.blob.length ≤ u64Max := by
    have hfits := hw.fits
    have hs := self.symbolSize.le_max
    have hc := Nat.le_trans hw.nColumns_le self.config.nShards.le_max
    have hr := Nat.le_trans hw.nRows_le self.config.nShards.le_max
    have hcr : self.nColumns * self.nRows ≤ u16Max * u16Max := Nat.mul_le_mul hc hr
    have hall : self.symbolUsize * (self.nColumns * self.nRows) ≤ u16Max * (u16Max * u16Max) :=
      Nat.mul_le_mul hs hcr
    simp only [u16Max, u64Max] at hall ⊢
    omega
  unfold ExpandedMessageMatrix.getMetadata matrixWith
  dsimp only
  -- every row of leaf hashes has `n_shards` entries
  rw [mapM_eq_ok (F := fun row => (List.range self.config.nShards.get).map fun col =>
    leafHash (merkleHash blake2b256) (sym row col)) ?_, ok_bind]
  · set leaves := ((List.range self.config.nShards.get).map fun row =>
        (List.range self.config.nShards.get).map fun col =>
          leafHash (merkleHash blake2b256) (sym row col)).flatten with hleaves
    have hlen : leaves.length = self.config.nShards.get * self.config.nShards.get := by
      rw [hleaves, length_flatten_of_uniform (s := self.config.nShards.get)
        (Uniform.map fun _ _ => by simp)]
      simp
    rw [mapM_eq_ok (F := fun i => (⟨(MerkleTree.buildFromLeafHashes (merkleHash blake2b256)
        (rangeOf leaves (self.config.nShards.get * i) (self.config.nShards.get * (i + 1)))).root,
        (MerkleTree.buildFromLeafHashes (merkleHash blake2b256)
          ((List.range self.config.nShards.get).map fun j =>
            leaves.getD (self.config.nShards.get * j + self.config.nShards.get - 1 - i)
              .empty)).root⟩ : SliverPairMetadata)) ?_, ok_bind, if_pos hblob]
    · exact ⟨_, rfl⟩
    · -- the leaf hashes of every sliver pair are in range
      intro i hi
      have hi := List.mem_range.mp hi
      have hend : self.config.nShards.get * (i + 1) ≤
          self.config.nShards.get * self.config.nShards.get := Nat.mul_le_mul_left _ hi
      rw [Slice.range_eq_ok (Nat.mul_le_mul_left _ (Nat.le_succ i)) (hlen ▸ hend), ok_bind,
        mapM_eq_ok (F := fun j =>
          leaves.getD (self.config.nShards.get * j + self.config.nShards.get - 1 - i) .empty) ?_,
        ok_bind]
      · rfl
      · intro j hj
        have hj := List.mem_range.mp hj
        have hidx : self.config.nShards.get * j + self.config.nShards.get - 1 - i <
            self.config.nShards.get * self.config.nShards.get := by
          have : self.config.nShards.get * (j + 1) ≤
              self.config.nShards.get * self.config.nShards.get := Nat.mul_le_mul_left _ hj
          rw [Nat.mul_succ] at this
          omega
        rw [Slice.get_eq_ok (hlen ▸ hidx), List.getD_eq_getElem?_getD,
          List.getElem?_eq_getElem (hlen ▸ hidx), Option.getD_some]
  · -- every symbol of the matrix is indexed in range
    intro row hrow
    have hrow := List.mem_range.mp hrow
    apply mapM_eq_ok
    intro col hcol
    have hcol := List.mem_range.mp hcol
    have hu : Uniform self.symbolSize.get ((List.range self.config.nShards.get).map (sym row)) :=
      Uniform.map fun c hc => hsym row hrow c (List.mem_range.mp hc)
    rw [Slice.get_eq_ok (by simpa [matrixOf] using hrow), ok_bind]
    simp only [matrixOf, List.getElem_map, List.getElem_range]
    rw [Symbols.index_ofList hu (by simpa using hcol), ok_bind]
    simp only [List.getElem_map, List.getElem_range]
    rfl

theorem emptySliverPairs_eq (hw : self.WellFormed) :
    self.emptySliverPairs = (List.range self.config.nShards.get).map fun i =>
      ⟨⟨Symbols.zeros self.nColumns self.symbolSize, i⟩,
        ⟨Symbols.zeros self.nRows self.symbolSize, self.config.nShards.get - i - 1⟩⟩ := by
  apply List.map_congr_left
  intro i _
  rw [SliverPair.newEmpty, hw.nRows_eq, hw.nColumns_eq]
  rfl

/-- `drop_recovery_symbols` on a full matrix. -/
theorem dropRecoverySymbols_eq (hw : self.WellFormed) {sym : Nat → Nat → List UInt8}
    (hsym : ∀ r < self.config.nShards.get, ∀ c < self.config.nShards.get,
      (sym r c).length = self.symbolSize.get) :
    (self.matrixWith (matrixOf self.config.nShards.get sym self.symbolSize)).dropRecoverySymbols =
      self.matrixWith (self.droppedMatrix sym) := by
  unfold ExpandedMessageMatrix.dropRecoverySymbols matrixWith
  dsimp only
  congr 1
  rw [matrixOf, take_map_range _ hw.nRows_le, drop_map_range, List.map_map, droppedMatrix,
    map_range_eq_append _ hw.nRows_le]
  congr 1
  · -- the first `n_rows` rows are kept whole
    apply List.map_congr_left
    intro r hr
    rw [if_pos (List.mem_range.mp hr)]
  · -- the others are cut to their source symbols
    apply List.map_congr_left
    intro t ht
    have ht := List.mem_range.mp ht
    have hu : Uniform self.symbolSize.get
        ((List.range self.config.nShards.get).map (sym (self.nRows + t))) :=
      Uniform.map fun c hc => hsym _ (by omega) c (List.mem_range.mp hc)
    dsimp only [Function.comp_apply]
    rw [Symbols.truncate_ofList hu, take_map_range _ hw.nColumns_le,
      if_neg (Nat.not_lt.mpr (Nat.le_add_right _ t))]

/-- `write_secondary_slivers`: the secondary sliver of pair `i` is column `n_shards - i - 1` of
the first `n_rows` rows. -/
theorem writeSecondarySlivers_eq (hw : self.WellFormed) {sym : Nat → Nat → List UInt8}
    (hsym : ∀ r < self.config.nShards.get, ∀ c < self.config.nShards.get,
      (sym r c).length = self.symbolSize.get) :
    (self.matrixWith (self.droppedMatrix sym)).writeSecondarySlivers self.emptySliverPairs =
      .ok ((List.range self.config.nShards.get).map fun i =>
        ⟨⟨Symbols.zeros self.nColumns self.symbolSize, i⟩,
          ⟨Symbols.ofList ((List.range self.nRows).map fun r =>
            sym r (self.config.nShards.get - i - 1)) self.symbolSize,
            self.config.nShards.get - i - 1⟩⟩) := by
  have hlen : (self.droppedMatrix sym).length = self.config.nShards.get := by simp [droppedMatrix]
  unfold ExpandedMessageMatrix.writeSecondarySlivers matrixWith
  dsimp only
  rw [emptySliverPairs_eq hw, hlen]
  apply zipModifyM_map_range
  · -- pair `i` reads column `n_shards - i - 1`
    intro i hi _
    have hi : i < self.config.nShards.get := by simpa using hi
    have hzeros : List.replicate self.nRows (List.replicate self.symbolSize.get (0 : UInt8)) =
        (List.range self.nRows).map fun _ => List.replicate self.symbolSize.get 0 := by
      simp
    simp only [List.getElem_range]
    rw [Symbols.zeros_eq_ofList, hzeros, Symbols.zipSymbolsMut_map_range
      (h := fun r => sym r (self.config.nShards.get - i - 1)) (fun _ _ => List.length_replicate)
      ?_ ?_, ok_bind]
    · rfl
    · intro r hr hrn
      have hrow : Uniform self.symbolSize.get
          ((List.range self.config.nShards.get).map (sym r)) :=
        Uniform.map fun c hc => hsym r (by have := hw.nRows_le; omega) c (List.mem_range.mp hc)
      have hpair : SliverPairIndex.tryFrom i = some i :=
        if_pos (Nat.le_trans (Nat.le_of_lt hi) self.config.nShards.le_max)
      simp only [droppedMatrix, List.getElem_map, List.getElem_range, if_pos hrn]
      rw [ExpandedMessageMatrix.expandedColumnSymbol, hpair]
      dsimp only
      rw [show SliverPairIndex.toSliverIndex .secondary self.config.nShards i =
          self.config.nShards.get - i - 1 from rfl,
        Symbols.index_ofList hrow (by simp only [List.length_map, List.length_range]; omega),
        ok_bind, copyFromSlice_eq_ok (Nat.zero_le _) (Nat.le_refl _)]
      · simp
      · simp only [List.getElem_map, List.getElem_range, List.length_replicate, Nat.sub_zero]
        exact hsym r (by have := hw.nRows_le; omega) _ (by omega)
    · intro r hr hle
      rw [hlen] at hle
      have := hw.nRows_le
      omega
  · intro i _ hle
    simp at hle
    omega

/-- `write_primary_slivers`: the primary sliver of pair `i` is row `i`, cut to its first
`n_columns` symbols. -/
theorem writePrimarySlivers_eq (hw : self.WellFormed) {sym : Nat → Nat → List UInt8}
    (hsym : ∀ r < self.config.nShards.get, ∀ c < self.config.nShards.get,
      (sym r c).length = self.symbolSize.get) (secondary : Nat → SliverData .secondary) :
    (self.matrixWith (self.droppedMatrix sym)).writePrimarySlivers
      ((List.range self.config.nShards.get).map fun i =>
        ⟨⟨Symbols.zeros self.nColumns self.symbolSize, i⟩, secondary i⟩) =
      (List.range self.config.nShards.get).map fun i =>
        ⟨⟨Symbols.ofList ((List.range self.nColumns).map (sym i)) self.symbolSize, i⟩,
          secondary i⟩ := by
  unfold ExpandedMessageMatrix.writePrimarySlivers matrixWith
  dsimp only
  rw [droppedMatrix, zipWith_map_range, List.drop_eq_nil_of_le (by simp), List.append_nil]
  apply List.map_congr_left
  intro i hi
  have hi := List.mem_range.mp hi
  -- both lengths of a row are at least `n_columns`
  have hcut : self.nColumns ≤ if i < self.nRows then self.config.nShards.get else self.nColumns := by
    split
    · exact hw.nColumns_le
    · exact Nat.le_refl _
  have hu : Uniform self.symbolSize.get ((List.range
      (if i < self.nRows then self.config.nShards.get else self.nColumns)).map (sym i)) :=
    Uniform.map fun c hc => hsym i hi c (by
      have := List.mem_range.mp hc
      split at this
      · exact this
      · exact Nat.lt_of_lt_of_le this hw.nColumns_le)
  rw [Symbols.truncate_ofList hu, ← hw.nColumns_eq, take_map_range _ hcut]

/-! ## `encode_with_metadata` and `compute_metadata` -/

section Paths

variable (blake2b256 : List UInt8 → Vector UInt8 32)

theorem expandedRows_eq_matrixOf :
    self.expandedRows encodeP encodeS =
      matrixOf self.config.nShards.get (self.entry encodeP encodeS) self.symbolSize :=
  rfl

/-- When the crate accepts both shapes, `encode_with_metadata` gives the sliver pairs of the
expanded matrix with the metadata `compute_metadata` gives. -/
theorem encodeWithMetadata_eq (hw : self.WellFormed)
    (hP : lib.encoder self.nRows (self.config.nShards.get - self.nRows) self.symbolUsize =
      some encodeP)
    (hS : lib.encoder self.nColumns (self.config.nShards.get - self.nColumns) self.symbolUsize =
      some encodeS) :
    self.encodeWithMetadata lib blake2b256 =
      (self.computeMetadata lib blake2b256).map fun metadata =>
        (self.expectedSliverPairs encodeP encodeS, metadata) := by
  have hsym : ∀ r < self.config.nShards.get, ∀ c < self.config.nShards.get,
      (self.entry encodeP encodeS r c).length = self.symbolSize.get :=
    fun r hr c hc => length_entry hP hS hr hc
  obtain ⟨metadata, hmeta⟩ := getMetadata_isOk hw blake2b256 hsym
  unfold encodeWithMetadata computeMetadata
  rw [getExpandedMatrix_eq hw, hP, hS]
  dsimp only
  rw [expandedRows_eq_matrixOf, ok_bind, ok_bind, hmeta, ok_bind, dropRecoverySymbols_eq hw hsym,
    writeSecondarySlivers_eq hw hsym, ok_bind, writePrimarySlivers_eq hw hsym]
  -- pair `i` holds column `n_shards - i - 1`, which is `n_shards - 1 - i`
  congr 3
  funext i
  rw [Nat.sub_right_comm]
  rfl

/-- When the crate rejects a shape, `encode_with_metadata` and `compute_metadata` panic in the
same `expect`. -/
theorem encodeWithMetadata_eq_error (hw : self.WellFormed)
    (h : lib.encoder self.nRows (self.config.nShards.get - self.nRows) self.symbolUsize = none ∨
      lib.encoder self.nColumns (self.config.nShards.get - self.nColumns) self.symbolUsize = none) :
    self.encodeWithMetadata lib blake2b256 = .error "size has already been checked" ∧
      self.computeMetadata lib blake2b256 = .error "size has already been checked" := by
  unfold encodeWithMetadata computeMetadata
  rw [getExpandedMatrix_eq hw]
  rcases h with hP | hS
  · rw [hP]
    exact ⟨rfl, rfl⟩
  · rw [hS]
    cases lib.encoder self.nRows (self.config.nShards.get - self.nRows) self.symbolUsize <;>
      exact ⟨rfl, rfl⟩

/-- `compute_metadata` does not panic when the crate accepts both shapes. -/
theorem computeMetadata_isOk (hw : self.WellFormed)
    (hP : lib.encoder self.nRows (self.config.nShards.get - self.nRows) self.symbolUsize =
      some encodeP)
    (hS : lib.encoder self.nColumns (self.config.nShards.get - self.nColumns) self.symbolUsize =
      some encodeS) :
    ∃ metadata, self.computeMetadata lib blake2b256 = .ok metadata := by
  unfold computeMetadata
  rw [getExpandedMatrix_eq hw, hP, hS]
  exact getMetadata_isOk hw blake2b256 fun r hr c hc => length_entry hP hS hr hc

end Paths

/-! ## The two paths agree -/

theorem encode_agrees_with_encodeWithMetadata (config : ReedSolomonEncodingConfig)
    (blob : List UInt8) (encoder : BlobEncoder)
    (hnew : BlobEncoder.new config blob = .ok (.ok encoder)) (lib : ReedSolomonSimd)
    (blake2b256 : List UInt8 → Vector UInt8 32) :
    encoder.encode lib = (encoder.encodeWithMetadata lib blake2b256).map Prod.fst ∧
      encoder.computeMetadata lib blake2b256 =
        (encoder.encodeWithMetadata lib blake2b256).map Prod.snd := by
  obtain ⟨hw, -, -⟩ := new_wellFormed hnew
  rw [encode_eq hw]
  -- the two shapes the crate is asked for: a rejected one makes every path panic alike
  cases hP : lib.encoder encoder.nRows (encoder.config.nShards.get - encoder.nRows)
    encoder.symbolUsize with
  | none =>
    obtain ⟨h, hmeta⟩ := encodeWithMetadata_eq_error blake2b256 hw (.inl hP)
    rw [h, hmeta]
    exact ⟨rfl, rfl⟩
  | some encodeP =>
    cases hS : lib.encoder encoder.nColumns (encoder.config.nShards.get - encoder.nColumns)
      encoder.symbolUsize with
    | none =>
      obtain ⟨h, hmeta⟩ := encodeWithMetadata_eq_error blake2b256 hw (.inr hS)
      rw [h, hmeta]
      exact ⟨rfl, rfl⟩
    | some encodeS =>
      obtain ⟨metadata, hmeta⟩ := computeMetadata_isOk blake2b256 hw hP hS
      rw [encodeWithMetadata_eq blake2b256 hw hP hS, hmeta]
      exact ⟨rfl, rfl⟩

end BlobEncoder

/-- Four shards: two primary and three secondary source symbols. -/
def sampleConfig : ReedSolomonEncodingConfig where
  sourceSymbolsPrimary := ⟨2, by decide, by decide⟩
  sourceSymbolsSecondary := ⟨3, by decide, by decide⟩
  nShards := ⟨4, by decide, by decide⟩
  primary_lt_max := by decide
  secondary_lt_max := by decide
  secondary_le := by decide
  primary_le := by decide

/-- An encoder that accepts every shape and whose repair symbols are zero. -/
def zeroRepair : ReedSolomonSimd where
  encoder _ recoveryCount shardBytes :=
    some fun _ => List.replicate recoveryCount (List.replicate shardBytes 0)
  length_encode := by
    intro _ _ _ _ h originals
    cases h
    simp
  uniform_encode := by
    intro _ _ _ _ h originals
    cases h
    intro x hx
    simp_all

/-- The encoder of a three-byte blob: symbols of two bytes. -/
def sampleEncoder : BlobEncoder := ⟨[1, 2, 3], ⟨2, by decide, by decide⟩, 2, 3, sampleConfig⟩

theorem encode_agrees_with_encodeWithMetadata_on_sample :
    BlobEncoder.new sampleConfig [1, 2, 3] = .ok (.ok sampleEncoder) ∧
      (sampleEncoder.encode zeroRepair =
          (sampleEncoder.encodeWithMetadata zeroRepair fun _ => Vector.replicate 32 0).map
            Prod.fst ∧
        sampleEncoder.computeMetadata zeroRepair (fun _ => Vector.replicate 32 0) =
          (sampleEncoder.encodeWithMetadata zeroRepair fun _ => Vector.replicate 32 0).map
            Prod.snd) :=
  ⟨rfl, BlobEncoder.encode_agrees_with_encodeWithMetadata sampleConfig [1, 2, 3] sampleEncoder rfl
    zeroRepair fun _ => Vector.replicate 32 0⟩

end Walrus.Encoding
