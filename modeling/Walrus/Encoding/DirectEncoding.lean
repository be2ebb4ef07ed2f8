import Walrus.Encoding.ExpandedMatrix

/-! # `encode` computes the sliver pairs of the expanded matrix

`BlobEncoder::encode` never builds the expanded matrix. It copies the blob into the first
`n_rows` primary slivers and the first `n_columns` secondary slivers, fills the other primary
slivers column by column with the repair symbols of the secondary slivers, and the other
secondary slivers row by row with the repair symbols of the primary slivers.

Each of the four loops gets a lemma that gives its result. The states are families of slivers
(`sliversOf`): between the two repair loops the primary slivers are `primaryAfter k` after `k`
columns, and the secondary slivers are `secondaryAfter k` after `k` rows. Together they give
`encode_eq`: when the crate accepts the shapes of both axes, the sliver pairs are
`expectedSliverPairs`. Otherwise `encode` panics in the `expect` of the first repair loop that
needs the rejected shape (`encode_eq_error`).
-/

namespace Walrus.Encoding

open Machine Slice

/-- Slivers `0, …, n - 1` of an axis, sliver `i` holding the symbols
`sym i 0, …, sym i (len - 1)`. -/
def sliversOf (axis : EncodingAxis) (n len : Nat) (sym : Nat → Nat → List UInt8)
    (symbolSize : NonZeroU16) : List (SliverData axis) :=
  (List.range n).map fun i => ⟨Symbols.ofList ((List.range len).map (sym i)) symbolSize, i⟩

section Slivers

variable {axis : EncodingAxis} {n len : Nat} {sym sym' : Nat → Nat → List UInt8}
  {s : NonZeroU16}

theorem sliversOf_congr (h : ∀ i < n, ∀ c < len, sym i c = sym' i c) :
    sliversOf axis n len sym s = sliversOf axis n len sym' s := by
  apply List.map_congr_left
  intro i hi
  congr 2
  apply List.map_congr_left
  intro c hc
  exact h i (List.mem_range.mp hi) c (List.mem_range.mp hc)

theorem take_sliversOf {m : Nat} (hm : m ≤ n) :
    (sliversOf axis n len sym s).take m = sliversOf axis m len sym s :=
  take_map_range _ hm

theorem zipIdx_sliversOf :
    (sliversOf axis n len sym s).zipIdx = (List.range n).map fun i =>
      ((⟨Symbols.ofList ((List.range len).map (sym i)) s, i⟩ : SliverData axis), i) :=
  zipIdx_map_range _

/-- One round of the repair loops of `encode`: the repair symbols `symbols` become symbol `k` of
the slivers from `m` on, and the slivers before `m` are kept. -/
theorem repairRound_eq_ok {m k : Nat} {symbols : List (List UInt8)} (hm : m ≤ n)
    (hk : k < len) (hlen : symbols.length = n - m) (hu : Uniform s.get symbols)
    (hsym : ∀ i < n, ∀ c < len, (sym i c).length = s.get) :
    (do
      let repaired ← zipModifyM (fun sliver symbol => sliver.copySymbolTo k symbol)
        ((sliversOf axis n len sym s).drop m) symbols
      pure ((sliversOf axis n len sym s).take m ++ repaired)) =
      (.ok (sliversOf axis n len
        (fun i c => if m ≤ i ∧ c = k then symbols.getD (i - m) [] else sym i c) s) :
        Except String (List (SliverData axis))) := by
  -- the slivers from `m` on, each with its repair symbol
  have hrepaired : zipModifyM (fun sliver symbol => sliver.copySymbolTo k symbol)
      ((sliversOf axis n len sym s).drop m) symbols =
      .ok ((List.range (n - m)).map fun t =>
        ⟨Symbols.ofList ((List.range len).map fun c =>
          if m ≤ m + t ∧ c = k then symbols.getD (m + t - m) [] else sym (m + t) c) s,
          m + t⟩) := by
    rw [sliversOf, drop_map_range]
    apply zipModifyM_map_range
    · intro t ht _
      have hrow : Uniform s.get ((List.range len).map (sym (m + t))) :=
        Uniform.map fun c hc => hsym (m + t) (by omega) c (List.mem_range.mp hc)
      rw [SliverData.copySymbolTo_ofList hrow (by simpa using hk) (hu _ (List.getElem_mem ht)),
        set_map_range]
      congr 3
      apply List.map_congr_left
      intro c _
      by_cases hc : c = k
      · rw [if_pos hc, if_pos ⟨Nat.le_add_right m t, hc⟩, Nat.add_sub_cancel_left,
          List.getD_eq_getElem?_getD, List.getElem?_eq_getElem ht, Option.getD_some]
      · rw [if_neg hc, if_neg (fun h => hc h.2)]
    · intro t ht hle
      omega
  rw [hrepaired, ok_bind, take_sliversOf hm, sliversOf, sliversOf,
    map_range_eq_append _ hm]
  congr 2
  -- the slivers before `m` keep their symbols
  apply List.map_congr_left
  intro i hi
  have hi := List.mem_range.mp hi
  congr 2
  apply List.map_congr_left
  intro c _
  rw [if_neg (fun h => Nat.not_le.mpr hi h.1)]

end Slivers

namespace BlobEncoder

section States

variable (self : BlobEncoder) (encodeP encodeS : List (List UInt8) → List (List UInt8))

/-- The primary slivers once the repair loop over the columns has encoded the first `k`
columns: below the first `n_rows` slivers, symbol `c < k` is a repair symbol of column `c`. -/
def primaryAfter (k : Nat) : List (SliverData .primary) :=
  sliversOf .primary self.config.nShards.get self.nColumns
    (fun i c => if self.nRows ≤ i ∧ c < k then
        (encodeP ((List.range self.nRows).map fun r => self.messageSymbol r c)).getD
          (i - self.nRows) []
      else self.messageSymbol i c) self.symbolSize

/-- The secondary slivers once the repair loop over the rows has encoded the first `k` rows:
right of the first `n_columns` slivers, symbol `r < k` is a repair symbol of row `r`. -/
def secondaryAfter (k : Nat) : List (SliverData .secondary) :=
  sliversOf .secondary self.config.nShards.get self.nRows
    (fun j r => if self.nColumns ≤ j ∧ r < k then
        (encodeS ((List.range self.nColumns).map (self.messageSymbol r))).getD
          (j - self.nColumns) []
      else self.messageSymbol r j) self.symbolSize

end States

variable {self : BlobEncoder}

theorem emptySlivers_primary (hw : self.WellFormed) :
    self.emptySlivers .primary = (List.range self.config.nShards.get).map fun i =>
      ⟨Symbols.zeros self.nColumns self.symbolSize, i⟩ := by
  rw [emptySlivers, hw.nColumns_eq]
  rfl

theorem emptySlivers_secondary (hw : self.WellFormed) :
    self.emptySlivers .secondary = (List.range self.config.nShards.get).map fun i =>
      ⟨Symbols.zeros self.nRows self.symbolSize, i⟩ := by
  rw [emptySlivers, hw.nRows_eq]
  rfl

/-- The first loop of `encode`: the rows of the blob into the primary slivers. -/
theorem encode_copyRows (hw : self.WellFormed) :
    zipModifyM (fun sliver row => do
        let symbols ← sliver.symbols.copyDataFromSlice 0 row.length row
        pure { sliver with symbols }) (self.emptySlivers .primary) self.rows =
      .ok (sliversOf .primary self.config.nShards.get self.nColumns self.messageSymbol
        self.symbolSize) := by
  rw [emptySlivers_primary hw]
  apply zipModifyM_map_range
  · -- a row of the blob fills its sliver
    intro i hi _
    dsimp only
    rw [copyDataFromSlice_row (Nat.le_refl _) hi, ok_bind]
    rfl
  · -- a sliver past the rows of the blob stays zero
    intro i _ hi
    rw [zeros_eq_filledRow hw hi]
    rfl

/-- Copying the bytes of column `j` into a sliver of `n_rows` zero symbols gives the source
symbols of the column. -/
theorem zipSymbolsMut_column (j : Nat) :
    (Symbols.zeros self.nRows self.symbolSize).zipSymbolsMut
        ((List.range self.nRows).map fun r => self.symbolAt r j)
        (fun dest src => copyFromSlice dest 0 src.length src) =
      .ok (Symbols.ofList ((List.range self.nRows).map fun r => self.sourceSymbol r j)
        self.symbolSize) := by
  have hzeros : List.replicate self.nRows (List.replicate self.symbolSize.get (0 : UInt8)) =
      (List.range self.nRows).map fun _ => List.replicate self.symbolUsize 0 := by
    simp [symbolUsize]
  have hu : Uniform self.symbolSize.get
      ((List.range self.nRows).map fun _ => List.replicate self.symbolUsize (0 : UInt8)) :=
    Uniform.map fun _ _ => List.length_replicate
  -- each source byte string is at most a symbol long, so it fits into the front of its symbol
  have hf : ∀ p ∈ ((List.range self.nRows).map fun _ => List.replicate self.symbolUsize 0).zip
      ((List.range self.nRows).map fun r => self.symbolAt r j),
      copyFromSlice p.1 0 p.2.length p.2 = .ok (p.2 ++ p.1.drop p.2.length) := by
    intro p hp
    obtain ⟨h1, h2⟩ := List.of_mem_zip hp
    obtain ⟨r, -, hr⟩ := List.mem_map.mp h2
    apply copyFromSlice_prefix
    rw [hu _ h1, ← hr]
    exact length_symbolAt_le r j
  rw [Symbols.zeros_eq_ofList, hzeros,
    Symbols.zipSymbolsMut_ofList (F := fun dest src => src ++ dest.drop src.length) hu hf,
    zipWith_map_range, List.drop_eq_nil_of_le (by simp), List.append_nil]
  congr 2
  apply List.map_congr_left
  intro r _
  rw [List.drop_replicate, ← rightpad_symbolAt]
  rfl

/-- The second loop of `encode`: the columns of the blob into the secondary slivers. -/
theorem encode_copyColumns (hw : self.WellFormed) :
    zipModifyM (fun sliver column => do
        let symbols ← sliver.symbols.zipSymbolsMut column fun dest src =>
          Slice.copyFromSlice dest 0 src.length src
        pure { sliver with symbols }) (self.emptySlivers .secondary) self.columnSymbols =
      .ok (sliversOf .secondary self.config.nShards.get self.nRows
        (fun j r => self.messageSymbol r j) self.symbolSize) := by
  rw [emptySlivers_secondary hw, columnSymbols]
  apply zipModifyM_map_range
  · -- a column of the blob fills its sliver
    intro j hj _
    have hj' : j < self.nColumns := by simpa using hj
    simp only [List.getElem_map, List.getElem_range]
    rw [zipSymbolsMut_column j, ok_bind]
    congr 3
    apply List.map_congr_left
    intro r _
    rw [messageSymbol_of_lt hj']
  · -- a sliver right of the columns of the blob stays zero
    intro j _ hj
    have hj' : self.nColumns ≤ j := by simpa using hj
    rw [Symbols.zeros_eq_ofList]
    congr 2
    simp [messageSymbol_of_nColumns_le hj', symbolUsize]

/-! ## The repair loops -/

section Repair

variable {encodeP encodeS : List (List UInt8) → List (List UInt8)}

theorem primaryAfter_zero (encodeP : List (List UInt8) → List (List UInt8)) :
    self.primaryAfter encodeP 0 =
      sliversOf .primary self.config.nShards.get self.nColumns self.messageSymbol
        self.symbolSize :=
  sliversOf_congr fun _ _ c _ => if_neg fun h => Nat.not_lt_zero c h.2

theorem secondaryAfter_zero (encodeS : List (List UInt8) → List (List UInt8)) :
    self.secondaryAfter encodeS 0 =
      sliversOf .secondary self.config.nShards.get self.nRows
        (fun j r => self.messageSymbol r j) self.symbolSize :=
  sliversOf_congr fun _ _ r _ => if_neg fun h => Nat.not_lt_zero r h.2

/-- The first `n_rows` primary slivers are never written by the loop over the columns. -/
theorem take_primaryAfter (hw : self.WellFormed) (k : Nat) :
    (self.primaryAfter encodeP k).take self.nRows =
      sliversOf .primary self.nRows self.nColumns self.messageSymbol self.symbolSize := by
  rw [primaryAfter, take_sliversOf hw.nRows_le]
  exact sliversOf_congr fun _ hi _ _ => if_neg fun h => Nat.not_le.mpr hi h.1

/-- After all columns, the primary slivers are those of the expanded matrix. -/
theorem primaryAfter_nColumns (encodeS : List (List UInt8) → List (List UInt8)) :
    self.primaryAfter encodeP self.nColumns =
      (List.range self.config.nShards.get).map (self.primarySliver encodeP encodeS) := by
  have h : self.primaryAfter encodeP self.nColumns =
      sliversOf .primary self.config.nShards.get self.nColumns
        (self.entry encodeP encodeS) self.symbolSize := by
    apply sliversOf_congr
    intro i _ c hc
    by_cases hi : self.nRows ≤ i
    · rw [if_pos ⟨hi, hc⟩, entry_of_nRows_le_of_lt hi hc]
    · rw [if_neg fun h => hi h.1, entry_of_lt (Nat.lt_of_not_le hi) hc]
  rw [h]
  rfl

/-- After all rows, the secondary slivers are those of the expanded matrix. -/
theorem secondaryAfter_nRows (encodeP : List (List UInt8) → List (List UInt8)) :
    self.secondaryAfter encodeS self.nRows =
      (List.range self.config.nShards.get).map (self.secondarySliver encodeP encodeS) := by
  have h : self.secondaryAfter encodeS self.nRows =
      sliversOf .secondary self.config.nShards.get self.nRows
        (fun j r => self.entry encodeP encodeS r j) self.symbolSize := by
    apply sliversOf_congr
    intro j _ r hr
    by_cases hj : self.nColumns ≤ j
    · rw [if_pos ⟨hj, hr⟩, entry_of_nColumns_le hr hj]
    · rw [if_neg fun h => hj h.1, entry_of_lt hr (Nat.lt_of_not_le hj)]
  rw [h]
  rfl

variable {lib : ReedSolomonSimd}

/-- One round of the loop over the columns: the repair symbols of column `k` become symbol `k`
of the primary slivers below the first `n_rows`. -/
theorem repairColumn_eq_ok (hw : self.WellFormed)
    (hP : lib.encoder self.nRows (self.config.nShards.get - self.nRows) self.symbolUsize =
      some encodeP) {k : Nat} (hk : k < self.nColumns) :
    (do
      let repaired ← Slice.zipModifyM
        (fun (sliver : SliverData .primary) symbol => sliver.copySymbolTo k symbol)
        ((self.primaryAfter encodeP k).drop self.nRows)
        (encodeP ((List.range self.nRows).map fun r => self.messageSymbol r k))
      pure ((self.primaryAfter encodeP k).take self.nRows ++ repaired)) =
      (.ok (self.primaryAfter encodeP (k + 1)) : Except String _) := by
  have hsym : ∀ i < self.config.nShards.get, ∀ c < self.nColumns,
      ((if self.nRows ≤ i ∧ c < k then
          (encodeP ((List.range self.nRows).map fun r => self.messageSymbol r c)).getD
            (i - self.nRows) []
        else self.messageSymbol i c)).length = self.symbolSize.get := by
    intro i hi c _
    split
    · apply Uniform.length_getD (lib.uniform_encode hP _)
      rw [lib.length_encode hP]
      omega
    · exact length_messageSymbol i c
  rw [primaryAfter, repairRound_eq_ok hw.nRows_le hk (lib.length_encode hP _)
    (lib.uniform_encode hP _) hsym, primaryAfter]
  congr 1
  apply sliversOf_congr
  intro i _ c _
  -- symbol `k` is the new one; the others are as before
  by_cases hik : self.nRows ≤ i ∧ c = k
  · obtain ⟨hi, rfl⟩ := hik
    rw [if_pos ⟨hi, rfl⟩, if_pos ⟨hi, Nat.lt_succ_self c⟩]
  · have hcond : (self.nRows ≤ i ∧ c < k) ↔ (self.nRows ≤ i ∧ c < k + 1) := by omega
    rw [if_neg hik]
    simp only [hcond]

/-- One round of the loop over the rows: the repair symbols of row `r` become symbol `r` of the
secondary slivers right of the first `n_columns`. -/
theorem repairRow_eq_ok (hw : self.WellFormed)
    (hS : lib.encoder self.nColumns (self.config.nShards.get - self.nColumns) self.symbolUsize =
      some encodeS) {r : Nat} (hr : r < self.nRows) :
    (do
      let repaired ← Slice.zipModifyM
        (fun (sliver : SliverData .secondary) symbol => sliver.copySymbolTo r symbol)
        ((self.secondaryAfter encodeS r).drop self.nColumns)
        (encodeS ((List.range self.nColumns).map (self.messageSymbol r)))
      pure ((self.secondaryAfter encodeS r).take self.nColumns ++ repaired)) =
      (.ok (self.secondaryAfter encodeS (r + 1)) : Except String _) := by
  have hsym : ∀ j < self.config.nShards.get, ∀ r' < self.nRows,
      ((if self.nColumns ≤ j ∧ r' < r then
          (encodeS ((List.range self.nColumns).map (self.messageSymbol r'))).getD
            (j - self.nColumns) []
        else self.messageSymbol r' j)).length = self.symbolSize.get := by
    intro j hj r' _
    split
    · apply Uniform.length_getD (lib.uniform_encode hS _)
      rw [lib.length_encode hS]
      omega
    · exact length_messageSymbol r' j
  rw [secondaryAfter, repairRound_eq_ok hw.nColumns_le hr (lib.length_encode hS _)
    (lib.uniform_encode hS _) hsym, secondaryAfter]
  congr 1
  apply sliversOf_congr
  intro j _ r' _
  -- symbol `r` is the new one; the others are as before
  by_cases hjr : self.nColumns ≤ j ∧ r' = r
  · obtain ⟨hj, rfl⟩ := hjr
    rw [if_pos ⟨hj, rfl⟩, if_pos ⟨hj, Nat.lt_succ_self r'⟩]
  · have hcond : (self.nColumns ≤ j ∧ r' < r) ↔ (self.nColumns ≤ j ∧ r' < r + 1) := by omega
    rw [if_neg hjr]
    simp only [hcond]

/-- The third loop of `encode`: column by column, the repair symbols of the first `n_columns`
secondary slivers into the primary slivers below the first `n_rows`, or the panic of its
`expect` when the crate rejects the shape of the columns. -/
theorem encode_repairColumns (hw : self.WellFormed) :
    ((sliversOf .secondary self.config.nShards.get self.nRows
        (fun j r => self.messageSymbol r j) self.symbolSize).take self.nColumns).zipIdx.foldlM
      (fun (primarySlivers : List (SliverData .primary)) (column, colIndex) => do
        let symbols ← self.config.expectRepairSymbols lib .primary column.symbols.data
        let repaired ← Slice.zipModifyM
          (fun (sliver : SliverData .primary) symbol => sliver.copySymbolTo colIndex symbol)
          (primarySlivers.drop self.nRows) symbols
        pure (primarySlivers.take self.nRows ++ repaired))
      (sliversOf .primary self.config.nShards.get self.nColumns self.messageSymbol
        self.symbolSize) =
      match lib.encoder self.nRows (self.config.nShards.get - self.nRows) self.symbolUsize with
      | none => .error "size has already been checked"
      | some encodeP => .ok (self.primaryAfter encodeP self.nColumns) := by
  rw [take_sliversOf hw.nColumns_le, zipIdx_sliversOf, List.foldlM_map]
  cases hP : lib.encoder self.nRows (self.config.nShards.get - self.nRows) self.symbolUsize with
  | none =>
    -- the first round panics
    apply foldlM_range_eq_error hw.nColumns_pos
    dsimp only
    rw [expectRepairSymbols_primary hw lib (by simp)
      (Uniform.map fun r _ => length_messageSymbol r 0), hP]
    rfl
  | some encodeP =>
    rw [← primaryAfter_zero encodeP]
    apply foldlM_range_eq_ok
    -- round `k` encodes column `k`
    intro k hk
    dsimp only
    rw [expectRepairSymbols_primary hw lib (by simp)
      (Uniform.map fun r _ => length_messageSymbol r k), hP]
    exact repairColumn_eq_ok hw hP hk

/-- The fourth loop of `encode`: row by row, the repair symbols of the first `n_rows` primary
slivers into the secondary slivers right of the first `n_columns`, or the panic of its `expect`
when the crate rejects the shape of the rows. -/
theorem encode_repairRows (hw : self.WellFormed) (k : Nat) :
    ((self.primaryAfter encodeP k).take self.nRows).zipIdx.foldlM
      (fun (secondarySlivers : List (SliverData .secondary)) (row, r) => do
        let symbols ← self.config.expectRepairSymbols lib .secondary row.symbols.data
        let repaired ← Slice.zipModifyM
          (fun (sliver : SliverData .secondary) symbol => sliver.copySymbolTo r symbol)
          (secondarySlivers.drop self.nColumns) symbols
        pure (secondarySlivers.take self.nColumns ++ repaired))
      (sliversOf .secondary self.config.nShards.get self.nRows
        (fun j r => self.messageSymbol r j) self.symbolSize) =
      match lib.encoder self.nColumns (self.config.nShards.get - self.nColumns) self.symbolUsize with
      | none => .error "size has already been checked"
      | some encodeS => .ok (self.secondaryAfter encodeS self.nRows) := by
  rw [take_primaryAfter hw, zipIdx_sliversOf, List.foldlM_map]
  cases hS : lib.encoder self.nColumns (self.config.nShards.get - self.nColumns)
    self.symbolUsize with
  | none =>
    -- the first round panics
    apply foldlM_range_eq_error hw.nRows_pos
    dsimp only
    rw [expectRepairSymbols_secondary hw lib (by simp)
      (Uniform.map fun c _ => length_messageSymbol 0 c), hS]
    rfl
  | some encodeS =>
    rw [← secondaryAfter_zero encodeS]
    apply foldlM_range_eq_ok
    -- round `r` encodes row `r`
    intro r hr
    dsimp only
    rw [expectRepairSymbols_secondary hw lib (by simp)
      (Uniform.map fun c _ => length_messageSymbol r c), hS]
    exact repairRow_eq_ok hw hS hr

/-! ## `encode` -/

/-- `encode` gives the sliver pairs of the expanded matrix when the crate accepts the shapes of
both axes, and panics in the `expect` of the first repair loop otherwise. -/
theorem encode_eq (hw : self.WellFormed) :
    self.encode lib =
      match lib.encoder self.nRows (self.config.nShards.get - self.nRows) self.symbolUsize,
        lib.encoder self.nColumns (self.config.nShards.get - self.nColumns) self.symbolUsize with
      | some encodeP, some encodeS => .ok (self.expectedSliverPairs encodeP encodeS)
      | _, _ => .error "size has already been checked" := by
  unfold encode
  dsimp only
  rw [encode_copyRows hw, ok_bind, encode_copyColumns hw, ok_bind, encode_repairColumns hw]
  cases hP : lib.encoder self.nRows (self.config.nShards.get - self.nRows) self.symbolUsize with
  | none => rfl
  | some encodeP =>
    dsimp only
    rw [ok_bind, encode_repairRows hw]
    cases hS : lib.encoder self.nColumns (self.config.nShards.get - self.nColumns)
      self.symbolUsize with
    | none => rfl
    | some encodeS =>
      -- pair `i` zips primary sliver `i` with the secondary slivers in reverse order
      dsimp only
      rw [ok_bind, primaryAfter_nColumns encodeS, secondaryAfter_nRows encodeP,
        reverse_map_range, List.zip_map', List.map_map]
      rfl

end Repair

end BlobEncoder

end Walrus.Encoding
