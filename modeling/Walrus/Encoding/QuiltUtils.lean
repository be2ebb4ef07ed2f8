import Mathlib.Algebra.Order.BigOperators.Group.List
import Walrus.Encoding.Config
import Walrus.Machine.BinarySearch

/-! # The symbol size of a quilt (`encoding/quilt_encoding.rs`, module `utils`)

A quilt lays out blobs in the columns of a message matrix of `n_rows` rows and `n_columns`
columns, every blob from the start of a column; the first blob is the quilt index, with its
prefix of the version byte and the four bytes of its size. `utils::compute_symbol_size` finds
the least symbol size at which all blobs fit: a lower bound from three necessary conditions,
an upper bound at which every blob fits in an equal share of the columns, a binary search
between the two with `can_blobs_fit_into_matrix` as the test, and a rounding up to the
alignment of the encoding.

Translation notes.
* The quilt code returns a `QuiltError` or panics; `QuiltFailure` tells the two apart, so that
  "never panics" is a statement about the model.
* `usize` arithmetic wraps in the release profile: the sum of the sizes and the products are
  taken modulo `2 ^ 64` (`usizeWrap`), and `div_ceil` panics on a zero divisor
  (`usizeDivCeil`). The midpoint of the binary search is computed exactly: both bounds are at
  most the largest size (`computeSymbolSize_eq` assumes the sizes sum to less than `2 ^ 63`).
* `next_multiple_of` is `Machine.nextMultipleOf 64`, which wraps.
-/

namespace Walrus.Quilt

open Machine
open Walrus.Encoding (EncodingType)

/-- The number of bytes that store the size of the quilt index. -/
def quiltIndexSizeBytesLength : Nat := 4

/-- The number of bytes that store the version of the quilt. -/
def quiltVersionBytesLength : Nat := 1

/-- The number of bytes stored before the quilt index data. -/
def quiltIndexPrefixSize : Nat := quiltIndexSizeBytesLength + quiltVersionBytesLength

@[simp] theorem quiltIndexPrefixSize_eq : quiltIndexPrefixSize = 5 := rfl

/-- The maximum number of slivers a quilt index can be stored in. -/
def maxNumSliversForQuiltIndex : Nat := 10

/-- `QuiltError` (`encoding/errors.rs`), with the variants the modelled code returns. A `bcs`
error is its message. -/
inductive QuiltError where
  | tooManyBlobs (blobs maxBlobs : Nat)
  | quiltOversize (msg : String)
  | emptyInput (what : String)
  | quiltVersionMismatch (found expected : UInt8)
  | invalidFormatNotAligned (msg : String)
  | failedToExtractQuiltIndexSize
  | quiltIndexSerDerError (bcsError : String)
  | missingSlivers (indices : List Nat)
  | missingQuiltIndex
  | indexOutOfBounds (index maxIndex : Nat)
  | invalidIdentifier (msg : String)
  | duplicateIdentifier (identifier : String)
  | failedToDecodeExtension (extension bcsError : String)
  | blobsNotFoundInQuilt (identifiers : List String)
  | other (msg : String)
deriving DecidableEq, Repr

/-- How a call of the quilt code ends when it does not return its result: with an error it
returns, or with a panic. -/
inductive QuiltFailure where
  | err (e : QuiltError)
  | panic (msg : String)
deriving DecidableEq, Repr

/-- A `usize` result of the release profile: the arithmetic wraps. -/
def usizeWrap (x : Nat) : Nat := x % 2 ^ 64

/-- `usize::div_ceil`, which panics on a zero divisor. -/
def usizeDivCeil (a b : Nat) : Except QuiltFailure Nat :=
  if b = 0 then throw (.panic "attempt to divide by zero") else pure (divCeil a b)

theorem usizeWrap_of_lt {x : Nat} (h : x < 2 ^ 64) : usizeWrap x = x :=
  Nat.mod_eq_of_lt h

theorem usizeDivCeil_of_pos {a b : Nat} (hb : 0 < b) : usizeDivCeil a b = .ok (divCeil a b) := by
  simp [usizeDivCeil, Nat.pos_iff_ne_zero.mp hb, pure, Except.pure]

/-- `utils::can_blobs_fit_into_matrix`: whether the blobs, each from the start of a column of
`column_size` bytes, take at most `n_columns` columns. -/
def canBlobsFitIntoMatrix (blobsSizes : List Nat) (nColumns columnSize : Nat) :
    Except QuiltFailure Bool := do
  let requiredColumns ← blobsSizes.mapM fun blobSize => usizeDivCeil blobSize columnSize
  pure (decide (nColumns ≥ usizeWrap requiredColumns.sum))

/-- `utils::compute_symbol_size`. -/
def computeSymbolSize (blobsSizes : List Nat) (nColumns nRows maxNumColumnsForQuiltIndex : Nat)
    (encodingType : EncodingType) : Except QuiltFailure Nat := do
  if blobsSizes.length > nColumns then
    -- The first column is not user data.
    throw (.err (.tooManyBlobs (blobsSizes.length - 1) (usizeWrap (nColumns + (2 ^ 64 - 1)))))
  match blobsSizes with
  | [] => throw (.err (.emptyInput "blobs"))
  | first :: _ =>
    let bySum ← usizeDivCeil (usizeWrap blobsSizes.sum) (usizeWrap (nColumns * nRows))
    let byIndex ← usizeDivCeil first (usizeWrap (nRows * maxNumColumnsForQuiltIndex))
    let byPrefix ← usizeDivCeil quiltIndexPrefixSize nRows
    let minVal := max (max bySum byIndex) byPrefix
    let maxVal ← usizeDivCeil (blobsSizes.foldl max 0)
      (usizeWrap (nColumns / blobsSizes.length * nRows))
    let minVal ← lowerBound
      (fun mid => canBlobsFitIntoMatrix blobsSizes nColumns (usizeWrap (mid * nRows))) minVal maxVal
    let symbolSize := nextMultipleOf 64 minVal encodingType.requiredAlignment
    let maxSymbolSize := encodingType.maxSymbolSize
    if symbolSize > maxSymbolSize then
      throw (.err (.quiltOversize s!"the resulting symbol size {symbolSize} is larger than the maximum symbol size {maxSymbolSize}; remove some blobs"))
    pure symbolSize

/-! ## The columns the blobs take -/

/-- The number of columns of `columnSize` bytes the blobs take, each from the start of one. -/
def requiredColumns (blobsSizes : List Nat) (columnSize : Nat) : Nat :=
  (blobsSizes.map fun blobSize => divCeil blobSize columnSize).sum

section Columns

variable {blobsSizes : List Nat} {columnSize : Nat}

theorem requiredColumns_cons (blobSize : Nat) :
    requiredColumns (blobSize :: blobsSizes) columnSize =
      divCeil blobSize columnSize + requiredColumns blobsSizes columnSize := by
  rw [requiredColumns, List.map_cons, List.sum_cons]
  rfl

theorem canBlobsFitIntoMatrix_eq (nColumns : Nat) (hc : 0 < columnSize)
    (hwrap : requiredColumns blobsSizes columnSize < 2 ^ 64) :
    canBlobsFitIntoMatrix blobsSizes nColumns columnSize =
      .ok (decide (requiredColumns blobsSizes columnSize ≤ nColumns)) := by
  have hmap : blobsSizes.mapM (fun blobSize => usizeDivCeil blobSize columnSize) =
      .ok (blobsSizes.map fun blobSize => divCeil blobSize columnSize) :=
    mapM_eq_ok fun blobSize _ => usizeDivCeil_of_pos hc
  have hsum : usizeWrap (blobsSizes.map fun blobSize => divCeil blobSize columnSize).sum =
      requiredColumns blobsSizes columnSize := usizeWrap_of_lt hwrap
  simp [canBlobsFitIntoMatrix, hmap, ok_bind, hsum, pure, Except.pure]

/-- The columns cover the bytes of the blobs. -/
theorem sum_le_mul_requiredColumns (hc : 0 < columnSize) :
    blobsSizes.sum ≤ columnSize * requiredColumns blobsSizes columnSize := by
  induction blobsSizes with
  | nil => simp [requiredColumns]
  | cons blobSize rest ih =>
    have hcover := (le_mul_divCeil blobSize hc).1
    simp only [requiredColumns, List.map_cons, List.sum_cons, Nat.mul_add] at ih ⊢
    omega

/-- A blob takes no more columns than it has bytes. -/
theorem requiredColumns_le_sum (hc : 0 < columnSize) :
    requiredColumns blobsSizes columnSize ≤ blobsSizes.sum :=
  calc requiredColumns blobsSizes columnSize
      ≤ (blobsSizes.map id).sum :=
        List.sum_le_sum fun blobSize _ => (divCeil_le_iff hc).mpr (Nat.le_mul_of_pos_left _ hc)
    _ = blobsSizes.sum := by simp

/-- Longer columns take fewer of them. -/
theorem requiredColumns_antitone {c c' : Nat} (hc : 0 < c) (hcc : c ≤ c') :
    requiredColumns blobsSizes c' ≤ requiredColumns blobsSizes c :=
  List.sum_le_sum fun _ _ => divCeil_le_divCeil hc hcc

/-- Blobs that each fit in `q` columns take at most `q` columns each. -/
theorem requiredColumns_le_of_le {q : Nat} (hc : 0 < columnSize)
    (hle : ∀ blobSize ∈ blobsSizes, blobSize ≤ columnSize * q) :
    requiredColumns blobsSizes columnSize ≤ blobsSizes.length * q := by
  have h := List.sum_le_card_nsmul (blobsSizes.map fun blobSize => divCeil blobSize columnSize) q
    (by
      intro x hx
      obtain ⟨blobSize, hb, rfl⟩ := List.mem_map.mp hx
      exact (divCeil_le_iff hc).mpr (hle blobSize hb))
  simpa [requiredColumns] using h

end Columns

/-- `iter().max()` over a list of sizes: at least every size, and at most their sum. -/
theorem le_foldl_max : ∀ (l : List Nat) (a : Nat), a ≤ l.foldl max a ∧ ∀ x ∈ l, x ≤ l.foldl max a
  | [], a => by simp
  | x :: l, a => by
    obtain ⟨hacc, hmem⟩ := le_foldl_max l (max a x)
    refine ⟨by simp only [List.foldl_cons]; omega, ?_⟩
    intro y hy
    rcases List.mem_cons.mp hy with rfl | hy
    · simp only [List.foldl_cons]
      omega
    · exact hmem y hy

theorem foldl_max_le_add : ∀ (l : List Nat) (a : Nat), l.foldl max a ≤ a + l.sum
  | [], a => by simp
  | x :: l, a => by
    have ih := foldl_max_le_add l (max a x)
    simp only [List.foldl_cons, List.sum_cons]
    omega

/-! ## The least symbol size -/

/-- The symbol sizes at which the quilt fits: the blobs take at most `n_columns` columns of
`n_rows` symbols, the first of them (the index) at most `max_num_columns_for_quilt_index`, and
the prefix of the index fits in the first column. -/
def Fits (blobsSizes : List Nat) (nColumns nRows maxNumColumnsForQuiltIndex s : Nat) : Prop :=
  requiredColumns blobsSizes (s * nRows) ≤ nColumns ∧
    blobsSizes.headD 0 ≤ s * nRows * maxNumColumnsForQuiltIndex ∧ quiltIndexPrefixSize ≤ s * nRows

section Spec

variable {blobsSizes : List Nat} {nColumns nRows maxNumColumnsForQuiltIndex : Nat}

/-- A larger symbol size fits too. -/
theorem Fits.mono {s s' : Nat} (h : Fits blobsSizes nColumns nRows maxNumColumnsForQuiltIndex s)
    (hle : s ≤ s') : Fits blobsSizes nColumns nRows maxNumColumnsForQuiltIndex s' := by
  obtain ⟨hcols, hindex, hprefix⟩ := h
  have hmul : s * nRows ≤ s' * nRows := Nat.mul_le_mul_right _ hle
  have hpos : 0 < s * nRows := by rw [quiltIndexPrefixSize_eq] at hprefix; omega
  refine ⟨(requiredColumns_antitone hpos hmul).trans hcols, ?_, by omega⟩
  exact hindex.trans (Nat.mul_le_mul_right _ hmul)

/-- The lower bound of the search keeps exactly the symbol sizes that fit: its bound by the sum
of the sizes is implied by the columns they take. -/
theorem fits_iff {first : Nat} {rest : List Nat} {s : Nat} (hcols : 0 < nColumns)
    (hrows : 0 < nRows) (hidx : 0 < maxNumColumnsForQuiltIndex) :
    (max (max (divCeil (first :: rest).sum (nColumns * nRows))
        (divCeil first (nRows * maxNumColumnsForQuiltIndex)))
        (divCeil quiltIndexPrefixSize nRows) ≤ s ∧
      requiredColumns (first :: rest) (s * nRows) ≤ nColumns) ↔
      Fits (first :: rest) nColumns nRows maxNumColumnsForQuiltIndex s := by
  have hcr : 0 < nColumns * nRows := Nat.mul_pos hcols hrows
  have hri : 0 < nRows * maxNumColumnsForQuiltIndex := Nat.mul_pos hrows hidx
  simp only [Fits, List.headD_cons, Nat.max_le, divCeil_le_iff hcr, divCeil_le_iff hri,
    divCeil_le_iff hrows]
  constructor
  · rintro ⟨⟨⟨-, hindex⟩, hprefix⟩, hreq⟩
    refine ⟨hreq, ?_, ?_⟩
    · calc first ≤ nRows * maxNumColumnsForQuiltIndex * s := hindex
        _ = s * nRows * maxNumColumnsForQuiltIndex := by ring
    · rwa [Nat.mul_comm] at hprefix
  · rintro ⟨hreq, hindex, hprefix⟩
    have hpos : 0 < s * nRows := by rw [quiltIndexPrefixSize_eq] at hprefix; omega
    refine ⟨⟨⟨?_, ?_⟩, by rwa [Nat.mul_comm]⟩, hreq⟩
    · -- the blobs take at most `n_columns` columns, which hold all their bytes
      calc (first :: rest).sum ≤ s * nRows * requiredColumns (first :: rest) (s * nRows) :=
            sum_le_mul_requiredColumns hpos
        _ ≤ s * nRows * nColumns := Nat.mul_le_mul_left _ hreq
        _ = nColumns * nRows * s := by ring
    · calc first ≤ s * nRows * maxNumColumnsForQuiltIndex := hindex
        _ = nRows * maxNumColumnsForQuiltIndex * s := by ring

/-- The binary search of `compute_symbol_size`, between its two bounds, ends at the least
symbol size that fits, when nothing it computes wraps. -/
theorem lowerBound_fits {first : Nat} {rest : List Nat} (hfirst : quiltIndexPrefixSize ≤ first)
    (hrows : 0 < nRows) (hidx : 0 < maxNumColumnsForQuiltIndex)
    (hlen : rest.length + 1 ≤ nColumns) (hsum : (first :: rest).sum < 2 ^ 63)
    (hqr : nColumns / (rest.length + 1) * nRows < 2 ^ 63) :
    ∃ r, lowerBound (fun mid => canBlobsFitIntoMatrix (first :: rest) nColumns
        (usizeWrap (mid * nRows)))
      (max (max (divCeil (first :: rest).sum (nColumns * nRows))
        (divCeil first (nRows * maxNumColumnsForQuiltIndex))) (divCeil quiltIndexPrefixSize nRows))
      (divCeil ((first :: rest).foldl max 0) (nColumns / (rest.length + 1) * nRows)) = .ok r ∧
      IsLeast {s | Fits (first :: rest) nColumns nRows maxNumColumnsForQuiltIndex s} r ∧
      r ≤ (first :: rest).sum := by
  have hcols : 0 < nColumns := by omega
  have hq : 0 < nColumns / (rest.length + 1) := Nat.div_pos hlen (by omega)
  have hshares : (rest.length + 1) * (nColumns / (rest.length + 1)) ≤ nColumns :=
    Nat.mul_div_le nColumns (rest.length + 1)
  obtain ⟨-, hmem⟩ := le_foldl_max (first :: rest) 0
  have hmaxSum := foldl_max_le_add (first :: rest) 0
  have hfirstSum : first ≤ (first :: rest).sum := by simp
  set q := nColumns / (rest.length + 1) with hqdef
  set M := (first :: rest).foldl max 0 with hMdef
  have hqpos : 0 < q * nRows := Nat.mul_pos hq hrows
  set lo := max (max (divCeil (first :: rest).sum (nColumns * nRows))
    (divCeil first (nRows * maxNumColumnsForQuiltIndex))) (divCeil quiltIndexPrefixSize nRows)
    with hlo
  set hi := divCeil M (q * nRows) with hhi
  have hhi_cover : M ≤ q * nRows * hi ∧ q * nRows * hi < M + q * nRows := le_mul_divCeil M hqpos
  have hhi_pos : 0 < hi * nRows := by
    have hM : quiltIndexPrefixSize ≤ M := hfirst.trans (hmem first (by simp))
    rw [quiltIndexPrefixSize_eq] at hM
    have : 0 < hi := by
      rcases Nat.eq_zero_or_pos hi with h0 | h0
      · rw [h0] at hhi_cover
        omega
      · exact h0
    exact Nat.mul_pos this hrows
  -- the search never runs its test at a column of `2 ^ 64` bytes or more
  have hhi_bound : hi * nRows < 2 ^ 64 := by
    have hle : hi * nRows ≤ q * nRows * hi :=
      calc hi * nRows = 1 * nRows * hi := by ring
        _ ≤ q * nRows * hi := Nat.mul_le_mul_right _ (Nat.mul_le_mul_right _ hq)
    omega
  have hlo_pos : 0 < lo := by
    have hpre : 0 < divCeil quiltIndexPrefixSize nRows := by
      rcases Nat.eq_zero_or_pos (divCeil quiltIndexPrefixSize nRows) with h0 | h0
      · have hcover := (le_mul_divCeil quiltIndexPrefixSize hrows).1
        rw [h0, Nat.mul_zero] at hcover
        simp at hcover
      · exact h0
    omega
  have htest : ∀ s, lo ≤ s → s < hi →
      canBlobsFitIntoMatrix (first :: rest) nColumns (usizeWrap (s * nRows)) =
        .ok (decide (requiredColumns (first :: rest) (s * nRows) ≤ nColumns)) := by
    intro s hs hshi
    have hpos : 0 < s * nRows := Nat.mul_pos (by omega) hrows
    have hbound : s * nRows < 2 ^ 64 :=
      (Nat.mul_le_mul_right _ hshi.le).trans_lt hhi_bound
    rw [usizeWrap_of_lt hbound]
    exact canBlobsFitIntoMatrix_eq nColumns hpos
      ((requiredColumns_le_sum hpos).trans_lt (by omega))
  -- the upper bound fits: every blob takes at most an equal share of the columns
  have hfit_hi : requiredColumns (first :: rest) (hi * nRows) ≤ nColumns := by
    have hshare : requiredColumns (first :: rest) (hi * nRows) ≤ (first :: rest).length * q :=
      requiredColumns_le_of_le hhi_pos fun blobSize hb =>
        calc blobSize ≤ M := hmem blobSize hb
          _ ≤ q * nRows * hi := hhi_cover.1
          _ = hi * nRows * q := by ring
    simp only [List.length_cons] at hshare
    omega
  have hmono : ∀ a b, lo ≤ a → a ≤ b → requiredColumns (first :: rest) (a * nRows) ≤ nColumns →
      requiredColumns (first :: rest) (b * nRows) ≤ nColumns := fun a b ha hab hfit =>
    (requiredColumns_antitone (Nat.mul_pos (by omega) hrows) (Nat.mul_le_mul_right _ hab)).trans hfit
  have hmax : requiredColumns (first :: rest) (max lo hi * nRows) ≤ nColumns :=
    (requiredColumns_antitone hhi_pos (Nat.mul_le_mul_right _ (Nat.le_max_right lo hi))).trans
      hfit_hi
  obtain ⟨r, hrun, hleast⟩ := lowerBound_isLeast hmono hmax htest
  have hset : {s | lo ≤ s ∧ requiredColumns (first :: rest) (s * nRows) ≤ nColumns} =
      {s | Fits (first :: rest) nColumns nRows maxNumColumnsForQuiltIndex s} :=
    Set.ext fun _ => fits_iff hcols hrows hidx
  rw [hset] at hleast
  refine ⟨r, hrun, hleast, ?_⟩
  -- the least fit is at most the larger bound, and both bounds are at most the sum
  have hr : r ≤ max lo hi := hleast.2 ((fits_iff hcols hrows hidx).mp ⟨Nat.le_max_left _ _, hmax⟩)
  have hlo_le : lo ≤ (first :: rest).sum := by
    have h1 := divCeil_le_self (first :: rest).sum (Nat.mul_pos hcols hrows)
    have h2 := divCeil_le_self first (Nat.mul_pos hrows hidx)
    have h3 := divCeil_le_self quiltIndexPrefixSize hrows
    omega
  have hhi_le : hi ≤ M := divCeil_le_self M hqpos
  omega

/-- `compute_symbol_size` of sizes that fit in the columns, when nothing it computes wraps: the
least even symbol size at which the quilt fits, or `QuiltOversize` above the largest symbol
size of the encoding. -/
theorem computeSymbolSize_eq (encodingType : EncodingType) {first : Nat} {rest : List Nat}
    (hfirst : quiltIndexPrefixSize ≤ first) (hrows : 0 < nRows)
    (hidx : 0 < maxNumColumnsForQuiltIndex) (hlen : rest.length + 1 ≤ nColumns)
    (hsum : (first :: rest).sum < 2 ^ 63) (hcolsMax : nColumns ≤ u16Max)
    (hrowsMax : nRows ≤ u16Max) (hidxMax : maxNumColumnsForQuiltIndex ≤ u16Max) :
    ∃ s, IsLeast {s | s % 2 = 0 ∧
        Fits (first :: rest) nColumns nRows maxNumColumnsForQuiltIndex s} s ∧
      (s ≤ encodingType.maxSymbolSize → computeSymbolSize (first :: rest) nColumns nRows
        maxNumColumnsForQuiltIndex encodingType = .ok s) ∧
      (encodingType.maxSymbolSize < s → ∃ msg, computeSymbolSize (first :: rest) nColumns nRows
        maxNumColumnsForQuiltIndex encodingType = .error (.err (.quiltOversize msg))) := by
  have hcols : 0 < nColumns := by omega
  have hcr : nColumns * nRows < 2 ^ 32 := by
    have := Nat.mul_le_mul hcolsMax hrowsMax
    unfold u16Max at this
    omega
  have hri : nRows * maxNumColumnsForQuiltIndex < 2 ^ 32 := by
    have := Nat.mul_le_mul hrowsMax hidxMax
    unfold u16Max at this
    omega
  have hqr : nColumns / (rest.length + 1) * nRows < 2 ^ 32 :=
    (Nat.mul_le_mul_right _ (Nat.div_le_self _ _)).trans_lt hcr
  obtain ⟨r, hrun, hleast, hr⟩ := lowerBound_fits hfirst hrows hidx hlen hsum (by omega)
  -- the rounding up to the alignment does not wrap, and keeps the fit
  have hround : nextMultipleOf 64 r 2 = r + r % 2 := nextMultipleOf_two (by omega)
  have heven : IsLeast {s | s % 2 = 0 ∧
      Fits (first :: rest) nColumns nRows maxNumColumnsForQuiltIndex s} (r + r % 2) := by
    refine ⟨⟨by omega, hleast.1.mono (by omega)⟩, ?_⟩
    rintro s ⟨heven, hfits⟩
    have := hleast.2 hfits
    omega
  have hnot : ¬ rest.length + 1 > nColumns := by omega
  have hcall : computeSymbolSize (first :: rest) nColumns nRows maxNumColumnsForQuiltIndex
      encodingType =
      if r + r % 2 > encodingType.maxSymbolSize then
        .error (.err (.quiltOversize s!"the resulting symbol size {r + r % 2} is larger than the maximum symbol size {encodingType.maxSymbolSize}; remove some blobs"))
      else .ok (r + r % 2) := by
    simp only [computeSymbolSize, List.length_cons, hnot, if_false,
      usizeWrap_of_lt (show (first :: rest).sum < 2 ^ 64 by omega),
      usizeWrap_of_lt (show nColumns * nRows < 2 ^ 64 by omega),
      usizeWrap_of_lt (show nRows * maxNumColumnsForQuiltIndex < 2 ^ 64 by omega),
      usizeWrap_of_lt (show nColumns / (rest.length + 1) * nRows < 2 ^ 64 by omega),
      usizeDivCeil_of_pos (Nat.mul_pos hcols hrows), usizeDivCeil_of_pos (Nat.mul_pos hrows hidx),
      usizeDivCeil_of_pos hrows,
      usizeDivCeil_of_pos (Nat.mul_pos (Nat.div_pos hlen (by omega)) hrows), ok_bind, hrun,
      EncodingType.requiredAlignment, hround]
    split <;> rfl
  refine ⟨r + r % 2, heven, fun hle => ?_, fun hgt => ?_⟩
  · rw [hcall, if_neg (by omega)]
  · rw [hcall, if_pos hgt]
    exact ⟨_, rfl⟩

/-- A symbol size that `compute_symbol_size` returns is at most the largest of the encoding,
and it was given at most `n_columns` sizes. -/
theorem computeSymbolSize_ok {encodingType : EncodingType} {s : Nat}
    (h : computeSymbolSize blobsSizes nColumns nRows maxNumColumnsForQuiltIndex encodingType =
      .ok s) :
    s ≤ encodingType.maxSymbolSize ∧ blobsSizes.length ≤ nColumns := by
  unfold computeSymbolSize at h
  -- every branch but the last throws
  split at h
  · simp [throw, throwThe, MonadExceptOf.throw] at h
  · split at h
    · simp [throw, throwThe, MonadExceptOf.throw, bind, Except.bind] at h
    · simp only [bind_eq_ok] at h
      obtain ⟨_, -, _, -, _, -, _, -, _, -, h⟩ := h
      split at h
      · simp [throw, throwThe, MonadExceptOf.throw] at h
      · cases h
        omega

/-- A symbol size that `compute_symbol_size` returns for sizes summing to less than `2 ^ 63`
fits: it computed without wrapping, so it is the least that fits (`computeSymbolSize_eq`). -/
theorem fits_of_computeSymbolSize_ok (encodingType : EncodingType) {first : Nat}
    {rest : List Nat} {s : Nat} (hfirst : quiltIndexPrefixSize ≤ first) (hrows : 0 < nRows)
    (hidx : 0 < maxNumColumnsForQuiltIndex) (hsum : (first :: rest).sum < 2 ^ 63)
    (hcolsMax : nColumns ≤ u16Max) (hrowsMax : nRows ≤ u16Max)
    (hidxMax : maxNumColumnsForQuiltIndex ≤ u16Max)
    (h : computeSymbolSize (first :: rest) nColumns nRows maxNumColumnsForQuiltIndex
      encodingType = .ok s) :
    Fits (first :: rest) nColumns nRows maxNumColumnsForQuiltIndex s := by
  have hlen : rest.length + 1 ≤ nColumns := (computeSymbolSize_ok h).2
  obtain ⟨s', hleast, hok, hover⟩ := computeSymbolSize_eq encodingType hfirst hrows hidx hlen hsum
    hcolsMax hrowsMax hidxMax
  by_cases hs' : s' ≤ encodingType.maxSymbolSize
  · rw [hok hs', Except.ok.injEq] at h
    rw [← h]
    exact hleast.1.2
  · obtain ⟨msg, hmsg⟩ := hover (by omega)
    rw [hmsg] at h
    cases h

end Spec

/-- The symbol size of a quilt. For the sizes of an index (with its prefix of 5 bytes) and of
the blobs, summing to less than `2 ^ 63`, and a matrix of at most `u16::MAX` rows and columns:
`compute_symbol_size` returns `TooManyBlobs` when there are more sizes than columns, and
otherwise never panics and returns the least even symbol size `s` at which the blobs take at most
`n_columns` columns of `s * n_rows` bytes, the index at most ten of them, and the prefix of the
index fits in one, or `QuiltOversize` when that size is above the largest symbol size. -/
theorem compute_symbol_size_least_fit (encodingType : EncodingType) {first : Nat}
    {rest : List Nat} {nColumns nRows : Nat} (hfirst : quiltIndexPrefixSize ≤ first)
    (hcols : 0 < nColumns) (hrows : 0 < nRows) (hsum : (first :: rest).sum < 2 ^ 63)
    (hcolsMax : nColumns ≤ u16Max) (hrowsMax : nRows ≤ u16Max) :
    (∀ msg, computeSymbolSize (first :: rest) nColumns nRows maxNumSliversForQuiltIndex
      encodingType ≠ .error (.panic msg)) ∧
    (nColumns < rest.length + 1 →
      computeSymbolSize (first :: rest) nColumns nRows maxNumSliversForQuiltIndex encodingType =
        .error (.err (.tooManyBlobs rest.length (nColumns - 1)))) ∧
    (rest.length + 1 ≤ nColumns → ∃ s, IsLeast {s | s % 2 = 0 ∧
        Fits (first :: rest) nColumns nRows maxNumSliversForQuiltIndex s} s ∧
      (s ≤ encodingType.maxSymbolSize → computeSymbolSize (first :: rest) nColumns nRows
        maxNumSliversForQuiltIndex encodingType = .ok s) ∧
      (encodingType.maxSymbolSize < s → ∃ msg, computeSymbolSize (first :: rest) nColumns nRows
        maxNumSliversForQuiltIndex encodingType = .error (.err (.quiltOversize msg)))) := by
  -- more sizes than columns: the first check
  have htoo : nColumns < rest.length + 1 →
      computeSymbolSize (first :: rest) nColumns nRows maxNumSliversForQuiltIndex encodingType =
        .error (.err (.tooManyBlobs rest.length (nColumns - 1))) := by
    intro hlt
    have hwrap : usizeWrap (nColumns + (2 ^ 64 - 1)) = nColumns - 1 := by
      unfold usizeWrap u16Max at *
      omega
    unfold computeSymbolSize
    rw [if_pos (show (first :: rest).length > nColumns by simp only [List.length_cons]; omega),
      hwrap]
    rfl
  have hfits := fun hlen : rest.length + 1 ≤ nColumns =>
    computeSymbolSize_eq encodingType hfirst hrows (show 0 < maxNumSliversForQuiltIndex by decide)
      hlen hsum hcolsMax hrowsMax (show maxNumSliversForQuiltIndex ≤ u16Max by decide)
  refine ⟨?_, htoo, hfits⟩
  intro msg hpanic
  by_cases hlen : rest.length + 1 ≤ nColumns
  · obtain ⟨s, -, hok, hover⟩ := hfits hlen
    by_cases hs : s ≤ encodingType.maxSymbolSize
    · rw [hok hs] at hpanic
      cases hpanic
    · obtain ⟨m, hm⟩ := hover (by omega)
      rw [hm] at hpanic
      cases hpanic
  · rw [htoo (by omega)] at hpanic
    cases hpanic

theorem compute_symbol_size_least_fit_index_only :
    quiltIndexPrefixSize ≤ 5 ∧ 0 < 100 ∧ 0 < 1 ∧ [5].sum < 2 ^ 63 ∧ 100 ≤ u16Max ∧ 1 ≤ u16Max ∧
      ((∀ msg, computeSymbolSize [5] 100 1 maxNumSliversForQuiltIndex .rs2 ≠ .error (.panic msg)) ∧
      (100 < ([] : List Nat).length + 1 → computeSymbolSize [5] 100 1 maxNumSliversForQuiltIndex .rs2 =
        .error (.err (.tooManyBlobs ([] : List Nat).length (100 - 1)))) ∧
      (([] : List Nat).length + 1 ≤ 100 → ∃ s, IsLeast {s | s % 2 = 0 ∧
          Fits [5] 100 1 maxNumSliversForQuiltIndex s} s ∧
        (s ≤ EncodingType.rs2.maxSymbolSize →
          computeSymbolSize [5] 100 1 maxNumSliversForQuiltIndex .rs2 = .ok s) ∧
        (EncodingType.rs2.maxSymbolSize < s → ∃ msg,
          computeSymbolSize [5] 100 1 maxNumSliversForQuiltIndex .rs2 =
            .error (.err (.quiltOversize msg))))) :=
  ⟨by decide, by decide, by decide, by decide, by decide, by decide,
    compute_symbol_size_least_fit .rs2 (by decide) (by decide) (by decide) (by decide) (by decide)
      (by decide)⟩

/-- The prefix of the index bounds the symbol size too. An index of 5 bytes alone in 100
columns of one row fits in 3 columns of 2 bytes, within the ten of the index; its prefix needs a
symbol of 5 bytes, which rounds up to 6. -/
theorem compute_symbol_size_prefix_bound :
    computeSymbolSize [5] 100 1 maxNumSliversForQuiltIndex .rs2 = .ok 6 ∧
      requiredColumns [5] (2 * 1) ≤ 100 ∧ 5 ≤ 2 * 1 * maxNumSliversForQuiltIndex :=
  ⟨by decide +kernel, by decide, by decide⟩

end Walrus.Quilt
