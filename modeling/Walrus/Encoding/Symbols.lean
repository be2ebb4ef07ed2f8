import Walrus.Encoding.Config
import Walrus.Machine.Slice

/-! # Symbols and slivers

`Symbols` (`symbols.rs`) is a buffer of bytes read as symbols of `symbol_size` bytes each. A
`SliverData` (`slivers.rs`) is the symbols of one sliver and its index, on the primary or the
secondary axis; a `SliverPair` holds the primary sliver `i` and the secondary sliver
`n_shards - 1 - i`.

Translation notes.
* `SliverData<T>` keeps its axis as a parameter. Sliver indices are `u16`s below `n_shards`,
  so the subtraction of `to_sliver_index` never wraps; they are numbers here.
* The source keeps the invariant that the buffer of `Symbols` holds whole symbols. The
  encoder's buffers are `Symbols.ofList` of a list of symbols of the symbol size, and the lemmas
  of the last section say what each operation does to such a buffer, symbol by symbol.
-/

namespace Walrus.Encoding

open Machine

/-- `Symbols`: the bytes, and the size of one symbol. -/
structure Symbols where
  data : List UInt8
  symbolSize : NonZeroU16
deriving DecidableEq

/-- `WrongSymbolSizeError`. -/
inductive WrongSymbolSizeError where
  | mk
deriving DecidableEq, Repr

namespace Symbols

/-- `symbol_usize`. -/
def symbolUsize (self : Symbols) : Nat := self.symbolSize.get

/-- `Symbols::zeros`. -/
def zeros (nSymbols : Nat) (symbolSize : NonZeroU16) : Symbols :=
  ⟨List.replicate (nSymbols * symbolSize.get) 0, symbolSize⟩

/-- `Symbols::with_capacity`: an empty buffer. -/
def withCapacity (_capacity : Nat) (symbolSize : NonZeroU16) : Symbols :=
  ⟨[], symbolSize⟩

/-- `truncate`: the first `len` symbols. -/
def truncate (self : Symbols) (len : Nat) : Symbols :=
  { self with data := self.data.take (len * self.symbolUsize) }

/-- `extend`: one or more symbols appended. -/
def extend (self : Symbols) (symbols : List UInt8) : Except WrongSymbolSizeError Symbols :=
  if symbols.length % self.symbolUsize ≠ 0 then .error .mk
  else .ok { self with data := self.data ++ symbols }

/-- `symbol_range`: the bytes of the symbols `start..stop`. -/
def symbolRange (self : Symbols) (start stop : Nat) : Nat × Nat :=
  (self.symbolUsize * start, self.symbolUsize * stop)

/-- `self[index]`. -/
def index (self : Symbols) (index : Nat) : Except String (List UInt8) :=
  let range := self.symbolRange index (index + 1)
  Slice.range self.data range.1 range.2

/-- `self[start..stop]`. -/
def indexRange (self : Symbols) (start stop : Nat) : Except String (List UInt8) :=
  let range := self.symbolRange start stop
  Slice.range self.data range.1 range.2

/-- `self[index].copy_from_slice(src)`. -/
def copySymbolFromSlice (self : Symbols) (index : Nat) (src : List UInt8) :
    Except String Symbols := do
  let range := self.symbolRange index (index + 1)
  let data ← Slice.copyFromSlice self.data range.1 range.2 src
  pure { self with data }

/-- `self.data_mut()[start..stop].copy_from_slice(src)`. -/
def copyDataFromSlice (self : Symbols) (start stop : Nat) (src : List UInt8) :
    Except String Symbols := do
  let data ← Slice.copyFromSlice self.data start stop src
  pure { self with data }

/-- `self.to_symbols_mut().zip(ys).for_each(|(dest, y)| f(dest, y))`: every symbol with a
partner rewritten in place. -/
def zipSymbolsMut {β : Type} (self : Symbols) (ys : List β)
    (f : List UInt8 → β → Except String (List UInt8)) : Except String Symbols := do
  let symbols ← Slice.zipModifyM f (Slice.chunks self.symbolUsize self.data) ys
  pure { self with data := symbols.flatten }

/-- The buffer of the symbols `xs`. -/
def ofList (xs : List (List UInt8)) (symbolSize : NonZeroU16) : Symbols :=
  ⟨xs.flatten, symbolSize⟩

end Symbols

/-- `SliverData<T>`: the symbols of a sliver and its index. -/
structure SliverData (axis : EncodingAxis) where
  symbols : Symbols
  index : Nat
deriving DecidableEq

/-- `SliverData::new_empty`: `length` zero symbols. -/
def SliverData.newEmpty {axis : EncodingAxis} (length : Nat) (symbolSize : NonZeroU16)
    (index : Nat) : SliverData axis :=
  ⟨Symbols.zeros length symbolSize, index⟩

/-- `SliverData::copy_symbol_to`. -/
def SliverData.copySymbolTo {axis : EncodingAxis} (self : SliverData axis) (index : Nat)
    (symbol : List UInt8) : Except String (SliverData axis) := do
  if symbol.length ≠ self.symbols.symbolUsize then
    throw "assertion failed: symbol.len() == self.symbols.symbol_usize()"
  let symbols ← self.symbols.copySymbolFromSlice index symbol
  pure { self with symbols }

/-- `SliverPair`. -/
structure SliverPair where
  primary : SliverData .primary
  secondary : SliverData .secondary
deriving DecidableEq

/-- `SliverPairIndex::try_from(usize)`. -/
def SliverPairIndex.tryFrom (index : Nat) : Option Nat :=
  if index ≤ u16Max then some index else none

/-- `SliverPairIndex::to_sliver_index::<E>`. -/
def SliverPairIndex.toSliverIndex (axis : EncodingAxis) (nShards : NonZeroU16) (index : Nat) :
    Nat :=
  if axis.isPrimary then index else nShards.get - index - 1

/-- `SliverPair::new_empty`: a primary sliver of `n_secondary_source_symbols` zero symbols with
the pair's index, and a secondary one of `n_primary_source_symbols` with the mirrored index. -/
def SliverPair.newEmpty (config : ReedSolomonEncodingConfig) (symbolSize : NonZeroU16)
    (index : Nat) : SliverPair :=
  ⟨SliverData.newEmpty config.sourceSymbolsSecondary.get symbolSize index,
    SliverData.newEmpty config.sourceSymbolsPrimary.get symbolSize
      (SliverPairIndex.toSliverIndex .secondary config.nShards index)⟩

/-! ## The operations on a buffer of whole symbols -/

namespace Symbols

open Slice

variable {xs : List (List UInt8)} {s : NonZeroU16}

theorem data_ofList (xs : List (List UInt8)) (s : NonZeroU16) : (ofList xs s).data = xs.flatten :=
  rfl

theorem zeros_eq_ofList (n : Nat) (s : NonZeroU16) :
    zeros n s = ofList (List.replicate n (List.replicate s.get 0)) s := by
  simp [zeros, ofList, List.flatten_replicate_replicate]

theorem withCapacity_eq_ofList (capacity : Nat) (s : NonZeroU16) :
    withCapacity capacity s = ofList [] s := rfl

theorem index_ofList (h : Uniform s.get xs) {i : Nat} (hi : i < xs.length) :
    (ofList xs s).index i = .ok xs[i] :=
  range_flatten h hi

theorem indexRange_ofList (h : Uniform s.get xs) {m : Nat} (hm : m ≤ xs.length) :
    (ofList xs s).indexRange 0 m = .ok (xs.take m).flatten :=
  range_flatten_take h hm

theorem copySymbolFromSlice_ofList (h : Uniform s.get xs) {i : Nat} (hi : i < xs.length)
    {src : List UInt8} (hsrc : src.length = s.get) :
    (ofList xs s).copySymbolFromSlice i src = .ok (ofList (xs.set i src) s) := by
  unfold copySymbolFromSlice symbolRange
  simp only [ofList, symbolUsize]
  rw [copyFromSlice_flatten h hi hsrc]
  rfl

theorem truncate_ofList (h : Uniform s.get xs) (m : Nat) :
    (ofList xs s).truncate m = ofList (xs.take m) s := by
  simp only [truncate, ofList, symbolUsize, Symbols.mk.injEq, and_true]
  rw [Nat.mul_comm, take_flatten_of_uniform m h]

theorem extend_ofList {symbol : List UInt8} (hsymbol : symbol.length = s.get) :
    (ofList xs s).extend symbol = .ok (ofList (xs ++ [symbol]) s) := by
  simp [extend, ofList, symbolUsize, hsymbol]

theorem zipSymbolsMut_ofList {β : Type} (h : Uniform s.get xs) {ys : List β}
    {f : List UInt8 → β → Except String (List UInt8)} {F : List UInt8 → β → List UInt8}
    (hf : ∀ p ∈ xs.zip ys, f p.1 p.2 = .ok (F p.1 p.2)) :
    (ofList xs s).zipSymbolsMut ys f = .ok (ofList (List.zipWith F xs ys ++ xs.drop ys.length) s) := by
  unfold zipSymbolsMut
  simp only [ofList, symbolUsize]
  rw [chunks_flatten s.pos h, zipModifyM_eq_ok hf]
  rfl

/-- The loop over the symbols of a buffer of `m` tabulated symbols and a slice: symbol `i`
becomes `h i` where it has a partner and stays where it has none. -/
theorem zipSymbolsMut_map_range {β : Type} {m : Nat} {g h : Nat → List UInt8}
    (hg : ∀ i < m, (g i).length = s.get) {ys : List β}
    {f : List UInt8 → β → Except String (List UInt8)}
    (hf : ∀ i (hi : i < ys.length), i < m → f (g i) ys[i] = .ok (h i))
    (hrest : ∀ i < m, ys.length ≤ i → g i = h i) :
    (ofList ((List.range m).map g) s).zipSymbolsMut ys f =
      .ok (ofList ((List.range m).map h) s) := by
  unfold zipSymbolsMut
  simp only [ofList, symbolUsize]
  rw [chunks_flatten s.pos (Uniform.map fun i hi => hg i (List.mem_range.mp hi)),
    zipModifyM_map_range hf hrest]
  rfl

/-- Writing a slice of at most `m` symbols into the front of `m` zero symbols: the symbols of
the slice, each padded with zeros. -/
theorem copyDataFromSlice_zeros {m : Nat} {src : List UInt8} (hsrc : src.length ≤ m * s.get) :
    (zeros m s).copyDataFromSlice 0 src.length src =
      .ok (ofList ((List.range m).map fun c =>
        ((src.drop (s.get * c)).take s.get).rightpad s.get 0) s) := by
  have hsrc' : src.length ≤ s.get * m := by rw [Nat.mul_comm]; exact hsrc
  unfold copyDataFromSlice
  rw [zeros, Nat.mul_comm m, copyFromSlice_prefix (by simpa using hsrc'), List.drop_replicate,
    show src ++ List.replicate (s.get * m - src.length) 0 = src.rightpad (s.get * m) 0 from rfl,
    rightpad_eq_flatten (0 : UInt8) m hsrc']
  rfl

/-- Writing the symbols `ys` one after the other, from the symbol `o + k` on, into a buffer of
`m` symbols: they replace the symbols there. -/
theorem foldlM_copySymbolFromSlice {m o : Nat} :
    ∀ (ys : List (List UInt8)) (k : Nat) {f : Nat → List UInt8},
      (∀ c < m, (f c).length = s.get) → Uniform s.get ys → o + k + ys.length ≤ m →
      (ys.zipIdx k).foldlM (fun row p => row.copySymbolFromSlice (o + p.2) p.1)
          (ofList ((List.range m).map f) s) =
        .ok (ofList ((List.range m).map fun c =>
          if o + k ≤ c ∧ c < o + k + ys.length then ys.getD (c - (o + k)) [] else f c) s)
  | [], k, f, _, _, _ => by
    have hf : ((List.range m).map fun c =>
        if o + k ≤ c ∧ c < o + k + ([] : List (List UInt8)).length then
          ([] : List (List UInt8)).getD (c - (o + k)) [] else f c) = (List.range m).map f := by
      apply List.map_congr_left
      intro c _
      rw [if_neg (by simp only [List.length_nil]; omega)]
    rw [hf]
    rfl
  | y :: ys, k, f, hf, hys, hlen => by
    obtain ⟨hy, hys⟩ := hys.of_cons
    simp only [List.length_cons] at hlen
    have hu : Uniform s.get ((List.range m).map f) :=
      Uniform.map fun c hc => hf c (List.mem_range.mp hc)
    -- the first symbol lands at `o + k`, the rest from `o + k + 1` on
    rw [List.zipIdx_cons, List.foldlM_cons,
      copySymbolFromSlice_ofList hu (by simp only [List.length_map, List.length_range]; omega) hy,
      set_map_range, Machine.ok_bind,
      foldlM_copySymbolFromSlice ys (k + 1) (fun c hc => by split <;> simp_all) hys (by omega)]
    congr 3
    funext c
    by_cases hc : c = o + k
    · subst hc
      simp
    · by_cases hin : o + (k + 1) ≤ c ∧ c < o + (k + 1) + ys.length
      · rw [if_pos hin, if_pos (by simp only [List.length_cons]; omega),
          show c - (o + k) = (c - (o + (k + 1))) + 1 by omega, List.getD_cons_succ]
      · rw [if_neg hin, if_neg hc, if_neg (by simp only [List.length_cons]; omega)]

end Symbols

theorem SliverData.copySymbolTo_ofList {axis : EncodingAxis} {xs : List (List UInt8)}
    {s : NonZeroU16} (h : Slice.Uniform s.get xs) {i j : Nat} (hi : i < xs.length)
    {symbol : List UInt8} (hsymbol : symbol.length = s.get) :
    (⟨Symbols.ofList xs s, j⟩ : SliverData axis).copySymbolTo i symbol =
      .ok ⟨Symbols.ofList (xs.set i symbol) s, j⟩ := by
  unfold copySymbolTo
  rw [if_neg (by simpa [Symbols.ofList, Symbols.symbolUsize] using hsymbol)]
  rw [Symbols.copySymbolFromSlice_ofList h hi hsymbol]
  rfl

end Walrus.Encoding
