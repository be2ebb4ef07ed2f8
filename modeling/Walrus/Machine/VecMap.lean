import Mathlib

/-! # Maps with distinct keys in insertion order

Sui's `VecMap`: a vector of entries whose keys are pairwise distinct, kept in the order of
insertion. `insert` aborts when the key is present, and reading or writing through
`get_mut` (or the index syntax `m[&k]`) aborts when it is absent. The structure carries the
distinctness of its keys, so a map with a repeated key cannot be built.

Lookups are stated through `get?`; every operation has one lemma saying what `get?` returns
afterwards, and callers never unfold the operations.
-/

namespace Machine

universe u v

/-- The aborts of a `VecMap` operation. -/
inductive VecMapError
  | keyAlreadyExists
  | keyDoesNotExist
  | indexOutOfBounds
  | unequalLengths
deriving DecidableEq, Repr

/-- A `VecMap`: entries with pairwise distinct keys. -/
structure VecMap (κ : Type u) (ν : Type v) where
  contents : List (κ × ν)
  keys_nodup : (contents.map Prod.fst).Nodup

namespace VecMap

variable {κ : Type u} {ν : Type v} [DecidableEq κ]

/-- The map without entries. -/
def empty : VecMap κ ν := ⟨[], List.nodup_nil⟩

/-- The value stored under `k`, if any. -/
def get? (m : VecMap κ ν) (k : κ) : Option ν :=
  (m.contents.find? fun e => e.1 = k).map Prod.snd

/-- `contains`: whether some entry has key `k`. -/
def contains (m : VecMap κ ν) (k : κ) : Bool :=
  (m.get? k).isSome

theorem contains_iff_mem {m : VecMap κ ν} {k : κ} :
    m.contains k = true ↔ k ∈ m.contents.map Prod.fst := by
  simp [contains, get?, List.find?_isSome]

/-- `insert`: append a new entry; aborts when the key is present. -/
def insert (m : VecMap κ ν) (k : κ) (v : ν) : Except VecMapError (VecMap κ ν) :=
  if h : m.contains k then .error .keyAlreadyExists
  else
    .ok ⟨m.contents ++ [(k, v)], by
      rw [List.map_append, List.nodup_append]
      refine ⟨m.keys_nodup, List.nodup_singleton k, ?_⟩
      intro a ha b hb hab
      have hbk : b = k := by simpa using hb
      exact h (contains_iff_mem.mpr (by rw [← hbk, ← hab]; exact ha))⟩

/-- `get`: the value stored under `k`; aborts when the key is absent. -/
def get (m : VecMap κ ν) (k : κ) : Except VecMapError ν :=
  match m.get? k with
  | some v => .ok v
  | none => .error .keyDoesNotExist

/-- A write through `get_mut`: replace the value stored under `k`; aborts when the key is
absent. Keys are distinct, so the entry rewritten is the one `get_mut` points to. -/
def set (m : VecMap κ ν) (k : κ) (v : ν) : Except VecMapError (VecMap κ ν) :=
  if m.contains k then
    .ok ⟨m.contents.map (fun e => if e.1 = k then (k, v) else e), by
      have hfst : (m.contents.map fun e => if e.1 = k then (k, v) else e).map Prod.fst =
          m.contents.map Prod.fst := by
        rw [List.map_map]
        refine List.map_congr_left fun e _ => ?_
        by_cases he : e.1 = k <;> simp [he]
      rw [hfst]
      exact m.keys_nodup⟩
  else .error .keyDoesNotExist

@[simp] theorem get?_empty (k : κ) : (empty : VecMap κ ν).get? k = none := rfl

theorem get?_eq_none_iff {m : VecMap κ ν} {k : κ} :
    m.get? k = none ↔ m.contains k = false := by
  simp [contains]

theorem insert_of_contains {m : VecMap κ ν} {k : κ} (v : ν) (h : m.contains k = true) :
    m.insert k v = .error .keyAlreadyExists := by
  simp [insert, h]

theorem insert_isOk {m : VecMap κ ν} {k : κ} (v : ν) (h : m.contains k = false) :
    ∃ m', m.insert k v = .ok m' := by
  simp [insert, h]

/-- After an insertion, `k` holds the new value and every other key what it held. -/
theorem get?_insert {m m' : VecMap κ ν} {k : κ} {v : ν} (h : m.insert k v = .ok m')
    (k' : κ) : m'.get? k' = if k' = k then some v else m.get? k' := by
  unfold insert at h
  split at h
  · cases h
  · rename_i hk
    cases h
    have hnone : m.get? k = none := get?_eq_none_iff.mpr (by simpa using hk)
    by_cases hkk : k' = k
    · subst hkk
      simp only [get?, Option.map_eq_none_iff] at hnone
      simp [get?, List.find?_append, hnone]
    · simp [get?, List.find?_append, hkk, Ne.symm hkk]

/-- A map whose entries are those of `m` with a key satisfying `p`, in order, holds what `m`
holds under such keys and nothing under the others. -/
theorem get?_of_contents_filter {m m' : VecMap κ ν} {p : κ → Prop} [DecidablePred p]
    (h : m'.contents = m.contents.filter fun e => p e.1) (k : κ) :
    m'.get? k = if p k then m.get? k else none := by
  unfold get?
  rw [h, List.find?_filter]
  by_cases hk : p k
  · rw [if_pos hk]
    congr 1
    refine List.find?_congr fun e _ => ?_
    by_cases hek : e.1 = k
    · simp [hek, hk]
    · simp [hek]
  · rw [if_neg hk, Option.map_eq_none_iff, List.find?_eq_none]
    intro e _ he
    simp only [decide_eq_true_eq] at he
    exact hk (he.2 ▸ he.1)

theorem get_of_get? {m : VecMap κ ν} {k : κ} {v : ν} (h : m.get? k = some v) :
    m.get k = .ok v := by
  simp [get, h]

theorem get_of_contains_false {m : VecMap κ ν} {k : κ} (h : m.contains k = false) :
    m.get k = .error .keyDoesNotExist := by
  simp [get, get?_eq_none_iff.mpr h]

theorem set_isOk {m : VecMap κ ν} {k : κ} (v : ν) (h : m.contains k = true) :
    ∃ m', m.set k v = .ok m' := by
  simp [set, h]

/-- After a write, `k` holds the new value and every other key what it held. -/
theorem get?_set {m m' : VecMap κ ν} {k : κ} {v : ν} (h : m.set k v = .ok m') (k' : κ) :
    m'.get? k' = if k' = k then some v else m.get? k' := by
  unfold set at h
  split at h
  · rename_i hk
    cases h
    -- an entry keeps its key under the rewrite, so the search finds the same entry
    have hfind : ∀ l : List (κ × ν), (l.map fun e => if e.1 = k then (k, v) else e).find?
        (fun e => e.1 = k') = (l.find? fun e => e.1 = k').map
          (fun e => if e.1 = k then (k, v) else e) := by
      intro l
      rw [List.find?_map]
      congr 1
      refine List.find?_congr fun e _ => ?_
      by_cases he : e.1 = k <;> simp [he]
    simp only [get?, hfind, Option.map_map]
    by_cases hkk : k' = k
    · subst hkk
      cases hf : m.contents.find? (fun e => e.1 = k') with
      | none => simp [contains, get?, hf] at hk
      | some e =>
        have hek : e.1 = k' := by simpa using List.find?_some hf
        simp [hek]
    · rw [if_neg hkk]
      cases hf : m.contents.find? (fun e => e.1 = k') with
      | none => rfl
      | some e =>
        have hek : e.1 = k' := by simpa using List.find?_some hf
        have hne : e.1 ≠ k := hek ▸ hkk
        simp [hne]
  · cases h

/-- `length`. -/
def length (m : VecMap κ ν) : Nat :=
  m.contents.length

/-- The keys, in order. -/
def keys (m : VecMap κ ν) : List κ :=
  m.contents.map Prod.fst

/-- `into_keys_values`: the keys and the values, in order. -/
def intoKeysValues (m : VecMap κ ν) : List κ × List ν :=
  (m.contents.map Prod.fst, m.contents.map Prod.snd)

/-- `get_idx_opt`: the position of the entry with key `k`. -/
def getIdxOpt (m : VecMap κ ν) (k : κ) : Option Nat :=
  m.contents.findIdx? fun e => e.1 = k

/-- `remove_entry_by_idx`: remove the entry at `idx`, keeping the order of the others; aborts
out of bounds. -/
def removeEntryByIdx (m : VecMap κ ν) (idx : Nat) :
    Except VecMapError ((κ × ν) × VecMap κ ν) :=
  if h : idx < m.contents.length then
    .ok (m.contents[idx], ⟨m.contents.eraseIdx idx,
      m.keys_nodup.sublist ((List.eraseIdx_sublist _ _).map _)⟩)
  else .error .indexOutOfBounds

/-- `remove`: take out the entry with key `k`, keeping the order of the others; aborts when
there is none. -/
def remove (m : VecMap κ ν) (k : κ) : Except VecMapError ((κ × ν) × VecMap κ ν) :=
  match m.getIdxOpt k with
  | some idx => m.removeEntryByIdx idx
  | none => .error .keyDoesNotExist

/-- `from_keys_values`: the entries in order; aborts on vectors of different lengths and on
a repeated key. -/
def fromKeysValues (keys : List κ) (values : List ν) : Except VecMapError (VecMap κ ν) :=
  if keys.length = values.length then
    (keys.zip values).foldlM (fun m e => m.insert e.1 e.2) empty
  else .error .unequalLengths

/-- An entry is what its key looks up: keys are distinct. -/
theorem get?_of_mem {m : VecMap κ ν} {k : κ} {v : ν} (h : (k, v) ∈ m.contents) :
    m.get? k = some v := by
  cases hf : m.contents.find? (fun e => e.1 = k) with
  | none =>
    have := List.find?_eq_none.mp hf (k, v) h
    simp at this
  | some e =>
    have hek : e.1 = k := by simpa using List.find?_some hf
    have heq : e = (k, v) :=
      List.inj_on_of_nodup_map m.keys_nodup (List.mem_of_find?_eq_some hf) h hek
    simp [get?, hf, heq]

theorem mem_of_get? {m : VecMap κ ν} {k : κ} {v : ν} (h : m.get? k = some v) :
    (k, v) ∈ m.contents := by
  simp only [get?, Option.map_eq_some_iff] at h
  obtain ⟨e, he, rfl⟩ := h
  have hek : e.1 = k := by simpa using List.find?_some he
  rw [← hek]
  exact List.mem_of_find?_eq_some he

theorem get?_of_get {m : VecMap κ ν} {k : κ} {v : ν} (h : m.get k = .ok v) :
    m.get? k = some v := by
  unfold get at h
  split at h
  · rename_i v' hv
    cases h
    exact hv
  · cases h

/-- A write through `get_mut` rewrites the entry of its key in place. -/
theorem set_eq_ok {m m' : VecMap κ ν} {k : κ} {v : ν} (h : m.set k v = .ok m') :
    m'.contents = m.contents.map fun e => if e.1 = k then (k, v) else e := by
  unfold set at h
  split at h
  · cases h
    rfl
  · cases h

/-- A write keeps the keys. -/
theorem keys_set {m m' : VecMap κ ν} {k : κ} {v : ν} (h : m.set k v = .ok m') :
    m'.keys = m.keys := by
  rw [keys, keys, set_eq_ok h, List.map_map]
  refine List.map_congr_left fun e _ => ?_
  by_cases he : e.1 = k
  · simp [he]
  · simp [he]

/-- A key that `get` finds is a key of the map. -/
theorem mem_keys_of_get {m : VecMap κ ν} {k : κ} {v : ν} (h : m.get k = .ok v) : k ∈ m.keys :=
  List.mem_map.mpr ⟨(k, v), mem_of_get? (get?_of_get h), rfl⟩

omit [DecidableEq κ] in
/-- An entry splits the entries into those before it and those after it, neither with its
key. -/
theorem exists_split_of_mem {m : VecMap κ ν} {k : κ} {v : ν} (h : (k, v) ∈ m.contents) :
    ∃ A B, m.contents = A ++ (k, v) :: B ∧ (∀ e ∈ A, e.1 ≠ k) ∧ ∀ e ∈ B, e.1 ≠ k := by
  obtain ⟨A, B, hAB⟩ := List.append_of_mem h
  have hnd := m.keys_nodup
  rw [hAB, List.map_append, List.map_cons, List.nodup_append, List.nodup_cons] at hnd
  refine ⟨A, B, hAB, fun e he hek => ?_, fun e he hek => ?_⟩
  · exact hnd.2.2 e.1 (List.mem_map_of_mem he) k List.mem_cons_self hek
  · exact hnd.2.1.1 (List.mem_map.mpr ⟨e, he, hek⟩)

/-- A write of `v` over the value `c` of `k`: the values lose `c` and gain `v`. -/
theorem sum_snd_set {m m' : VecMap κ Nat} {k : κ} {c v : Nat} (h : m.set k v = .ok m')
    (hk : m.get? k = some c) :
    (m'.contents.map Prod.snd).sum + c = (m.contents.map Prod.snd).sum + v := by
  obtain ⟨A, B, hAB, hA, hB⟩ := exists_split_of_mem (mem_of_get? hk)
  -- the write leaves the entries before and after the one of `k`
  have hkeep : ∀ l : List (κ × Nat), (∀ e ∈ l, e.1 ≠ k) →
      (l.map fun e => if e.1 = k then (k, v) else e) = l := by
    intro l hl
    rw [List.map_congr_left fun e he => if_neg (hl e he), List.map_id']
  rw [set_eq_ok h, hAB, List.map_append, List.map_cons, hkeep A hA, hkeep B hB]
  simp only [if_true, List.map_append, List.map_cons, List.sum_append, List.sum_cons]
  omega

theorem insert_eq_ok {m m' : VecMap κ ν} {k : κ} {v : ν} (h : m.insert k v = .ok m') :
    m.contains k = false ∧ m'.contents = m.contents ++ [(k, v)] := by
  unfold insert at h
  split at h
  · cases h
  · rename_i hk
    cases h
    exact ⟨by simpa using hk, rfl⟩

/-- An insertion adds its key after the others. -/
theorem keys_insert {m m' : VecMap κ ν} {k : κ} {v : ν} (h : m.insert k v = .ok m') :
    m'.keys = m.keys ++ [k] := by
  rw [keys, keys, (insert_eq_ok h).2, List.map_append]
  rfl

/-- Insertions that do not abort append their entries. -/
theorem foldlM_insert_eq_ok :
    ∀ (l : List (κ × ν)) {m m' : VecMap κ ν},
      l.foldlM (fun m e => m.insert e.1 e.2) m = .ok m' → m'.contents = m.contents ++ l
  | [], m, m', h => by
    simp only [List.foldlM_nil, pure, Except.pure, Except.ok.injEq] at h
    simp [h]
  | e :: l, m, m', h => by
    rw [List.foldlM_cons] at h
    cases h₁ : m.insert e.1 e.2 with
    | error err => simp [h₁, bind, Except.bind] at h
    | ok m₁ =>
      simp only [h₁, bind, Except.bind] at h
      rw [foldlM_insert_eq_ok l h, (insert_eq_ok h₁).2]
      simp

theorem fromKeysValues_eq_ok {keys : List κ} {values : List ν} {m : VecMap κ ν}
    (h : fromKeysValues keys values = .ok m) :
    keys.length = values.length ∧ m.contents = keys.zip values := by
  unfold fromKeysValues at h
  split at h
  · rename_i hlen
    exact ⟨hlen, by simpa [empty] using foldlM_insert_eq_ok _ h⟩
  · cases h

/-- Insertions of keys that are distinct and absent from the map do not abort. -/
theorem foldlM_insert_isOk :
    ∀ (l : List (κ × ν)) {m : VecMap κ ν}, (m.contents.map Prod.fst ++ l.map Prod.fst).Nodup →
      ∃ m', l.foldlM (fun m e => m.insert e.1 e.2) m = .ok m'
  | [], m, _ => ⟨m, rfl⟩
  | e :: l, m, h => by
    rw [List.map_cons, List.nodup_append] at h
    have hk : m.contains e.1 = false := by
      rcases hc : m.contains e.1
      · rfl
      · exact absurd rfl (h.2.2 _ (contains_iff_mem.mp hc) _ List.mem_cons_self)
    obtain ⟨m₁, h₁⟩ := insert_isOk e.2 hk
    have h' : (m₁.contents.map Prod.fst ++ l.map Prod.fst).Nodup := by
      rw [(insert_eq_ok h₁).2, List.map_append, List.map_singleton, List.append_assoc,
        List.singleton_append, List.nodup_append]
      exact h
    obtain ⟨m', h₂⟩ := foldlM_insert_isOk l h'
    refine ⟨m', ?_⟩
    simp only [List.foldlM_cons, h₁, bind, Except.bind]
    exact h₂

/-- `from_keys_values` of distinct keys and as many values does not abort. -/
theorem fromKeysValues_isOk {keys : List κ} {values : List ν} (hkeys : keys.Nodup)
    (hlen : keys.length = values.length) : ∃ m, fromKeysValues keys values = .ok m := by
  unfold fromKeysValues
  rw [if_pos hlen]
  apply foldlM_insert_isOk
  rw [List.map_fst_zip (Nat.le_of_eq hlen)]
  simpa [empty] using hkeys

/-- With no entry for `k`, `get_idx_opt` finds nothing. -/
theorem getIdxOpt_eq_none {m : VecMap κ ν} {k : κ} (h : m.getIdxOpt k = none) :
    ∀ e ∈ m.contents, e.1 ≠ k := by
  intro e he hek
  have := List.findIdx?_eq_none_iff.mp h e he
  simp [hek] at this

/-- Removing the entry `get_idx_opt` finds removes the only entry with its key. -/
theorem removeEntryByIdx_getIdxOpt {m m' : VecMap κ ν} {k : κ} {idx : Nat} {e : κ × ν}
    (hidx : m.getIdxOpt k = some idx) (h : m.removeEntryByIdx idx = .ok (e, m')) :
    ∃ hi : idx < m.contents.length, e = m.contents[idx] ∧ e.1 = k ∧
      m'.contents = m.contents.eraseIdx idx ∧ ∀ e' ∈ m'.contents, e'.1 ≠ k := by
  obtain ⟨hi, hk, -⟩ := List.findIdx?_eq_some_iff_getElem.mp hidx
  have hk' : m.contents[idx].1 = k := by simpa using hk
  unfold removeEntryByIdx at h
  rw [dif_pos hi] at h
  cases h
  refine ⟨hi, rfl, hk', rfl, ?_⟩
  -- another entry with the key `k` would repeat a key
  intro e' he' hek
  obtain ⟨j, hj, hji, rfl⟩ := List.mem_eraseIdx_iff_getElem.mp he'
  have hentries : m.contents[j] = m.contents[idx] :=
    List.inj_on_of_nodup_map m.keys_nodup (List.getElem_mem hj) (List.getElem_mem hi)
      (hek.trans hk'.symm)
  exact hji ((List.Nodup.getElem_inj_iff (m.keys_nodup.of_map _)).mp hentries)

/-- Removing the key of an entry leaves the entries before it and after it. -/
theorem remove_of_contents {m : VecMap κ ν} {A B : List (κ × ν)} {k : κ} {v : ν}
    (h : m.contents = A ++ (k, v) :: B) :
    ∃ m', m.remove k = .ok ((k, v), m') ∧ m'.contents = A ++ B := by
  -- `k` is the key of no entry of `A`, so the search stops at the entry
  have hA : ∀ e ∈ A, e.1 ≠ k := by
    have hnd := m.keys_nodup
    rw [h, List.map_append, List.map_cons, List.nodup_append] at hnd
    intro e he
    exact hnd.2.2 _ (List.mem_map_of_mem he) _ List.mem_cons_self
  have hidx : m.getIdxOpt k = some A.length := by
    unfold getIdxOpt
    rw [h, List.findIdx?_append, List.findIdx?_eq_none_iff.mpr (by simpa using hA),
      List.findIdx?_cons]
    simp
  have hlt : A.length < m.contents.length := by
    rw [h]
    simp
  obtain ⟨e, m', hrem⟩ : ∃ e m', m.removeEntryByIdx A.length = .ok (e, m') := by
    unfold removeEntryByIdx
    rw [dif_pos hlt]
    exact ⟨_, _, rfl⟩
  obtain ⟨hi, he, -, hm', -⟩ := removeEntryByIdx_getIdxOpt hidx hrem
  have hentry : e = (k, v) := by
    rw [he]
    simp [h]
  refine ⟨m', ?_, ?_⟩
  · simp only [remove, hidx, hrem, hentry]
  · rw [hm', h]
    simp [List.eraseIdx_append_of_length_le]

end VecMap

end Machine
