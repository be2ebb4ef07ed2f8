import Mathlib

/-! # Ordered maps

A column family of a key-value store holds one value per key and iterates its entries in
ascending key order. `OrdMap` is such a map as the list of its entries, with the order as a
field: the keys strictly increase, so a key has at most one entry. `insert` replaces the value
of a key already present, `erase` drops a key, and `first` is the entry an iterator yields
first, the one of the least key.

`mem_insert` is the lemma the rest uses: an insertion adds its entry and drops exactly the
entry its key held before, and no other.
-/

namespace Machine

variable {κ ν : Type*} [LinearOrder κ]

/-- Inserts `(k, v)` into entries of increasing keys, in its place, replacing the entry of
key `k` if there is one. -/
def ordInsert (k : κ) (v : ν) : List (κ × ν) → List (κ × ν)
  | [] => [(k, v)]
  | e :: rest =>
    if k < e.1 then (k, v) :: e :: rest
    else if k = e.1 then (k, v) :: rest
    else e :: ordInsert k v rest

theorem mem_ordInsert (k : κ) (v : ν) (e : κ × ν) :
    ∀ {entries : List (κ × ν)}, entries.Pairwise (fun a b => a.1 < b.1) →
      (e ∈ ordInsert k v entries ↔ e = (k, v) ∨ (e ∈ entries ∧ e.1 ≠ k))
  | [], _ => by simp [ordInsert]
  | x :: rest, h => by
    obtain ⟨hx, hrest⟩ := List.pairwise_cons.mp h
    simp only [ordInsert]
    by_cases hlt : k < x.1
    · -- every key of the entries lies above `k`: nothing is dropped
      have hfresh : ∀ e ∈ x :: rest, e.1 ≠ k := by
        intro e he
        rcases List.mem_cons.mp he with rfl | he
        · exact ne_of_gt hlt
        · exact ne_of_gt (lt_trans hlt (hx e he))
      rw [if_pos hlt]
      constructor
      · intro he
        rcases List.mem_cons.mp he with rfl | he
        · exact .inl rfl
        · exact .inr ⟨he, hfresh e he⟩
      · rintro (rfl | ⟨he, -⟩)
        · exact List.mem_cons_self
        · exact List.mem_cons_of_mem _ he
    by_cases heq : k = x.1
    · -- the head is the entry of key `k`, and the only one
      rw [if_neg hlt, if_pos heq]
      constructor
      · intro he
        rcases List.mem_cons.mp he with rfl | he
        · exact .inl rfl
        · exact .inr ⟨List.mem_cons_of_mem _ he, ne_of_gt (by rw [heq]; exact hx e he)⟩
      · rintro (rfl | ⟨he, hek⟩)
        · exact List.mem_cons_self
        · rcases List.mem_cons.mp he with rfl | he
          · exact absurd heq.symm hek
          · exact List.mem_cons_of_mem _ he
    · rw [if_neg hlt, if_neg heq, List.mem_cons, mem_ordInsert k v e hrest]
      constructor
      · rintro (rfl | rfl | ⟨he, hek⟩)
        · exact .inr ⟨List.mem_cons_self, Ne.symm heq⟩
        · exact .inl rfl
        · exact .inr ⟨List.mem_cons_of_mem _ he, hek⟩
      · rintro (rfl | ⟨he, hek⟩)
        · exact .inr (.inl rfl)
        · rcases List.mem_cons.mp he with rfl | he
          · exact .inl rfl
          · exact .inr (.inr ⟨he, hek⟩)

theorem pairwise_ordInsert (k : κ) (v : ν) :
    ∀ {entries : List (κ × ν)}, entries.Pairwise (fun a b => a.1 < b.1) →
      (ordInsert k v entries).Pairwise fun a b => a.1 < b.1
  | [], _ => List.pairwise_singleton _ _
  | x :: rest, h => by
    obtain ⟨hx, hrest⟩ := List.pairwise_cons.mp h
    simp only [ordInsert]
    split_ifs with hlt heq
    · refine List.pairwise_cons.mpr ⟨?_, h⟩
      intro e he
      rcases List.mem_cons.mp he with rfl | he
      · exact hlt
      · exact lt_trans hlt (hx e he)
    · refine List.pairwise_cons.mpr ⟨fun e he => ?_, hrest⟩
      rw [heq]
      exact hx e he
    · refine List.pairwise_cons.mpr ⟨fun e he => ?_, pairwise_ordInsert k v hrest⟩
      rcases (mem_ordInsert k v e hrest).mp he with rfl | ⟨he, -⟩
      · exact lt_of_le_of_ne (not_lt.mp hlt) (Ne.symm heq)
      · exact hx e he

/-- A key below every key goes in front. -/
theorem ordInsert_of_lt_keys (k : κ) (v : ν) :
    ∀ {entries : List (κ × ν)}, (∀ e ∈ entries, k < e.1) → ordInsert k v entries = (k, v) :: entries
  | [], _ => rfl
  | x :: _, h => by
    simp only [ordInsert]
    rw [if_pos (h x List.mem_cons_self)]

/-- A key above every key goes at the back. -/
theorem ordInsert_of_keys_lt (k : κ) (v : ν) :
    ∀ {entries : List (κ × ν)}, (∀ e ∈ entries, e.1 < k) →
      ordInsert k v entries = entries ++ [(k, v)]
  | [], _ => rfl
  | x :: rest, h => by
    have hx : x.1 < k := h x List.mem_cons_self
    simp only [ordInsert, List.cons_append]
    rw [if_neg (not_lt.mpr (le_of_lt hx)), if_neg (ne_of_gt hx),
      ordInsert_of_keys_lt k v fun e he => h e (List.mem_cons_of_mem x he)]

/-- A map of keys `κ` to values `ν`: its entries in ascending key order. -/
structure OrdMap (κ ν : Type*) [LinearOrder κ] where
  entries : List (κ × ν)
  keysIncrease : entries.Pairwise fun a b => a.1 < b.1

namespace OrdMap

/-- The map without entries. -/
def empty : OrdMap κ ν := ⟨[], List.Pairwise.nil⟩

/-- Maps `k` to `v`, replacing the value `k` had. -/
def insert (m : OrdMap κ ν) (k : κ) (v : ν) : OrdMap κ ν :=
  ⟨ordInsert k v m.entries, pairwise_ordInsert k v m.keysIncrease⟩

/-- Drops the entry of `k`. -/
def erase (m : OrdMap κ ν) (k : κ) : OrdMap κ ν :=
  ⟨m.entries.filter fun e => e.1 ≠ k, m.keysIncrease.filter _⟩

/-- The entry of the least key, the first an iterator yields. -/
def first (m : OrdMap κ ν) : Option (κ × ν) := m.entries.head?

@[simp] theorem entries_empty : (empty : OrdMap κ ν).entries = [] := rfl

theorem mem_insert {m : OrdMap κ ν} {k : κ} {v : ν} {e : κ × ν} :
    e ∈ (m.insert k v).entries ↔ e = (k, v) ∨ (e ∈ m.entries ∧ e.1 ≠ k) :=
  mem_ordInsert k v e m.keysIncrease

theorem mem_erase {m : OrdMap κ ν} {k : κ} {e : κ × ν} :
    e ∈ (m.erase k).entries ↔ e ∈ m.entries ∧ e.1 ≠ k := by
  simp [erase]

theorem entries_insert_of_lt_keys {m : OrdMap κ ν} {k : κ} (v : ν)
    (h : ∀ e ∈ m.entries, k < e.1) : (m.insert k v).entries = (k, v) :: m.entries :=
  ordInsert_of_lt_keys k v h

theorem entries_insert_of_keys_lt {m : OrdMap κ ν} {k : κ} (v : ν)
    (h : ∀ e ∈ m.entries, e.1 < k) : (m.insert k v).entries = m.entries ++ [(k, v)] :=
  ordInsert_of_keys_lt k v h

/-- Erasing the key of the first entry takes that entry off the front, and nothing else. -/
theorem entries_eq_cons_erase {m : OrdMap κ ν} {k : κ} {v : ν} (h : m.first = some (k, v)) :
    m.entries = (k, v) :: (m.erase k).entries := by
  obtain ⟨entries, hinc⟩ := m
  cases entries with
  | nil => cases h
  | cons x rest =>
    simp only [first, List.head?_cons, Option.some.injEq] at h
    subst h
    simp only [erase, List.filter_cons, ne_eq, not_true_eq_false, decide_false,
      Bool.false_eq_true, if_false, List.cons.injEq, true_and]
    -- the keys after the first lie above it, so the filter keeps all of them
    refine (List.filter_eq_self.mpr fun e he => ?_).symm
    have hlt : k < e.1 := List.rel_of_pairwise_cons hinc he
    simpa using ne_of_gt hlt

/-- The first entry is an entry, and its key is the least. -/
theorem first_spec {m : OrdMap κ ν} {e : κ × ν} (h : m.first = some e) :
    e ∈ m.entries ∧ ∀ e' ∈ m.entries, e.1 ≤ e'.1 := by
  obtain ⟨entries, hinc⟩ := m
  cases entries with
  | nil => cases h
  | cons x rest =>
    simp only [first, List.head?_cons, Option.some.injEq] at h
    subst h
    refine ⟨List.mem_cons_self, fun e' he' => ?_⟩
    rcases List.mem_cons.mp he' with rfl | he'
    · exact le_refl _
    · exact le_of_lt (List.rel_of_pairwise_cons hinc he')

end OrdMap

end Machine
