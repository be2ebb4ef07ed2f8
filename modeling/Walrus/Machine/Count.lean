import Mathlib

/-! # Counting keys after a pointwise update

A table is a function `f : κ → β` together with the list `ks` of keys in use. How many keys
satisfy a property changes by at most one when a single key is updated. These are the
counting rules for the models whose state is such a table with a list of registered keys.

A weighted list of entries (committee members with their weights) is read by key: the
weight of the first entry with that key. Summed over distinct keys, these weights count
each entry at most once.
-/

namespace Machine

variable {κ β : Type*} [DecidableEq κ]

/-- The indicator of a boolean, as a count. -/
def ind (b : Bool) : Nat := if b then 1 else 0

@[simp] theorem ind_true : ind true = 1 := rfl
@[simp] theorem ind_false : ind false = 0 := rfl

theorem ind_le_one (b : Bool) : ind b ≤ 1 := by
  cases b <;> simp

/-- Updating a key that is not in the list changes no count. -/
theorem countP_update_of_not_mem (p : β → Bool) (f : κ → β) (k : κ) (v : β) :
    ∀ (ks : List κ), k ∉ ks →
      ks.countP (fun j => p (Function.update f k v j)) = ks.countP (fun j => p (f j))
  | [], _ => rfl
  | j :: ks, hk => by
    have hj : j ≠ k := fun h => hk (h ▸ List.mem_cons_self)
    have hks : k ∉ ks := fun h => hk (List.mem_cons_of_mem j h)
    simp only [List.countP_cons, Function.update_of_ne hj, countP_update_of_not_mem p f k v ks hks]

/-- Updating a key that occurs once in the list: the count loses the old value's
contribution and gains the new one's. -/
theorem countP_update_of_mem (p : β → Bool) (f : κ → β) (k : κ) (v : β) :
    ∀ (ks : List κ), k ∈ ks → ks.Nodup →
      ks.countP (fun j => p (Function.update f k v j)) + ind (p (f k)) =
        ks.countP (fun j => p (f j)) + ind (p v)
  | [], hk, _ => absurd hk List.not_mem_nil
  | j :: ks, hk, hnd => by
    rw [List.nodup_cons] at hnd
    by_cases hjk : j = k
    · -- the updated key is the head; it does not occur in the tail
      subst hjk
      have htail := countP_update_of_not_mem p f j v ks hnd.1
      simp only [List.countP_cons, Function.update_self, htail, ind]
      split <;> split <;> omega
    · have hks : k ∈ ks := by
        rcases List.mem_cons.mp hk with h | h
        · exact absurd h.symm hjk
        · exact h
      have ih := countP_update_of_mem p f k v ks hks hnd.2
      simp only [List.countP_cons, Function.update_of_ne hjk]
      omega

omit [DecidableEq κ] in
/-- The count over `ks ++ [k]` for a fresh key `k`. -/
theorem countP_concat (p : κ → Bool) (ks : List κ) (k : κ) :
    (ks ++ [k]).countP p = ks.countP p + ind (p k) := by
  simp [List.countP_append, ind]

/-- A sum over a list after one entry is replaced: the old entry's term leaves, the new
one's enters. -/
theorem sum_map_set (f : β → Nat) :
    ∀ (l : List β) (i : Nat) (x : β) (h : i < l.length),
      ((l.set i x).map f).sum + f l[i] = (l.map f).sum + f x
  | [], _, _, h => absurd h (Nat.not_lt_zero _)
  | y :: l, 0, x, _ => by
    simp only [List.set_cons_zero, List.map_cons, List.sum_cons, List.getElem_cons_zero]
    omega
  | y :: l, i + 1, x, h => by
    have ih := sum_map_set f l i x (by simpa using h)
    simp only [List.set_cons_succ, List.map_cons, List.sum_cons, List.getElem_cons_succ]
    omega

/-- A sum over a list after one entry is removed. -/
theorem sum_map_eraseIdx (f : β → Nat) :
    ∀ (l : List β) (i : Nat) (h : i < l.length), ((l.eraseIdx i).map f).sum + f l[i] = (l.map f).sum
  | [], _, h => absurd h (Nat.not_lt_zero _)
  | y :: l, 0, _ => by
    simp only [List.eraseIdx_cons_zero, List.map_cons, List.sum_cons, List.getElem_cons_zero]
    omega
  | y :: l, i + 1, h => by
    have ih := sum_map_eraseIdx f l i (by simpa using h)
    simp only [List.eraseIdx_cons_succ, List.map_cons, List.sum_cons, List.getElem_cons_succ]
    omega

omit [DecidableEq κ] in
/-- A weighted sum over the entries of a list with distinct keys, of the entries whose key
passes a test: when the test changes at one key `k` only, from failing to passing, the sum
gains the weight of `k`'s entry. -/
theorem sum_filter_update_of_mem (key : β → κ) (w : β → Nat) {p q : κ → Bool} {k : κ} {e : β}
    (hq : ∀ j, j ≠ k → q j = p j) (hpk : p k = false) (hqk : q k = true) :
    ∀ {l : List β}, (l.map key).Nodup → e ∈ l → key e = k →
      ((l.filter fun x => q (key x)).map w).sum =
        ((l.filter fun x => p (key x)).map w).sum + w e
  | [], _, he, _ => absurd he List.not_mem_nil
  | x :: l, hnd, he, hek => by
    rw [List.map_cons, List.nodup_cons] at hnd
    rcases List.mem_cons.mp he with rfl | he
    · -- the entry of `k` is the head: no other entry has its key, so the tests agree on them
      have hrest : l.filter (fun x => q (key x)) = l.filter fun x => p (key x) := by
        refine List.filter_congr fun y hy => hq _ fun hyk => hnd.1 ?_
        rw [hek, ← hyk]
        exact List.mem_map_of_mem hy
      simp only [List.filter_cons, hek, hqk, hpk, if_true, Bool.false_eq_true, if_false,
        List.map_cons, List.sum_cons, hrest]
      omega
    · -- the head has another key, and the test did not change there
      have hxk : key x ≠ k := fun hxk => hnd.1 (hxk ▸ hek ▸ List.mem_map_of_mem he)
      have ih := sum_filter_update_of_mem key w hq hpk hqk hnd.2 he hek
      simp only [List.filter_cons, hq _ hxk]
      split
      · simp only [List.map_cons, List.sum_cons, ih]
        omega
      · exact ih

/-- The weight of the first entry with key `k`, over distinct keys, sums to at most the
total weight: each entry answers the lookup of one key only. -/
theorem sum_find?_weight_le (key : β → κ) (w : β → Nat) (s : Finset κ) :
    ∀ ms : List β, ∑ k ∈ s, ((ms.find? fun m => key m = k).map w).getD 0 ≤ (ms.map w).sum
  | [] => by simp
  | m :: ms => by
    have hsplit : ∀ k, (((m :: ms).find? fun m' => key m' = k).map w).getD 0 =
        (if key m = k then w m else 0) +
          (if key m = k then 0 else ((ms.find? fun m' => key m' = k).map w).getD 0) := by
      intro k
      by_cases h : key m = k <;> simp [h]
    have hhead : ∑ k ∈ s, (if key m = k then w m else 0) ≤ w m := by
      rw [Finset.sum_ite_eq]
      split <;> simp
    have htail : ∑ k ∈ s, (if key m = k then 0 else ((ms.find? fun m' => key m' = k).map w).getD 0)
        ≤ ∑ k ∈ s, ((ms.find? fun m' => key m' = k).map w).getD 0 :=
      Finset.sum_le_sum fun k _ => by split <;> simp
    calc ∑ k ∈ s, (((m :: ms).find? fun m' => key m' = k).map w).getD 0
        = ∑ k ∈ s, (if key m = k then w m else 0) + ∑ k ∈ s,
            (if key m = k then 0 else ((ms.find? fun m' => key m' = k).map w).getD 0) := by
          rw [← Finset.sum_add_distrib]
          exact Finset.sum_congr rfl fun k _ => hsplit k
      _ ≤ w m + (ms.map w).sum := add_le_add hhead (htail.trans (sum_find?_weight_le key w s ms))
      _ = ((m :: ms).map w).sum := by simp

end Machine
