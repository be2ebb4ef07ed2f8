import Mathlib.Data.List.Count
import Mathlib.Logic.Function.Basic

/-! # Choosing entries of vectors

Two ways Rust code picks entries out of its vectors.

`Iterator::min_by` keeps the first of the least entries under a comparison: it folds the
entries and replaces the one kept only by a strictly smaller one (`minBy`). What it returns is
an entry of the list (`minBy_mem`), and nothing on an empty list.

A `HashMap<K, Vec<V>>` filled with `entry(key).or_insert_with(Vec::new).push(v)` for every
entry of a list holds, under each key, the entries of that key in list order (`groupBy`). A
loop then serves a list of requests in order: each takes the last entry of its key's vector
(`pop`), the key being removed once its vector is empty, and the loop stops at the first
request whose key has no entry left (`popEach`). An absent key and an empty vector read the
same, so the map is a function from keys to vectors.

The loop serves every request when each key has at least as many entries as requests
(`popEach_ok`), and then every request gets an entry of its own key (`popEach_ok_of_perm`).
-/

namespace Machine

variable {κ α ρ : Type*}

/-- `Iterator::min_by`: the first least entry under `compare`. -/
def minBy (compare : α → α → Ordering) : List α → Option α
  | [] => none
  | x :: xs => some (xs.foldl (fun least y => if compare least y = .gt then y else least) x)

theorem foldl_minBy_mem (compare : α → α → Ordering) :
    ∀ (xs : List α) (x : α),
      xs.foldl (fun least y => if compare least y = .gt then y else least) x ∈ x :: xs
  | [], x => List.mem_singleton_self x
  | y :: ys, x => by
    rw [List.foldl_cons]
    by_cases hgt : compare x y = .gt
    · -- the next entry replaces the one kept
      rw [if_pos hgt]
      exact List.mem_cons_of_mem x (foldl_minBy_mem compare ys y)
    · rw [if_neg hgt]
      rcases List.mem_cons.mp (foldl_minBy_mem compare ys x) with h | h
      · rw [h]
        exact List.mem_cons_self
      · exact List.mem_cons_of_mem x (List.mem_cons_of_mem y h)

theorem minBy_mem {compare : α → α → Ordering} {xs : List α} {x : α}
    (h : minBy compare xs = some x) : x ∈ xs := by
  cases xs with
  | nil => cases h
  | cons y ys =>
    rw [minBy, Option.some.injEq] at h
    rw [← h]
    exact foldl_minBy_mem compare ys y

/-! ## Multimaps of vectors -/

variable [DecidableEq κ]

/-- The vectors after pushing every entry of `xs` onto the vector of its key. -/
def groupBy (key : α → κ) (xs : List α) : κ → List α :=
  fun k => xs.filter fun x => key x = k

/-- Serves the requests in order, each with the last entry of its key's vector, which is
popped; fails with the key of the first request whose vector is empty. -/
def popEach (key : ρ → κ) : (κ → List α) → List ρ → Except κ (List (ρ × α))
  | _, [] => .ok []
  | m, r :: rs =>
    match (m (key r)).getLast? with
    | none => .error (key r)
    | some a => do
      let served ← popEach key (Function.update m (key r) (m (key r)).dropLast) rs
      pure ((r, a) :: served)

theorem length_groupBy (key : α → κ) (xs : List α) (k : κ) :
    (groupBy key xs k).length = (xs.map key).count k := by
  simp only [groupBy, List.count, List.countP_eq_length_filter, List.filter_map, List.length_map]
  rfl

theorem key_of_mem_groupBy {key : α → κ} {xs : List α} {k : κ} {x : α}
    (h : x ∈ groupBy key xs k) : x ∈ xs ∧ key x = k := by
  simpa [groupBy] using h

/-- When every key has at least as many entries as requests, the loop serves every request,
in order, each with an entry of its key's vector. -/
theorem popEach_ok (key : ρ → κ) :
    ∀ (rs : List ρ) (m : κ → List α), (∀ k, (rs.map key).count k ≤ (m k).length) →
      ∃ served, popEach key m rs = .ok served ∧ served.map Prod.fst = rs ∧
        ∀ p ∈ served, p.2 ∈ m (key p.1)
  | [], _, _ => ⟨[], rfl, rfl, fun _ hp => by cases hp⟩
  | r :: rs, m, hcount => by
    -- the request's key has an entry: its vector is not empty
    have hpos : 0 < (m (key r)).length := by
      have := hcount (key r)
      simp only [List.map_cons, List.count_cons_self] at this
      omega
    obtain ⟨a, ha⟩ : ∃ a, (m (key r)).getLast? = some a :=
      ⟨_, List.getLast?_eq_some_getLast (List.ne_nil_of_length_pos hpos)⟩
    -- after the pop, the other requests still find enough entries
    have hcount' : ∀ k, (rs.map key).count k ≤
        (Function.update m (key r) (m (key r)).dropLast k).length := by
      intro k
      have hk := hcount k
      by_cases hkr : k = key r
      · subst hkr
        simp only [List.map_cons, List.count_cons_self] at hk
        simp only [Function.update_self, List.length_dropLast]
        omega
      · simp only [List.map_cons, List.count_cons, Ne.symm hkr, beq_iff_eq, if_false,
          Nat.add_zero] at hk
        simpa only [Function.update_of_ne hkr] using hk
    obtain ⟨served, hserved, hfst, hmem⟩ := popEach_ok key rs _ hcount'
    refine ⟨(r, a) :: served, ?_, by simp [hfst], ?_⟩
    · simp only [popEach, ha, hserved]
      rfl
    · intro p hp
      rcases List.mem_cons.mp hp with rfl | hp
      · exact List.mem_of_getLast? ha
      · -- a later request was served from a vector that only lost entries
        have hin := hmem p hp
        by_cases hkey : key p.1 = key r
        · rw [hkey, Function.update_self] at hin
          rw [hkey]
          exact List.dropLast_subset _ hin
        · rwa [Function.update_of_ne hkey] at hin

/-- Requests whose keys are those of the pushed entries, up to order, are all served, each with
one of the entries of its key. -/
theorem popEach_ok_of_perm {key : ρ → κ} {key' : α → κ} {rs : List ρ} {xs : List α}
    (hperm : (rs.map key).Perm (xs.map key')) :
    ∃ served, popEach key (groupBy key' xs) rs = .ok served ∧ served.map Prod.fst = rs ∧
      ∀ p ∈ served, p.2 ∈ xs ∧ key' p.2 = key p.1 := by
  obtain ⟨served, hserved, hfst, hmem⟩ := popEach_ok key rs (groupBy key' xs) fun k =>
    Nat.le_of_eq (by rw [length_groupBy, hperm.count_eq])
  exact ⟨served, hserved, hfst, fun p hp => key_of_mem_groupBy (hmem p hp)⟩

end Machine
