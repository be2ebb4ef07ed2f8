import Mathlib.Order.Bounds.Basic
import Walrus.Machine.Run

/-! # Binary search for the least value that passes a test

The loop

    while lo < hi { let mid = (lo + hi) / 2; if test(mid) { hi = mid } else { lo = mid + 1 } }

ends with the least value from the start `lo` on that passes a test, when the test is monotone
from `lo` on and passes at the larger of the two bounds. The test may fail (a panic, an abort);
the loop runs it only strictly below `hi` and from `lo` on, so a test that cannot fail there
never makes the loop fail.

The loop is `Machine.whileM` on the pair of bounds, with their distance as the measure; its rule
is `whileM`'s loop rule with the invariant `SearchInv`.
-/

namespace Machine

universe u

variable {ε : Type u}

/-- The condition of the loop. -/
def searchCond (bounds : Nat × Nat) : Except ε Bool :=
  pure (decide (bounds.1 < bounds.2))

/-- One round: run the test at the midpoint and keep the half that holds the answer. -/
def searchBody (test : Nat → Except ε Bool) (bounds : Nat × Nat) : Except ε (Nat × Nat) := do
  let mid := (bounds.1 + bounds.2) / 2
  if ← test mid then pure (bounds.1, mid) else pure (mid + 1, bounds.2)

/-- A round that runs splits the bounds, which come closer. -/
theorem searchBody_eq_ok {test : Nat → Except ε Bool} {bounds bounds' : Nat × Nat}
    (h : searchBody test bounds = .ok bounds') :
    (test ((bounds.1 + bounds.2) / 2) = .ok true ∧
        bounds' = (bounds.1, (bounds.1 + bounds.2) / 2)) ∨
      (test ((bounds.1 + bounds.2) / 2) = .ok false ∧
        bounds' = ((bounds.1 + bounds.2) / 2 + 1, bounds.2)) := by
  rcases bind_eq_ok.mp h with ⟨b, htest, h⟩
  cases b with
  | true =>
    cases h
    exact .inl ⟨htest, rfl⟩
  | false =>
    cases h
    exact .inr ⟨htest, rfl⟩

theorem searchBody_lowers (test : Nat → Except ε Bool) (bounds bounds' : Nat × Nat)
    (hc : (searchCond bounds : Except ε Bool) = .ok true)
    (hb : searchBody test bounds = .ok bounds') : bounds'.2 - bounds'.1 < bounds.2 - bounds.1 := by
  have hlt : bounds.1 < bounds.2 := by simpa [searchCond, pure, Except.pure] using hc
  rcases searchBody_eq_ok hb with ⟨-, rfl⟩ | ⟨-, rfl⟩
  · dsimp only
    omega
  · dsimp only
    omega

/-- The binary search from `lo` with the bound `hi`: the final lower bound. -/
def lowerBound (test : Nat → Except ε Bool) (lo hi : Nat) : Except ε Nat :=
  (whileM searchCond (searchBody test) (fun bounds => bounds.2 - bounds.1)
    (searchBody_lowers test) (lo, hi)).map Prod.fst

section Spec

variable (P : Nat → Prop) (lo₀ hi₀ : Nat)

/-- The invariant of the search started at `(lo₀, hi₀)`: the lower bound never goes below the
start, the upper bound never above its start, everything from the start to below the lower
bound fails, and the larger bound passes. -/
structure SearchInv (bounds : Nat × Nat) : Prop where
  start_le : lo₀ ≤ bounds.1
  hi_le : bounds.2 ≤ hi₀
  below_fail : ∀ s, lo₀ ≤ s → s < bounds.1 → ¬ P s
  passes : P (max bounds.1 bounds.2)

variable {P lo₀ hi₀} {test : Nat → Except ε Bool} [DecidablePred P]

/-- A round keeps the invariant of a test that is monotone from the start. -/
theorem SearchInv.step (hmono : ∀ a b, lo₀ ≤ a → a ≤ b → P a → P b)
    (htest : ∀ s, lo₀ ≤ s → s < hi₀ → test s = .ok (decide (P s))) {bounds bounds' : Nat × Nat}
    (hinv : SearchInv P lo₀ hi₀ bounds) (hc : (searchCond bounds : Except ε Bool) = .ok true)
    (hb : searchBody test bounds = .ok bounds') : SearchInv P lo₀ hi₀ bounds' := by
  have hlt : bounds.1 < bounds.2 := by simpa [searchCond, pure, Except.pure] using hc
  have hmid : lo₀ ≤ (bounds.1 + bounds.2) / 2 := by have := hinv.start_le; omega
  have hmidhi : (bounds.1 + bounds.2) / 2 < hi₀ := by have := hinv.hi_le; omega
  have hrun := htest _ hmid hmidhi
  rcases searchBody_eq_ok hb with ⟨htrue, rfl⟩ | ⟨hfalse, rfl⟩
  · -- the midpoint passes: it is the new upper bound
    have hP : P ((bounds.1 + bounds.2) / 2) := by
      rw [hrun] at htrue
      simpa using htrue
    refine ⟨hinv.start_le, by omega, hinv.below_fail, ?_⟩
    rwa [Nat.max_eq_right (by omega)]
  · -- the midpoint fails, and so does everything below it
    have hnP : ¬ P ((bounds.1 + bounds.2) / 2) := by
      rw [hrun] at hfalse
      simpa using hfalse
    refine ⟨by omega, hinv.hi_le, ?_, ?_⟩
    · intro s hs hlt'
      by_cases hs' : s < bounds.1
      · exact hinv.below_fail s hs hs'
      · exact fun hPs => hnP (hmono s _ hs (by omega) hPs)
    · have := hinv.passes
      rwa [Nat.max_eq_right (by omega)] at this ⊢

/-- Under the invariant a round runs: its test is at a midpoint from the start on and below the
upper bound. -/
theorem SearchInv.body_ok (htest : ∀ s, lo₀ ≤ s → s < hi₀ → test s = .ok (decide (P s)))
    {bounds : Nat × Nat} (hinv : SearchInv P lo₀ hi₀ bounds)
    (hc : (searchCond bounds : Except ε Bool) = .ok true) :
    ∃ bounds', searchBody test bounds = .ok bounds' := by
  have hlt : bounds.1 < bounds.2 := by simpa [searchCond, pure, Except.pure] using hc
  have hmid : lo₀ ≤ (bounds.1 + bounds.2) / 2 := by have := hinv.start_le; omega
  have hmidhi : (bounds.1 + bounds.2) / 2 < hi₀ := by have := hinv.hi_le; omega
  by_cases hP : P ((bounds.1 + bounds.2) / 2)
  · refine ⟨(bounds.1, (bounds.1 + bounds.2) / 2), ?_⟩
    simp [searchBody, htest _ hmid hmidhi, hP, ok_bind, pure, Except.pure]
  · refine ⟨((bounds.1 + bounds.2) / 2 + 1, bounds.2), ?_⟩
    simp [searchBody, htest _ hmid hmidhi, hP, ok_bind, pure, Except.pure]

/-- The binary search returns the least value from `lo` on that passes the test, when the test
is monotone from `lo` on, passes at the larger bound, and does not fail from `lo` to below
`hi`. -/
theorem lowerBound_isLeast {lo hi : Nat} (hmono : ∀ a b, lo ≤ a → a ≤ b → P a → P b)
    (hhi : P (max lo hi)) (htest : ∀ s, lo ≤ s → s < hi → test s = .ok (decide (P s))) :
    ∃ r, lowerBound test lo hi = .ok r ∧ IsLeast {s | lo ≤ s ∧ P s} r := by
  have hinit : SearchInv P lo hi (lo, hi) :=
    ⟨Nat.le_refl _, Nat.le_refl _, fun s hs hlt => absurd hs (Nat.not_le.mpr hlt), hhi⟩
  obtain ⟨t, hrun, hinv, hcond⟩ := @whileM_exists_ok _ _ searchCond (searchBody test) (fun bounds => bounds.2 - bounds.1)
    (searchBody_lowers test) (SearchInv P lo hi)
    (fun _ _ => ⟨_, rfl⟩)
    (fun _ hs hc =>
      let ⟨bounds', hb⟩ := hs.body_ok htest hc
      ⟨bounds', hb, hs.step hmono htest hc hb⟩)
    _ hinit
  -- at the exit the bounds have met, so the lower one passes
  have hge : t.2 ≤ t.1 := by simpa [searchCond, pure, Except.pure] using hcond
  refine ⟨t.1, by simp [lowerBound, hrun, Except.map], ⟨hinv.start_le, ?_⟩, ?_⟩
  · have := hinv.passes
    rwa [Nat.max_eq_left hge] at this
  · rintro s ⟨hs, hPs⟩
    by_contra hlt
    exact hinv.below_fail s hs (Nat.lt_of_not_le hlt) hPs

end Spec

end Machine
