import Mathlib

/-! # Shares rounded down

A total split among parties in proportion to their parts, each share rounded down: the
shares never add up to more than the total, so the splits of a balance one after the other
never run dry, and what is left over is the total less the shares. A count of shares
recounted at a fixed rate after a payout and a deposit keeps every share not paid out
(`mul_div_add_sub_le`).
-/

namespace Machine

/-- Rounding down each part gives at most the rounded sum. -/
theorem sum_map_div_le (d : Nat) : ∀ l : List Nat, (l.map (· / d)).sum ≤ l.sum / d
  | [] => by simp
  | x :: l => by
    simp only [List.map_cons, List.sum_cons]
    calc x / d + (l.map (· / d)).sum
        ≤ x / d + l.sum / d := Nat.add_le_add_left (sum_map_div_le d l) _
      _ ≤ (x + l.sum) / d := Nat.div_add_div_le_add_div

/-- A part of the whole receives at most the total. -/
theorem mul_div_max_le {x whole : Nat} (total : Nat) (hx : x ≤ whole) :
    x * total / max whole 1 ≤ total := by
  apply Nat.div_le_of_le_mul
  calc x * total ≤ whole * total := Nat.mul_le_mul_right total hx
    _ ≤ max whole 1 * total := Nat.mul_le_mul_right total (le_max_left whole 1)

/-- The shares of all parts add up to at most the total. -/
theorem sum_map_mul_div_le (l : List Nat) (total : Nat) :
    (l.map fun x => x * total / max l.sum 1).sum ≤ total := by
  calc (l.map fun x => x * total / max l.sum 1).sum
      = ((l.map (· * total)).map (· / max l.sum 1)).sum := by rw [List.map_map]; rfl
    _ ≤ (l.map (· * total)).sum / max l.sum 1 := sum_map_div_le _ _
    _ = l.sum * total / max l.sum 1 := by rw [List.sum_map_mul_right, List.map_id']
    _ ≤ total := mul_div_max_le total le_rfl

/-- Shares recounted at a fixed rate of `w` to `s` after `x` of the `s` shares are paid out in
`w`-units, rounded down, and `a` units come in: the recount keeps the `s - x` shares left and
the shares the `a` units buy. -/
theorem mul_div_add_sub_le {w s x : Nat} (a : Nat) (hw : 0 < w) (hx : x ≤ s) :
    a * s / w + (s - x) ≤ (w + a - x * w / s) * s / w := by
  rw [Nat.le_div_iff_mul_le hw]
  have hpaid : x * w / s * s ≤ x * w := Nat.div_mul_le_self _ _
  have hbought : a * s / w * w ≤ a * s := Nat.div_mul_le_self _ _
  have hxw : x * w ≤ s * w := Nat.mul_le_mul_right w hx
  calc (a * s / w + (s - x)) * w
      = a * s / w * w + (s * w - x * w) := by rw [Nat.add_mul, Nat.sub_mul]
    _ ≤ a * s + (s * w - x * w / s * s) := by omega
    _ = (w + a - x * w / s) * s := by
        rw [Nat.sub_mul, Nat.add_mul, Nat.mul_comm w s]
        have hpaid' : x * w / s * s ≤ s * w := le_trans hpaid hxw
        omega

end Machine
