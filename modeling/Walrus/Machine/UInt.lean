import Mathlib.Tactic.Ring

/-! # Rust's unsigned integer operations

The Rust models keep a fixed-width unsigned integer as the natural number it denotes. This
module spells out what the standard library computes for the operations whose result is not
the exact one in every case:

* `div_ceil`, the quotient rounded up, never overflows; its closed form is the one the Move
  contracts compute by hand, `(a - 1) / b + 1`.
* `next_multiple_of` adds the missing remainder. The release profile has no overflow checks,
  so the addition wraps at `2 ^ bits`: one step below the top of the type, a rounding up to
  the next even number comes out as zero.
-/

namespace Machine

/-- `div_ceil` of the unsigned integer types, as the standard library computes it. -/
def divCeil (a b : Nat) : Nat :=
  let d := a / b
  let r := a % b
  if r > 0 then d + 1 else d

/-- `next_multiple_of` of a `bits`-wide unsigned type in the release profile: the addition
that rounds up wraps. -/
def nextMultipleOf (bits a rhs : Nat) : Nat :=
  match a % rhs with
  | 0 => a
  | r + 1 => (a + (rhs - (r + 1))) % 2 ^ bits

/-- Decrementing a number off a multiple of `b` keeps the quotient. -/
theorem sub_one_div_of_mod_pos {a b : Nat} (hb : 0 < b) (hr : 0 < a % b) :
    (a - 1) / b = a / b := by
  have hd := Nat.div_add_mod a b
  have hlt := Nat.mod_lt a hb
  have hcomm : b * (a / b) = a / b * b := Nat.mul_comm _ _
  apply Nat.div_eq_of_lt_le
  · omega
  · have hsucc : (a / b + 1) * b = a / b * b + b := Nat.succ_mul _ _
    omega

/-- Decrementing a positive multiple of `b` decrements the quotient. -/
theorem sub_one_div_of_mod_eq_zero {a b : Nat} (ha : 0 < a) (hb : 0 < b) (hr : a % b = 0) :
    (a - 1) / b + 1 = a / b := by
  have hd := Nat.div_add_mod a b
  have hcomm : b * (a / b) = a / b * b := Nat.mul_comm _ _
  have hq : 0 < a / b := by
    rcases Nat.eq_zero_or_pos (a / b) with h0 | h0
    · rw [h0] at hd
      omega
    · exact h0
  have hpred : (a - 1) / b = a / b - 1 := by
    apply Nat.div_eq_of_lt_le
    · have hsub : (a / b - 1) * b = a / b * b - b := Nat.sub_one_mul _ _
      omega
    · rw [Nat.sub_add_cancel hq]
      omega
  rw [hpred]
  omega

/-- On a positive number `div_ceil` is the hand-written rounding up of the contracts. -/
theorem divCeil_eq {a b : Nat} (ha : 0 < a) (hb : 0 < b) : divCeil a b = (a - 1) / b + 1 := by
  unfold divCeil
  dsimp only
  split
  case isTrue hr => rw [sub_one_div_of_mod_pos hb hr]
  case isFalse hr => rw [sub_one_div_of_mod_eq_zero ha hb (by omega)]

/-- `b` times the rounded-up quotient covers `a`, and by less than `b`. -/
theorem le_mul_divCeil (a : Nat) {b : Nat} (hb : 0 < b) :
    a ≤ b * divCeil a b ∧ b * divCeil a b < a + b := by
  have hd := Nat.div_add_mod a b
  have hlt := Nat.mod_lt a hb
  unfold divCeil
  dsimp only
  split
  case isTrue hr =>
    rw [Nat.mul_succ]
    omega
  case isFalse hr => omega

/-- The rounded-up quotient is at most `c` exactly when `b * c` covers `a`. -/
theorem divCeil_le_iff {a b c : Nat} (hb : 0 < b) : divCeil a b ≤ c ↔ a ≤ b * c := by
  obtain ⟨hcover, hlt⟩ := le_mul_divCeil a hb
  constructor
  · intro h
    exact hcover.trans (Nat.mul_le_mul_left b h)
  · intro h
    by_contra hgt
    have hmul : b * (c + 1) ≤ b * divCeil a b := Nat.mul_le_mul_left b (by omega)
    rw [Nat.mul_succ] at hmul
    omega

theorem divCeil_le_self (a : Nat) {b : Nat} (hb : 0 < b) : divCeil a b ≤ a :=
  (divCeil_le_iff hb).mpr (Nat.le_mul_of_pos_left a hb)

/-- A larger divisor gives a smaller rounded-up quotient. -/
theorem divCeil_le_divCeil {a b b' : Nat} (hb : 0 < b) (hbb : b ≤ b') :
    divCeil a b' ≤ divCeil a b := by
  rw [divCeil_le_iff (by omega)]
  exact (le_mul_divCeil a hb).1.trans (Nat.mul_le_mul_right _ hbb)

/-- A number below `a` has its quotient below the rounded-up quotient of `a`. -/
theorem div_lt_divCeil {x a b : Nat} (hb : 0 < b) (hx : x < a) : x / b < divCeil a b := by
  rw [Nat.div_lt_iff_lt_mul hb, Nat.mul_comm]
  exact Nat.lt_of_lt_of_le hx (le_mul_divCeil a hb).1

/-- Below the top of the type, rounding up to an even number adds the parity. -/
theorem nextMultipleOf_two {bits a : Nat} (h : a + 1 < 2 ^ bits) :
    nextMultipleOf bits a 2 = a + a % 2 := by
  unfold nextMultipleOf
  split
  case h_1 h0 => rw [h0, Nat.add_zero]
  case h_2 r hr =>
    have hr1 : a % 2 = 1 := by omega
    rw [hr1, Nat.mod_eq_of_lt (by omega)]
    omega

/-- At the top of the type, rounding up to an even number wraps to zero. -/
theorem nextMultipleOf_two_max {bits : Nat} (hb : 0 < bits) :
    nextMultipleOf bits (2 ^ bits - 1) 2 = 0 := by
  have hpos : 2 ≤ 2 ^ bits := Nat.le_self_pow (Nat.pos_iff_ne_zero.mp hb) 2
  have hmod : (2 ^ bits - 1) % 2 = 1 := by
    obtain ⟨k, rfl⟩ := Nat.exists_eq_add_of_lt hb
    rw [Nat.pow_succ]
    omega
  unfold nextMultipleOf
  rw [hmod]
  dsimp only
  rw [Nat.sub_add_cancel (by omega), Nat.mod_self]

end Machine
