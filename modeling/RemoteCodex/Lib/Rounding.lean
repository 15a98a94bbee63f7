import Mathlib.Algebra.Order.Round
import Mathlib.Algebra.Order.Field.Basic
import Mathlib.Data.Rat.Floor
import Mathlib.Tactic.Linarith

/-! Conversions between integers and the numbers of an ordered field, and how they round. -/

namespace Rounding
set_option autoImplicit true

variable {α : Type} [Field α] [LinearOrder α] [FloorRing α]

/-- To the nearest integer, and of two that are as near to the one farther from zero. -/
def awayFromZero (x : α) : ℤ := if 0 ≤ x then round x else -round (-x)

/-- The integer part. -/
def towardZero (x : α) : ℤ := if 0 ≤ x then ⌊x⌋ else ⌈x⌉

/-- The nearest integer of a range. -/
def saturate (low high n : ℤ) : ℤ := max low (min high n)

theorem awayFromZero_nonneg {x : α} (h : 0 ≤ x) : awayFromZero x = round x := if_pos h

theorem towardZero_nonneg {x : α} (h : 0 ≤ x) : towardZero x = ⌊x⌋ := if_pos h

theorem saturate_inside {low high n : ℤ} (h₁ : low ≤ n) (h₂ : n ≤ high) :
    saturate low high n = n := by
  rw [saturate, min_eq_right h₂, max_eq_right h₁]

variable [IsStrictOrderedRing α]

theorem round_mono {x y : α} (h : x ≤ y) : round x ≤ round y := by
  rw [round_eq, round_eq]
  exact Int.floor_mono (add_le_add_left h _)

/-- Rounding does not take a number across an integer. -/
theorem round_inside {x : α} {low high : ℤ} (h₁ : low ≤ x) (h₂ : x ≤ high) :
    low ≤ round x ∧ round x ≤ high := by
  constructor
  · rw [← round_intCast (α := α) low]
    exact round_mono h₁
  · rw [← round_intCast (α := α) high]
    exact round_mono h₂

end Rounding
