/-
Elements of a field. A layer computes exactly over every field that brings
along the functions a field does not have: an exponential, a hyperbolic
tangent, a maximum and a rounding of binary64 numbers. What is asked of
these, that the exponential be positive for instance, is left to the
statements, so each says what it rests on.

Rational numbers are the field that can be evaluated.
-/
import Mathlib.Algebra.Order.Field.Basic
import Mathlib.Algebra.Order.Field.Rat
import Mathlib.Data.Rat.Cast.OfScientific
import MixtureAttention.Decimal.Binary
import MixtureAttention.Scalar

namespace MixtureAttention

/-- The operations on elements that are not those of a field. -/
class Transcendental (α : Type) where
  exp : α → α
  tanh : α → α
  max : α → α → α
  isFinite : α → Bool
  ofFloat : Float → α

/-- Exact arithmetic in a field, with minus infinity below every element. -/
instance (priority := low) Scalar.ofField {α : Type} [Transcendental α]
    [Field α] : Scalar α where
  exp := Transcendental.exp
  tanh := Transcendental.tanh
  max := Transcendental.max
  maxNegInf := id
  isFinite := Transcendental.isFinite
  ofFloat := Transcendental.ofFloat

-- ======================================================= rational numbers

/-- The value of a finite binary64 number. -/
def rationalOfFloat (x : Float) : ℚ :=
  let m := Decimal.Magnitude.ofBits (Decimal.magnitudeBits x)
  (if Decimal.isNegative x then -1 else 1) * m.mantissa
    * (2 : ℚ) ^ m.exponent

/-- Rational functions of the same course stand in for the two that no
rational number has: one is positive, rises and is one at zero, the other
rises between minus one and one. -/
instance : Transcendental ℚ where
  exp x := if x < 0 then 1 / (1 - x) else 1 + x
  tanh x := x / (1 + |x|)
  max := max
  isFinite _ := true
  ofFloat := rationalOfFloat

theorem rational_exp_pos (x : ℚ) : 0 < (Scalar.exp x : ℚ) := by
  show 0 < if x < 0 then 1 / (1 - x) else 1 + x
  split
  · next hneg => exact one_div_pos.2 (sub_pos.2 (hneg.trans one_pos))
  · next hpos => exact add_pos_of_pos_of_nonneg one_pos (not_lt.1 hpos)

end MixtureAttention
