/-
The elements that buffers hold. `Scalar` lists the operations the library
uses on them and no laws: a layer runs on binary32 and binary64 numbers,
whose sums are not associative, and is reasoned about over any carrier
that interprets the same operations. Whatever a statement needs beyond
the operations (a ring, an ordered field, the real exponential) it asks
for itself.
-/

namespace MixtureAttention

/-- Element operations. `max` ignores an operand that is not a number;
`maxNegInf` compares minus infinity with an element, which is how the search
for the largest element of a row begins, also in a carrier without
infinities. `ofFloat` rounds a binary64 value (a penalty constant, a random
draw) to the carrier. -/
class Scalar (α : Type) extends Zero α, One α, Add α, Sub α, Mul α, Div α,
    Neg α, NatCast α, OfScientific α where
  exp : α → α
  tanh : α → α
  max : α → α → α
  maxNegInf : α → α
  isFinite : α → Bool
  ofFloat : Float → α

-- ================================================= binary64 and binary32

/-- The larger of two binary64 numbers. -/
def maxFloat (a b : Float) : Float :=
  if a.isNaN then b else if a < b then b else a

/-- The larger of two binary32 numbers. -/
def maxFloat32 (a b : Float32) : Float32 :=
  if a.isNaN then b else if a < b then b else a

/-- Binary64 arithmetic. -/
instance : Scalar Float where
  zero := 0.0
  one := 1.0
  natCast := Float.ofNat
  exp := Float.exp
  tanh := Float.tanh
  max := maxFloat
  maxNegInf := maxFloat (-1.0 / 0.0)
  isFinite := Float.isFinite
  ofFloat x := x

/-- Binary32 arithmetic. A count passes through binary64, which is exact
for every extent a buffer can have. -/
instance : Scalar Float32 where
  zero := 0.0
  one := 1.0
  natCast n := (Float.ofNat n).toFloat32
  exp := Float32.exp
  tanh := Float32.tanh
  max := maxFloat32
  maxNegInf := maxFloat32 (-1.0 / 0.0)
  isFinite := Float32.isFinite
  ofFloat := Float.toFloat32

end MixtureAttention
