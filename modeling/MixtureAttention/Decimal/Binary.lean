/-
Binary64 numbers as exact magnitudes. A finite number is a sign and a
natural mantissa times a power of two; `nearest` finds the number closest
to a given fraction, a fraction halfway between two numbers going to the
one with an even mantissa. All arithmetic is on naturals, so nothing here
depends on a floating-point operation.
-/

namespace MixtureAttention.Decimal

/-- A power whose exponent is an integer, as a natural number: one where
the exponent is negative. A fraction carries `power b e` above and
`power b (-e)` below, of which at most one differs from one. -/
def power (base : Nat) (e : Int) : Nat := Nat.pow base e.toNat

/-- The leading bit of a mantissa. -/
def leadingBit : Nat := Nat.pow 2 52

/-- The value `mantissa * 2 ^ exponent`. -/
structure Magnitude where
  mantissa : Nat
  exponent : Int
deriving DecidableEq, Repr

/-- The weight of the sign bit. -/
def signBit : Nat := Nat.pow 2 63

/-- The magnitude bits of infinity: every finite magnitude is below them
and every number that is not a number above. -/
def infinityBits : Nat := 2047 * leadingBit

/-- The bits of a number without its sign. -/
def magnitudeBits (x : Float) : Nat := x.toBits.toNat % signBit

/-- Whether the sign bit is set. -/
def isNegative (x : Float) : Bool := signBit ≤ x.toBits.toNat

/-- The number with a given sign and given magnitude bits. -/
def ofMagnitudeBits (negative : Bool) (bits : Nat) : Float :=
  Float.ofBits (UInt64.ofNat (if negative then signBit + bits else bits))

/-- The magnitude that finite magnitude bits stand for. The field above
the low fifty-two bits is the exponent; where it is zero the mantissa has
no implicit leading bit. -/
def Magnitude.ofBits (bits : Nat) : Magnitude :=
  let field := bits / leadingBit
  let fraction := bits % leadingBit
  if field = 0 then ⟨fraction, -1074⟩
  else ⟨leadingBit + fraction, (field : Int) - 1075⟩

/-- `num / den * 2 ^ -e` as a fraction of naturals. -/
def scaled (num den : Nat) (e : Int) : Nat × Nat :=
  (num * power 2 (-e), den * power 2 e)

/-- The natural number nearest to a fraction, a half going to the even
neighbour. -/
def roundHalfEven (num den : Nat) : Nat :=
  let q := num / den
  let r := 2 * (num % den)
  if den < r ∨ (r = den ∧ q % 2 = 1) then q + 1 else q

/-- The exponent with which the mantissa of a positive fraction fills
fifty-three bits, or the least exponent if that is larger. The first
guess leaves a quotient of at most fifty-four bits. -/
def exponentFor (num den : Nat) : Int :=
  let guess := max (-1074) ((num.log2 : Int) - (den.log2 : Int) - 53)
  let (n, d) := scaled num den guess
  if n / d < 2 * leadingBit then guess else guess + 1

/-- The magnitude bits of the number nearest to a fraction. A mantissa
that rounds up to the next power of two carries into the exponent field,
and a carry past the largest exponent is infinity. -/
def nearest (num den : Nat) : Nat :=
  if num = 0 then 0
  else
    let e := exponentFor num den
    let (n, d) := scaled num den e
    min infinityBits ((e + 1074).toNat * leadingBit + roundHalfEven n d)

end MixtureAttention.Decimal
