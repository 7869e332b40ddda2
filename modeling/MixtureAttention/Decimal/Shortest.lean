/-
The shortest decimal that reads back to a given binary64 number, written
out positionally. The numbers that read back to a magnitude form an
interval around it: halfway to its neighbour on either side, the ends
included exactly when the mantissa is even. For one, two, up to seventeen
digits the two neighbours of the magnitude on that decimal grid are
tested; the first grid that has one in the interval decides.
-/
import MixtureAttention.Text.Natural
import MixtureAttention.Decimal.Binary

namespace MixtureAttention.Decimal

/-- The value `coefficient * 10 ^ exponent`. -/
structure Scientific where
  coefficient : Nat
  exponent : Int
deriving DecidableEq, Repr

namespace Scientific

/-- The value as a fraction of naturals. -/
def num (d : Scientific) : Nat := d.coefficient * power 10 d.exponent

/-- The denominator that goes with `num`. -/
def den (d : Scientific) : Nat := power 10 (-d.exponent)

end Scientific

-- ================================================= the interval around it

/-- `units * 2 ^ e`, compared with a decimal: both sides are brought to
naturals by multiplying the denominators across. -/
def Scientific.compareTo (d : Scientific) (units : Nat) (e : Int) :
    Ordering :=
  compare (d.num * power 2 (-e)) (units * power 2 e * d.den)

/-- Whether a decimal lies in the interval of numbers that read back to
the magnitude. In quarters of the mantissa's unit the ends are two below
and two above, but one below at a power of two, where the neighbour below
is only half as far away. -/
def Magnitude.readsBack (m : Magnitude) (d : Scientific) : Bool :=
  let below :=
    if m.mantissa = leadingBit ∧ -1074 < m.exponent then 4 * m.mantissa - 1
    else 4 * m.mantissa - 2
  let low := d.compareTo below (m.exponent - 2)
  let high := d.compareTo (4 * m.mantissa + 2) (m.exponent - 2)
  if m.mantissa % 2 = 0 then low.isGE && high.isLE
  else low.isGT && high.isLT

-- ============================================================= the search

/-- The power of ten just above a positive magnitude: `m < 10 ^ k`. The
estimate by the binary logarithm is at most one too large or too small,
so one of four powers is the least. -/
def Magnitude.scale (m : Magnitude) : Int :=
  let guess := Int.fdiv ((m.mantissa.log2 + m.exponent) * 30103) 100000
  let above := fun k : Int =>
    (Scientific.mk 1 k).compareTo m.mantissa m.exponent == .gt
  (([guess - 1, guess, guess + 1].find? above).getD (guess + 2))

/-- The largest multiple of `10 ^ k` that is not above the magnitude, as
a coefficient. -/
def Magnitude.floorAt (m : Magnitude) (k : Int) : Nat :=
  m.mantissa * power 2 m.exponent * power 10 (-k)
    / (power 2 (-m.exponent) * power 10 k)

/-- The candidate on the grid of multiples of `10 ^ k` that reads back. Of
two candidates the nearer wins, and the larger if both are as near. -/
def Magnitude.candidate? (m : Magnitude) (k : Int) : Option Scientific :=
  let low := m.floorAt k
  let middle := Scientific.mk (2 * low + 1) k
  match m.readsBack ⟨low, k⟩, m.readsBack ⟨low + 1, k⟩ with
  | true, true =>
      if (middle.compareTo (2 * m.mantissa) m.exponent).isGT then
        some ⟨low, k⟩
      else some ⟨low + 1, k⟩
  | true, false => some ⟨low, k⟩
  | false, true => some ⟨low + 1, k⟩
  | false, false => none

/-- The magnitude in full: a binary fraction is a decimal fraction with as
many places. -/
def Magnitude.exact (m : Magnitude) : Scientific :=
  if 0 ≤ m.exponent then ⟨m.mantissa * power 2 m.exponent, 0⟩
  else ⟨m.mantissa * power 5 (-m.exponent), m.exponent⟩

/-- The decimal with the fewest digits that reads back to a positive
magnitude. Seventeen digits always suffice; past them the magnitude is
given in full. -/
def Magnitude.shortest (m : Magnitude) : Scientific :=
  let scale := m.scale
  ((List.range 17).findSome? fun (n : Nat) =>
    m.candidate? (scale - (n + 1))).getD m.exact

-- ============================================================= the layout

/-- A decimal written positionally: no exponent, no zeros at the end of
the fraction, and no point without a fraction. -/
def Scientific.positional (d : Scientific) : List Char :=
  let ds := Natural.digits d.coefficient
  let places := (-d.exponent).toNat
  let padded := List.replicate (places + 1 - ds.length) '0' ++ ds
  let whole := padded.take (padded.length - places)
  let fraction :=
    ((padded.drop (padded.length - places)).reverse.dropWhile
      (· = '0')).reverse
  whole ++ List.replicate d.exponent.toNat '0'
    ++ (if fraction = [] then [] else '.' :: fraction)

/-- The text of a binary64 number: its sign, then the shortest decimal
that reads back. The sign of zero is kept. -/
def text (x : Float) : String :=
  let bits := magnitudeBits x
  let body :=
    if infinityBits < bits then "NaN".toList
    else if bits = infinityBits then "inf".toList
    else if bits = 0 then ['0']
    else (Magnitude.ofBits bits).shortest.positional
  String.ofList
    (if isNegative x ∧ bits ≤ infinityBits then '-' :: body else body)

-- Places after the point, zeros before the first digit, zeros after the
-- last, and the sign of zero.
example : text 1.25 = "1.25" := by decide +kernel

example : text 0.005 = "0.005" := by decide +kernel

example : text 12e3 = "12000" := by decide +kernel

example : text (-0.0) = "-0" := by decide +kernel

/-- One digit is enough for the smallest positive number. -/
example : (Magnitude.mk 1 (-1074)).shortest = ⟨5, -324⟩ := by
  decide +kernel

/-- A number halfway between two shortest decimals is written as the
larger. -/
example : text 77738722913449.625 = "77738722913449.63" := by
  decide +kernel

end MixtureAttention.Decimal
