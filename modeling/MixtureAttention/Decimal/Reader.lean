/-
Reading a binary64 number from decimal text. The accepted form is an
optional sign, then a word for infinity or for a number that is not a
number, in any case, or digits with at most one point among or beside
them and an optional exponent. The value is the number nearest to the
decimal, whatever its length.
-/
import MixtureAttention.Text.Blank
import MixtureAttention.Decimal.Shortest

namespace MixtureAttention.Decimal

/-- The magnitude bits nearest to a decimal. A decimal that is far out of
range is settled by a bound alone, so that a long exponent costs nothing:
ten to the power `e` is at most eight to it where `e` is negative, and at
least that where it is not. -/
def Scientific.toBits (d : Scientific) : Nat :=
  let bound := (d.coefficient.log2 : Int) + 3 * d.exponent
  if d.coefficient = 0 ∨ bound < -1100 then 0
  else if 0 ≤ d.exponent ∧ 1024 ≤ bound then infinityBits
  else nearest d.num d.den

-- ======================================================= the accepted form

/-- A sign, if there is one, and what follows it. -/
def splitSign : List Char → Bool × List Char
  | '-' :: cs => (true, cs)
  | '+' :: cs => (false, cs)
  | cs => (false, cs)

/-- The exponent part: nothing, or a mark and digits with an optional
sign. -/
def readExponent? : List Char → Option Int
  | [] => some 0
  | c :: cs =>
      let (negative, ds) := splitSign cs
      if (c = 'e' ∨ c = 'E') ∧ ds ≠ [] ∧ ds.all Char.isDigit then
        some (if negative then -(Natural.value ds : Int)
          else Natural.value ds)
      else none

/-- An unsigned decimal: digits, a point and more digits, an exponent.
One of the two runs of digits may be empty. -/
def readScientific? (cs : List Char) : Option Scientific := do
  let whole := cs.takeWhile Char.isDigit
  let rest := cs.dropWhile Char.isDigit
  let (fraction, tail) :=
    match rest with
    | '.' :: after =>
        (after.takeWhile Char.isDigit, after.dropWhile Char.isDigit)
    | _ => ([], rest)
  if whole = [] ∧ fraction = [] then none
  let e ← readExponent? tail
  some ⟨Natural.value (whole ++ fraction), e - fraction.length⟩

/-- The magnitude bits of unsigned text. -/
def readBits? (cs : List Char) : Option Nat :=
  let word := String.ofList (cs.map Text.lowerChar)
  if word = "inf" ∨ word = "infinity" then some infinityBits
  else if word = "nan" then some (infinityBits + leadingBit / 2)
  else (readScientific? cs).map Scientific.toBits

-- A point needs a digit on one side of it, and an exponent needs digits.
example : readBits? "1.".toList = readBits? "1".toList := by decide +kernel

example : readBits? ".5".toList = readBits? "5e-1".toList := by
  decide +kernel

example : readBits? ".".toList = none := by decide +kernel

example : readBits? "1e".toList = none := by decide +kernel

/-- Reads a binary64 number. -/
def read? (s : String) : Option Float :=
  let (negative, cs) := splitSign s.toList
  (readBits? cs).map (ofMagnitudeBits negative)

end MixtureAttention.Decimal
