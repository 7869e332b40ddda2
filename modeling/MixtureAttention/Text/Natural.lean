/-
Natural numbers in decimal text. `digits` writes a number without leading
zeros, `value` reads a run of digits, and `read?` is the reader for counts
in settings: an optional plus sign, at least one digit, and a value that
fits a 64-bit word.
-/

namespace MixtureAttention.Natural

/-- The character of a digit below ten. -/
def digitChar (d : Nat) : Char := Char.ofNat (48 + d)

/-- The decimal digits of a number, most significant first. -/
def digits (n : Nat) : List Char :=
  if n < 10 then [digitChar n] else digits (n / 10) ++ [digitChar (n % 10)]

/-- A number in decimal text. -/
def text (n : Nat) : String := String.ofList (digits n)

/-- The value of a run of decimal digits. -/
def value (cs : List Char) : Nat :=
  cs.foldl (fun n c => 10 * n + (c.toNat - 48)) 0

/-- The values that a count can take are below this. -/
def wordLimit : Nat := Nat.pow 2 64

/-- Reads a run of digits; a run that is empty or too large for a word, or
any other character, is refused. -/
def readDigits? (cs : List Char) : Option Nat :=
  if cs ≠ [] ∧ cs.all Char.isDigit ∧ value cs < wordLimit then
    some (value cs)
  else none

/-- Reads a count, which may carry a plus sign but no minus sign. -/
def read? : List Char → Option Nat
  | '+' :: cs => readDigits? cs
  | cs => readDigits? cs

example : read? "+007".toList = some 7 := by decide +kernel

example : read? "-7".toList = none := by decide +kernel

example : read? "+".toList = none := by decide +kernel

example : text 1024 = "1024" := by decide +kernel

end MixtureAttention.Natural
