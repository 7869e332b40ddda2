/-
Blank characters, and the two normal forms that keys and values of
settings are brought into: blanks off both ends, and ASCII letters in
lower case.
-/

namespace MixtureAttention.Text

/-- The characters with the Unicode property White_Space, as ranges of
code points in ascending order. -/
def blankRanges : List (Nat × Nat) :=
  [(0x09, 0x0d), (0x20, 0x20), (0x85, 0x85), (0xa0, 0xa0),
   (0x1680, 0x1680), (0x2000, 0x200a), (0x2028, 0x2029),
   (0x202f, 0x202f), (0x205f, 0x205f), (0x3000, 0x3000)]

/-- A character of the White_Space property. -/
def isBlank (c : Char) : Bool :=
  blankRanges.any fun (low, high) => low ≤ c.toNat ∧ c.toNat ≤ high

/-- The property has twenty-five characters. -/
example : (blankRanges.map fun (low, high) => high + 1 - low).sum = 25 := by
  decide

/-- Characters without the blanks at either end. -/
def trimChars (cs : List Char) : List Char :=
  ((cs.dropWhile isBlank).reverse.dropWhile isBlank).reverse

/-- Text without the blanks at either end. -/
def trim (s : String) : String := String.ofList (trimChars s.toList)

/-- ASCII capitals become small letters; no other character changes. -/
def lowerChar (c : Char) : Char :=
  if 'A' ≤ c ∧ c ≤ 'Z' then Char.ofNat (c.toNat + 32) else c

/-- Text with its ASCII capitals in lower case. -/
def lower (s : String) : String :=
  String.ofList (s.toList.map lowerChar)

/-- The normal form of a name: trimmed and in lower case. -/
def normalize (s : String) : String := lower (trim s)

/-- The text before and after the first occurrence of a character. -/
def splitFirst? (sep : Char) (s : String) : Option (String × String) :=
  match s.toList.dropWhile (· ≠ sep) with
  | [] => none
  | _ :: after =>
      some (String.ofList (s.toList.takeWhile (· ≠ sep)),
        String.ofList after)

example : normalize " He_Uniform\t" = "he_uniform" := by decide +kernel

example : splitFirst? '=' "a=b=c" = some ("a", "b=c") := by decide +kernel

end MixtureAttention.Text
