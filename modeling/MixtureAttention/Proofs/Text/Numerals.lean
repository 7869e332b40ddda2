/-
Text that is left as it is. Blanks come off the ends of a text only where
there are blanks, and an entry is split at its first separator, so a text
of other characters survives trimming and splitting (`trim_of_unblank`,
`splitFirst?_join`). A text is split where it holds a separator, and nowhere
else (`splitFirst?_eq_some_iff`).

The digits of a number are such a text, and they read back: the value of
the digits is the number (`value_digits`), and the reader for counts takes
back every count that fits a word (`read?_text`).
-/
import Mathlib.Algebra.Group.Nat.Defs
import Mathlib.Data.List.TakeWhile
import MixtureAttention.Text.Blank
import MixtureAttention.Text.Natural

namespace MixtureAttention

-- ================================================================= blanks

namespace Text

/-- No character is blank. -/
def Unblank (cs : List Char) : Prop := ∀ c ∈ cs, isBlank c = false

/-- Text that does not start with a blank loses nothing at the front. -/
theorem dropWhile_of_unblank {cs : List Char} (h : Unblank cs) :
    cs.dropWhile isBlank = cs := by
  cases cs with
  | nil => rfl
  | cons c cs => rw [List.dropWhile_cons, h c (List.mem_cons_self ..)]; rfl

/-- Text that neither starts nor ends with a blank is trimmed already. -/
theorem trim_of_unblank {s : String} (h : Unblank s.toList) : trim s = s := by
  have hrev : Unblank s.toList.reverse :=
    fun c hc => h c (List.mem_reverse.1 hc)
  rw [trim, trimChars, dropWhile_of_unblank h, dropWhile_of_unblank hrev,
    List.reverse_reverse, String.ofList_toList]

-- ============================================================== splitting

/-- A text is split where it was joined, if what stands before the
separator does not hold one. -/
theorem splitFirst?_join {sep : Char} {key : String} (value : String)
    (h : sep ∉ key.toList) :
    splitFirst? sep (key ++ String.singleton sep ++ value)
      = some (key, value) := by
  have hkey : ∀ c ∈ key.toList, (decide (c ≠ sep)) = true := by
    intro c hc
    exact decide_eq_true fun heq => h (heq ▸ hc)
  have hlist : (key ++ String.singleton sep ++ value).toList
      = key.toList ++ sep :: value.toList := by
    simp
  have htail : (sep :: value.toList).dropWhile (· ≠ sep)
      = sep :: value.toList := by
    simp
  have hnone : (sep :: value.toList).takeWhile (· ≠ sep) = [] := by
    simp
  rw [splitFirst?, hlist, List.dropWhile_append_of_pos hkey,
    List.takeWhile_append_of_pos hkey, htail, hnone]
  simp only [List.append_nil, String.ofList_toList]

/-- What a text is split into: nothing is lost but the separator, and the
first part holds none. -/
theorem splitFirst?_eq_some_iff {sep : Char} {s key value : String} :
    splitFirst? sep s = some (key, value)
      ↔ sep ∉ key.toList ∧ s = key ++ String.singleton sep ++ value := by
  constructor
  · intro h
    have hjoin : s.toList.takeWhile (· ≠ sep) ++ s.toList.dropWhile (· ≠ sep)
        = s.toList := List.takeWhile_append_dropWhile
    have hhead := List.head?_dropWhile_not (· ≠ sep) s.toList
    unfold splitFirst? at h
    cases hrest : s.toList.dropWhile (· ≠ sep) with
    | nil =>
        rw [hrest] at h
        cases h
    | cons c after =>
        rw [hrest] at h hjoin hhead
        obtain ⟨rfl, rfl⟩ := Prod.mk.inj (Option.some.inj h)
        obtain rfl : c = sep := by simpa using hhead
        refine ⟨fun hmem => ?_, String.toList_injective ?_⟩
        · rw [String.toList_ofList] at hmem
          have hne := List.mem_takeWhile_imp (p := (· ≠ c)) hmem
          exact of_decide_eq_true hne rfl
        · simp only [String.toList_append, String.toList_ofList,
            String.toList_singleton, List.append_assoc, List.singleton_append]
          exact hjoin.symm
  · rintro ⟨h, rfl⟩
    exact splitFirst?_join value h

/-- A text without a separator is not split. -/
theorem splitFirst?_eq_none_iff {sep : Char} {s : String} :
    splitFirst? sep s = none ↔ sep ∉ s.toList := by
  have hnil : s.toList.dropWhile (· ≠ sep) = [] ↔ sep ∉ s.toList := by
    rw [List.dropWhile_eq_nil_iff]
    constructor
    · exact fun h hmem => of_decide_eq_true (h sep hmem) rfl
    · exact fun h c hc => decide_eq_true fun heq => h (heq ▸ hc)
  rw [← hnil, splitFirst?]
  cases s.toList.dropWhile (· ≠ sep) with
  | nil => exact iff_of_true rfl rfl
  | cons c after => exact iff_of_false nofun nofun

end Text

-- ================================================================= digits

namespace Natural

/-- A number below ten is one digit. -/
theorem digits_of_lt {n : Nat} (h : n < 10) : digits n = [digitChar n] := by
  rw [digits, if_pos h]

/-- Any other is its tens and then its last digit. -/
theorem digits_of_le {n : Nat} (h : 10 ≤ n) :
    digits n = digits (n / 10) ++ [digitChar (n % 10)] := by
  rw [digits, if_neg (Nat.not_lt.2 h)]

theorem isDigit_digitChar {d : Nat} (h : d < 10) :
    (digitChar d).isDigit = true := by
  revert d
  decide

theorem toNat_digitChar {d : Nat} (h : d < 10) :
    (digitChar d).toNat - 48 = d := by
  revert d
  decide

theorem digits_ne_nil (n : Nat) : digits n ≠ [] := by
  rw [digits]
  split <;> simp

/-- Every character of the digits is a digit. -/
theorem isDigit_of_mem_digits (n : Nat) :
    ∀ c ∈ digits n, c.isDigit = true := by
  induction n using digits.induct with
  | case1 n h =>
      rw [digits_of_lt h]
      intro c hc
      rw [List.mem_singleton.1 hc]
      exact isDigit_digitChar h
  | case2 n h ih =>
      rw [digits_of_le (Nat.not_lt.1 h)]
      intro c hc
      rcases List.mem_append.1 hc with hc | hc
      · exact ih c hc
      · rw [List.mem_singleton.1 hc]
        exact isDigit_digitChar (Nat.mod_lt _ (by decide))

/-- A digit at the end counts once, all before it tenfold. -/
theorem value_append (cs : List Char) (c : Char) :
    value (cs ++ [c]) = 10 * value cs + (c.toNat - 48) := by
  rw [value, value, List.foldl_append]
  rfl

/-- The digits of a number have it as their value. -/
theorem value_digits (n : Nat) : value (digits n) = n := by
  induction n using digits.induct with
  | case1 n h =>
      rw [digits_of_lt h]
      exact (Nat.zero_add _).trans (toNat_digitChar h)
  | case2 n h ih =>
      rw [digits_of_le (Nat.not_lt.1 h), value_append, ih,
        toNat_digitChar (Nat.mod_lt _ (by decide))]
      exact Nat.div_add_mod n 10

/-- Digits that follow shift those before them. -/
theorem value_append_digits (cs ds : List Char) :
    value (cs ++ ds) = value cs * 10 ^ ds.length + value ds := by
  induction ds generalizing cs with
  | nil => simp [value]
  | cons d ds ih =>
      have hsplit : ∀ cs, cs ++ d :: ds = cs ++ [d] ++ ds := by simp
      have hfirst : value (d :: ds)
          = (d.toNat - 48) * 10 ^ ds.length + value ds := by
        rw [show d :: ds = [] ++ [d] ++ ds from hsplit [], ih, value_append]
        simp [value]
      rw [hsplit, ih, value_append, hfirst, List.length_cons, Nat.pow_succ,
        Nat.add_mul, Nat.mul_comm 10, Nat.mul_assoc, Nat.mul_comm 10,
        Nat.add_assoc]

/-- Zeros have no value. -/
theorem value_replicate (k : Nat) : value (List.replicate k '0') = 0 := by
  induction k with
  | zero => rfl
  | succ k ih =>
      rw [List.replicate_succ', value_append, ih]
      rfl

theorem isDigit_of_mem_replicate {k : Nat} :
    ∀ c ∈ List.replicate k '0', c.isDigit = true := fun c hc =>
  List.eq_of_mem_replicate hc ▸ by decide

/-- A digit is neither blank nor a sign nor a letter. -/
theorem isBlank_of_isDigit {c : Char} (h : c.isDigit = true) :
    Text.isBlank c = false := by
  have hbounds : 48 ≤ c.toNat ∧ c.toNat ≤ 57 := by
    simpa [Char.isDigit, UInt32.le_iff_toNat_le] using h
  simp [Text.isBlank, Text.blankRanges]
  omega

/-- The text of a number has no blanks to trim. -/
theorem unblank_text (n : Nat) : Text.Unblank (text n).toList := by
  rw [text, String.toList_ofList]
  exact fun c hc => isBlank_of_isDigit (isDigit_of_mem_digits n c hc)

/-- Without a plus sign in front, what is read is a run of digits. -/
theorem read?_of_isDigit {cs : List Char}
    (h : ∀ c ∈ cs, c.isDigit = true) : read? cs = readDigits? cs := by
  unfold read?
  split
  · exact absurd (h '+' (List.mem_cons_self ..)) (by decide)
  · rfl

/-- A count that fits a word reads back. -/
theorem read?_text {n : Nat} (h : n < wordLimit) :
    read? (text n).toList = some n := by
  have hall : (digits n).all Char.isDigit = true :=
    List.all_eq_true.2 (isDigit_of_mem_digits n)
  rw [text, String.toList_ofList,
    read?_of_isDigit (isDigit_of_mem_digits n), readDigits?, value_digits,
    if_pos ⟨digits_ne_nil n, hall, h⟩]

/-- A count that is read fits a word. -/
theorem lt_wordLimit_of_read {cs : List Char} {n : Nat}
    (h : read? cs = some n) : n < wordLimit := by
  have hdigits : ∀ cs, readDigits? cs = some n → n < wordLimit := by
    intro cs h
    unfold readDigits? at h
    split at h
    · next hc => exact Option.some.inj h ▸ hc.2.2
    · cases h
  unfold read? at h
  split at h <;> exact hdigits _ h

end Natural
end MixtureAttention
