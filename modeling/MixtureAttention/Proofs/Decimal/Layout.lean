/-
How a number is laid out. Everything that is written is a sign, a point,
a digit or one of the words for what is not a finite number, so nothing of
it is blank (`unblank_text`). A decimal is written as digits before a point
and digits after it, without the zeros at the end; both together are read
as one run of digits, and the value is that of the decimal
(`readScientific?_positional`).
-/
import Mathlib.Data.List.TakeWhile
import Mathlib.Tactic.FieldSimp
import MixtureAttention.Decimal.Reader
import MixtureAttention.Proofs.Decimal.Value
import MixtureAttention.Proofs.Text.Numerals

namespace MixtureAttention.Decimal

open Text

-- ================================================================== places

/-- Every character is a digit or the point. -/
def Places (cs : List Char) : Prop := ∀ c ∈ cs, c.isDigit = true ∨ c = '.'

theorem places_positional (d : Scientific) : Places d.positional := by
  have hdigits : Places (Natural.digits d.coefficient) :=
    fun c hc => .inl (Natural.isDigit_of_mem_digits _ c hc)
  have hzeros : ∀ k, Places (List.replicate k '0') := fun k c hc =>
    .inl (Natural.isDigit_of_mem_replicate c hc)
  have hpadded : ∀ k, Places (List.replicate k '0'
      ++ Natural.digits d.coefficient) := fun k c hc =>
    (List.mem_append.1 hc).elim (hzeros k c) (hdigits c)
  intro c hc
  unfold Scientific.positional at hc
  rcases List.mem_append.1 hc with hc | hc
  · rcases List.mem_append.1 hc with hc | hc
    · exact hpadded _ c (List.mem_of_mem_take hc)
    · exact hzeros _ c hc
  · split at hc
    · cases hc
    · rcases List.mem_cons.1 hc with rfl | hc
      · exact .inr rfl
      · have hrest := (List.dropWhile_suffix _).subset
          (List.mem_reverse.1 hc)
        exact hpadded _ c (List.mem_of_mem_drop (List.mem_reverse.1 hrest))

theorem unblank_of_places {cs : List Char} (h : Places cs) : Unblank cs := by
  intro c hc
  rcases h c hc with hdigit | rfl
  · exact Natural.isBlank_of_isDigit hdigit
  · decide

/-- The words for what is not a finite number have no blanks. -/
theorem unblank_words : Unblank "NaN".toList ∧ Unblank "inf".toList := by
  simp [Unblank, isBlank, blankRanges]

/-- No character of a number's text is blank. -/
theorem unblank_text (x : Float) : Unblank (text x).toList := by
  have hsigned : ∀ body : List Char, Unblank body → ∀ (signed : Prop)
      [Decidable signed],
      Unblank (if signed then '-' :: body else body) := by
    intro body hbody signed _ c hc
    split at hc
    · rcases List.mem_cons.1 hc with rfl | hc
      · decide
      · exact hbody c hc
    · exact hbody c hc
  unfold text
  rw [String.toList_ofList]
  refine hsigned _ ?_ _
  split
  · exact unblank_words.1
  split
  · exact unblank_words.2
  split
  · exact unblank_of_places (by simp [Places])
  · exact unblank_of_places (places_positional _)

-- ============================================================ reading back

/-- Digits before a point and, if there are any, digits after it. -/
def pointed (whole fraction : List Char) : List Char :=
  whole ++ if fraction = [] then [] else '.' :: fraction

/-- Zeros at the end come off. -/
theorem exists_zeros (cs : List Char) :
    ∃ k, cs = (cs.reverse.dropWhile (· = '0')).reverse
      ++ List.replicate k '0' := by
  have hsplit := List.takeWhile_append_dropWhile (p := (· = '0'))
    (l := cs.reverse)
  have hzeros : cs.reverse.takeWhile (· = '0')
      = List.replicate (cs.reverse.takeWhile (· = '0')).length '0' :=
    List.eq_replicate_of_mem fun c hc => by
      simpa using List.mem_takeWhile_imp hc
  refine ⟨(cs.reverse.takeWhile (· = '0')).length, ?_⟩
  rw [← List.reverse_replicate, ← hzeros, ← List.reverse_append, hsplit,
    List.reverse_reverse]

variable {whole fraction : List Char}

/-- Both parts are read as one run of digits. -/
theorem readScientific?_pointed (hne : whole ≠ [])
    (hwhole : ∀ c ∈ whole, c.isDigit = true)
    (hfraction : ∀ c ∈ fraction, c.isDigit = true) :
    readScientific? (pointed whole fraction)
      = some ⟨Natural.value (whole ++ fraction), -fraction.length⟩ := by
  unfold readScientific? pointed
  dsimp only
  by_cases hnone : fraction = []
  · subst hnone
    have htake : whole.takeWhile Char.isDigit = whole :=
      List.takeWhile_eq_self_iff.2 hwhole
    have hdrop : whole.dropWhile Char.isDigit = [] :=
      List.dropWhile_eq_nil_iff.2 hwhole
    simp [htake, hdrop, hne, readExponent?]
  · have htake : fraction.takeWhile Char.isDigit = fraction :=
      List.takeWhile_eq_self_iff.2 hfraction
    have hdrop : fraction.dropWhile Char.isDigit = [] :=
      List.dropWhile_eq_nil_iff.2 hfraction
    have hpoint : Char.isDigit '.' = false := by decide
    rw [if_neg hnone, List.takeWhile_append_of_pos hwhole,
      List.dropWhile_append_of_pos hwhole,
      List.takeWhile_cons_of_neg (by simp [hpoint]),
      List.dropWhile_cons_of_neg (by simp [hpoint])]
    simp [htake, hdrop, hne, readExponent?]

/-- What the digits around the point are worth. Either there is no fraction,
and zeros are appended to the digits, or there is one and the point moves over
it and over the zeros that are not written. -/
theorem value_pointed {d : Scientific} {k : Nat}
    (hplaces : (-d.exponent).toNat = fraction.length + k)
    (hcoefficient : Natural.value (whole ++ fraction) * 10 ^ k
      = d.coefficient) :
    (⟨Natural.value (whole ++ List.replicate d.exponent.toNat '0'
        ++ fraction), -fraction.length⟩ : Scientific).value = d.value := by
  unfold Scientific.value
  dsimp only
  rw [← hcoefficient]
  rcases Int.le_total 0 d.exponent with he | he
  · obtain rfl : fraction = [] := List.length_eq_zero_iff.1 (by omega)
    obtain rfl : k = 0 := by
      rw [List.length_nil] at hplaces
      omega
    obtain ⟨n, hn⟩ := Int.eq_ofNat_of_zero_le he
    rw [hn, List.append_nil, List.append_nil, Natural.value_append_digits,
      Natural.value_replicate]
    simp
  · rw [Int.toNat_of_nonpos he, List.replicate_zero, List.append_nil,
      show d.exponent = -(fraction.length + k : Nat) by omega]
    push_cast
    rw [neg_add, zpow_add₀ (by norm_num), zpow_neg, zpow_neg, zpow_natCast,
      zpow_natCast]
    field_simp

/-- A decimal that is laid out is read as one of its value. -/
theorem readScientific?_positional (d : Scientific) :
    ∃ d', readScientific? d.positional = some d' ∧ d'.value = d.value := by
  unfold Scientific.positional
  dsimp only
  generalize hplaces : (-d.exponent).toNat = places
  -- the digits, with zeros in front until there is one before the point
  generalize hpadded : List.replicate (places + 1
    - (Natural.digits d.coefficient).length) '0'
      ++ Natural.digits d.coefficient = padded
  have hlength : places < padded.length := by
    rw [← hpadded, List.length_append, List.length_replicate]
    have hpos := List.length_pos_iff.2 (Natural.digits_ne_nil d.coefficient)
    omega
  have hvalue : Natural.value padded = d.coefficient := by
    rw [← hpadded, Natural.value_append_digits, Natural.value_replicate,
      Nat.zero_mul, Nat.zero_add, Natural.value_digits]
  have hdigits : ∀ c ∈ padded, c.isDigit = true := by
    rw [← hpadded]
    exact fun c hc => (List.mem_append.1 hc).elim
      (Natural.isDigit_of_mem_replicate c) (Natural.isDigit_of_mem_digits _ c)
  -- zeros at the end of the fraction are not written
  obtain ⟨k, hk⟩ := exists_zeros (padded.drop (padded.length - places))
  generalize ((padded.drop (padded.length - places)).reverse.dropWhile
    (· = '0')).reverse = fraction at hk ⊢
  have hfraction : ∀ c ∈ fraction, c.isDigit = true := fun c hc =>
    hdigits c (List.mem_of_mem_drop (hk ▸ List.mem_append_left _ hc))
  have hwhole : ∀ c ∈ padded.take (padded.length - places)
      ++ List.replicate d.exponent.toNat '0', c.isDigit = true := fun c hc =>
    (List.mem_append.1 hc).elim (fun hc => hdigits c (List.mem_of_mem_take hc))
      (Natural.isDigit_of_mem_replicate c)
  have hne : padded.take (padded.length - places)
      ++ List.replicate d.exponent.toNat '0' ≠ [] := by
    intro hnil
    have htake := congrArg List.length (List.append_eq_nil_iff.1 hnil).1
    rw [List.length_take, List.length_nil] at htake
    omega
  refine ⟨_, readScientific?_pointed hne hwhole hfraction, ?_⟩
  have hzeros : places = fraction.length + k := by
    have hdrop := congrArg List.length hk
    rw [List.length_drop, List.length_append, List.length_replicate] at hdrop
    omega
  refine value_pointed (hplaces.trans hzeros) ?_
  calc Natural.value (padded.take (padded.length - places) ++ fraction)
        * 10 ^ k
      = Natural.value (padded.take (padded.length - places)
          ++ fraction ++ List.replicate k '0') := by
        rw [Natural.value_append_digits _ (List.replicate k '0'),
          Natural.value_replicate, List.length_replicate, Nat.add_zero]
    _ = Natural.value padded := by
        rw [List.append_assoc, ← hk, List.take_append_drop]
    _ = d.coefficient := hvalue

end MixtureAttention.Decimal
