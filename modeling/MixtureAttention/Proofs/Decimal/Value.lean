/-
Decimals and binary magnitudes as rational numbers. The search for the
shortest decimal compares naturals, with the denominators multiplied
across; `compareTo_eq` says that this compares the values, so what it tests
is whether a decimal lies in an interval around the magnitude (`Around`,
`readsBack_iff`). Whatever the search finds does, and where it finds
nothing it gives the magnitude itself (`around_shortest`).
-/
import Mathlib.Algebra.Order.Field.Power
import Mathlib.Algebra.Order.Ring.Cast
import Mathlib.Algebra.Order.Ring.Rat
import Mathlib.Order.Compare
import Mathlib.Tactic.Linarith
import Mathlib.Tactic.LinearCombination
import Mathlib.Tactic.NormNum
import Mathlib.Tactic.Positivity
import Mathlib.Tactic.Ring
import MixtureAttention.Decimal.Shortest

namespace MixtureAttention.Decimal

-- ================================================================= powers

theorem power_pos {b : Nat} (hb : 0 < b) (e : Int) : 0 < power b e :=
  Nat.pow_pos hb

/-- A negative exponent puts the power into the denominator. -/
theorem power_of_nonpos (b : Nat) {e : Int} (h : e ≤ 0) : power b e = 1 := by
  rw [power, Int.toNat_of_nonpos h, Nat.pow_eq, pow_zero]

/-- A power and its inverse are the two sides of one fraction. -/
theorem power_eq {b : Nat} (hb : 0 < b) (e : Int) :
    (power b e : ℚ) = (b : ℚ) ^ e * power b (-e) := by
  have hne : (b : ℚ) ≠ 0 := by positivity
  rcases Int.le_total 0 e with he | he
  · obtain ⟨n, rfl⟩ := Int.eq_ofNat_of_zero_le he
    rw [power_of_nonpos b (Int.neg_nonpos_of_nonneg he), zpow_natCast,
      Nat.cast_one, mul_one]
    exact Nat.cast_pow b n
  · obtain ⟨n, hn⟩ := Int.eq_ofNat_of_zero_le (Int.neg_nonneg.2 he)
    have hpower : (power b (-e) : ℚ) = (b : ℚ) ^ n := by
      rw [hn]
      exact Nat.cast_pow b n
    rw [power_of_nonpos b he, hpower, ← zpow_natCast, ← hn,
      ← zpow_add₀ hne, Int.add_right_neg, zpow_zero, Nat.cast_one]

-- ================================================================= values

/-- The value of a decimal. -/
def Scientific.value (d : Scientific) : ℚ :=
  d.coefficient * 10 ^ d.exponent

/-- The value of a magnitude. -/
def Magnitude.value (m : Magnitude) : ℚ := m.mantissa * 2 ^ m.exponent

namespace Scientific

variable (d : Scientific)

theorem den_pos : 0 < d.den := power_pos (by decide) _

/-- A decimal is the fraction of its numerator and denominator. -/
theorem num_eq : (d.num : ℚ) = d.value * d.den := by
  rw [num, den, value, Nat.cast_mul, power_eq (by decide) d.exponent]
  push_cast
  ring

/-- Written as a quotient. -/
theorem num_div_den : (d.num : ℚ) / d.den = d.value := by
  rw [num_eq, mul_div_cancel_right₀ _ (Nat.cast_ne_zero.2 d.den_pos.ne')]

/-- The comparison of naturals is that of the values. -/
theorem compareTo_eq (units : Nat) (e : Int) :
    d.compareTo units e = cmp d.value (units * 2 ^ e) := by
  have hden : (0 : ℚ) < d.den := Nat.cast_pos.2 d.den_pos
  have hpower : (0 : ℚ) < power 2 (-e) :=
    Nat.cast_pos.2 (power_pos (by decide) _)
  have hleft : ((d.num * power 2 (-e) : Nat) : ℚ)
      = d.value * (d.den * power 2 (-e)) := by
    rw [Nat.cast_mul, num_eq, mul_assoc]
  have hright : ((units * power 2 e * d.den : Nat) : ℚ)
      = units * 2 ^ e * (d.den * power 2 (-e)) := by
    rw [Nat.cast_mul, Nat.cast_mul, power_eq (by decide) e]
    push_cast
    ring
  rw [compareTo, ← cmp_eq_compare,
    ← (Nat.strictMono_cast (α := ℚ)).cmp_map_eq, hleft, hright,
    cmp_mul_pos_right (by positivity)]

end Scientific

section

variable {x y : ℚ}

theorem isGE_cmp : (cmp x y).isGE = true ↔ y ≤ x := by
  rw [Ordering.isGE_iff_ne_lt, cmp_eq_lt_iff, not_lt]

theorem isLE_cmp : (cmp x y).isLE = true ↔ x ≤ y := by
  rw [Ordering.isLE_iff_ne_gt, cmp_eq_gt_iff, not_lt]

theorem isGT_cmp : (cmp x y).isGT = true ↔ y < x := by
  rw [Ordering.isGT_iff_eq_gt, cmp_eq_gt_iff]

theorem isLT_cmp : (cmp x y).isLT = true ↔ x < y := by
  rw [Ordering.isLT_iff_eq_lt, cmp_eq_lt_iff]

end

-- =========================================================== the interval

namespace Magnitude

/-- How far below a magnitude the interval around it reaches, in units of
the mantissa: half-way to the neighbour, which is nearer below a power of
two. -/
def reach (m : Magnitude) : ℚ :=
  if m.mantissa = leadingBit ∧ -1074 < m.exponent then 1 / 4 else 1 / 2

/-- The numbers nearest to a magnitude, those halfway to a neighbour among
them exactly when the mantissa is even. -/
def Around (m : Magnitude) (x : ℚ) : Prop :=
  if m.mantissa % 2 = 0 then
    (m.mantissa - m.reach) * 2 ^ m.exponent ≤ x
      ∧ x ≤ (m.mantissa + 1 / 2) * 2 ^ m.exponent
  else
    (m.mantissa - m.reach) * 2 ^ m.exponent < x
      ∧ x < (m.mantissa + 1 / 2) * 2 ^ m.exponent

/-- Some numbers below a mantissa round up to it. -/
theorem reach_pos (m : Magnitude) : 0 < m.reach := by
  unfold reach
  split <;> norm_num

/-- None of them is further away than half a unit. -/
theorem reach_le (m : Magnitude) : m.reach ≤ 1 / 2 := by
  unfold reach
  split <;> norm_num

variable {m : Magnitude} {x : ℚ}

/-- What rounds to a magnitude is not below its reach. -/
theorem Around.low (h : m.Around x) :
    (m.mantissa - m.reach) * 2 ^ m.exponent ≤ x := by
  unfold Around at h
  split at h
  · exact h.1
  · exact h.1.le

/-- What rounds to a magnitude is at most half a unit above it. -/
theorem Around.high (h : m.Around x) :
    x ≤ (m.mantissa + 1 / 2) * 2 ^ m.exponent := by
  unfold Around at h
  split at h
  · exact h.2
  · exact h.2.le

/-- The ends belong to the interval only if the mantissa is even. -/
theorem Around.even (h : m.Around x)
    (hx : x = (m.mantissa - m.reach) * 2 ^ m.exponent
      ∨ x = (m.mantissa + 1 / 2) * 2 ^ m.exponent) : m.mantissa % 2 = 0 := by
  unfold Around at h
  split at h
  · assumption
  · rcases hx with hx | hx
    · exact absurd h.1 (not_lt.2 hx.le)
    · exact absurd h.2 (not_lt.2 hx.ge)

/-- The value of a magnitude rounds to it. -/
theorem around_value (m : Magnitude) : m.Around m.value := by
  have hunit : (0 : ℚ) < 2 ^ m.exponent := by positivity
  have hreach := m.reach_pos
  have hlow : (m.mantissa - m.reach) * 2 ^ m.exponent < m.value :=
    mul_lt_mul_of_pos_right (by linarith) hunit
  have hhigh : m.value < (m.mantissa + 1 / 2) * 2 ^ m.exponent :=
    mul_lt_mul_of_pos_right (by linarith) hunit
  unfold Around
  split
  · exact ⟨hlow.le, hhigh.le⟩
  · exact ⟨hlow, hhigh⟩

-- ============================================================= the search

/-- The test of the search is for the interval. -/
theorem readsBack_iff (hm : 0 < m.mantissa) (d : Scientific) :
    m.readsBack d = true ↔ m.Around d.value := by
  have hquarter : ∀ units : ℚ, units * 2 ^ (m.exponent - 2)
      = units / 4 * 2 ^ m.exponent := by
    intro units
    rw [zpow_sub₀ (by norm_num)]
    ring
  have hhigh : d.compareTo (4 * m.mantissa + 2) (m.exponent - 2)
      = cmp d.value ((m.mantissa + 1 / 2) * 2 ^ m.exponent) := by
    rw [Scientific.compareTo_eq, hquarter]
    refine congrArg (fun units => cmp d.value (units * _)) ?_
    push_cast
    ring
  have hlow : d.compareTo
      (if m.mantissa = leadingBit ∧ -1074 < m.exponent then
        4 * m.mantissa - 1 else 4 * m.mantissa - 2) (m.exponent - 2)
      = cmp d.value ((m.mantissa - m.reach) * 2 ^ m.exponent) := by
    rw [Scientific.compareTo_eq, hquarter, reach]
    refine congrArg (fun units => cmp d.value (units * _)) ?_
    split
    · rw [Nat.cast_sub (by omega)]
      push_cast
      ring
    · rw [Nat.cast_sub (by omega)]
      push_cast
      ring
  unfold readsBack Around
  dsimp only
  rw [hhigh, hlow]
  by_cases heven : m.mantissa % 2 = 0
  · rw [if_pos heven, if_pos heven, Bool.and_eq_true, isGE_cmp, isLE_cmp]
  · rw [if_neg heven, if_neg heven, Bool.and_eq_true, isGT_cmp, isLT_cmp]

/-- The exact decimal has the value of the magnitude. -/
theorem value_exact (m : Magnitude) : m.exact.value = m.value := by
  unfold exact Scientific.value value
  split
  · next he =>
      have hone : power 2 (-m.exponent) = 1 :=
        power_of_nonpos 2 (Int.neg_nonpos_of_nonneg he)
      rw [Nat.cast_mul, power_eq (by decide) m.exponent, hone]
      push_cast
      ring
  · next he =>
      have hone : power 5 m.exponent = 1 :=
        power_of_nonpos 5 (Int.not_le.1 he).le
      have hfive := power_eq (b := 5) (by decide) m.exponent
      have hten : (10 : ℚ) ^ m.exponent = 2 ^ m.exponent * 5 ^ m.exponent := by
        rw [← mul_zpow]
        norm_num
      rw [hone] at hfive
      push_cast at hfive ⊢
      rw [hten]
      linear_combination (-(m.mantissa : ℚ) * 2 ^ m.exponent) * hfive

/-- A candidate was tested. -/
theorem readsBack_of_candidate? {k : Int} {d : Scientific}
    (h : m.candidate? k = some d) : m.readsBack d = true := by
  unfold candidate? at h
  dsimp only at h
  split at h
  · next hlow hhigh =>
      split at h <;> cases h <;> assumption
  · cases h
    assumption
  · cases h
    assumption
  · cases h

/-- What the search gives lies in the interval. -/
theorem around_shortest (hm : 0 < m.mantissa) :
    m.Around m.shortest.value := by
  unfold shortest
  dsimp only
  cases hfound : (List.range 17).findSome? fun (n : Nat) =>
      m.candidate? (m.scale - (n + 1)) with
  | none =>
      rw [Option.getD_none, value_exact]
      exact m.around_value
  | some d =>
      obtain ⟨n, -, hn⟩ := List.exists_of_findSome?_eq_some hfound
      exact (readsBack_iff hm d).1 (readsBack_of_candidate? hn)

end Magnitude
end MixtureAttention.Decimal
