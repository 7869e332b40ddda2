/-
Every number in the interval around a magnitude is rounded to it. Rounding
fixes an exponent first, the one with which the mantissa is full or the
least one (`Fills`), and then a mantissa (`RoundsTo`), both of them determined
by the number. The exponent is that of the magnitude, except just below a
power of two (`Around.exponent`); there the mantissa is rounded up to a
power of two, which carries into the exponent and gives the same bits.

The reader settles decimals far out of range by a bound. None of them lies
in the interval around a finite magnitude, so its answer is the nearest
number for all others (`toBits_of_around`).
-/
import MixtureAttention.Decimal.Reader
import MixtureAttention.Proofs.Decimal.Value

namespace MixtureAttention.Decimal

-- ====================================================== natural numbers

/-- The natural number nearest to a number, of two the even one. -/
structure RoundsTo (y : ℚ) (q : Nat) : Prop where
  below : (q : ℚ) - 1 / 2 ≤ y
  above : y ≤ q + 1 / 2
  even : y = q - 1 / 2 ∨ y = q + 1 / 2 → q % 2 = 0

/-- Two nearest numbers would both be even, and neighbours. -/
theorem RoundsTo.not_lt {y : ℚ} {q q' : Nat} (h : RoundsTo y q)
    (h' : RoundsTo y q') : ¬ q < q' := by
  intro hlt
  have habove := h.above
  have hbelow := h'.below
  have hstep : (q : ℚ) + 1 ≤ q' := by exact_mod_cast hlt
  have hnext : q' = q + 1 := by
    have hle : (q' : ℚ) ≤ q + 1 := by linarith
    exact Nat.le_antisymm (by exact_mod_cast hle) hlt
  rw [hnext] at hbelow h'
  push_cast at hbelow
  have heven := h.even (.inr (by linarith))
  have heven' := h'.even (.inl (by push_cast; linarith))
  omega

/-- A number is rounded in one way. -/
theorem RoundsTo.unique {y : ℚ} {q q' : Nat} (h : RoundsTo y q)
    (h' : RoundsTo y q') : q = q' :=
  Nat.le_antisymm (Nat.not_lt.1 (h'.not_lt h)) (Nat.not_lt.1 (h.not_lt h'))

/-- Rounding a fraction by its remainder is rounding to the nearest, ties to
even. -/
theorem roundsTo_roundHalfEven (n : Nat) {d : Nat} (hd : 0 < d) :
    RoundsTo (n / d) (roundHalfEven n d) := by
  have hpos : (0 : ℚ) < d := Nat.cast_pos.2 hd
  have hsplit : (n : ℚ) / d = (n / d : Nat) + (n % d : Nat) / d := by
    rw [add_div' _ _ _ hpos.ne', div_left_inj' hpos.ne', mul_comm]
    exact_mod_cast (Nat.div_add_mod n d).symm
  have hlow : (0 : ℚ) ≤ (n % d : Nat) / d := by positivity
  have hhigh : ((n % d : Nat) : ℚ) / d < 1 := by
    rw [div_lt_one hpos]
    exact_mod_cast Nat.mod_lt n hd
  have hhalf : ((n % d : Nat) : ℚ) / d < 1 / 2 ↔ 2 * (n % d) < d := by
    rw [div_lt_div_iff₀ hpos two_pos, one_mul, mul_comm]
    exact_mod_cast Iff.rfl
  have hhalf' : 1 / 2 < ((n % d : Nat) : ℚ) / d ↔ d < 2 * (n % d) := by
    rw [div_lt_div_iff₀ two_pos hpos, one_mul, mul_comm]
    exact_mod_cast Iff.rfl
  -- the fraction is a whole part and a rest, which is compared to one half
  unfold roundHalfEven
  dsimp only
  rw [hsplit]
  generalize n / d = q
  generalize ((n % d : Nat) : ℚ) / d = f at hlow hhigh hhalf hhalf'
  split
  · next h =>
      have hf : 1 / 2 ≤ f := not_lt.1 fun hlt => by
        have hnot := hhalf.1 hlt
        omega
      refine ⟨by push_cast; linarith, by push_cast; linarith, ?_⟩
      rintro (htie | htie) <;> push_cast at htie
      · have hnot : ¬ 1 / 2 < f := by linarith
        rw [hhalf'] at hnot
        omega
      · linarith
  · next h =>
      have hf : f ≤ 1 / 2 := not_lt.1 fun hlt => by
        have hnot := hhalf'.1 hlt
        omega
      refine ⟨by linarith, by linarith, ?_⟩
      rintro (htie | htie)
      · linarith
      · have hnot : ¬ f < 1 / 2 := by linarith
        rw [hhalf] at hnot
        omega

-- ============================================================ exponents

theorem two_zpow_le {a b : Int} (h : a ≤ b) : (2 : ℚ) ^ a ≤ 2 ^ b :=
  zpow_le_zpow_right₀ one_le_two h

theorem leadingBit_pos : 0 < leadingBit := Nat.pow_pos two_pos

/-- The exponent with which a number fills the mantissa, or the least. -/
structure Fills (x : ℚ) (e : Int) : Prop where
  least : -1074 ≤ e
  below : x < 2 ^ (53 + e)
  above : e = -1074 ∨ 2 ^ (52 + e) ≤ x

theorem cast_leadingBit : (leadingBit : ℚ) = 2 ^ (52 : Int) := by
  norm_num [leadingBit]

section

variable {num den : Nat}

/-- The scaled denominator stays positive. -/
theorem scaled_pos (num : Nat) (hden : 0 < den) (e : Int) :
    0 < (scaled num den e).2 :=
  Nat.mul_pos hden (power_pos (by decide) e)

/-- The scaled fraction is the fraction times a power of two. -/
theorem scaled_eq (e : Int) :
    ((scaled num den e).1 : ℚ) / (scaled num den e).2
      = num / den * 2 ^ (-e) := by
  have hpower : (power 2 e : ℚ) ≠ 0 :=
    Nat.cast_ne_zero.2 (power_pos (by decide) e).ne'
  unfold scaled
  dsimp only
  rw [Nat.cast_mul, Nat.cast_mul, power_eq (by decide) (-e), Int.neg_neg,
    ← mul_assoc, mul_div_mul_right _ _ hpower]
  push_cast
  ring

/-- The binary logarithms of a fraction's sides bound it within a factor of
four. -/
theorem log2_bounds (hnum : 0 < num) (hden : 0 < den) :
    (2 : ℚ) ^ ((num.log2 : Int) - den.log2 - 1) < num / den
      ∧ (num : ℚ) / den < 2 ^ ((num.log2 : Int) - den.log2 + 1) := by
  have hpos : (0 : ℚ) < den := Nat.cast_pos.2 hden
  have hlow : ∀ {n : Nat}, 0 < n → (2 : ℚ) ^ (n.log2 : Int) ≤ n := by
    intro n hn
    rw [zpow_natCast]
    exact_mod_cast Nat.log2_self_le hn.ne'
  have hhigh : ∀ {n : Nat}, (n : ℚ) < 2 ^ ((n.log2 : Int) + 1) := by
    intro n
    exact_mod_cast Nat.lt_log2_self
  constructor
  · rw [lt_div_iff₀ hpos]
    calc (2 : ℚ) ^ ((num.log2 : Int) - den.log2 - 1) * den
        < 2 ^ ((num.log2 : Int) - den.log2 - 1) * 2 ^ ((den.log2 : Int) + 1) :=
          mul_lt_mul_of_pos_left hhigh (by positivity)
      _ = 2 ^ (num.log2 : Int) := by
          rw [← zpow_add₀ two_ne_zero]
          congr 1
          omega
      _ ≤ num := hlow hnum
  · rw [div_lt_iff₀ hpos]
    calc (num : ℚ) < 2 ^ ((num.log2 : Int) + 1) := hhigh
      _ = 2 ^ ((num.log2 : Int) - den.log2 + 1) * 2 ^ (den.log2 : Int) := by
          rw [← zpow_add₀ two_ne_zero]
          congr 1
          omega
      _ ≤ 2 ^ ((num.log2 : Int) - den.log2 + 1) * den :=
          mul_le_mul_of_nonneg_left (hlow hden) (by positivity)

/-- The exponent chosen makes the mantissa fill its bits. -/
theorem fills_exponentFor (hnum : 0 < num) (hden : 0 < den) :
    Fills (num / den) (exponentFor num den) := by
  obtain ⟨hlow, hhigh⟩ := log2_bounds hnum hden
  unfold exponentFor
  dsimp only
  generalize hguess : max (-1074) ((num.log2 : Int) - den.log2 - 53) = guess
  have hfits : (scaled num den guess).1 / (scaled num den guess).2
      < 2 * leadingBit ↔ (num : ℚ) / den < 2 ^ (53 + guess) := by
    have hpos := scaled_pos num hden guess
    rw [Nat.div_lt_iff_lt_mul hpos, ← Nat.cast_lt (α := ℚ), Nat.cast_mul,
      ← div_lt_iff₀ (Nat.cast_pos.2 hpos), scaled_eq, Nat.cast_mul,
      cast_leadingBit, zpow_neg, ← div_eq_mul_inv,
      div_lt_iff₀ (by positivity), zpow_add₀ two_ne_zero]
    norm_num
  split
  · next h =>
      refine ⟨by omega, hfits.1 h, ?_⟩
      rcases Int.lt_or_le (-1074) guess with hg | hg
      · exact .inr ((two_zpow_le (by omega)).trans hlow.le)
      · exact .inl (by omega)
  · next h =>
      rw [hfits, not_lt] at h
      refine ⟨by omega, hhigh.trans_le (two_zpow_le (by omega)), .inr ?_⟩
      exact (two_zpow_le (by omega)).trans h

end

-- =========================================================== magnitudes

namespace Magnitude

/-- The magnitudes of binary64. -/
structure Canonical (m : Magnitude) : Prop where
  least : -1074 ≤ m.exponent
  small : m.mantissa < 2 * leadingBit
  full : m.exponent = -1074 ∨ leadingBit ≤ m.mantissa

/-- The bits of a magnitude. -/
def bits (m : Magnitude) : Nat :=
  (m.exponent + 1074).toNat * leadingBit + m.mantissa

/-- What is read from bits is canonical. -/
theorem canonical_ofBits (b : Nat) : (ofBits b).Canonical := by
  have hlt := Nat.mod_lt b leadingBit_pos
  unfold ofBits
  dsimp only
  generalize b / leadingBit = field
  split
  · exact ⟨Int.le_refl _, Nat.lt_of_lt_of_le hlt (by omega), .inl rfl⟩
  · exact ⟨by dsimp only; omega, by dsimp only; omega,
      .inr (Nat.le_add_right _ _)⟩

/-- A magnitude read from bits has those bits. -/
theorem bits_ofBits (b : Nat) : (ofBits b).bits = b := by
  have hsplit := Nat.div_add_mod b leadingBit
  unfold ofBits bits
  dsimp only
  generalize b / leadingBit = field at hsplit
  split
  · next h =>
      rw [h, Nat.mul_zero] at hsplit
      simpa using hsplit
  · next h =>
      have hfield : ((field : Int) - 1075 + 1074).toNat = field - 1 := by
        omega
      dsimp only
      rw [hfield, ← Nat.add_assoc, ← Nat.succ_mul, Nat.succ_eq_add_one,
        Nat.sub_add_cancel (Nat.pos_of_ne_zero h), Nat.mul_comm, hsplit]

variable {m : Magnitude} {x : ℚ} {e : Int} {num den : Nat}

/-- A number in the interval is at least half a unit of the mantissa. -/
theorem Around.half_le (h : m.Around x) (hpos : 0 < m.mantissa) :
    2 ^ (m.exponent - 1) ≤ x := by
  have hone : (1 : ℚ) ≤ m.mantissa := by exact_mod_cast hpos
  have hreach := m.reach_le
  calc (2 : ℚ) ^ (m.exponent - 1) = 1 / 2 * 2 ^ m.exponent := by
        rw [zpow_sub₀ two_ne_zero, zpow_one]
        ring
    _ ≤ (m.mantissa - m.reach) * 2 ^ m.exponent :=
        mul_le_mul_of_nonneg_right (by linarith) (by positivity)
    _ ≤ x := h.low

/-- What rounds to a positive mantissa is positive. -/
theorem Around.pos (h : m.Around x) (hpos : 0 < m.mantissa) : 0 < x :=
  lt_of_lt_of_le (by positivity) (h.half_le hpos)

/-- The interval ends below the next binary order. -/
theorem Around.lt (h : m.Around x) (hm : m.Canonical) :
    x < 2 ^ (53 + m.exponent) := by
  have hcast : ((2 * leadingBit : Nat) : ℚ) = 2 ^ (53 : Int) := by
    rw [Nat.cast_mul, cast_leadingBit]
    norm_num
  have hsmall : (m.mantissa : ℚ) + 1 ≤ 2 ^ (53 : Int) := by
    rw [← hcast]
    exact_mod_cast hm.small
  calc x ≤ (m.mantissa + 1 / 2) * 2 ^ m.exponent := h.high
    _ < 2 ^ (53 : Int) * 2 ^ m.exponent :=
        mul_lt_mul_of_pos_right (by linarith) (by positivity)
    _ = 2 ^ (53 + m.exponent) := (zpow_add₀ two_ne_zero 53 _).symm

/-- A number below a power of two has a mantissa not far above it. -/
theorem Around.mantissa_lt {n : Int} (h : m.Around x)
    (hx : x < 2 ^ (n + m.exponent)) : m.mantissa - m.reach < 2 ^ n := by
  rw [zpow_add₀ two_ne_zero] at hx
  exact lt_of_mul_lt_mul_right (h.low.trans_lt hx) (by positivity)

/-- A number in the interval fills the mantissa with the exponent of the
magnitude, but just below a power of two with the next smaller one. -/
theorem Around.exponent (h : m.Around x) (hm : m.Canonical)
    (he : Fills x e) :
    e = m.exponent
      ∨ (e = m.exponent - 1 ∧ m.mantissa = leadingBit
        ∧ -1074 < m.exponent) := by
  have hreach := m.reach_le
  have hle : e ≤ m.exponent := by
    by_contra hgt
    have hx : x < 2 ^ (52 + e) := (h.lt hm).trans_le (two_zpow_le (by omega))
    have hleast := hm.least
    rcases he.above with habove | habove
    · omega
    · exact absurd hx (not_lt.2 habove)
  rcases Int.lt_or_eq_of_le hle with hlt | heq
  swap
  · exact .inl heq
  have hnormal : -1074 < m.exponent := Int.lt_of_le_of_lt he.least hlt
  have hfull : leadingBit ≤ m.mantissa := hm.full.resolve_left hnormal.ne'
  have hmantissa : m.mantissa = leadingBit := by
    have hbound : m.mantissa - m.reach < 2 ^ (52 : Int) :=
      h.mantissa_lt (he.below.trans_le (two_zpow_le (by omega)))
    rw [← cast_leadingBit] at hbound
    have hstep : (m.mantissa : ℚ) < leadingBit + 1 := by linarith
    exact Nat.le_antisymm (Nat.lt_succ_iff.1 (by exact_mod_cast hstep)) hfull
  refine .inr ⟨?_, hmantissa, hnormal⟩
  by_contra hne
  have hbound : m.mantissa - m.reach < 2 ^ (51 : Int) :=
    h.mantissa_lt (he.below.trans_le (two_zpow_le (by omega)))
  rw [hmantissa, cast_leadingBit] at hbound
  norm_num at hbound
  linarith

/-- With the exponent of the magnitude, a number in the interval is rounded
to its mantissa. -/
theorem Around.roundsTo (h : m.Around x) :
    RoundsTo (x * 2 ^ (-m.exponent)) m.mantissa := by
  have hunit : (0 : ℚ) < 2 ^ m.exponent := by positivity
  have hreach := m.reach_le
  rw [zpow_neg, ← div_eq_mul_inv]
  refine ⟨?_, ?_, ?_⟩
  · rw [le_div_iff₀ hunit]
    exact (mul_le_mul_of_nonneg_right (by linarith) hunit.le).trans h.low
  · rw [div_le_iff₀ hunit]
    exact h.high
  · rintro (htie | htie)
    · rw [div_eq_iff hunit.ne'] at htie
      refine h.even (.inl (le_antisymm ?_ h.low))
      rw [htie]
      exact mul_le_mul_of_nonneg_right (by linarith) hunit.le
    · rw [div_eq_iff hunit.ne'] at htie
      exact h.even (.inr htie)

/-- Just below a power of two, a number in the interval is rounded up to
it. -/
theorem Around.roundsTo_below (h : m.Around x)
    (hmantissa : m.mantissa = leadingBit) (hnormal : -1074 < m.exponent)
    (hx : x < 2 ^ (52 + m.exponent)) :
    RoundsTo (x * 2 ^ (-(m.exponent - 1))) (2 * leadingBit) := by
  have hunit : (0 : ℚ) < 2 ^ m.exponent := by positivity
  have hdouble : x * 2 ^ (-(m.exponent - 1)) = 2 * (x / 2 ^ m.exponent) := by
    rw [Int.neg_sub, zpow_sub₀ two_ne_zero, zpow_one]
    ring
  have hlow := h.low
  rw [reach, if_pos ⟨hmantissa, hnormal⟩, ← le_div_iff₀ hunit,
    hmantissa] at hlow
  rw [zpow_add₀ two_ne_zero, ← div_lt_iff₀ hunit, ← cast_leadingBit] at hx
  rw [hdouble]
  exact ⟨by push_cast; linarith, by push_cast; linarith,
    fun _ => Nat.mul_mod_right 2 _⟩

/-- Every number in the interval is rounded to the magnitude. -/
theorem Around.nearest (h : m.Around (num / den)) (hm : m.Canonical)
    (hpos : 0 < m.mantissa) (hfinite : m.bits ≤ infinityBits)
    (hden : 0 < den) : Decimal.nearest num den = m.bits := by
  have hnum : 0 < num := by
    have hx := h.pos hpos
    refine Nat.pos_of_ne_zero fun hzero => ?_
    rw [hzero, Nat.cast_zero, zero_div] at hx
    exact lt_irrefl _ hx
  have hfills := fills_exponentFor hnum hden
  unfold Decimal.nearest
  rw [if_neg hnum.ne']
  generalize exponentFor num den = e at hfills
  have hround := roundsTo_roundHalfEven (scaled num den e).1
    (scaled_pos num hden e)
  rw [scaled_eq] at hround
  dsimp only
  rcases h.exponent hm hfills with rfl | ⟨rfl, hmantissa, hnormal⟩
  · rw [hround.unique h.roundsTo]
    exact Nat.min_eq_right hfinite
  · have hx := hfills.below
    rw [show 53 + (m.exponent - 1) = 52 + m.exponent by omega] at hx
    rw [hround.unique (h.roundsTo_below hmantissa hnormal hx)]
    -- the mantissa carries into the exponent
    have hfield : (m.exponent + 1074).toNat
        = (m.exponent - 1 + 1074).toNat + 1 := by omega
    have hbits : m.bits
        = (m.exponent - 1 + 1074).toNat * leadingBit + 2 * leadingBit := by
      rw [bits, hmantissa, hfield]
      ring
    rw [← hbits]
    exact Nat.min_eq_right hfinite

/-- A finite magnitude has no larger exponent than this. -/
theorem Canonical.exponent_le (hm : m.Canonical)
    (hfinite : m.bits < infinityBits) : m.exponent ≤ 971 := by
  rcases hm.full with hleast | hfull
  · omega
  · have hfield : ((m.exponent + 1074).toNat + 1) * leadingBit
        < 2047 * leadingBit := by
      refine Nat.lt_of_le_of_lt ?_ hfinite
      rw [Nat.succ_mul]
      exact Nat.add_le_add_left hfull _
    have hlt := Nat.lt_of_mul_lt_mul_right hfield
    omega

end Magnitude

-- ============================================================= decimals

namespace Scientific

variable {d : Scientific} {m : Magnitude}

theorem eight_zpow (e : Int) : (8 : ℚ) ^ e = 2 ^ (3 * e) := by
  rw [zpow_mul]
  norm_num

/-- Ten is above eight, so a decimal is below the binary bound where its
exponent is negative. -/
theorem value_lt (he : d.exponent < 0) :
    d.value < 2 ^ ((d.coefficient.log2 : Int) + 3 * d.exponent + 1) := by
  have hcoefficient : (d.coefficient : ℚ)
      < 2 ^ ((d.coefficient.log2 : Int) + 1) := by
    exact_mod_cast Nat.lt_log2_self
  have hten : (10 : ℚ) ^ d.exponent ≤ 2 ^ (3 * d.exponent) := by
    obtain ⟨n, hn⟩ := Int.eq_ofNat_of_zero_le (Int.neg_nonneg.2 he.le)
    rw [← eight_zpow, show d.exponent = -n by omega, zpow_neg, zpow_neg]
    refine inv_anti₀ (by positivity) ?_
    exact zpow_le_zpow_left₀ (by omega) (by norm_num) (by norm_num)
  calc d.value ≤ d.coefficient * 2 ^ (3 * d.exponent) :=
        mul_le_mul_of_nonneg_left hten (by positivity)
    _ < 2 ^ ((d.coefficient.log2 : Int) + 1) * 2 ^ (3 * d.exponent) :=
        mul_lt_mul_of_pos_right hcoefficient (by positivity)
    _ = 2 ^ ((d.coefficient.log2 : Int) + 3 * d.exponent + 1) := by
        rw [← zpow_add₀ two_ne_zero]
        congr 1
        omega

/-- Where its exponent is not negative it is not below it. -/
theorem le_value (hc : d.coefficient ≠ 0) (he : 0 ≤ d.exponent) :
    2 ^ ((d.coefficient.log2 : Int) + 3 * d.exponent) ≤ d.value := by
  have hcoefficient : (2 : ℚ) ^ (d.coefficient.log2 : Int)
      ≤ d.coefficient := by
    rw [zpow_natCast]
    exact_mod_cast Nat.log2_self_le hc
  calc (2 : ℚ) ^ ((d.coefficient.log2 : Int) + 3 * d.exponent)
      = 2 ^ (d.coefficient.log2 : Int) * 8 ^ d.exponent := by
        rw [zpow_add₀ two_ne_zero, eight_zpow]
    _ ≤ d.coefficient * 10 ^ d.exponent :=
        mul_le_mul hcoefficient
          (zpow_le_zpow_left₀ he (by norm_num) (by norm_num))
          (by positivity) (by positivity)

/-- A decimal in the interval around a finite magnitude has its bits. -/
theorem toBits_of_around (hm : m.Canonical) (hpos : 0 < m.mantissa)
    (hfinite : m.bits < infinityBits) (h : m.Around d.value) :
    d.toBits = m.bits := by
  have hc : d.coefficient ≠ 0 := by
    intro hzero
    have hvalue := h.pos hpos
    rw [value, hzero, Nat.cast_zero, zero_mul] at hvalue
    exact lt_irrefl _ hvalue
  have hleast := hm.least
  have hgreatest := hm.exponent_le hfinite
  unfold toBits
  dsimp only
  rw [if_neg, if_neg]
  · rw [← num_div_den] at h
    exact h.nearest hm hpos hfinite.le d.den_pos
  · rintro ⟨he, hbound⟩
    have hlarge := (two_zpow_le hbound).trans (le_value hc he)
    exact absurd ((h.lt hm).trans_le (two_zpow_le (by omega))) (not_lt.2 hlarge)
  · rintro (hzero | hbound)
    · exact hc hzero
    · have hsmall : d.value < 2 ^ (m.exponent - 1) :=
        (value_lt (by omega)).trans_le (two_zpow_le (by omega))
      exact absurd hsmall (not_lt.2 (h.half_le hpos))

end Scientific
end MixtureAttention.Decimal
