/-
Finite numbers read back. What is written of one is a sign and the layout
of the shortest decimal; the decimal lies in the interval around the
magnitude (`around_shortest`), the layout is read as a decimal of the same
value (`readScientific?_positional`), and all decimals in the interval have
the bits of the magnitude (`toBits_of_around`). With the sign the bits make
up the number (`read?_text`).
-/
import Mathlib
import MixtureAttention.Proofs.Decimal.Layout
import MixtureAttention.Proofs.Decimal.Rounding

namespace MixtureAttention.Decimal

open Text

-- =================================================================== bits

section

open Float.Model UnpackedFloat

/-- A word of a finite number does not have the largest exponent. -/
theorem exponent_of_isFinite {b : BitVec Format.binary64.numBits}
    (h : (UnpackedFloat.unpack .binary64 b).isFinite = true) :
    unpackExponent b ≠ -1#11 := by
  intro hlast
  unfold UnpackedFloat.unpack at h
  dsimp only at h
  rw [if_pos hlast] at h
  split at h <;> cases h

/-- The magnitude bits of a finite number are below those of infinity. -/
theorem magnitudeBits_lt {x : Float} (h : x.isFinite = true) :
    magnitudeBits x < infinityBits := by
  have hleading : leadingBit = 4503599627370496 := rfl
  have hsign : signBit = 9223372036854775808 := rfl
  have hne : x.toBits.toNat / leadingBit % 2048 ≠ 2047 := by
    refine fun hlast => exponent_of_isFinite h (BitVec.toNat_inj.1 ?_)
    rw [unpackExponent_def, BitVec.extractLsb'_toNat,
      Nat.shiftRight_eq_div_pow]
    exact hlast
  rw [hleading] at hne
  rw [magnitudeBits, infinityBits, hsign, hleading]
  omega

end

/-- A number is made of its sign and its magnitude. -/
theorem ofMagnitudeBits_eq (x : Float) :
    ofMagnitudeBits (isNegative x) (magnitudeBits x) = x := by
  have hword : x.toBits.toNat < 2 * signBit := x.toBits.toNat_lt
  have hbits : (if isNegative x then signBit + magnitudeBits x
      else magnitudeBits x) = x.toBits.toNat := by
    unfold isNegative magnitudeBits
    simp only [decide_eq_true_eq]
    split
    · next hnegative =>
        rw [Nat.mod_eq_sub_mod hnegative, Nat.mod_eq_of_lt (by omega)]
        omega
    · next hpositive => exact Nat.mod_eq_of_lt (Nat.not_le.1 hpositive)
  rw [ofMagnitudeBits, hbits, UInt64.ofNat_toNat, Float.ofBits_toBits]

-- ================================================================== words

variable {cs : List Char}

/-- Neither a digit nor the point is a letter or a sign. -/
theorem lowerChar_of_place {c : Char} (h : c.isDigit = true ∨ c = '.') :
    lowerChar c = c := by
  refine if_neg fun hcapital => ?_
  rcases h with hdigit | rfl
  · have hle : c.toNat ≤ 57 := by
      simpa [Char.isDigit, UInt32.le_iff_toNat_le] using
        (Bool.and_eq_true_iff.1 hdigit).2
    have hge : 65 ≤ c.toNat := hcapital.1
    omega
  · exact absurd hcapital.1 (by decide)

theorem splitSign_of_places (h : Places cs) : splitSign cs = (false, cs) := by
  unfold splitSign
  split
  · exact absurd (h '-' (List.mem_cons_self ..)) (by decide)
  · exact absurd (h '+' (List.mem_cons_self ..)) (by decide)
  · rfl

/-- What is laid out is none of the words. -/
theorem readBits?_of_places (h : Places cs) :
    readBits? cs = (readScientific? cs).map Scientific.toBits := by
  have hlower : cs.map lowerChar = cs :=
    (List.map_congr_left fun c hc => lowerChar_of_place (h c hc)).trans
      (List.map_id' cs)
  have hword : ∀ word : String, (∃ c ∈ word.toList,
      ¬ (c.isDigit = true ∨ c = '.')) → String.ofList cs ≠ word := by
    rintro word ⟨c, hc, hplace⟩ rfl
    rw [String.toList_ofList] at hc
    exact hplace (h c hc)
  unfold readBits?
  dsimp only
  rw [hlower, if_neg, if_neg]
  · exact hword "nan" ⟨'n', by decide, by decide⟩
  · exact not_or.2 ⟨hword "inf" ⟨'i', by decide, by decide⟩,
      hword "infinity" ⟨'i', by decide, by decide⟩⟩

-- ============================================================= magnitudes

/-- The shortest decimal of a finite magnitude has its bits. -/
theorem readBits?_shortest {bits : Nat} (hzero : bits ≠ 0)
    (hfinite : bits < infinityBits) :
    readBits? (Magnitude.ofBits bits).shortest.positional = some bits := by
  have hbits := Magnitude.bits_ofBits bits
  have hm := Magnitude.canonical_ofBits bits
  generalize Magnitude.ofBits bits = m at hbits hm ⊢
  have hpos : 0 < m.mantissa := by
    refine Nat.pos_of_ne_zero fun hnone => hzero ?_
    have hleading := leadingBit_pos
    have hleast := hm.full.resolve_right (by omega)
    rw [← hbits, Magnitude.bits, hnone, hleast]
    simp
  -- the text reads as a number of the same value, which rounds to the bits
  obtain ⟨d, hread, hvalue⟩ := readScientific?_positional m.shortest
  have haround : m.Around d.value := hvalue ▸ Magnitude.around_shortest hpos
  rw [readBits?_of_places (places_positional _), hread, Option.map_some,
    Scientific.toBits_of_around hm hpos (hbits ▸ hfinite) haround, hbits]

/-- The magnitude of a finite number as it is laid out. -/
def body (bits : Nat) : List Char :=
  if bits = 0 then ['0'] else (Magnitude.ofBits bits).shortest.positional

theorem places_body (bits : Nat) : Places (body bits) := by
  unfold body
  split
  · simp [Places]
  · exact places_positional _

theorem readBits?_body {bits : Nat} (h : bits < infinityBits) :
    readBits? (body bits) = some bits := by
  unfold body
  split
  · next hzero =>
      subst hzero
      decide +kernel
  · next hzero => exact readBits?_shortest hzero h

/-- A finite number is written as its sign and its magnitude. -/
theorem text_of_isFinite {x : Float} (h : x.isFinite = true) :
    text x = String.ofList
      (if isNegative x then '-' :: body (magnitudeBits x)
        else body (magnitudeBits x)) := by
  have hfinite := magnitudeBits_lt h
  unfold text body
  simp only [Nat.not_lt.2 hfinite.le, hfinite.ne, hfinite.le, if_false,
    and_true]

-- ================================================================ numbers

/-- A finite number reads back as itself, its sign included. -/
theorem read?_text {x : Float} (h : x.isFinite = true) :
    read? (text x) = some x := by
  have hsplit : splitSign (text x).toList
      = (isNegative x, body (magnitudeBits x)) := by
    rw [text_of_isFinite h, String.toList_ofList]
    cases isNegative x with
    | false => exact splitSign_of_places (places_body _)
    | true => rfl
  unfold read?
  rw [hsplit]
  dsimp only
  rw [readBits?_body (magnitudeBits_lt h), Option.map_some,
    ofMagnitudeBits_eq]

end MixtureAttention.Decimal
