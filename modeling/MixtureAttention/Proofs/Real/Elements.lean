/-
Real numbers as elements: the operations with nothing rounded. Sums are
sums in any order, the logistic function is the one of analysis, and the
shift by the largest element drops out of softmax, which is why softmax has
a derivative although the largest element of a row has none.
-/
import Mathlib.Analysis.Complex.Trigonometric
import Mathlib.Analysis.SpecialFunctions.ExpDeriv
import Mathlib.Analysis.SpecialFunctions.Sigmoid
import Mathlib.Analysis.SpecialFunctions.Trigonometric.DerivHyp
import MixtureAttention.Decimal.Binary
import MixtureAttention.Layer.Forward
import MixtureAttention.Proofs.Tensor.Adjoints
import MixtureAttention.Proofs.Tensor.Segments

namespace MixtureAttention

open Finset

/-- The value of a finite binary64 number. -/
noncomputable def realOfFloat (x : Float) : ℝ :=
  let m := Decimal.Magnitude.ofBits (Decimal.magnitudeBits x)
  (if Decimal.isNegative x then -1 else 1) * m.mantissa
    * (2 : ℝ) ^ m.exponent

/-- Exact arithmetic, with minus infinity below every number. -/
noncomputable instance : Scalar ℝ where
  exp := Real.exp
  tanh := Real.tanh
  max := max
  maxNegInf := id
  isFinite _ := true
  ofFloat := realOfFloat

-- ============================================================= activations

theorem sigmoid_eq (x : ℝ) : sigmoid x = Real.sigmoid x := by
  show 1 / (1 + Real.exp (-x)) = (1 + Real.exp (-x))⁻¹
  exact one_div _

/-- A common shift of a row drops out of softmax. -/
theorem softmaxAt_eq (k : Nat) (f : Nat → ℝ) (z : Nat) :
    softmaxAt k f z = Real.exp (f z) / ∑ i ∈ range k, Real.exp (f i) := by
  have hshift : ∀ i, Real.exp (f i - largest k f)
      = Real.exp (f i) / Real.exp (largest k f) := fun i => Real.exp_sub _ _
  unfold softmaxAt
  rw [sumTo_eq_sum]
  show Real.exp (f z - largest k f)
    / ∑ i ∈ range k, Real.exp (f i - largest k f) = _
  simp only [hshift]
  rw [← sum_div, div_div_div_cancel_right₀ (Real.exp_ne_zero _)]

theorem softmaxAt_pos {k : Nat} (hk : 0 < k) (f : Nat → ℝ) (z : Nat) :
    0 < softmaxAt k f z := by
  rw [softmaxAt_eq]
  exact div_pos (Real.exp_pos _)
    (sum_pos (fun _ _ => Real.exp_pos _) ⟨0, mem_range.2 hk⟩)

theorem sum_softmaxAt {k : Nat} (hk : 0 < k) (f : Nat → ℝ) :
    ∑ z ∈ range k, softmaxAt k f z = 1 := by
  have hpos : 0 < ∑ i ∈ range k, Real.exp (f i) :=
    sum_pos (fun _ _ => Real.exp_pos _) ⟨0, mem_range.2 hk⟩
  simp only [softmaxAt_eq]
  rw [← sum_div]
  exact div_self hpos.ne'

/-- The divisors are above zero. -/
theorem scaleFloor_pos : 0 < (scaleFloor : ℝ) := by
  show (0 : ℝ) < 1e-8
  norm_num

-- ============================================================= derivatives

variable {t : ℝ}

theorem hasDerivAt_sumTo {n : Nat} {f : ℝ → Nat → ℝ} {f' : Nat → ℝ}
    (h : ∀ i, i < n → HasDerivAt (fun x => f x i) (f' i) t) :
    HasDerivAt (fun x => sumTo n (f x)) (∑ i ∈ range n, f' i) t := by
  simp only [sumTo_eq_sum]
  exact HasDerivAt.fun_sum fun i hi => h i (mem_range.1 hi)

theorem hasDerivAt_tanh {f : ℝ → ℝ} {f' : ℝ} (h : HasDerivAt f f' t) :
    HasDerivAt (fun x => Scalar.tanh (f x))
      ((1 - Scalar.tanh (f t) * Scalar.tanh (f t)) * f') t := by
  have hcosh : Real.cosh (f t) ≠ 0 := (Real.cosh_pos _).ne'
  have hquot := (h.sinh.fun_div h.cosh hcosh)
  show HasDerivAt (fun x => Real.tanh (f x))
    ((1 - Real.tanh (f t) * Real.tanh (f t)) * f') t
  simp only [Real.tanh_eq_sinh_div_cosh]
  refine hquot.congr_deriv ?_
  field_simp

theorem hasDerivAt_exp {f : ℝ → ℝ} {f' : ℝ} (h : HasDerivAt f f' t) :
    HasDerivAt (fun x => Scalar.exp (f x)) (Scalar.exp (f t) * f') t := h.exp

theorem hasDerivAt_sigmoid {f : ℝ → ℝ} {f' : ℝ} (h : HasDerivAt f f' t) :
    HasDerivAt (fun x => sigmoid (f x))
      (sigmoid (f t) * (1 - sigmoid (f t)) * f') t := by
  simp only [sigmoid_eq]
  exact (Real.hasDerivAt_sigmoid (f t)).comp t h

theorem hasDerivAt_softmaxAt {k : Nat} {f : ℝ → Nat → ℝ} {f' : Nat → ℝ}
    (h : ∀ i, HasDerivAt (fun x => f x i) (f' i) t) {z : Nat} (hz : z < k) :
    HasDerivAt (fun x => softmaxAt k (f x) z)
      (softmaxAt k (f t) z
        * (f' z - ∑ i ∈ range k, softmaxAt k (f t) i * f' i)) t := by
  have hsum : HasDerivAt (fun x => ∑ i ∈ range k, Real.exp (f x i))
      (∑ i ∈ range k, Real.exp (f t i) * f' i) t :=
    HasDerivAt.fun_sum fun i _ => (h i).exp
  have hpos : 0 < ∑ i ∈ range k, Real.exp (f t i) :=
    sum_pos (fun i _ => Real.exp_pos _) ⟨z, mem_range.2 hz⟩
  have hquot := (h z).exp.fun_div hsum hpos.ne'
  simp only [softmaxAt_eq]
  refine hquot.congr_deriv ?_
  have hmean : ∑ i ∈ range k,
      Real.exp (f t i) / (∑ j ∈ range k, Real.exp (f t j)) * f' i
      = (∑ i ∈ range k, Real.exp (f t i) * f' i)
        / ∑ j ∈ range k, Real.exp (f t j) := by
    rw [sum_div]
    exact sum_congr rfl fun i _ => div_mul_eq_mul_div ..
  rw [hmean]
  field_simp

/-- The derivative of softmax is symmetric. -/
theorem softmax_symmetric (n : Nat) (y dy x : Nat → ℝ) :
    ∑ k ∈ range n, dy k * (y k * (x k - ∑ i ∈ range n, y i * x i))
      = ∑ k ∈ range n, softmaxBackwardAt n y dy k * x k := by
  have hleft : ∀ k, dy k * (y k * (x k - ∑ i ∈ range n, y i * x i))
      = y k * dy k * x k - y k * dy k * ∑ i ∈ range n, y i * x i :=
    fun k => by ring
  have hright : ∀ k, softmaxBackwardAt n y dy k * x k
      = y k * dy k * x k - (∑ i ∈ range n, y i * dy i) * (y k * x k) := by
    intro k
    show y k * (dy k - sumTo n fun i => y i * dy i) * x k = _
    rw [sumTo_eq_sum]
    ring
  simp only [hleft, hright, sum_sub_distrib, ← sum_mul, ← mul_sum]

end MixtureAttention
