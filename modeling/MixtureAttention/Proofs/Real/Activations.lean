/-
The backward map of an activation is its vector-Jacobian product. Each
activation turns a row into a row, so the pairing of an activated tensor with
a derivative is a sum over its rows, and only the row that holds a moving
element moves. Within a row the slope is one formula for each activation
(`hasDerivAt_row`): for the first two a product value by value, for softmax
the symmetry of its Jacobian (`softmax_symmetric`).
-/
import MixtureAttention.Proofs.Real.Elements

namespace MixtureAttention

open Finset Tensor

variable {lead : Shape} {w : Nat}

-- ================================================================== one row

namespace Activation

/-- How an activated row, paired with a derivative, moves with the row. -/
theorem hasDerivAt_row (act : Activation) {f : ℝ → Nat → ℝ} {f' : Nat → ℝ}
    {t : ℝ} (h : ∀ z, HasDerivAt (fun v => f v z) (f' z) t) (g : Nat → ℝ) :
    HasDerivAt (fun v => ∑ z ∈ range w, act.rowAt w (f v) z * g z)
      (∑ z ∈ range w, act.backwardAt w (act.rowAt w (f t)) g z * f' z) t := by
  cases act with
  | tanh =>
      have hterm : ∀ z ∈ range w, HasDerivAt
          (fun v => Scalar.tanh (f v z) * g z)
          (g z * (1 - Scalar.tanh (f t z) * Scalar.tanh (f t z)) * f' z) t :=
        fun z _ => ((hasDerivAt_tanh (h z)).mul_const (g z)).congr_deriv
          (by ring)
      exact HasDerivAt.fun_sum hterm
  | sigmoid =>
      have hterm : ∀ z ∈ range w, HasDerivAt
          (fun v => MixtureAttention.sigmoid (f v z) * g z)
          (g z * MixtureAttention.sigmoid (f t z)
            * (1 - MixtureAttention.sigmoid (f t z)) * f' z) t :=
        fun z _ => ((hasDerivAt_sigmoid (h z)).mul_const (g z)).congr_deriv
          (by ring)
      exact HasDerivAt.fun_sum hterm
  | softmax =>
      let y := softmaxAt w (f t)
      have hterm : ∀ z ∈ range w, HasDerivAt
          (fun v => softmaxAt w (f v) z * g z)
          (g z * (y z * (f' z - ∑ i ∈ range w, y i * f' i))) t :=
        fun z hz => ((hasDerivAt_softmaxAt h (mem_range.1 hz)).mul_const
          (g z)).congr_deriv (mul_comm _ _)
      refine (HasDerivAt.fun_sum hterm).congr_deriv ?_
      exact softmax_symmetric w y g f'

/-- What softmax hands back to a row adds up to zero: the outputs add up to
one, whatever the row is. -/
theorem sum_softmaxBackward (f g : Nat → ℝ) :
    ∑ z ∈ range w, softmaxBackwardAt w (softmaxAt w f) g z = 0 := by
  rcases Nat.eq_zero_or_pos w with rfl | hw
  · exact sum_range_zero _
  · have hterm : ∀ z, softmaxBackwardAt w (softmaxAt w f) g z
        = softmaxAt w f z * g z
          - softmaxAt w f z * ∑ i ∈ range w, softmaxAt w f i * g i := by
      intro z
      rw [softmaxBackwardAt, sumTo_eq_sum, mul_sub]
    simp only [hterm, sum_sub_distrib, ← sum_mul]
    rw [sum_softmaxAt hw, one_mul, sub_self]

-- ================================================================ all rows

/-- Where one element of a sheet moves. -/
noncomputable def moved (f : Nat → Nat → ℝ) (row column : Nat) (v : ℝ)
    (x z : Nat) : ℝ :=
  if x = row ∧ z = column then v else f x z

theorem moved_self (f : Nat → Nat → ℝ) (row column : Nat) :
    moved f row column (f row column) = f := by
  funext x z
  unfold moved
  split
  · next h => rw [h.1, h.2]
  · rfl

theorem hasDerivAt_moved (f : Nat → Nat → ℝ) (row column x z : Nat) (t : ℝ) :
    HasDerivAt (fun v => moved f row column v x z)
      (if x = row ∧ z = column then 1 else 0) t := by
  unfold moved
  split
  · exact hasDerivAt_id t
  · exact hasDerivAt_const t _

/-- The slope of the pairing in one element is what the backward map puts in
its place. -/
theorem hasDerivAt_pair (act : Activation) (f g : Nat → Nat → ℝ)
    {row column : Nat} (hrow : row < lead.size) (hcolumn : column < w) :
    HasDerivAt
      (fun v => (act.apply (sheet lead w (moved f row column v))).pair
        (sheet lead w g))
      (act.backwardAt w (act.rowAt w (f row)) (g row) column)
      (f row column) := by
  have hrows : ∀ x ∈ range lead.size, HasDerivAt
      (fun v => ∑ z ∈ range w,
        act.rowAt w (moved f row column v x) z * g x z)
      (∑ z ∈ range w, act.backwardAt w (act.rowAt w (f x)) (g x) z
        * if x = row ∧ z = column then 1 else 0) (f row column) := by
    intro x _
    have hx := act.hasDerivAt_row (w := w) (g := g x)
      fun z => hasDerivAt_moved f row column x z (f row column)
    rwa [moved_self] at hx
  simp only [apply_sheet, pair_sheet]
  refine (HasDerivAt.fun_sum hrows).congr_deriv ?_
  simp [ite_and, hrow, hcolumn]

-- ============================================================ the theorem

/-- In exact arithmetic, for tensors with any number of axes: what the
backward map makes of the outputs and of a derivative with respect to them
has the input's shape, and each of its elements is the derivative, in that
element of the input, of the outputs paired with the derivative; the rows
that softmax hands back add up to zero. Both maps compute a row from the row
alone. An output and a derivative of different shapes are refused. -/
theorem backward_is_derivative (act : Activation) :
    (∀ x dy : Tensor ℝ, 1 ≤ x.rank → dy.shape = x.shape →
      ∃ dx, act.backward (act.apply x) dy = .ok dx ∧ dx.shape = x.shape
        ∧ (∀ i < x.size, ∃ (a d : ℝ) (path : ℝ → Tensor ℝ),
            x.data[i]? = some a ∧ dx.data[i]? = some d
            ∧ (∀ v, x.write i v = .ok (path v))
            ∧ HasDerivAt (fun v => (act.apply (path v)).pair dy) d a)
        ∧ (act = .softmax → ∀ c, Shape.Contains x.shape.dropLast c →
            ∃ row, dx.HasRow c row
              ∧ ∑ z ∈ range x.shape.width, row z = 0))
      ∧ (∀ (c : List Nat) (x x' : Tensor ℝ), 1 ≤ x.rank → SameRow c x x' →
          SameRow c (act.apply x) (act.apply x'))
      ∧ (∀ (c : List Nat) (y y' dy dy' dx dx' : Tensor ℝ), 1 ≤ y.rank →
          SameRow c y y' → SameRow c dy dy' → act.backward y dy = .ok dx →
          act.backward y' dy' = .ok dx' → SameRow c dx dx')
      ∧ ∀ y dy : Tensor ℝ, y.shape ≠ dy.shape →
          act.backward y dy = .error (.shapeMismatch y.shape dy.shape) := by
  refine ⟨?_, ?_, ?_, fun y dy hne => dif_neg hne⟩
  · intro x dy hrank hdy
    obtain ⟨r, hr⟩ := Nat.exists_eq_add_of_le' hrank
    obtain ⟨lead, w, hx⟩ := Shape.exists_concat hr
    obtain ⟨f, rfl⟩ := exists_sheet hx
    obtain ⟨g, rfl⟩ := exists_sheet (hdy.trans hx)
    have hback : act.backward (act.apply (sheet lead w f)) (sheet lead w g)
        = .ok (sheet lead w fun x =>
            act.backwardAt w (act.rowAt w (f x)) (g x)) := by
      rw [apply_sheet, backward_sheet]
    refine ⟨_, hback, rfl, fun i hi => ?_, ?_⟩
    · have hi : i < Shape.size lead * w := by simpa [size] using hi
      obtain ⟨hrow, hcolumn, -⟩ := exists_column hi
      exact ⟨_, _, _, getElem?_sheet hi, getElem?_sheet hi, write_sheet hi,
        act.hasDerivAt_pair f g hrow hcolumn⟩
    · rintro rfl c -
      refine ⟨_, hasRow_sheet.2 fun _ z _ => rfl, ?_⟩
      rw [shape_sheet, Shape.width_concat]
      exact sum_softmaxBackward _ _
  · exact fun c x x' => act.sameRow_apply
  · exact fun c y y' dy dy' dx dx' => act.sameRow_backward

/-- A row of two elements, `0` and `1`, activated by softmax and paired with
`1` and `0`: the slope in the second element, and a derivative of one element
too many. -/
theorem backward_is_derivative_two_elements :
    let x : Tensor ℝ := .rowMajor [1, 2] #[0, 1] rfl
    let dy : Tensor ℝ := .rowMajor [1, 2] #[1, 0] rfl
    let long : Tensor ℝ := .rowMajor [1, 3] #[1, 0, 0] rfl
    1 ≤ x.rank ∧ dy.shape = x.shape
      ∧ (∃ (dx : Tensor ℝ) (d : ℝ) (path : ℝ → Tensor ℝ),
          softmax.backward (softmax.apply x) dy = .ok dx
          ∧ dx.data[1]? = some d ∧ (∀ v, x.write 1 v = .ok (path v))
          ∧ HasDerivAt (fun v => (softmax.apply (path v)).pair dy) d 1
          ∧ ∃ row, dx.HasRow [0] row ∧ ∑ z ∈ range 2, row z = 0)
      ∧ softmax.backward x long = .error (.shapeMismatch [1, 2] [1, 3]) := by
  intro x dy long
  have hrank : 1 ≤ x.rank := by decide
  obtain ⟨hderiv, -, -, hrefused⟩ := backward_is_derivative .softmax
  refine ⟨hrank, rfl, ?_, hrefused x long (by decide)⟩
  obtain ⟨dx, hdx, -, hslope, hrows⟩ := hderiv x dy hrank rfl
  obtain ⟨a, d, path, ha, hd, hpath, hpair⟩ := hslope 1 (by decide)
  obtain rfl : (1 : ℝ) = a := Option.some.inj ha
  exact ⟨dx, d, path, hdx, hd, hpath, hpair,
    hrows rfl [0] ⟨Nat.one_pos, trivial⟩⟩

end Activation

end MixtureAttention
