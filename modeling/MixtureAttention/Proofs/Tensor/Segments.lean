/-
Rows computed as a whole, and cubes cut along their last axis. Softmax and
its backward map turn a row given by a function into a row given by another
function (`softmaxAt`, `softmaxBackwardAt`); the other two activations do so
value by value. On sheets all three are therefore one formula in the row
(`apply_sheet`, `backward_sheet`).

A cube is a sheet whose leading axes have three extents (`cube_eq_sheet`),
so what holds of segments and activations of sheets holds of those of cubes.
-/
import MixtureAttention.Proofs.Tensor.Rows

namespace MixtureAttention

-- ================================================================= softmax

section

variable {α : Type} [Scalar α]

/-- The largest of the first `k` values, compared left to right. -/
def largest (k : Nat) (f : Nat → α) : α :=
  rowMax (f 0) ((List.range (k - 1)).map fun i => f (i + 1))

/-- Softmax of the first `k` values at one of them. -/
def softmaxAt (k : Nat) (f : Nat → α) (z : Nat) : α :=
  Scalar.exp (f z - largest k f)
    / sumTo k fun i => Scalar.exp (f i - largest k f)

/-- The exponentials of a row that is given by a function. -/
theorem shiftedExp_range (k : Nat) (f : Nat → α) :
    shiftedExp ((List.range k).map f)
      = (List.range k).map fun i => Scalar.exp (f i - largest k f) := by
  cases k with
  | zero => rfl
  | succ k =>
      rw [List.range_succ_eq_map, List.map_cons, shiftedExp]
      simp only [List.map_cons, List.map_map, Function.comp_def]
      rfl

/-- Softmax of a row, element by element. -/
theorem softmaxRow_range (k : Nat) (f : Nat → α) :
    softmaxRow ((List.range k).map f)
      = (List.range k).map (softmaxAt k f) := by
  rw [softmaxRow, shiftedExp_range, normalizeRow, List.map_map]
  rfl

/-- Softmax of a row looks at the values of the row alone. -/
theorem softmaxAt_congr {k : Nat} {f g : Nat → α} (h : ∀ i < k, f i = g i)
    {z : Nat} (hz : z < k) : softmaxAt k f z = softmaxAt k g z := by
  have hrow : (List.range k).map f = (List.range k).map g :=
    List.map_congr_left fun i hi => h i (List.mem_range.1 hi)
  have hsoftmax := softmaxRow_range k f
  rw [hrow, softmaxRow_range] at hsoftmax
  exact (List.map_inj_left.1 hsoftmax z (List.mem_range.2 hz)).symm

/-- The inner product of two rows as a sum over their positions. -/
theorem rowDot_range (k : Nat) (f g : Nat → α) :
    rowDot ((List.range k).map f) ((List.range k).map g)
      = sumTo k fun i => f i * g i := by
  rw [rowDot, List.zipWith_map, List.zipWith_self, sumTo]

/-- Softmax's backward map at one of `k` values. -/
def softmaxBackwardAt (k : Nat) (y dy : Nat → α) (z : Nat) : α :=
  y z * (dy z - sumTo k fun i => y i * dy i)

/-- The derivative of softmax along a row, element by element. -/
theorem softmaxRowBackward_range (k : Nat) (f g : Nat → α) :
    softmaxRowBackward ((List.range k).map f) ((List.range k).map g)
      = (List.range k).map (softmaxBackwardAt k f g) := by
  rw [softmaxRowBackward, rowDot_range, List.zipWith_map, List.zipWith_self]
  rfl

end

-- ===================================================== activations of rows

namespace Activation

open Tensor

variable {α : Type} [Scalar α] {lead : Shape} {w : Nat} {f g : Nat → Nat → α}

/-- The activation of a row of `w` values, at one of them. -/
def rowAt (act : Activation) (w : Nat) (f : Nat → α) (z : Nat) : α :=
  match act with
  | tanh => Scalar.tanh (f z)
  | sigmoid => MixtureAttention.sigmoid (f z)
  | softmax => softmaxAt w f z

/-- The backward map of a row of `w` outputs, at one of them. -/
def backwardAt (act : Activation) (w : Nat) (y dy : Nat → α) (z : Nat) : α :=
  match act with
  | tanh => dy z * (1 - y z * y z)
  | sigmoid => dy z * y z * (1 - y z)
  | softmax => softmaxBackwardAt w y dy z

/-- An activated row looks at the values of the row alone. -/
theorem rowAt_congr (act : Activation) {f g : Nat → α}
    (h : ∀ i < w, f i = g i) {z : Nat} (hz : z < w) :
    act.rowAt w f z = act.rowAt w g z := by
  cases act with
  | tanh => exact congrArg Scalar.tanh (h z hz)
  | sigmoid => exact congrArg MixtureAttention.sigmoid (h z hz)
  | softmax => exact softmaxAt_congr h hz

/-- So does its backward map, at the outputs and at the derivative. -/
theorem backwardAt_congr (act : Activation) {y y' dy dy' : Nat → α}
    (hy : ∀ i < w, y i = y' i) (hdy : ∀ i < w, dy i = dy' i) {z : Nat}
    (hz : z < w) : act.backwardAt w y dy z = act.backwardAt w y' dy' z := by
  have hdot : sumTo w (fun i => y i * dy i) = sumTo w fun i => y' i * dy' i :=
    sumTo_congr fun i hi => by rw [hy i hi, hdy i hi]
  cases act <;>
    simp only [backwardAt, softmaxBackwardAt, hy z hz, hdy z hz, hdot]

/-- An activation goes through the rows of a sheet one by one. -/
theorem apply_sheet (act : Activation) :
    act.apply (sheet lead w f) = sheet lead w fun x => act.rowAt w (f x) := by
  cases act with
  | tanh => exact map_sheet _
  | sigmoid => exact map_sheet _
  | softmax =>
      show (sheet lead w f).mapRows softmaxRow length_softmaxRow = _
      exact mapRows_sheet (softmaxRow_range w)

omit [Scalar α] in
/-- The elementwise derivatives go through both sheets together. -/
theorem zip_sheet (op : α → α → α)
    (hs : (sheet lead w f).shape = (sheet lead w g).shape) :
    backward.zip op (sheet lead w f) (sheet lead w g) hs
      = sheet lead w fun x z => op (f x z) (g x z) := by
  refine Tensor.ext rfl ?_
  show Array.zipWith op (sheet lead w f).data (sheet lead w g).data = _
  simp [sheet, List.zipWith_map, List.zipWith_self]

/-- The derivative of any activation runs row by row. -/
theorem backward_sheet (act : Activation) :
    act.backward (sheet lead w f) (sheet lead w g)
      = .ok (sheet lead w fun x => act.backwardAt w (f x) (g x)) := by
  have hs : (sheet lead w f).shape = (sheet lead w g).shape := rfl
  rw [backward, dif_pos hs]
  cases act with
  | tanh => exact congrArg _ (zip_sheet _ hs)
  | sigmoid => exact congrArg _ (zip_sheet _ hs)
  | softmax =>
      exact congrArg _ (zipRows_sheet (softmaxRowBackward_range w) hs)

/-- A row of an activated tensor comes from the row in its place. -/
theorem sameRow_apply (act : Activation) {c : List Nat} {x x' : Tensor α}
    (hrank : 1 ≤ x.rank) (h : SameRow c x x') :
    SameRow c (act.apply x) (act.apply x') := by
  obtain ⟨r, hr⟩ := Nat.exists_eq_add_of_le' hrank
  obtain ⟨lead, w, hx⟩ := Shape.exists_concat hr
  obtain ⟨f, rfl⟩ := exists_sheet hx
  obtain ⟨f', rfl⟩ := exists_sheet h.1.symm
  rw [apply_sheet, apply_sheet, sameRow_sheet]
  exact fun hc z hz => act.rowAt_congr (sameRow_sheet.1 h hc) hz

/-- A row that is handed back comes from the two rows in its place. -/
theorem sameRow_backward (act : Activation) {c : List Nat}
    {y y' dy dy' dx dx' : Tensor α} (hrank : 1 ≤ y.rank)
    (hy : SameRow c y y') (hdy : SameRow c dy dy')
    (hdx : act.backward y dy = .ok dx)
    (hdx' : act.backward y' dy' = .ok dx') : SameRow c dx dx' := by
  have hshape := ((decided_backward act y dy).of_ok hdx).1
  obtain ⟨r, hr⟩ := Nat.exists_eq_add_of_le' hrank
  obtain ⟨lead, w, hlead⟩ := Shape.exists_concat hr
  obtain ⟨f, rfl⟩ := exists_sheet hlead
  obtain ⟨f', rfl⟩ := exists_sheet hy.1.symm
  obtain ⟨g, rfl⟩ := exists_sheet hshape.symm
  obtain ⟨g', rfl⟩ := exists_sheet hdy.1.symm
  rw [backward_sheet] at hdx hdx'
  cases hdx
  cases hdx'
  rw [sameRow_sheet]
  exact fun hc z hz => act.backwardAt_congr (sameRow_sheet.1 hy hc)
    (sameRow_sheet.1 hdy hc) hz

end Activation

-- =================================================================== cubes

namespace Tensor

variable {α : Type} {b l k w : Nat} {f g : Nat → Nat → Nat → α}

/-- The rows of a cube, counted through its batch. -/
theorem cube_eq_sheet :
    cube b l k f = sheet [b, 1, l] k fun r => f (r / l) (r % l) :=
  Tensor.ext rfl (by simp [cube, sheet])

/-- The rows of a cube, one after the other, are its elements. -/
theorem flatten_cube :
    (((List.range (b * l)).map fun r =>
        (List.range k).map fun z => f (r / l) (r % l) z).flatten).toArray
      = (cube b l k f).data := by
  rw [flatten_range]
  rfl

/-- The columns of a cube are a cube of the same rows. -/
theorem columns_cube {offset len : Nat} (h : offset + len ≤ w) :
    (cube b l w f).columns offset len
      = .ok (cube b l len fun x y z => f x y (offset + z)) := by
  rw [cube_eq_sheet, columns_sheet h, cube_eq_sheet]

/-- Overwritten columns of a cube, and what stands beside them. -/
theorem setColumns_cube {offset len : Nat} (h : offset + len ≤ w) :
    (cube b l w f).setColumns offset len (cube b l len g)
      = .ok (cube b l w fun x y z =>
          if offset ≤ z ∧ z < offset + len then g x y (z - offset)
          else f x y z) := by
  rw [cube_eq_sheet, cube_eq_sheet, setColumns_sheet h, cube_eq_sheet]

end Tensor

namespace Activation

open Tensor

variable {α : Type} [Scalar α] {b l k : Nat} {f g : Nat → Nat → Nat → α}

/-- Hyperbolic tangents, element by element. -/
theorem tanh_cube :
    tanh.apply (cube b l k f)
      = cube b l k fun x y z => Scalar.tanh (f x y z) := map_cube _

/-- Logistic values, element by element. -/
theorem sigmoid_cube :
    sigmoid.apply (cube b l k f)
      = cube b l k fun x y z => MixtureAttention.sigmoid (f x y z) :=
  map_cube _

/-- Softmax looks at a row and at no other. -/
theorem softmax_cube :
    softmax.apply (cube b l k f)
      = cube b l k fun x y => softmaxAt k (f x y) := by
  rw [cube_eq_sheet, apply_sheet, cube_eq_sheet]
  rfl

/-- The derivative through the hyperbolic tangent, from its values. -/
theorem tanhBackward_cube :
    tanh.backward (cube b l k f) (cube b l k g)
      = .ok (cube b l k fun x y z =>
          g x y z * (1 - f x y z * f x y z)) := by
  rw [cube_eq_sheet, cube_eq_sheet, backward_sheet, cube_eq_sheet]
  rfl

/-- The derivative through the logistic function, from its values. -/
theorem sigmoidBackward_cube :
    sigmoid.backward (cube b l k f) (cube b l k g)
      = .ok (cube b l k fun x y z =>
          g x y z * f x y z * (1 - f x y z)) := by
  rw [cube_eq_sheet, cube_eq_sheet, backward_sheet, cube_eq_sheet]
  rfl

/-- The derivative through softmax, row by row. -/
theorem softmaxBackward_cube :
    softmax.backward (cube b l k f) (cube b l k g)
      = .ok (cube b l k fun x y => softmaxBackwardAt k (f x y) (g x y)) := by
  rw [cube_eq_sheet, cube_eq_sheet, backward_sheet, cube_eq_sheet]
  rfl

end Activation
end MixtureAttention
