/-
Operations on tensors by their shapes alone: whether an operation succeeds,
and with what shape, is settled by the shapes of its operands. The rules are
those of cubes with the elements forgotten.
-/
import MixtureAttention.Proofs.Tensor.Products
import MixtureAttention.Proofs.Tensor.Segments

namespace MixtureAttention

open Tensor

variable {α : Type} [Scalar α] {b l k n m w : Nat} {t u : Tensor α}

-- =========================================================== element-wise

/-- Tensors of one shape combine to one of that shape. -/
theorem shape_combine_same (op : α → α → α) (ht : t.shape = [b, 1, l, k])
    (hu : u.shape = [b, 1, l, k]) :
    Returns (fun v => v.shape = [b, 1, l, k]) (t.combine op u) := by
  rw [eq_cube ht, eq_cube hu, combine_same]
  exact .of_ok rfl

/-- A row for each batch entry is stretched over the positions. -/
theorem shape_combine_row (op : α → α → α) (ht : t.shape = [b, 1, l, k])
    (hu : u.shape = [b, 1, 1, k]) :
    Returns (fun v => v.shape = [b, 1, l, k]) (t.combine op u) := by
  rw [eq_cube ht, eq_cube hu, combine_row]
  exact .of_ok rfl

/-- The derivative of an activation has the shape of its values. -/
theorem shape_backward (act : Activation) (h : t.shape = u.shape) :
    Returns (fun v => v.shape = t.shape) (act.backward t u) := by
  unfold Activation.backward
  rw [dif_pos h]
  cases act with
  | tanh => exact .of_ok rfl
  | sigmoid => exact .of_ok rfl
  | softmax =>
      refine .of_ok ?_
      unfold zipRows
      split <;> rfl

/-- A backward map that succeeds had operands of one shape. -/
theorem ensures_backward (act : Activation) :
    Ensures (fun v => v.shape = t.shape) (act.backward t u) := by
  intro v hv
  by_cases h : t.shape = u.shape
  · exact (shape_backward act h).ensures v hv
  · unfold Activation.backward at hv
    rw [dif_neg h] at hv
    cases hv

-- ================================================== sums and other shapes

/-- A sum over the rows leaves one row for each entry. -/
theorem shape_sumRows (ht : t.shape = [b, 1, l, k]) :
    Returns (fun v => v.shape = [b, 1, 1, k]) (t.sumAxes [2]) := by
  rw [eq_cube ht, sumAxes_single, sumRows_cube]
  exact .of_ok rfl

/-- Sums over everything but the columns. -/
theorem shape_sumToRow (ht : t.shape = [b, 1, l, k]) :
    Returns (fun v => v.shape = [1, 1, 1, k]) (t.sumAxes [0, 1, 2]) := by
  rw [eq_cube ht]
  show Returns _ ((cube b l k t.elem).sumAxis 0 >>= fun t =>
    t.sumAxis 1 >>= fun t => t.sumAxis 2 >>= fun t => pure t)
  rw [sumBatch_cube, ok_bind, sumUnit_cube, ok_bind, sumRows_cube, ok_bind]
  exact .of_ok rfl

omit [Scalar α] in
/-- What is reshaped has the new shape. -/
theorem shape_reshape {shape : Shape} (h : t.shape.size = shape.size) :
    Returns (fun v => v.shape = shape) (t.reshape shape) := by
  unfold reshape
  rw [dif_pos h]
  exact .of_ok rfl

omit [Scalar α] in
/-- What comes out of a reshape has the shape asked for. -/
theorem ensures_reshape {shape : Shape} :
    Ensures (fun v => v.shape = shape) (t.reshape shape) := by
  intro v hv
  unfold reshape at hv
  split at hv
  · injection hv with hv
    rw [← hv, shape_rowMajor]
  · cases hv

/-- A column is stretched to any width. -/
theorem shape_stretchColumns (ht : t.shape = [b, 1, l, 1]) :
    Returns (fun v => v.shape = [b, 1, l, k])
      (t.broadcastTo [b, 1, l, k]) := by
  rw [eq_cube ht, broadcastTo_cube]
  exact .of_ok rfl

-- =============================================================== segments

/-- Columns that are read are as wide as was asked for. -/
theorem shape_columns {offset len : Nat} (h : offset + len ≤ w)
    (ht : t.shape = [b, 1, l, w]) :
    Returns (fun v => v.shape = [b, 1, l, len]) (t.columns offset len) := by
  rw [eq_cube ht, columns_cube h]
  exact .of_ok rfl

/-- Overwriting columns does not change the shape. -/
theorem shape_setColumns {offset len : Nat} (h : offset + len ≤ w)
    (ht : t.shape = [b, 1, l, w]) (hu : u.shape = [b, 1, l, len]) :
    Returns (fun v => v.shape = [b, 1, l, w]) (t.setColumns offset len u) := by
  rw [eq_cube ht, eq_cube hu, setColumns_cube h]
  exact .of_ok rfl

omit [Scalar α] in
/-- What is given a shape has it. -/
theorem ensures_ofArray {data : Array α} {shape : Shape} :
    Ensures (fun v => v.shape = shape) (ofArray data shape) :=
  fun _ hv => (of_ofArray_ok hv).1

omit [Scalar α] in
/-- Whatever is written, the shape stays. -/
theorem ensures_setColumns {offset len : Nat} :
    Ensures (fun v => v.shape = t.shape) (t.setColumns offset len u) := by
  unfold setColumns
  refine .skip fun _ => ?_
  by_cases hu : u.shape = t.shape.withWidth len
  · rw [if_neg (not_not_intro hu)]
    exact .skip fun _ => ensures_ofArray
  · rw [if_pos hu]
    exact nofun

-- =============================================================== products

/-- The adjoint of the left factor, for a right factor of its own in each
entry. -/
theorem shape_gradLeft_batch (ht : t.shape = [b, 1, l, m])
    (hu : u.shape = [b, 1, n, m]) :
    Returns (fun v => v.shape = [b, 1, l, n]) (t.matmulGradLeft u) := by
  rw [eq_cube ht, eq_cube hu, matmulGradLeft_batch]
  exact .of_ok rfl

/-- One right factor for the whole batch. -/
theorem shape_gradLeft_shared (ht : t.shape = [b, 1, l, m])
    (hu : u.shape = [1, 1, n, m]) :
    Returns (fun v => v.shape = [b, 1, l, n]) (t.matmulGradLeft u) := by
  rw [eq_cube ht, eq_cube hu, matmulGradLeft_shared]
  exact .of_ok rfl

/-- The adjoint of a right factor for each batch entry has that factor's shape.
-/
theorem shape_gradRight_batch (ht : t.shape = [b, 1, l, n])
    (hu : u.shape = [b, 1, l, m]) :
    Returns (fun v => v.shape = [b, 1, n, m])
      (t.matmulGradRight .release u [b, 1, n, m]) := by
  rw [eq_cube ht, eq_cube hu, matmulGradRight_batch]
  exact .of_ok rfl

/-- One right factor for the whole batch, whose rows are single. -/
theorem shape_gradRight_shared (ht : t.shape = [b, 1, 1, n])
    (hu : u.shape = [b, 1, 1, m]) :
    Returns (fun v => v.shape = [1, 1, n, m])
      (t.matmulGradRight .release u [1, 1, n, m]) := by
  rw [eq_cube ht, eq_cube hu, matmulGradRight_shared]
  exact .of_ok rfl

end MixtureAttention
