/-
Activations and their backward maps. Each derivative is written in terms
of the activation's output alone, so a backward pass needs no exponential:
the hyperbolic tangent has slope `1 - y * y`, the logistic function slope
`y * (1 - y)`, and a softmax row sends `dy` to `y * (dy - dot y dy)`.

Softmax subtracts the largest element of a row before it takes
exponentials. The quotients are the same and the largest exponent is
zero, so nothing overflows.
-/
import MixtureAttention.Tensor.Rows

namespace MixtureAttention

variable {α : Type} [Scalar α]

inductive Activation
  | tanh
  | sigmoid
  /-- Exponentials normalised along the last axis. -/
  | softmax
deriving DecidableEq, Repr

/-- The logistic function. -/
def sigmoid (x : α) : α := 1 / (1 + Scalar.exp (-x))

-- =============================================================== softmax

/-- The largest element of a row that starts with `x`, looked for from minus
infinity on. -/
def rowMax (x : α) (xs : List α) : α :=
  xs.foldl Scalar.max (Scalar.maxNegInf x)

/-- The exponentials of a row, shifted by its largest element. -/
def shiftedExp : List α → List α
  | [] => []
  | x :: xs =>
      let largest := rowMax x xs
      (x :: xs).map fun v => Scalar.exp (v - largest)

/-- A row divided by its sum. -/
def normalizeRow (row : List α) : List α :=
  let sum := row.foldl (· + ·) 0
  row.map (· / sum)

/-- One row of softmax. -/
def softmaxRow (row : List α) : List α := normalizeRow (shiftedExp row)

/-- The sum of the products of two rows, left to right from zero. -/
def rowDot (ys dys : List α) : α :=
  (List.zipWith (· * ·) ys dys).foldl (· + ·) 0

/-- One row of softmax's backward map, from the output row and the
derivative with respect to it. -/
def softmaxRowBackward (ys dys : List α) : List α :=
  let dot := rowDot ys dys
  List.zipWith (fun y dy => y * (dy - dot)) ys dys

theorem length_softmaxRow (row : List α) :
    (softmaxRow row).length = row.length := by
  cases row <;> simp [softmaxRow, normalizeRow, shiftedExp]

theorem length_softmaxRowBackward (ys dys : List α)
    (h : ys.length = dys.length) :
    (softmaxRowBackward ys dys).length = ys.length := by
  simp [softmaxRowBackward, h]

-- ================================================== forward and backward

namespace Activation

/-- Applies the activation. -/
def apply : Activation → Tensor α → Tensor α
  | tanh, x => x.map Scalar.tanh
  | sigmoid, x => x.map MixtureAttention.sigmoid
  | softmax, x => x.mapRows softmaxRow length_softmaxRow

/-- The derivative with respect to the input, from the output `y` and the
derivative `dy` with respect to it, which must have one shape. -/
def backward (act : Activation) (y dy : Tensor α) :
    Except TensorError (Tensor α) :=
  if h : y.shape = dy.shape then
    match act with
    | tanh => .ok (zip (fun y g => g * (1 - y * y)) y dy h)
    | sigmoid => .ok (zip (fun y g => g * y * (1 - y)) y dy h)
    | softmax =>
        .ok (y.zipRows softmaxRowBackward length_softmaxRowBackward dy h)
  else .error (.shapeMismatch y.shape dy.shape)
where
  /-- Combines two tensors of one shape element by element. -/
  zip (f : α → α → α) (y dy : Tensor α) (h : y.shape = dy.shape) : Tensor α :=
    .rowMajor y.shape (Array.zipWith f y.data dy.data) (by
      rw [Array.size_zipWith, y.size_eq, dy.size_eq, ← h, Nat.min_self])

end Activation
end MixtureAttention
