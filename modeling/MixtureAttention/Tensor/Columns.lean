/-
Segments of the last axis. A packed buffer holds several quantities side
by side in the columns of its rows; a segment is the columns from
`offset` up to but not including `offset + len` of every row. It can be
read out as a tensor of its own and written back.
-/
import MixtureAttention.Tensor.Basic

namespace MixtureAttention.Tensor

variable {α : Type}

/-- The segment must end within the last axis. -/
def checkSegment (shape : Shape) (offset len : Nat) :
    Except TensorError Unit :=
  if shape.width < offset + len then
    .error (.indexOutOfBounds [offset, offset + len] shape)
  else .ok ()

/-- The segment as a tensor. -/
def columns (t : Tensor α) (offset len : Nat) :
    Except TensorError (Tensor α) := do
  checkSegment t.shape offset len
  let width := t.shape.width
  let data ← Flat.gather (t.shape.rowCount * len) fun i =>
    Flat.fetch t.data (i / len * width + offset + i % len)
  ofArray data (t.shape.withWidth len)

/-- The tensor with the segment overwritten by `part`, which must have the
segment's shape. -/
def setColumns (t : Tensor α) (offset len : Nat) (part : Tensor α) :
    Except TensorError (Tensor α) := do
  checkSegment t.shape offset len
  if part.shape ≠ t.shape.withWidth len then
    throw (.shapeMismatch (t.shape.withWidth len) part.shape)
  let width := t.shape.width
  let data ← Flat.gather t.shape.size fun i =>
    let column := i % width
    if offset ≤ column ∧ column < offset + len then
      Flat.fetch part.data (i / width * len + (column - offset))
    else Flat.fetch t.data i
  ofArray data t.shape

end MixtureAttention.Tensor
