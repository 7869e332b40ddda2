/-
The transpose of the last two axes. Leading axes are a flat batch of
matrices, each transposed by itself.
-/
import MixtureAttention.Flat.Gather

namespace MixtureAttention.Flat

variable {α : Type}

/-- Swaps rows and columns of every matrix in the buffer, which must be as
long as its shape says. -/
def transpose (data : Array α) (shape : Shape) : Except Error (Array α) := do
  match shape.matrix? with
  | none => throw (.rankMismatch 2 shape.length)
  | some (_, rows, cols) =>
      if data.size ≠ shape.size then
        throw (.shapeMismatch [shape.size] [data.size])
      gather shape.size fun i =>
        fetch data (i / rows / cols * rows * cols + i % rows * cols
          + i / rows % cols)

end MixtureAttention.Flat
