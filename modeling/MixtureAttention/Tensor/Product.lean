/-
The matrix product of tensors over their last two axes, the transpose,
and the two adjoints of the product: given a derivative with respect to
`left * right`, they return the derivatives with respect to `left` and
with respect to `right`.
-/
import MixtureAttention.Flat.Product
import MixtureAttention.Flat.Transpose
import MixtureAttention.Tensor.Basic

namespace MixtureAttention

variable {α : Type}

namespace Shape

/-- The leading axes, those before the last two. -/
def lead (s : Shape) : Shape := s.dropLast.dropLast

/-- The extents of the last two axes. -/
def lastTwo (s : Shape) : List Nat := s.drop (s.length - 2)

/-- The last two axes swapped. -/
def transposed (s : Shape) : Shape := s.lead ++ s.lastTwo.reverse

/-- The number of rows of the last extent, from the extents before it. -/
def statedRows (s : Shape) : Nat := size s.lead * width s.dropLast

end Shape

namespace Tensor

/-- The matrix product. The leading axes of the right operand equal those
of the left one, or all have extent one, and then its single matrix meets
every entry of the batch. -/
def matmul [Zero α] [Add α] [Mul α] (left right : Tensor α) :
    Except TensorError (Tensor α) := do
  let data ← Flat.multiply left.data right.data left.shape right.shape
  ofArray data (left.shape.withWidth right.shape.width)

/-- Swaps the last two axes. -/
def transpose (t : Tensor α) : Except TensorError (Tensor α) := do
  let data ← Flat.transpose t.data t.shape
  ofArray data t.shape.transposed

/-- The derivative with respect to the left factor: `dout` times the
transpose of the right factor. -/
def matmulGradLeft [Zero α] [Add α] [Mul α] (dout right : Tensor α) :
    Except TensorError (Tensor α) := do
  dout.matmul (← right.transpose)

/-- The derivative with respect to a right factor of shape `rightShape`:
the transpose of the left factor times `dout`. Where one right matrix
served the whole batch, the contributions of the entries are added up by
running the contraction through all rows of the batch. Their number is
taken from the elements, and asserted to be the one that the extents give. -/
def matmulGradRight [Zero α] [Add α] [Mul α] (build : Build)
    (left dout : Tensor α) (rightShape : Shape) :
    Except TensorError (Tensor α) := do
  let inner := left.shape.width
  let cols := dout.shape.width
  if dout.shape.dropLast ≠ left.shape.dropLast then
    throw (.shapeMismatch left.shape.dropLast dout.shape.dropLast)
  if rightShape.lastTwo ≠ [inner, cols] then
    throw (.shapeMismatch [inner, cols] rightShape.lastTwo)
  if rightShape.lead = left.shape.lead then
    (← left.transpose).matmul dout
  else if rightShape.lead.any (· ≠ 1) then
    throw (.shapeMismatch left.shape rightShape)
  else
    let rows := left.shape.filledRows
    build.assertEq rows left.shape.statedRows
    let flipped ← Flat.transpose left.data [rows, inner]
    let data ← Flat.multiply flipped dout.data [inner, rows] [rows, cols]
    ofArray data rightShape

end Tensor
end MixtureAttention
