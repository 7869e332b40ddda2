/-
Combining two buffers whose shapes agree up to stretching axes of extent
one, and stretching one buffer to a larger shape. The element at a
multi-index comes from the operand's element at the same multi-index with
the stretched coordinates at zero; `Shape.project` finds its position by
giving stretched axes stride zero.
-/
import MixtureAttention.Flat.Gather

namespace MixtureAttention.Flat

variable {α β γ : Type}

/-- The shape that two shapes share. -/
def joinShapes (left right : Shape) : Except Error Shape :=
  if left.length ≠ right.length then
    .error (.rankMismatch left.length right.length)
  else
    match Shape.join left right with
    | some shape => .ok shape
    | none => .error (.broadcastMismatch left right)

/-- Where the element at position `i` of a buffer of shape `target` lies
in a buffer of shape `shape` that is stretched to it. -/
def stretchedPosition (shape target : Shape) (i : Nat) : Nat :=
  Shape.project (Shape.sweepStrides target) (Shape.stretch shape target) i

/-- Equal shapes are combined pairwise, and a position that one of the
operands does not reach holds zero. -/
def combinePairwise [Zero γ] (op : α → β → γ) (left : Array α)
    (right : Array β) (size : Nat) : Array γ :=
  Array.ofFn fun i : Fin size =>
    match left[i.val]?, right[i.val]? with
    | some a, some b => op a b
    | _, _ => 0

/-- Combines two buffers element by element over the shape they share,
which is returned with the elements. -/
def combine [Zero γ] (op : α → β → γ) (left : Array α) (right : Array β)
    (leftShape rightShape : Shape) : Except Error (Array γ × Shape) := do
  let shape ← joinShapes leftShape rightShape
  if leftShape = rightShape then
    return (combinePairwise op left right shape.size, shape)
  let data ← gather shape.size fun i => do
    let a ← fetch left (stretchedPosition leftShape shape i)
    let b ← fetch right (stretchedPosition rightShape shape i)
    return op a b
  return (data, shape)

/-- The buffer stretched to `target`. An axis that is not stretched must
have the target's extent, so a target that would have to be stretched
itself is refused. -/
def expand (data : Array α) (shape target : Shape) :
    Except Error (Array α) := do
  let joined ← joinShapes shape target
  if joined ≠ target then
    throw (.broadcastMismatch shape target)
  gather target.size fun i => fetch data (stretchedPosition shape target i)

end MixtureAttention.Flat
