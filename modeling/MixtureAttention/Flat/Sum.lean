/-
The sum along one axis. The axes before it and the axes after it are two
flat groups, so the buffer is read as `outer * len * inner` elements and
the result has one element for each pair of an outer and an inner
position.
-/
import MixtureAttention.Flat.Gather

namespace MixtureAttention.Flat

variable {α : Type} [Zero α] [Add α]

/-- Sums along `axis`, which keeps extent one in the result. -/
def sumAxis (data : Array α) (shape : Shape) (axis : Nat) :
    Except Error (Array α) :=
  match shape[axis]? with
  | none => .error (.invalidAxis axis shape.length)
  | some len =>
      let outer := Shape.size (shape.take axis)
      let inner := Shape.size (shape.drop (axis + 1))
      gather (outer * inner) fun i => total len fun j =>
        fetch data (i / inner * len * inner + j * inner + i % inner)

end MixtureAttention.Flat
