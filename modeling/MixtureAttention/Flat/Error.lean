/-
What an operation on flat buffers can report. A flat operation is given
elements and a shape separately, and nothing promises that they agree:
shapes that do not fit are reported by name, and a buffer that ends
before the last element its shape speaks of is an overrun. On buffers
that are as long as their shapes say, no operation overruns.
-/
import MixtureAttention.Shape

namespace MixtureAttention.Flat

inductive Error
  /-- Extents, or an element count, differ from what they must be. -/
  | shapeMismatch (expected got : List Nat)
  /-- Some axis pair is neither equal nor stretchable. -/
  | broadcastMismatch (left right : Shape)
  /-- A shape has the wrong number of axes. -/
  | rankMismatch (expected got : Nat)
  /-- An axis number is not below the rank. -/
  | invalidAxis (axis rank : Nat)
  /-- An element past the end of a buffer was asked for. -/
  | overrun
deriving DecidableEq, Repr

/-- The wording of an error. -/
def Error.message : Error → String
  | .shapeMismatch expected got =>
      "Shape mismatch: expected " ++ Shape.text expected ++ ", got "
        ++ Shape.text got
  | .broadcastMismatch left right =>
      "Shapes " ++ Shape.text left ++ " and " ++ Shape.text right
        ++ " cannot be broadcast together"
  | .rankMismatch expected got =>
      "Rank mismatch: expected " ++ Natural.text expected ++ ", got "
        ++ Natural.text got
  | .invalidAxis axis rank =>
      "Axis " ++ Natural.text axis ++ " is out of range for rank "
        ++ Natural.text rank
  | .overrun => "Read past the end of a buffer"

end MixtureAttention.Flat
