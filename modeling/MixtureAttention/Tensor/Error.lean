/-
What a tensor operation can report. Errors of the flat operations under
it are restated: shapes that cannot be stretched to each other get a
wording of their own, and a wrong number of axes counts as a mismatch of
shapes.

Two of these are no answers to a caller but ends of a run: an element past
the end of a buffer, and an assertion that does not hold. The second exists
in debug builds only.
-/
import MixtureAttention.Flat.Error

namespace MixtureAttention

inductive TensorError
  /-- Extents, or an element count, differ from what they must be. -/
  | shapeMismatch (expected got : List Nat)
  /-- Two shapes cannot be stretched to each other. -/
  | incompatible (left right : Shape)
  /-- A multi-index, or the bounds of a segment, leave the shape. -/
  | indexOutOfBounds (index : List Nat) (shape : Shape)
  /-- An axis number is not below the rank. -/
  | invalidAxis (axis rank : Nat)
  /-- The operation does not exist for this kind of operand. -/
  | unsupported (what : String)
  /-- An element past the end of a buffer was asked for. -/
  | overrun
  /-- Two counts that are asserted to be equal are not. -/
  | asserted (left right : Nat)
deriving DecidableEq, Repr

namespace TensorError

/-- An error of a flat operation, as the tensor operation reports it. -/
def ofFlat : Flat.Error → TensorError
  | .shapeMismatch expected got => .shapeMismatch expected got
  | .broadcastMismatch left right => .incompatible left right
  | .rankMismatch expected got => .shapeMismatch [expected] [got]
  | .invalidAxis axis rank => .invalidAxis axis rank
  | .overrun => .overrun

/-- The wording of an error. -/
def message : TensorError → String
  | .shapeMismatch expected got =>
      (Flat.Error.shapeMismatch expected got).message
  | .incompatible left right =>
      "Incompatible shapes for broadcasting: " ++ Shape.text left ++ " and "
        ++ Shape.text right
  | .indexOutOfBounds index shape =>
      "Index out of bounds: index " ++ Shape.text index ++ " for shape "
        ++ Shape.text shape
  | .invalidAxis axis rank => (Flat.Error.invalidAxis axis rank).message
  | .unsupported what => "Unsupported operation: " ++ what
  | .overrun => Flat.Error.overrun.message
  | .asserted left right =>
      "Assertion failed: " ++ Natural.text left ++ " is not "
        ++ Natural.text right

end TensorError

/-- The two ways to build the library. A debug build checks the assertions in
the code, a release build goes on without a look. -/
inductive Build
  | debug
  | release
deriving DecidableEq, Repr

namespace Build

/-- An assertion that two counts are equal. -/
def assertEq : Build → Nat → Nat → Except TensorError Unit
  | debug, x, y => if x = y then .ok () else .error (.asserted x y)
  | release, _, _ => .ok ()

@[simp] theorem assertEq_release (x y : Nat) :
    release.assertEq x y = .ok () := rfl

/-- An assertion that holds makes no difference. -/
@[simp] theorem assertEq_self (b : Build) (x : Nat) :
    b.assertEq x x = .ok () := by
  cases b with
  | debug => exact if_pos rfl
  | release => rfl

end Build

/-- A flat operation inside a tensor operation. -/
instance : MonadLift (Except Flat.Error) (Except TensorError) where
  monadLift r := r.mapError TensorError.ofFlat

end MixtureAttention
