/-
Penalties on weights. The loss adds up half the constant times the sum of
squares of every penalised weight, frozen ones included; the step adds the
constant times the value to the gradient of every penalised weight that is
trained.
-/
import MixtureAttention.Registry.Workspace

namespace MixtureAttention

variable {α : Type} [Scalar α]

namespace Weight

/-- The sum of the squares of the elements. -/
def squares (w : Weight α) : α :=
  w.value.data.foldl (fun acc x => acc + x * x) 0

/-- The factor of the penalty, as an element. -/
def factor (w : Weight α) : α := Scalar.ofFloat w.decl.constant

/-- The penalty of a weight. -/
def penalty (w : Weight α) : α :=
  0.5 * w.factor * w.squares

/-- Whether the weight adds to the loss. -/
def isPenalised (w : Weight α) : Bool := w.decl.regularizer = .l2

/-- The gradient with the derivative of the penalty added to it; where the
value and the gradient differ in length, as far as both reach. -/
def penalisedGrad (w : Weight α) : Tensor α :=
  { w.grad with
    data := w.grad.data.mapIdx fun i g =>
      match w.value.data[i]? with
      | some x => g + w.factor * x
      | none => g
    size_eq := by simpa using w.grad.size_eq }

end Weight

namespace Workspace

/-- The penalties of all weights, added up in the order of the weights. -/
def regularizationLoss (w : Workspace α) : α :=
  (w.weights.filter (·.isPenalised)).foldl (fun acc e => acc + e.penalty) 0

/-- Adds the derivative of the penalty to the gradient of every weight that
is penalised and trained. -/
def applyRegularization (w : Workspace α) : Workspace α :=
  { w with
    weights := w.weights.map fun e =>
      if e.decl.trainable && e.isPenalised then
        { e with grad := e.penalisedGrad }
      else e }

end Workspace
end MixtureAttention
