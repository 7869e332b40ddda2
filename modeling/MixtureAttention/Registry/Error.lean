/-
What setting up, driving or storing for a layer can report. Errors of
tensor operations pass through with their own wording.
-/
import MixtureAttention.Tensor.Error

namespace MixtureAttention

/-- The kinds of buffers that a handle can name. -/
inductive HandleKind
  | input
  | output
  | weight
  | scratch
deriving DecidableEq, Repr

/-- The word for a kind of buffer in messages. -/
def HandleKind.name : HandleKind → String
  | input => "input"
  | output => "output"
  | weight => "weight"
  | scratch => "tensor"

inductive LayerError
  /-- A layer was wired to the wrong number of inputs. -/
  | inputCount (layer : String) (expected got : Nat)
  /-- A property without which the layer cannot be set up is not set. -/
  | missingProperty (layer property : String)
  /-- A property value cannot be read or is out of range. -/
  | invalidProperty (property value : String)
  /-- The layer has no property of this name. -/
  | unknownProperty (property : String)
  /-- The layer was driven before it was set up. -/
  | notFinalized
  /-- A backward procedure found no usable forward pass. -/
  | forwardNotRun
  /-- A scratch buffer was requested without a gradient buffer. -/
  | noGradient (name : String)
  /-- A handle names no buffer of the workspace it was used with. -/
  | invalidHandle (kind : HandleKind) (index : Nat)
  | tensor (error : TensorError)
deriving DecidableEq, Repr

/-- The wording of an error. -/
def LayerError.message : LayerError → String
  | .inputCount layer expected got =>
      layer ++ " expects " ++ Natural.text expected ++ " inputs, got "
        ++ Natural.text got
  | .missingProperty layer property =>
      layer ++ " requires property `" ++ property ++ "`"
  | .invalidProperty property value =>
      "Invalid value `" ++ value ++ "` for property `" ++ property
        ++ "`"
  | .unknownProperty property =>
      "Unknown property `" ++ property ++ "`"
  | .notFinalized => "Layer has not been finalized"
  | .forwardNotRun => "Backward pass requested before forward"
  | .noGradient name =>
      "Tensor `" ++ name ++ "` has no gradient buffer"
  | .invalidHandle kind index =>
      "Invalid " ++ kind.name ++ " handle " ++ Natural.text index
  | .tensor error => error.message

/-- A tensor operation inside a layer operation. -/
instance : MonadLift (Except TensorError) (Except LayerError) where
  monadLift r := r.mapError LayerError.tensor

end MixtureAttention
