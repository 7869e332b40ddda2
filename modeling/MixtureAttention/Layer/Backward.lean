/-
The backward pass as functions of what a workspace holds after a forward
pass. Both gradient procedures start from the derivative with respect to
the packed mixture logits, which `packedDerivative` computes from the
derivative with respect to the output; the derivative with respect to the
state comes with it, because state and steps are added to give the
centres.
-/
import MixtureAttention.Layer.Forward

namespace MixtureAttention

variable {α : Type} [Scalar α]

-- ================================================== down to the mixture

/-- The derivative with respect to the masses times shares, the same for
every component: the score of a position is their sum, and the output is
linear in the scores. -/
def scoreDerivative (k : Nat) (dout value : Tensor α) :
    Except TensorError (Tensor α) := do
  let batch := value.extent 0
  let positions := value.extent 2
  let dscores ← dout.matmulGradLeft value
  let column ← dscores.reshape [batch, 1, positions, 1]
  column.broadcastTo [batch, 1, positions, k]

/-- Sums over positions and turns the sign: a distance falls by as much as
its centre rises. -/
def negSumPositions (t : Tensor α) : Except TensorError (Tensor α) := do
  return (← t.sumAxes [2]).neg

/-- What the derivative with respect to the packed logits is made of. -/
structure PackedDerivative (α : Type) where
  /-- With respect to the packed logits. -/
  packed : Tensor α
  /-- With respect to the state. -/
  state : Tensor α

/-- A packed row put together from its three parts. -/
def packParts (batch k : Nat) (step scale share : Tensor α) :
    Except TensorError (Tensor α) := do
  let packed : Tensor α := .zeros [batch, 1, 1, 3 * k]
  let packed ← Segment.step.write k packed step
  let packed ← Segment.scale.write k packed scale
  Segment.share.write k packed share

/-- The derivative with respect to the packed logits, from the derivative
with respect to the output and the buffers of the latest forward pass. -/
def packedDerivative (s : Slots) (k : Nat) (w : Workspace α) :
    Except LayerError (PackedDerivative α) := do
  let dout ← w.incomingAt 0
  let value ← w.input s.value
  let dweighted ← scoreDerivative k dout value
  let packed ← w.scratchValue s.packed
  let step ← Segment.step.read k packed
  let scale ← Segment.scale.read k packed
  let share ← Segment.share.read k packed
  let dshared ← dweighted.mul (← w.scratchValue s.mass)
  let dshare ← dshared.sumAxes [2]
  let dmass ← dweighted.mul share
  let dupper ← Activation.sigmoid.backward (← w.scratchValue s.upper) dmass
  let dlower ← Activation.sigmoid.backward (← w.scratchValue s.lower)
    dmass.neg
  let divisor := divisors scale
  let upperShift ← dupper.div divisor
  let lowerShift ← dlower.div divisor
  let dcentreUpper ← negSumPositions upperShift
  let dcentreLower ← negSumPositions lowerShift
  let upperStretch ← upperShift.mul (← w.scratchValue s.upperEdge)
  let dscaleUpper ← negSumPositions upperStretch
  let lowerStretch ← lowerShift.mul (← w.scratchValue s.lowerEdge)
  let dscaleLower ← negSumPositions lowerStretch
  let dscale ← dscaleUpper.add dscaleLower
  let dcentre ← dcentreUpper.add dcentreLower
  let dstepLogit ← dcentre.mul step
  let dscaleLogit ← dscale.mul scale
  let dshareLogit ← Activation.softmax.backward share dshare
  let packed ← packParts (value.extent 0) k dstepLogit dscaleLogit
    dshareLogit
  return { packed, state := dcentre }

-- ============================================== on to inputs and weights

/-- The derivative with respect to the hidden projection before its
activation, from the packed derivative that is stored. -/
def hiddenDerivative (s : Slots) (w : Workspace α) :
    Except LayerError (Tensor α) := do
  let dpacked ← w.scratchGrad s.packed
  let dhidden ← dpacked.matmulGradLeft (← w.weight s.packedWeight)
  Activation.tanh.backward (← w.scratchValue s.hidden) dhidden

/-- The derivative with respect to the values. -/
def valueDerivative (build : Build) (s : Slots) (w : Workspace α) :
    Except LayerError (Tensor α) := do
  let scores ← w.scratchValue s.scores
  let dout ← w.incomingAt 0
  let value ← w.input s.value
  scores.matmulGradRight build dout value.shape

/-- The derivative with respect to the query. -/
def queryDerivative (s : Slots) (w : Workspace α) :
    Except LayerError (Tensor α) := do
  let dsum ← hiddenDerivative s w
  dsum.matmulGradLeft (← w.weight s.hiddenWeight)

/-- The derivatives with respect to the weights. -/
structure WeightDerivatives (α : Type) where
  hiddenWeight : Tensor α
  hiddenBias : Tensor α
  packedWeight : Tensor α

/-- The derivatives with respect to the weights, from the packed derivative
that is stored. -/
def weightDerivatives (build : Build) (s : Slots) (w : Workspace α) :
    Except LayerError (WeightDerivatives α) := do
  let hidden ← w.scratchValue s.hidden
  let dpacked ← w.scratchGrad s.packed
  let packedWeight ← hidden.matmulGradRight build dpacked
    (← w.weight s.packedWeight).shape
  let dsum ← hiddenDerivative s w
  let query ← w.input s.query
  let hiddenWeight ← query.matmulGradRight build dsum
    (← w.weight s.hiddenWeight).shape
  let hiddenBias ← dsum.sumAxes [0, 1, 2]
  return { hiddenWeight, hiddenBias, packedWeight }

end MixtureAttention
