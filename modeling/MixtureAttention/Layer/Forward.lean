/-
The forward pass as a function of what a workspace holds. The query goes
through a hidden layer to a packed row of mixture parameters: steps and
scales through the exponential, shares through softmax. The centres are
the state moved ahead by the steps. Position `h` owns the unit interval
around `h + 1`; the mass that a component puts there is the difference of
its logistic distribution function at the two edges, and the score of a
position is the sum of these masses weighted by the shares.
-/
import MixtureAttention.Layer.Setup
import MixtureAttention.Tensor.Activation
import MixtureAttention.Tensor.Arithmetic
import MixtureAttention.Tensor.Product

namespace MixtureAttention

variable {α : Type} [Scalar α]

/-- What is added to a scale before anything is divided by it. -/
def scaleFloor : α := 1e-8

/-- The scales as divisors. -/
def divisors (scale : Tensor α) : Tensor α := scale.map (· + scaleFloor)

/-- The edges of the positions' intervals, half a unit above the position
or, for `below`, beneath it; the same in every column. -/
def edges (below : Bool) (positions k : Nat) : Tensor α :=
  .rowGrid positions k fun h =>
    if below then ((h + 1 : Nat) : α) - 0.5 else ((h + 1 : Nat) : α) + 0.5

/-- Everything that a forward pass stores. -/
structure ForwardValues (α : Type) where
  hiddenSum : Tensor α
  hidden : Tensor α
  packed : Tensor α
  scores : Tensor α
  mass : Tensor α
  upper : Tensor α
  lower : Tensor α
  lowerEdge : Tensor α
  upperEdge : Tensor α
  output : Tensor α

/-- The mixture parameters of a packed row after their activations, and the
packed row that holds them. -/
structure Mixture (α : Type) where
  step : Tensor α
  scale : Tensor α
  share : Tensor α
  packed : Tensor α

/-- Applies the activations to the three parts of a packed buffer. -/
def Mixture.of (k : Nat) (logits : Tensor α) :
    Except TensorError (Mixture α) := do
  let step := (← Segment.step.read k logits).map Scalar.exp
  let scale := (← Segment.scale.read k logits).map Scalar.exp
  let share := Activation.softmax.apply (← Segment.share.read k logits)
  let packed ← Segment.step.write k logits step
  let packed ← Segment.scale.write k packed scale
  let packed ← Segment.share.write k packed share
  return { step, scale, share, packed }

/-- Distances of edges from centres, in scales. -/
def edgeDistance (edges centres divisors : Tensor α) :
    Except TensorError (Tensor α) := do
  (← edges.sub centres).div divisors

/-- The forward pass with `k` mixture components. -/
def forwardValues (s : Slots) (k : Nat) (w : Workspace α) :
    Except LayerError (ForwardValues α) := do
  let query ← w.input s.query
  let value ← w.input s.value
  let state ← w.input s.state
  let batch := query.extent 0
  let positions := value.extent 2
  checkBatch batch value.shape
  checkBatch batch state.shape
  let projected ← query.matmul (← w.weight s.hiddenWeight)
  let hiddenSum ← projected.add (← w.weight s.hiddenBias)
  let hidden := Activation.tanh.apply hiddenSum
  let logits ← hidden.matmul (← w.weight s.packedWeight)
  let mix ← Mixture.of k logits
  let centres ← state.add mix.step
  let divisor := divisors mix.scale
  let upperEdge ← edgeDistance (edges false positions k) centres divisor
  let upper := Activation.sigmoid.apply upperEdge
  let lowerEdge ← edgeDistance (edges true positions k) centres divisor
  let lower := Activation.sigmoid.apply lowerEdge
  let mass ← upper.sub lower
  let weighted ← mass.mul mix.share
  let summed ← weighted.sumAxes [3]
  let scores ← summed.reshape [batch, 1, 1, positions]
  let output ← scores.matmul value
  return {
    hiddenSum, hidden, packed := mix.packed, scores, mass, upper, lower
    lowerEdge, upperEdge, output }

/-- Stores the results of a forward pass. -/
def ForwardValues.store (s : Slots) (v : ForwardValues α) :
    Workspace.Command α Unit := do
  Workspace.setScratch s.hiddenSum v.hiddenSum
  Workspace.setScratch s.hidden v.hidden
  Workspace.setScratch s.packed v.packed
  Workspace.setScratch s.scores v.scores
  Workspace.setScratch s.mass v.mass
  Workspace.setScratch s.upper v.upper
  Workspace.setScratch s.lower v.lower
  Workspace.setScratch s.lowerEdge v.lowerEdge
  Workspace.setScratch s.upperEdge v.upperEdge
  Workspace.setOutput 0 v.output

end MixtureAttention
