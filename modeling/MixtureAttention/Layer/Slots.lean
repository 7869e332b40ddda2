/-
The buffers of a layer and the layer itself. A layer predicts where to
look: a query is projected to the parameters of a mixture of logistic
distributions over positions, each position takes the mass of the unit
interval around it, and the output is the sum of the values weighted by
these masses.
-/
import MixtureAttention.Layer.Settings
import MixtureAttention.Tensor.Columns
import MixtureAttention.Registry.Workspace

namespace MixtureAttention

variable {α : Type}

/-- The parts of a packed row, in storage order. Each has one column for
each mixture component. -/
inductive Segment
  /-- How far each centre moves ahead. -/
  | step
  /-- The scale of each distribution. -/
  | scale
  /-- The share of each distribution in the mixture. -/
  | share
deriving DecidableEq, Repr

namespace Segment

/-- The first column of a part when there are `k` components. -/
def offset : Segment → Nat → Nat
  | step, _ => 0
  | scale, k => k
  | share, k => 2 * k

/-- Reads a part of a packed buffer. -/
def read (seg : Segment) (k : Nat) (packed : Tensor α) :
    Except TensorError (Tensor α) :=
  packed.columns (seg.offset k) k

/-- Overwrites a part of a packed buffer. -/
def write (seg : Segment) (k : Nat) (packed part : Tensor α) :
    Except TensorError (Tensor α) :=
  packed.setColumns (seg.offset k) k part

end Segment

/-- The handles of every buffer that the layer touches. -/
structure Slots where
  query : InputHandle
  value : InputHandle
  state : InputHandle
  hiddenWeight : WeightHandle
  hiddenBias : WeightHandle
  packedWeight : WeightHandle
  /-- The hidden projection before its activation. -/
  hiddenSum : ScratchHandle
  hidden : ScratchHandle
  /-- The mixture parameters; its gradient buffer holds the derivative
  with respect to them before their activations. -/
  packed : ScratchHandle
  scores : ScratchHandle
  /-- The mass of each component at each position. -/
  mass : ScratchHandle
  /-- The distribution functions at the upper and lower edges of each
  position's interval. -/
  upper : ScratchHandle
  lower : ScratchHandle
  /-- The distances of the edges from the centres, in scales. -/
  lowerEdge : ScratchHandle
  upperEdge : ScratchHandle
deriving DecidableEq, Repr

/-- The nine scratch buffers, in the order in which they are requested. -/
def Slots.scratch (s : Slots) : List ScratchHandle :=
  [s.hiddenSum, s.hidden, s.packed, s.scores, s.mass, s.upper, s.lower,
    s.lowerEdge, s.upperEdge]

/-- What is known about the scratch buffers since the latest forward pass.
Both gradient procedures need the derivative with respect to the packed
parameters; it is computed once and remembered. -/
inductive Memo (α : Type)
  /-- The scratch buffers hold nothing usable. -/
  | stale
  /-- A forward pass filled them; the packed derivative is not computed. -/
  | forwarded
  /-- The packed derivative is in its buffer, and with it came the
  derivative with respect to the state. -/
  | differentiated (dstate : Tensor α)

structure Layer (α : Type) where
  settings : Settings := {}
  slots : Option Slots := none
  memo : Memo α := .stale
  /-- How often the packed derivative was computed. -/
  packedRuns : Nat := 0

namespace Layer

/-- The name of this kind of layer. -/
def typeName : String := "mol_attention"

/-- The handles, once the layer is set up. -/
def slots? (l : Layer α) : Except LayerError Slots :=
  match l.slots with
  | some s => .ok s
  | none => .error .notFinalized

/-- The number of mixture components, which must be set. -/
def mixtures? (l : Layer α) : Except LayerError Nat :=
  match l.settings.mixtures with
  | some k => .ok k
  | none =>
      .error (.missingProperty typeName Property.mixtures.key)

/-- The hidden width, which must be set. -/
def unit? (l : Layer α) : Except LayerError Nat :=
  match l.settings.unit with
  | some u => .ok u
  | none => .error (.missingProperty typeName Property.unit.key)

/-- Whether the packed derivative of the latest forward pass is there. -/
def hasPackedGrad (l : Layer α) : Bool :=
  match l.memo with
  | .differentiated _ => true
  | _ => false

/-- Whether there is no usable forward pass. -/
def isStale (l : Layer α) : Bool :=
  match l.memo with
  | .stale => true
  | _ => false

end Layer
end MixtureAttention
