/-
The setup half of the registry. A layer does not allocate its buffers: it
reads the declared extents of its inputs off a blueprint and requests
weights and scratch buffers by extents. Each request is appended and
answered with a handle, the index of the request; handles of different
kinds have different types.
-/
import MixtureAttention.Registry.Scheme

namespace MixtureAttention

/-- Names an input, and the derivative with respect to it. -/
structure InputHandle where
  index : Nat
deriving DecidableEq, Repr

/-- Names a weight and its gradient. -/
structure WeightHandle where
  index : Nat
deriving DecidableEq, Repr

/-- Names a scratch buffer and, where it has one, its gradient. -/
structure ScratchHandle where
  index : Nat
deriving DecidableEq, Repr

/-- How long the contents of a scratch buffer must stay valid. -/
inductive Lifespan
  /-- From a forward pass to the end of the backward pass that follows. -/
  | iteration
  /-- As long as the workspace. -/
  | max
deriving DecidableEq, Repr

structure WeightDecl where
  name : String
  dims : Dims
  initializer : Initializer
  regularizer : Regularizer
  /-- The factor of the penalty. -/
  constant : Float
  trainable : Bool

structure ScratchDecl where
  name : String
  dims : Dims
  hasGrad : Bool
  lifespan : Lifespan
deriving DecidableEq, Repr

/-- The declared inputs and outputs and the requests made so far. -/
structure Blueprint where
  name : String
  inputs : List Dims
  outputs : List Dims
  weights : List WeightDecl
  scratch : List ScratchDecl

namespace Blueprint

/-- A blueprint with declared inputs and nothing else. -/
def new (name : String) (inputs : List Dims) : Blueprint :=
  ⟨name, inputs, [], [], []⟩

/-- The handle of an input, if as many inputs were declared. -/
def inputHandle (b : Blueprint) (index : Nat) :
    Except LayerError InputHandle :=
  if index < b.inputs.length then .ok ⟨index⟩
  else .error (.invalidHandle .input index)

/-- The full name of a buffer: the blueprint's name, a colon, and the name
it was requested under. -/
def qualify (b : Blueprint) (name : String) : String :=
  b.name ++ ":" ++ name

/-- Appends a request for a weight. -/
def requestWeight (b : Blueprint) (dims : Dims) (initializer : Initializer)
    (regularizer : Regularizer) (constant : Float) (name : String)
    (trainable : Bool) : WeightHandle × Blueprint :=
  (⟨b.weights.length⟩,
    { b with
      weights := b.weights ++
        [⟨b.qualify name, dims, initializer, regularizer, constant,
          trainable⟩] })

/-- Appends a request for a scratch buffer. -/
def requestScratch (b : Blueprint) (dims : Dims) (name : String)
    (hasGrad : Bool) (lifespan : Lifespan) : ScratchHandle × Blueprint :=
  (⟨b.scratch.length⟩,
    { b with
      scratch := b.scratch ++ [⟨b.qualify name, dims, hasGrad, lifespan⟩] })

/-- Declares the outputs anew. -/
def setOutputs (b : Blueprint) (outputs : List Dims) : Blueprint :=
  { b with outputs }

end Blueprint
end MixtureAttention
