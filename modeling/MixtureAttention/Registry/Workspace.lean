/-
The running half of the registry: every buffer that was declared or
requested, allocated. Readers look a handle up. Commands store: each
checks the handle and the extents first and changes the workspace only
when both fit, so a refused command leaves every buffer as it was.

Inputs, outputs and their derivatives may have any batch extent; their
other extents are the declared ones. A scratch buffer has exactly its
current extents, of which `resize` changes the batch. Weights keep their
extents.
-/
import MixtureAttention.Tensor.Basic
import MixtureAttention.Registry.Blueprint
import MixtureAttention.Registry.Random

namespace MixtureAttention

structure Weight (α : Type) where
  decl : WeightDecl
  value : Tensor α
  grad : Tensor α

structure Scratch (α : Type) where
  /-- The request, with the batch extent that is current. -/
  decl : ScratchDecl
  value : Tensor α
  grad : Option (Tensor α)

structure Workspace (α : Type) where
  name : String
  inputDims : List Dims
  outputDims : List Dims
  inputs : List (Tensor α)
  /-- Derivatives with respect to the inputs, written by the layer. -/
  outgoing : List (Tensor α)
  outputs : List (Tensor α)
  /-- Derivatives with respect to the outputs, supplied by the caller. -/
  incoming : List (Tensor α)
  weights : List (Weight α)
  scratch : List (Scratch α)

variable {α : Type}

-- ============================================================ allocation

/-- The first value of a weight. Random schemes draw one number for each
element, the others none. -/
def Initializer.fill [Scalar α] (g : Generator) (i : Initializer) (d : Dims)
    (s : g.State) : Tensor α × g.State :=
  match i.limit? d with
  | none => (if i = .zeros then .zeros d.toShape else .ones d.toShape, s)
  | some limit =>
      let drawn := g.draws limit d.toShape.size s
      (.rowMajor d.toShape (drawn.1.map Scalar.ofFloat).toArray
        (by simp [drawn]),
        drawn.2)

/-- The requested weights, filled in the order of the requests from one
stream of draws. -/
def allocateWeights [Scalar α] (g : Generator) :
    List WeightDecl → g.State → List (Weight α)
  | [], _ => []
  | d :: ds, s =>
      let (value, s) := d.initializer.fill g d.dims s
      ⟨d, value, .zeros d.dims.toShape⟩ :: allocateWeights g ds s

/-- A requested scratch buffer, zeroed. -/
def ScratchDecl.allocate [Zero α] (d : ScratchDecl) : Scratch α :=
  ⟨d, .zeros d.dims.toShape,
    if d.hasGrad then some (.zeros d.dims.toShape) else none⟩

/-- A scratch buffer with another batch extent, zeroed together with its
gradient. -/
def Scratch.resize [Zero α] (e : Scratch α) (batch : Nat) : Scratch α :=
  let d := { e.decl.dims with batch }
  { decl := { e.decl with dims := d }
    value := .zeros d.toShape
    grad := e.grad.map fun _ => .zeros d.toShape }

/-- Allocates everything on a blueprint. Weights are filled from the seed;
all other buffers start at zero. -/
def Blueprint.build [Scalar α] (b : Blueprint) (g : Generator)
    (seed : UInt64) : Workspace α where
  name := b.name
  inputDims := b.inputs
  outputDims := b.outputs
  inputs := b.inputs.map fun d => .zeros d.toShape
  outgoing := b.inputs.map fun d => .zeros d.toShape
  outputs := b.outputs.map fun d => .zeros d.toShape
  incoming := b.outputs.map fun d => .zeros d.toShape
  weights := allocateWeights g b.weights (g.start seed)
  scratch := b.scratch.map ScratchDecl.allocate

namespace Workspace

-- =============================================================== look-up

/-- The entry that a handle of some kind names. -/
def lookup {β : Type} (kind : HandleKind) (entries : List β) (index : Nat) :
    Except LayerError β :=
  match entries[index]? with
  | some x => .ok x
  | none => .error (.invalidHandle kind index)

def input (w : Workspace α) (h : InputHandle) :
    Except LayerError (Tensor α) :=
  lookup .input w.inputs h.index

def outgoingAt (w : Workspace α) (h : InputHandle) :
    Except LayerError (Tensor α) :=
  lookup .input w.outgoing h.index

def output (w : Workspace α) (index : Nat) : Except LayerError (Tensor α) :=
  lookup .output w.outputs index

def incomingAt (w : Workspace α) (index : Nat) :
    Except LayerError (Tensor α) :=
  lookup .output w.incoming index

def weightEntry (w : Workspace α) (h : WeightHandle) :
    Except LayerError (Weight α) :=
  lookup .weight w.weights h.index

def weight (w : Workspace α) (h : WeightHandle) :
    Except LayerError (Tensor α) := do
  return (← w.weightEntry h).value

def weightGrad (w : Workspace α) (h : WeightHandle) :
    Except LayerError (Tensor α) := do
  return (← w.weightEntry h).grad

def scratchEntry (w : Workspace α) (h : ScratchHandle) :
    Except LayerError (Scratch α) :=
  lookup .scratch w.scratch h.index

def scratchValue (w : Workspace α) (h : ScratchHandle) :
    Except LayerError (Tensor α) := do
  return (← w.scratchEntry h).value

/-- The gradient buffer of a scratch buffer that was requested with one. -/
def scratchGrad (w : Workspace α) (h : ScratchHandle) :
    Except LayerError (Tensor α) := do
  let entry ← w.scratchEntry h
  match entry.grad with
  | some grad => return grad
  | none => throw (.noGradient entry.decl.name)

-- ================================================================ checks

/-- The extents must be the declared ones, the batch aside. -/
def checkBeyondBatch (d : Dims) (t : Tensor α) : Except LayerError Unit :=
  if d.toShape.tail = t.shape.tail then .ok ()
  else .error (.tensor (.shapeMismatch d.toShape t.shape))

/-- The extents must be exactly these. -/
def checkExact (expected : Shape) (t : Tensor α) : Except LayerError Unit :=
  if expected = t.shape then .ok ()
  else .error (.tensor (.shapeMismatch expected t.shape))

-- ============================================================== commands

/-- An action on a workspace that may be refused. What it did before a
refusal stays done. -/
abbrev Command (α β : Type) := EStateM LayerError (Workspace α) β

/-- A check made, or a buffer looked up, against the current workspace. -/
def inspect {β : Type} (f : Workspace α → Except LayerError β) :
    Command α β := fun w =>
  match f w with
  | .ok x => .ok x w
  | .error e => .error e w

/-- Stores an input of any batch extent. -/
def setInput (h : InputHandle) (t : Tensor α) : Command α Unit := do
  inspect fun w => do checkBeyondBatch (← lookup .input w.inputDims h.index) t
  modify fun w => { w with inputs := w.inputs.set h.index t }

/-- Stores the derivative with respect to an input, which has the extents
of the input that is stored. -/
def setOutgoing (h : InputHandle) (t : Tensor α) : Command α Unit := do
  inspect fun w => do checkExact (← w.input h).shape t
  modify fun w => { w with outgoing := w.outgoing.set h.index t }

/-- Stores an output of any batch extent. -/
def setOutput (index : Nat) (t : Tensor α) : Command α Unit := do
  inspect fun w => do checkBeyondBatch (← lookup .output w.outputDims index) t
  modify fun w => { w with outputs := w.outputs.set index t }

/-- Stores the derivative with respect to an output, of any batch extent. -/
def setIncoming (index : Nat) (t : Tensor α) : Command α Unit := do
  inspect fun w => do checkBeyondBatch (← lookup .output w.outputDims index) t
  modify fun w => { w with incoming := w.incoming.set index t }

/-- Changes a weight. -/
def modifyWeight (h : WeightHandle) (f : Weight α → Weight α) :
    Command α Unit :=
  modify fun w => { w with weights := w.weights.modify h.index f }

/-- Stores the gradient of a weight, which has the weight's extents. -/
def setWeightGrad (h : WeightHandle) (t : Tensor α) : Command α Unit := do
  inspect fun w => do
    checkExact (← w.weightEntry h).decl.dims.toShape t
  modifyWeight h fun e => { e with grad := t }

/-- Replaces the value of a weight as a whole, extents included. -/
def replaceWeight (h : WeightHandle) (t : Tensor α) : Command α Unit := do
  let _ ← inspect (·.weightEntry h)
  modifyWeight h fun e => { e with value := t }

/-- Changes a scratch buffer. -/
def modifyScratch (h : ScratchHandle) (f : Scratch α → Scratch α) :
    Command α Unit :=
  modify fun w => { w with scratch := w.scratch.modify h.index f }

/-- Stores a scratch buffer, which has the extents that are current. -/
def setScratch (h : ScratchHandle) (t : Tensor α) : Command α Unit := do
  inspect fun w => do
    checkExact (← w.scratchEntry h).decl.dims.toShape t
  modifyScratch h fun e => { e with value := t }

/-- Replaces a scratch buffer as a whole, extents included. -/
def replaceScratch (h : ScratchHandle) (t : Tensor α) : Command α Unit := do
  let _ ← inspect (·.scratchEntry h)
  modifyScratch h fun e => { e with value := t }

/-- Stores the gradient of a scratch buffer. Its extents are looked at
before it is asked whether there is a gradient buffer at all. -/
def setScratchGrad (h : ScratchHandle) (t : Tensor α) : Command α Unit := do
  inspect fun w => do
    checkExact (← w.scratchEntry h).decl.dims.toShape t
  let _ ← inspect (·.scratchGrad h)
  modifyScratch h fun e => { e with grad := some t }

/-- Reallocates a scratch buffer for another batch extent. -/
def resize [Zero α] (h : ScratchHandle) (batch : Nat) : Command α Unit := do
  let _ ← inspect (·.scratchEntry h)
  modifyScratch h (·.resize batch)

end Workspace
end MixtureAttention
