/-
The procedures that drive a layer on a workspace. Each works on the layer
and the workspace together and may be refused; what it did before a
refusal stays done.

A procedure computes first and stores last. `forward` drops what is
remembered before it looks at anything, so that a refused forward pass
leaves nothing that a backward procedure would trust. The two gradient
procedures share the packed derivative through the layer's memo and can
run in either order.
-/
import MixtureAttention.Layer.Backward

namespace MixtureAttention

variable {α : Type}

/-- A layer and the workspace that it is driven on. -/
structure Session (α : Type) where
  layer : Layer α
  workspace : Workspace α

/-- An action on a session that may be refused. -/
abbrev Procedure (α β : Type) := EStateM LayerError (Session α) β

namespace Procedure

/-- Something computed from the session as it is. -/
def read {β : Type} (f : Session α → Except LayerError β) :
    Procedure α β := fun st =>
  match f st with
  | .ok x => .ok x st
  | .error e => .error e st

/-- A command on the workspace. -/
def onWorkspace {β : Type} (c : Workspace.Command α β) : Procedure α β :=
  fun st =>
    match c st.workspace with
    | .ok x w => .ok x { st with workspace := w }
    | .error e w => .error e { st with workspace := w }

/-- Sets what is remembered of the latest forward pass. -/
def remember (memo : Memo α) : Procedure α Unit :=
  modify fun st => { st with layer := { st.layer with memo } }

end Procedure

namespace Layer

open Procedure

-- =============================================================== reading

/-- A part of the packed mixture parameters, as a forward pass left
them. -/
def packedSegment (l : Layer α) (w : Workspace α) (seg : Segment) :
    Except LayerError (Tensor α) := do
  let k ← l.mixtures?
  let s ← l.slots?
  let packed ← w.scratchValue s.packed
  seg.read k packed

/-- A part of the packed derivative. -/
def packedGradSegment (l : Layer α) (w : Workspace α) (seg : Segment) :
    Except LayerError (Tensor α) := do
  let k ← l.mixtures?
  let s ← l.slots?
  let packed ← w.scratchGrad s.packed
  seg.read k packed

/-- The centres of the latest forward pass: the state moved ahead by the
steps. Stored as the next state they move the attention on. -/
def centres [Scalar α] (l : Layer α) (w : Workspace α) :
    Except LayerError (Tensor α) := do
  if l.isStale then
    throw .forwardNotRun
  let step ← l.packedSegment w .step
  let s ← l.slots?
  (← w.input s.state).add step

-- ========================================================== configuration

/-- The settings as keys and values. -/
def listing (l : Layer α) : List (String × String) := l.settings.listing

/-- Applies a list of settings. -/
def configure (entries : List String) : EStateM LayerError (Layer α) Unit :=
  fun l =>
    match Settings.load entries l.settings with
    | .ok x settings => .ok x { l with settings }
    | .error e settings => .error e { l with settings }

-- ============================================================ procedures

/-- Computes the output from the inputs that are stored. -/
def forward [Scalar α] : Procedure α Unit := do
  let s ← read fun st => st.layer.slots?
  let k ← read fun st => st.layer.mixtures?
  remember .stale
  let v ← read fun st => forwardValues s k st.workspace
  onWorkspace (v.store s)
  remember .forwarded

/-- Computes and stores the packed derivative and remembers the derivative
with respect to the state. -/
def differentiate [Scalar α] : Procedure α Unit := do
  let s ← read fun st => st.layer.slots?
  let k ← read fun st => st.layer.mixtures?
  let d ← read fun st => packedDerivative s k st.workspace
  onWorkspace (Workspace.setScratchGrad s.packed d.packed)
  modify fun st =>
    { st with
      layer :=
        { st.layer with
          packedRuns := st.layer.packedRuns + 1
          memo := .differentiated d.state } }

/-- Makes sure that the packed derivative is there, computing it at most
once for each forward pass. -/
def ensureDifferentiated [Scalar α] : Procedure α Unit := do
  match (← get).layer.memo with
  | .stale => throw .forwardNotRun
  | .forwarded => differentiate
  | .differentiated _ => return ()

/-- The remembered derivative with respect to the state. -/
def stateDerivative (l : Layer α) : Except LayerError (Tensor α) :=
  match l.memo with
  | .differentiated dstate => .ok dstate
  | _ => .error .forwardNotRun

/-- Stores the derivatives with respect to the inputs. -/
def inputGradients [Scalar α] (build : Build) : Procedure α Unit := do
  let s ← read fun st => st.layer.slots?
  if (← get).layer.isStale then
    throw .forwardNotRun
  let dvalue ← read fun st => valueDerivative build s st.workspace
  ensureDifferentiated
  let dquery ← read fun st => queryDerivative s st.workspace
  let dstate ← read fun st => st.layer.stateDerivative
  onWorkspace (Workspace.setOutgoing s.query dquery)
  onWorkspace (Workspace.setOutgoing s.value dvalue)
  onWorkspace (Workspace.setOutgoing s.state dstate)

/-- Stores the derivatives with respect to the weights. -/
def weightGradients [Scalar α] (build : Build) : Procedure α Unit := do
  let s ← read fun st => st.layer.slots?
  ensureDifferentiated
  let d ← read fun st => weightDerivatives build s st.workspace
  onWorkspace (Workspace.setWeightGrad s.packedWeight d.packedWeight)
  onWorkspace (Workspace.setWeightGrad s.hiddenWeight d.hiddenWeight)
  onWorkspace (Workspace.setWeightGrad s.hiddenBias d.hiddenBias)

/-- Reallocates buffers for another batch extent, one after the other. -/
def resizeAll [Zero α] (batch : Nat) :
    List ScratchHandle → Workspace.Command α Unit
  | [] => return ()
  | h :: hs => do
      Workspace.resize h batch
      resizeAll batch hs

/-- Reallocates the scratch buffers for another batch extent; a new forward
pass is needed before any gradient. -/
def setBatch [Zero α] (batch : Nat) : Procedure α Unit := do
  let s ← read fun st => st.layer.slots?
  onWorkspace (resizeAll batch s.scratch)
  remember .stale

end Layer
end MixtureAttention
