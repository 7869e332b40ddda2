/-
What the procedures do not read of a layer. Of its settings they read the
number of components alone, and the count of its runs is only ever added to.
So a layer can be recast, with other settings that agree on the components
and with more runs counted, before a procedure runs or after it: every
procedure answers the same and does the same to the workspace, the memo and
the handles.

Two layers that differ in this way are told apart by no procedure, which is
what the comparisons of whole runs come down to. And no procedure changes
the settings or the handles (`setup_forward` and its siblings).
-/
import MixtureAttention.Proofs.Layer.GradientOrder

namespace MixtureAttention

variable {α : Type}

open Procedure

/-- The layer with other settings, all but the number of components, and
with `n` more runs of the packed derivative counted. -/
def Layer.recast (settings : Settings) (n : Nat) (l : Layer α) : Layer α :=
  { l with
    settings := { settings with mixtures := l.settings.mixtures }
    packedRuns := l.packedRuns + n }

/-- The session with its layer recast. -/
def Session.recast (settings : Settings) (n : Nat) (st : Session α) :
    Session α :=
  { st with layer := st.layer.recast settings n }

variable {settings : Settings} {n : Nat}

namespace Layer

-- ======================================================= recasting layers

/-- Other settings that agree on the components recast the layer. -/
theorem recast_of_mixtures (l : Layer α)
    (h : settings.mixtures = l.settings.mixtures) :
    l.recast settings 0 = { l with settings } := by
  rw [recast, ← h]
  rfl

/-- A recast layer reads the packed buffer as before. -/
theorem packedSegment_recast (l : Layer α) (w : Workspace α)
    (seg : Segment) :
    (l.recast settings n).packedSegment w seg = l.packedSegment w seg := rfl

/-- The packed derivative is read alike under other settings. -/
theorem packedGradSegment_recast (l : Layer α) (w : Workspace α)
    (seg : Segment) :
    (l.recast settings n).packedGradSegment w seg
      = l.packedGradSegment w seg := rfl

/-- The mixture centres do not depend on the other settings. -/
theorem centres_recast [Scalar α] (l : Layer α) (w : Workspace α) :
    (l.recast settings n).centres w = l.centres w := rfl

-- ===================================================== recasting sessions

/-- A command on the workspace. -/
theorem recast_onWorkspace {β : Type} (c : Workspace.Command α β) :
    Commutes (Session.recast settings n) (onWorkspace c) :=
  .onWorkspace c

/-- A change of the batch size does not look at settings or run count. -/
theorem recast_setBatch [Zero α] (batch : Nat) :
    Commutes (Session.recast settings n) (setBatch (α := α) batch) := by
  refine .bind (.read fun _ => rfl) fun s => ?_
  exact .bind (recast_onWorkspace _) fun _ => .modify fun _ => rfl

variable [Scalar α]

/-- A forward pass looks at no setting but the number of components. -/
theorem recast_forward :
    Commutes (Session.recast settings n) (forward (α := α)) := by
  refine .bind (.read fun _ => rfl) fun s => ?_
  refine .bind (.read fun _ => rfl) fun k => ?_
  refine .bind (.modify fun _ => rfl) fun _ => ?_
  refine .bind (.read fun _ => rfl) fun v => ?_
  exact .bind (recast_onWorkspace _) fun _ => .modify fun _ => rfl

/-- The backward run looks at no other setting either. -/
theorem recast_differentiate :
    Commutes (Session.recast settings n) (differentiate (α := α)) := by
  refine .bind (.read fun _ => rfl) fun s => ?_
  refine .bind (.read fun _ => rfl) fun k => ?_
  refine .bind (.read fun _ => rfl) fun d => ?_
  refine .bind (recast_onWorkspace _) fun _ => .modify fun st => ?_
  -- the run that is counted here and those counted before add up
  simp only [Session.recast, recast, Nat.add_right_comm]

/-- Whether the backward run is made does not depend on the settings. -/
theorem recast_ensureDifferentiated :
    Commutes (Session.recast settings n) (ensureDifferentiated (α := α)) := by
  refine .get (fun _ => rfl) fun st => ?_
  cases st.layer.memo with
  | stale => exact .throw _
  | differentiated _ => exact .pure _
  | forwarded => exact recast_differentiate

/-- The stores of the weight gradients do not look at the settings. -/
theorem recast_storeWeightGradients (s : Slots) :
    Commutes (Session.recast settings n)
      (storeWeightGradients (α := α) s) :=
  .bind (.read fun _ => rfl) fun _ => recast_onWorkspace _

/-- The stores of the outgoing derivatives do not look at the settings. -/
theorem recast_storeInputGradients (s : Slots) (dvalue : Tensor α) :
    Commutes (Session.recast settings n) (storeInputGradients s dvalue) := by
  refine .bind (.read fun _ => rfl) fun dquery => ?_
  exact .bind (.read fun _ => rfl) fun dstate => recast_onWorkspace _

end Layer

-- ================================================ the gradient procedures

namespace GradientCall

open Layer

variable [Scalar α]

/-- A gradient procedure that has the packed derivative computed by
`shared`. -/
def sharing (shared : Procedure α Unit) : GradientCall → Procedure α Unit
  | inputs => do
      let s ← read fun st => st.layer.slots?
      if (← get).layer.isStale then
        throw .forwardNotRun
      let dvalue ← read fun st => valueDerivative .release s st.workspace
      shared
      storeInputGradients s dvalue
  | weights => do
      let s ← read fun st => st.layer.slots?
      shared
      storeWeightGradients s

/-- The layer's own procedures look at the memo first. -/
theorem sharing_ensureDifferentiated (c : GradientCall) :
    c.sharing (ensureDifferentiated (α := α)) = c.procedure := by
  cases c with
  | inputs =>
      unfold sharing procedure storeInputGradients inputStores inputGradients
      simp only [onWorkspace_storeAll_cons, onWorkspace_storeAll_single]
  | weights =>
      unfold sharing procedure storeWeightGradients weightStores
        weightGradients
      simp only [onWorkspace_storeAll_cons, onWorkspace_storeAll_single]

/-- A gradient call notices the settings only through the shared derivatives.
-/
theorem recast_sharing {shared : Procedure α Unit}
    (h : Commutes (Session.recast settings n) shared) (c : GradientCall) :
    Commutes (Session.recast settings n) (c.sharing shared) := by
  cases c with
  | inputs =>
      refine .bind (.read fun _ => rfl) fun s => ?_
      refine .get (fun _ => rfl) fun st => ?_
      have hrest : Commutes (Session.recast settings n) (do
          let dvalue ← Procedure.read fun st =>
            valueDerivative .release s st.workspace
          shared
          storeInputGradients s dvalue) :=
        .bind (.read fun _ => rfl) fun dvalue =>
          .bind h fun _ => recast_storeInputGradients s dvalue
      cases st.layer.isStale with
      | true => exact .bind (.throw _) fun _ => hrest
      | false => exact hrest
  | weights =>
      refine .bind (.read fun _ => rfl) fun s => ?_
      exact .bind h fun _ => recast_storeWeightGradients s

/-- So a gradient call does not notice them. -/
theorem recast_procedure (c : GradientCall) :
    Commutes (Session.recast settings n) (c.procedure (α := α)) := by
  rw [← c.sharing_ensureDifferentiated]
  exact c.recast_sharing recast_ensureDifferentiated

end GradientCall

-- ============================================================ what stays

/-- What a setup fixes of a layer, and the settings. -/
def Layer.setup (l : Layer α) : Settings × Option Slots :=
  (l.settings, l.slots)

namespace Layer

/-- A command on the workspace leaves the layer's setup. -/
theorem setup_onWorkspace {β : Type} (c : Workspace.Command α β)
    (st : Session α) :
    (final (onWorkspace c) st).layer.setup = st.layer.setup :=
  congrArg setup (layer_onWorkspace c st)

/-- A change of the batch size leaves the layer's setup. -/
theorem setup_setBatch [Zero α] (batch : Nat) (st : Session α) :
    (final (setBatch batch) st).layer.setup = st.layer.setup := by
  rcases setBatch_cases batch st with ⟨e, w, hrun⟩ | ⟨w, hrun⟩
  · rw [final_of_error hrun]
    rfl
  · rw [final_of_ok hrun]
    rfl

variable [Scalar α]

/-- A forward pass leaves the layer's setup. -/
theorem setup_forward (st : Session α) :
    (final forward st).layer.setup = st.layer.setup := by
  rcases final_forward_cases st with hsame | ⟨memo, w, -, hleft⟩
  · rw [hsame]
  · rw [hleft]
    rfl

/-- A gradient call leaves the layer's setup. -/
theorem setup_gradient (c : GradientCall) (st : Session α) :
    (final c.procedure st).layer.setup = st.layer.setup := by
  rcases c.outcome st with ⟨e, he, -⟩ | ⟨st', f, -, hst', hrun, hfinal, -⟩
  · rw [final_of_error he]
  · rw [final_congr hrun, hfinal]
    show st'.layer.setup = _
    rcases ensureDifferentiated_ok hst' with
      ⟨_, -, rfl⟩ | ⟨s, d, -, -, rfl⟩ <;> rfl

end Layer
end MixtureAttention
