/-
Every session that calls lead to. A session starts with a layer that was set
up and the workspace that was built after it, and goes on by calls in any
order, each of which may be refused (`Action`). What holds of every session
on the way is `Running`: the workspace is wired for the batch extent that the
calls set last, it conforms to what it is declared to serve, and a derivative
with respect to the state that is remembered has the shape of the state.

One step keeps that (`Running.step`), and so does every list of calls
(`Running.after`). For the workspace alone it is enough to look at single
stores: a call keeps what each store that it may make keeps (`Action.keeps`),
which is proved along the code of the procedures.
-/
import MixtureAttention.Proofs.Layer.Recast
import MixtureAttention.Proofs.Layer.StepShapes

namespace MixtureAttention

variable {α β γ : Type}

open Workspace

-- ============================================================ invariants

namespace Procedure

/-- The procedure keeps a property of the workspace, refused or not. -/
def Keeps (P : Workspace α → Prop) (p : Procedure α β) : Prop :=
  ∀ st, P st.workspace → P (final p st).workspace

variable {P : Workspace α → Prop}

/-- Sequencing keeps what each step keeps. -/
theorem Keeps.bind {p : Procedure α β} {q : β → Procedure α γ}
    (hp : Keeps P p) (hq : ∀ x, Keeps P (q x)) : Keeps P (p >>= q) := by
  intro st h
  have hfirst := hp st h
  unfold final at hfirst
  cases hrun : p st with
  | error e st' =>
      rw [hrun] at hfirst
      rw [final_of_error (bind_of_error hrun)]
      exact hfirst
  | ok x st' =>
      rw [hrun] at hfirst
      rw [final_congr (bind_of_ok hrun : (p >>= q) st = q x st')]
      exact hq x st' hfirst

/-- Returning a value keeps everything. -/
theorem Keeps.pure (x : β) : Keeps P (pure x : Procedure α β) :=
  fun _ h => h

/-- A refusal keeps everything. -/
theorem Keeps.throw (e : LayerError) :
    Keeps P (throw e : Procedure α β) :=
  fun _ h => h

/-- A read keeps everything. -/
theorem Keeps.read (f : Session α → Except LayerError β) :
    Keeps P (read f) := by
  intro st h
  unfold final Procedure.read
  cases f st <;> exact h

/-- A change of the layer alone. -/
theorem Keeps.modify {f : Session α → Session α}
    (hf : ∀ st, (f st).workspace = st.workspace) :
    Keeps P (modify f : Procedure α Unit) := by
  intro st h
  show P (f st).workspace
  rw [hf]
  exact h

/-- What is remembered is not in the workspace. -/
theorem Keeps.remember (memo : Memo α) : Keeps P (remember memo) :=
  .modify fun _ => rfl

/-- Looking at the session keeps everything. -/
theorem Keeps.get {q : Session α → Procedure α β}
    (hq : ∀ st, Keeps P (q st)) : Keeps P (MonadState.get >>= q) :=
  fun st => hq st st

/-- A command leaves the workspace that it leaves on its own. -/
theorem workspace_onWorkspace (c : Workspace.Command α β)
    (st : Session α) :
    (final (onWorkspace c) st).workspace = left c st.workspace := by
  unfold final onWorkspace left
  cases c st.workspace <;> rfl

/-- So it keeps of a session's workspace what it keeps of any. -/
theorem Keeps.onWorkspace {c : Workspace.Command α β}
    (hc : Workspace.Keeps P c) : Keeps P (onWorkspace c) := by
  intro st h
  rw [workspace_onWorkspace]
  exact hc _ h

end Procedure

open Procedure

-- ============================================================ procedures

namespace Layer

variable {P : Workspace α → Prop}

/-- Reallocating several buffers keeps what reallocating each keeps. -/
theorem keeps_resizeAll [Zero α] {n : Nat} :
    ∀ {hs : List ScratchHandle},
      (∀ h ∈ hs, Workspace.Keeps P (resize (α := α) h n)) →
        Workspace.Keeps P (resizeAll (α := α) n hs)
  | [], _ => .pure ()
  | h :: _, hresize =>
      .bind (hresize h (List.mem_cons_self ..)) fun _ =>
        keeps_resizeAll fun i hi => hresize i (List.mem_cons_of_mem _ hi)

/-- A change of the batch size keeps what each resize keeps. -/
theorem keeps_setBatch [Zero α]
    {n : Nat} (hresize : ∀ h, Workspace.Keeps P (resize h n)) :
    Keeps P (setBatch (α := α) n) :=
  .bind (.read _) fun _ =>
    .bind (.onWorkspace (keeps_resizeAll fun h _ => hresize h)) fun _ =>
      .remember _

variable [Scalar α]

/-- A forward pass keeps what its stores keep. -/
theorem keeps_forward
    (hscratch : ∀ h t, Workspace.Keeps P (setScratch h t))
    (hout : ∀ i t, Workspace.Keeps P (setOutput i t)) :
    Keeps P (forward (α := α)) := by
  have hstore : ∀ (s : Slots) (v : ForwardValues α),
      Workspace.Keeps P (v.store s) := by
    intro s v
    unfold ForwardValues.store
    refine .bind (hscratch _ _) fun _ => .bind (hscratch _ _) fun _ => ?_
    refine .bind (hscratch _ _) fun _ => .bind (hscratch _ _) fun _ => ?_
    refine .bind (hscratch _ _) fun _ => .bind (hscratch _ _) fun _ => ?_
    refine .bind (hscratch _ _) fun _ => .bind (hscratch _ _) fun _ => ?_
    exact .bind (hscratch _ _) fun _ => hout _ _
  unfold forward
  refine .bind (.read _) fun s => .bind (.read _) fun k => ?_
  refine .bind (.remember _) fun _ => .bind (.read _) fun v => ?_
  exact .bind (.onWorkspace (hstore s v)) fun _ => .remember _

/-- The shared derivatives keep what a scratch gradient's store keeps. -/
theorem keeps_ensureDifferentiated
    (hgrad : ∀ h t, Workspace.Keeps P (setScratchGrad h t)) :
    Keeps P (ensureDifferentiated (α := α)) := by
  refine .get fun st => ?_
  cases st.layer.memo with
  | stale => exact .throw _
  | differentiated _ => exact .pure _
  | forwarded =>
      refine .bind (.read _) fun s => .bind (.read _) fun k => ?_
      refine .bind (.read _) fun d => ?_
      exact .bind (.onWorkspace (hgrad _ _)) fun _ => .modify fun _ => rfl

/-- A call for the weight gradients keeps what its stores keep. -/
theorem keeps_weightGradients
    (hgrad : ∀ h t, Workspace.Keeps P (setScratchGrad h t))
    (hstore : ∀ h t, Workspace.Keeps P (setWeightGrad h t)) :
    Keeps P (weightGradients (α := α) .release) := by
  refine .bind (.read _) fun s => ?_
  refine .bind (keeps_ensureDifferentiated hgrad) fun _ => ?_
  refine .bind (.read _) fun d => ?_
  refine .bind (.onWorkspace (hstore _ _)) fun _ => ?_
  exact .bind (.onWorkspace (hstore _ _)) fun _ => .onWorkspace (hstore _ _)

/-- A call for the input gradients keeps what its stores keep. -/
theorem keeps_inputGradients
    (hgrad : ∀ h t, Workspace.Keeps P (setScratchGrad h t))
    (hstore : ∀ h t, Workspace.Keeps P (setOutgoing h t)) :
    Keeps P (inputGradients (α := α) .release) := by
  refine .bind (.read _) fun s => .get fun st => ?_
  have hrest : Keeps P (do
      let dvalue ← Procedure.read fun st => valueDerivative .release s st.workspace
      ensureDifferentiated
      let dquery ← Procedure.read fun st => queryDerivative s st.workspace
      let dstate ← Procedure.read fun st => st.layer.stateDerivative
      onWorkspace (setOutgoing s.query dquery)
      onWorkspace (setOutgoing s.value dvalue)
      onWorkspace (setOutgoing s.state dstate)) := by
    refine .bind (.read _) fun dvalue => ?_
    refine .bind (keeps_ensureDifferentiated hgrad) fun _ => ?_
    refine .bind (.read _) fun dquery => .bind (.read _) fun dstate => ?_
    refine .bind (.onWorkspace (hstore _ _)) fun _ => ?_
    exact .bind (.onWorkspace (hstore _ _)) fun _ => .onWorkspace (hstore _ _)
  by_cases hstale : st.layer.isStale = true
  · simp only [hstale, if_true]
    exact .bind (.throw _) fun _ => hrest
  · simp only [hstale]
    exact hrest

end Layer

-- =============================================================== actions

/-- What can be called between two forward passes and beyond. -/
inductive Action (α : Type)
  | setInput (h : InputHandle) (t : Tensor α)
  | setIncoming (index : Nat) (t : Tensor α)
  /-- Writes one element of a weight. -/
  | writeWeight (h : WeightHandle) (i : Nat) (x : α)
  /-- Replaces a weight as a whole, extents included. -/
  | replaceWeight (h : WeightHandle) (t : Tensor α)
  | forward
  | gradient (c : GradientCall)
  | setBatch (batch : Nat)

namespace Action

/-- The procedure that is called. -/
def procedure [Scalar α] : Action α → Procedure α Unit
  | setInput h t => onWorkspace (Workspace.setInput h t)
  | setIncoming i t => onWorkspace (Workspace.setIncoming i t)
  | writeWeight h i x => onWorkspace (Workspace.writeWeight h i x)
  | replaceWeight h t => onWorkspace (Workspace.replaceWeight h t)
  | forward => Layer.forward
  | gradient c => c.procedure
  | setBatch n => Layer.setBatch n

/-- The batch extent that is current after the call. -/
def batch : Action α → Nat → Nat
  | setBatch n, _ => n
  | _, b => b

/-- The weights are at most written element by element. -/
def SparesExtents : Action α → Prop
  | replaceWeight _ _ => False
  | _ => True

/-- If the call brings a batch extent along, the machine can hold the buffers
of a step with it. -/
def Fits (p : SetupPlan) : Action α → Prop
  | setInput _ t | setIncoming _ t =>
      { p with batch := t.extent 0 }.Addressable
  | setBatch n => { p with batch := n }.Addressable
  | _ => True

instance (p : SetupPlan) : ∀ a : Action α, Decidable (a.Fits p)
  | setInput _ t | setIncoming _ t =>
      inferInstanceAs (Decidable { p with batch := t.extent 0 }.Addressable)
  | setBatch n =>
      inferInstanceAs (Decidable { p with batch := n }.Addressable)
  | writeWeight _ _ _ | replaceWeight _ _ | forward | gradient _ => .isTrue trivial

end Action

/-- The stores that a call may make. -/
inductive Action.Issues [Scalar α] :
    Action α → Workspace.Command α Unit → Prop
  | setInput (h : InputHandle) (t : Tensor α) :
      Issues (.setInput h t) (Workspace.setInput h t)
  | setIncoming (i : Nat) (t : Tensor α) :
      Issues (.setIncoming i t) (Workspace.setIncoming i t)
  | writeWeight (h : WeightHandle) (i : Nat) (x : α) :
      Issues (.writeWeight h i x) (Workspace.writeWeight h i x)
  | replaceWeight (h : WeightHandle) (t : Tensor α) :
      Issues (.replaceWeight h t) (Workspace.replaceWeight h t)
  | setScratch (h : ScratchHandle) (t : Tensor α) :
      Issues .forward (Workspace.setScratch h t)
  | setOutput (i : Nat) (t : Tensor α) :
      Issues .forward (Workspace.setOutput i t)
  | setScratchGrad (c : GradientCall) (h : ScratchHandle) (t : Tensor α) :
      Issues (.gradient c) (Workspace.setScratchGrad h t)
  | setWeightGrad (h : WeightHandle) (t : Tensor α) :
      Issues (.gradient .weights) (Workspace.setWeightGrad h t)
  | setOutgoing (h : InputHandle) (t : Tensor α) :
      Issues (.gradient .inputs) (Workspace.setOutgoing h t)
  | resize (h : ScratchHandle) (n : Nat) :
      Issues (.setBatch n) (Workspace.resize h n)

/-- A call keeps what each of its stores keeps. -/
theorem Action.keeps [Scalar α] {P : Workspace α → Prop} {a : Action α}
    (h : ∀ c, a.Issues c → Workspace.Keeps P c) :
    Procedure.Keeps P a.procedure := by
  cases a with
  | setInput i t => exact .onWorkspace (h _ (.setInput i t))
  | setIncoming i t => exact .onWorkspace (h _ (.setIncoming i t))
  | writeWeight i n x => exact .onWorkspace (h _ (.writeWeight i n x))
  | replaceWeight i t => exact .onWorkspace (h _ (.replaceWeight i t))
  | forward =>
      exact Layer.keeps_forward (fun i t => h _ (.setScratch i t))
        fun i t => h _ (.setOutput i t)
  | setBatch n => exact Layer.keeps_setBatch fun i => h _ (.resize i n)
  | gradient c =>
      have hgrad : ∀ i t, Workspace.Keeps P (Workspace.setScratchGrad i t) :=
        fun i t => h _ (.setScratchGrad c i t)
      cases c with
      | inputs =>
          exact Layer.keeps_inputGradients hgrad
            fun i t => h _ (.setOutgoing i t)
      | weights =>
          exact Layer.keeps_weightGradients hgrad
            fun i t => h _ (.setWeightGrad i t)

/-- The batch extent that is current after a list of calls. -/
def batchAfter (as : List (Action α)) (b : Nat) : Nat :=
  as.foldl (fun b a => a.batch b) b

/-- The machine can hold everything that is requested once a layer is set up,
and the buffers of a step with each batch extent that comes up in some
calls. -/
structure Setup.HasRoom (setup : Setup α) (p : SetupPlan)
    (as : List (Action α)) : Prop where
  requests : setup.blueprint.Addressable
  calls : ∀ a ∈ as, a.Fits p

/-- The batch extent that is current in the end is one that comes up. -/
theorem addressable_batchAfter {p : SetupPlan} (as : List (Action α)) :
    ∀ {b : Nat}, (∀ a ∈ as, a.Fits p) →
      { p with batch := b }.Addressable →
        { p with batch := batchAfter as b }.Addressable := by
  induction as with
  | nil => exact fun _ hb => hb
  | cons a as ih =>
      intro b has hb
      rw [List.forall_mem_cons] at has
      have hfirst : { p with batch := a.batch b }.Addressable := by
        cases a with
        | setBatch n => exact has.1
        | _ => exact hb
      exact ih has.2 hfirst

namespace Session

/-- The session that a list of calls leaves, whatever they answer. -/
def after [Scalar α] (as : List (Action α)) (st : Session α) : Session α :=
  as.foldl (fun st a => final a.procedure st) st

/-- A new workspace for a layer that was set up. -/
def start [Scalar α] (setup : Setup α) (g : Generator) (seed : UInt64) :
    Session α :=
  ⟨setup.layer, setup.blueprint.build g seed⟩

end Session

-- ======================================================= running sessions

/-- A layer at work on a workspace that was built for it, with the batch
extent of the plan. -/
structure Running (p : SetupPlan) (s : Slots) (dims : List Dims)
    (st : Session α) : Prop where
  slots : st.layer.slots = some s
  mixtures : st.layer.settings.mixtures = some p.mixtures
  wired : Wired p s st.workspace
  sound : st.workspace.Sound
  inputDims : st.workspace.inputDims = dims
  memo : ∀ d, st.layer.memo = .differentiated d →
    d.shape = [p.batch, 1, 1, p.mixtures]

variable {p : SetupPlan} {s : Slots} {dims : List Dims} {st : Session α}
  {w w' : Workspace α}

/-- Wiring is a matter of what is declared and of conformance to it. -/
theorem Wired.of_declared (h : Wired p s w) (hsound : w.Sound)
    (hsound' : w'.Sound) (hsame : w'.declared = w.declared) :
    Wired p s w' := by
  have hinputs : w'.inputDims = w.inputDims :=
    congrArg Blueprint.inputs hsame
  have houtputs : w'.outputDims = w.outputDims :=
    congrArg Blueprint.outputs hsame
  have hweights : ∀ i : Nat, w'.weights[i]?.map (·.decl)
      = w.weights[i]?.map (·.decl) := by
    intro i
    rw [← List.getElem?_map, ← List.getElem?_map]
    exact congrArg (·[i]?) (congrArg Blueprint.weights hsame)
  have hscratch : ∀ i : Nat, w'.scratch[i]?.map (·.decl)
      = w.scratch[i]?.map (·.decl) := by
    intro i
    rw [← List.getElem?_map, ← List.getElem?_map]
    exact congrArg (·[i]?) (congrArg Blueprint.scratch hsame)
  have hweightDims : w'.weightDims? = w.weightDims? := by
    funext i
    have hdims := congrArg (Option.map WeightDecl.dims) (hweights i.index)
    rw [Option.map_map, Option.map_map] at hdims
    exact hdims
  have hscratchDims : w'.scratchDims? = w.scratchDims? := by
    funext i
    have hdims := congrArg (Option.map ScratchDecl.dims) (hscratch i.index)
    rw [Option.map_map, Option.map_map] at hdims
    exact hdims
  refine ⟨h.slots, by rw [hweightDims, h.weights],
    by rw [hscratchDims, h.scratch], ?_, by rw [houtputs]; exact h.outputDims,
    ?_, ?_, ?_⟩
  · -- the packed buffer was requested with a gradient
    obtain ⟨t, ht⟩ := h.packedGrad
    obtain ⟨e, he, hgrad⟩ := scratchGrad_eq_ok.1 ht
    have hdecl := hscratch s.packed.index
    rw [he] at hdecl
    obtain ⟨e', he', hdecl⟩ := Option.map_eq_some_iff.1 hdecl
    have hhas := (hsound.scratch e (List.mem_of_getElem? he)).hasGrad
    have hhas' := (hsound'.scratch e' (List.mem_of_getElem? he')).hasGrad
    rw [hdecl, ← hhas, hgrad] at hhas'
    obtain ⟨t', ht'⟩ := Option.isSome_iff_exists.1 hhas'
    exact ⟨t', scratchGrad_eq_ok.2 ⟨e', he', ht'⟩⟩
  · intro hnil
    have hlen := hsound'.outputs.length
    obtain ⟨d, hd, -⟩ := h.outputDims
    rw [hnil, houtputs] at hlen
    rw [List.eq_nil_of_length_eq_zero hlen.symm] at hd
    cases hd
  · rw [hsound'.inputs.length, hinputs, ← hsound.inputs.length, h.inputs]
  · rw [hsound'.outgoing.length, hinputs, ← hsound.inputs.length, h.inputs]

variable [Scalar α]

/-- What is set up and built runs with the batch extent of its inputs. -/
theorem running_start {l : Layer α} {b : Blueprint} {setup : Setup α}
    (hfinal : Setup.finalize ⟨l, b⟩ = .ok () setup) (g : Generator)
    (seed : UInt64) :
    ∃ p s, SetupPlan.of l b.inputs = .ok p
      ∧ Running p s b.inputs (Session.start setup g seed)
      ∧ (Session.start setup g seed).workspace.WeightsSized := by
  obtain ⟨p, hplan, rfl⟩ := Setup.finalize_cases hfinal
  obtain ⟨query, value, state, -, -, -, hmixtures, -⟩ :=
    Setup.plan_cases hplan
  refine ⟨p, _, hplan, ⟨rfl, hmixtures, ?_, ?_, rfl, nofun⟩, ?_⟩
  · exact wired_build hplan l.settings g seed
  · exact (conforms_build _ g seed).sound
  · exact weightsSized_build _ g seed

omit [Scalar α] in
/-- A call that leaves the setup and what is declared keeps the session
running, whatever it answers. -/
theorem Running.of_keeps (h : Running p s dims st) {q : Procedure α Unit}
    (hkeeps : ∀ b, Keeps (Conforms b) q)
    (hsetup : (final q st).layer.setup = st.layer.setup)
    (hmemo : ∀ d, (final q st).layer.memo = .differentiated d →
      d.shape = [p.batch, 1, 1, p.mixtures]) :
    Running p s dims (final q st) := by
  have hconforms := hkeeps _ st h.sound
  have hsame := hconforms.declared
  refine ⟨?_, ?_, h.wired.of_declared h.sound hconforms.sound hsame,
    hconforms.sound, ?_, hmemo⟩
  · exact (congrArg Prod.snd hsetup).trans h.slots
  · exact (congrArg (fun x => x.1.mixtures) hsetup).trans h.mixtures
  · exact (congrArg Blueprint.inputs hsame).trans h.inputDims

omit [Scalar α] in
/-- A store that never breaks conformance. -/
theorem Running.command (h : Running p s dims st)
    {c : Workspace.Command α Unit}
    (hkeeps : ∀ b, Workspace.Keeps (Conforms b) c) :
    Running p s dims (final (onWorkspace c) st) := by
  refine h.of_keeps (fun b => .onWorkspace (hkeeps b))
    (Layer.setup_onWorkspace c st) ?_
  rw [layer_onWorkspace]
  exact h.memo

/-- A forward pass remembers no derivative. -/
theorem Running.forward (h : Running p s dims st) :
    Running p s dims (final Layer.forward st) := by
  refine h.of_keeps (fun b => Layer.keeps_forward keeps_setScratch
    keeps_setOutput) (Layer.setup_forward st) ?_
  intro d hd
  rcases Layer.final_forward_cases st with hsame | ⟨memo, w, hmemo, hleft⟩
  · rw [hsame] at hd
    exact h.memo d hd
  · rw [hleft] at hd
    exact absurd hd (hmemo d)

/-- The derivative that a gradient call remembers has the shape of the
state, since it is summed up from scratch buffers. -/
theorem Running.memo_ensureDifferentiated (h : Running p s dims st)
    {st' : Session α} (hrun : Layer.ensureDifferentiated st = .ok () st') :
    ∀ d, st'.layer.memo = .differentiated d →
      d.shape = [p.batch, 1, 1, p.mixtures] := by
  intro d hd
  cases hm : st.layer.memo with
  | stale =>
      rw [Layer.ensureDifferentiated_of_stale hm] at hrun
      cases hrun
  | differentiated dstate =>
      rw [Layer.ensureDifferentiated_of_differentiated hm] at hrun
      cases hrun
      exact h.memo d hd
  | forwarded =>
      rw [Layer.ensureDifferentiated_of_forwarded hm] at hrun
      obtain ⟨s', k, r, hs, hk, hr, -, rfl⟩ :=
        Layer.differentiate_ok_iff.1 hrun
      rw [h.slots] at hs
      rw [h.mixtures] at hk
      cases hs
      cases hk
      cases hd
      exact packedDerivative_state (h.wired.laid h.sound) r hr

/-- The shared derivatives leave a running session running. -/
theorem Running.ensureDifferentiated (h : Running p s dims st)
    {st' : Session α} (hrun : Layer.ensureDifferentiated st = .ok () st') :
    Running p s dims st' := by
  have hsetup : st'.layer.setup = st.layer.setup := by
    rcases Layer.ensureDifferentiated_ok hrun with
      ⟨_, -, rfl⟩ | ⟨_, _, -, -, rfl⟩ <;> rfl
  have hkept := h.of_keeps
    (fun b => Layer.keeps_ensureDifferentiated keeps_setScratchGrad)
  rw [final_of_ok hrun] at hkept
  exact hkept hsetup (h.memo_ensureDifferentiated hrun)

/-- A gradient call leaves a running session running, refused or not. -/
theorem Running.gradient (h : Running p s dims st) (c : GradientCall) :
    Running p s dims (final c.procedure st) := by
  refine h.of_keeps (fun b => Action.keeps (a := .gradient c) fun _ hc => ?_)
    (Layer.setup_gradient c st) ?_
  · cases hc with
    | setScratchGrad _ i t => exact keeps_setScratchGrad i t
    | setWeightGrad i t => exact keeps_setWeightGrad i t
    | setOutgoing i t => exact keeps_setOutgoing i t
  intro d hd
  rcases c.outcome st with ⟨e, he, -⟩ | ⟨st', f, -, hst', hrun, hfinal, -⟩
  · rw [final_of_error he] at hd
    exact h.memo d hd
  · rw [final_congr hrun, hfinal] at hd
    exact h.memo_ensureDifferentiated hst' d hd

omit [Scalar α] in
/-- A change of the batch extent keeps to what is declared, the new extent
aside. -/
theorem Layer.setBatch_sound [Zero α] (hs : st.layer.slots = some s)
    (hwired : Wired p s st.workspace) (hsound : st.workspace.Sound)
    (hdims : st.workspace.inputDims = dims) (n : Nat) :
    ∃ w, Layer.setBatch n st
        = .ok () ((st.withMemo .stale).withWorkspace w)
      ∧ Wired { p with batch := n } s w ∧ w.Sound ∧ w.inputDims = dims := by
  obtain ⟨w, hrun, hwired⟩ := Layer.setBatch_wired hs hwired n
  have hsound := Layer.keeps_setBatch (fun i => sound_resize i n) st hsound
  have hdims := Layer.keeps_setBatch (P := fun w => w.inputDims = dims)
    (fun i => .stored (resize_eq i n) fun _ hw _ => hw) st hdims
  rw [final_of_ok hrun] at hsound hdims
  exact ⟨w, hrun, hwired, hsound, hdims⟩

/-- A change of the batch size leaves it running at the new one. -/
theorem Running.setBatch (h : Running p s dims st) (n : Nat) :
    Running { p with batch := n } s dims (final (Layer.setBatch n) st) := by
  obtain ⟨w, hrun, hwired, hsound, hdims⟩ :=
    Layer.setBatch_sound h.slots h.wired h.sound h.inputDims n
  rw [final_of_ok hrun]
  exact ⟨h.slots, h.mixtures, hwired, hsound, hdims, nofun⟩

/-- Every call keeps the session running, with the batch extent that is
current after it. -/
theorem Running.step (h : Running p s dims st) (a : Action α) :
    Running { p with batch := a.batch p.batch } s dims
      (final a.procedure st) := by
  cases a with
  | setInput i t => exact h.command fun _ => keeps_setInput i t
  | setIncoming i t => exact h.command fun _ => keeps_setIncoming i t
  | writeWeight i n x => exact h.command fun _ => keeps_writeWeight i n x
  | replaceWeight i t => exact h.command fun _ => keeps_replaceWeight i t
  | forward => exact h.forward
  | gradient c => exact h.gradient c
  | setBatch n => exact h.setBatch n

/-- So any calls leave it running at the batch size set last. -/
theorem Running.after (as : List (Action α)) :
    ∀ {p : SetupPlan} {st : Session α}, Running p s dims st →
      Running { p with batch := batchAfter as p.batch } s dims
        (st.after as) := by
  induction as with
  | nil => exact fun h => h
  | cons a as ih => exact fun h => ih (h.step a)

-- ==================================================== weights by elements

/-- A call that does not replace a weight keeps the extents of the
weights. -/
theorem weightsSized_step (hsized : st.workspace.WeightsSized)
    {a : Action α} (ha : a.SparesExtents) :
    (final a.procedure st).workspace.WeightsSized := by
  refine Action.keeps (fun c hc => ?_) st hsized
  cases hc with
  | replaceWeight i t => exact ha.elim
  | writeWeight i n x => exact weightsSized_writeWeight i n x
  | setWeightGrad i t => exact weightsSized_setWeightGrad i t
  | resize i n => exact weightsSized_resize i n
  | setInput i t => exact keeps_weightsSized (setInput_eq i t) fun _ => rfl
  | setIncoming i t =>
      exact keeps_weightsSized (setIncoming_eq i t) fun _ => rfl
  | setScratch i t =>
      exact keeps_weightsSized (setScratch_eq i t) fun _ => rfl
  | setOutput i t => exact keeps_weightsSized (setOutput_eq i t) fun _ => rfl
  | setScratchGrad _ i t =>
      exact keeps_weightsSized (setScratchGrad_eq i t) fun _ => rfl
  | setOutgoing i t =>
      exact keeps_weightsSized (setOutgoing_eq i t) fun _ => rfl

/-- Calls that spare the extents keep the weights as they were sized. -/
theorem weightsSized_after (as : List (Action α)) :
    ∀ {st : Session α}, st.workspace.WeightsSized →
      (∀ a ∈ as, a.SparesExtents) → (st.after as).workspace.WeightsSized := by
  induction as with
  | nil => exact fun h _ => h
  | cons a as ih =>
      intro st h has
      rw [List.forall_mem_cons] at has
      exact ih (weightsSized_step h has.1) has.2

end MixtureAttention
