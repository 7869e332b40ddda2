/-
Workspaces that fit a layer. `Wired` says what the stores of a layer look
at: the handles are those of one setup, the buffers they name have the
extents of the plan, and the packed buffer has a gradient. A workspace that
is built after a setup is wired (`wired_build_extended`), whatever was
requested on the blueprint before and after, and no store of values undoes
it. A wired workspace can be given any inputs and weights
(`Wired.held_give`) and any batch extent (`Layer.setBatch_wired`), so what is
proved of wired workspaces holds for all values and all batches.

Whether the machine has room for what is requested is decided by the plan
alone (`SetupPlan.Addressable`), which a setup passes on to its blueprint
(`Fits.addressable`).
-/
import MixtureAttention.Layer.Procedures
import MixtureAttention.Proofs.Layer.Finalize
import MixtureAttention.Proofs.Layer.Formula
import MixtureAttention.Proofs.Layer.Transitions
import MixtureAttention.Proofs.Machine.Buffers
import MixtureAttention.Proofs.Registry.Conformance

namespace MixtureAttention

open Tensor Workspace

variable {α : Type}

-- =============================================================== extents

/-- The three weights, in the order in which they are requested. -/
def Slots.weights (s : Slots) : List WeightHandle :=
  [s.hiddenWeight, s.hiddenBias, s.packedWeight]

namespace SetupPlan

/-- The declared extents of the three inputs. -/
def inputDims (p : SetupPlan) : List Dims :=
  [⟨p.batch, 1, 1, p.queryWidth⟩, ⟨p.batch, 1, p.positions, p.valueWidth⟩,
    ⟨p.batch, 1, 1, p.mixtures⟩]

/-- The extents of the weights, in the order of their requests. -/
def weightDims (p : SetupPlan) : List Dims :=
  [⟨1, 1, p.queryWidth, p.unit⟩, ⟨1, 1, 1, p.unit⟩,
    ⟨1, 1, p.unit, 3 * p.mixtures⟩]

/-- The extents of the scratch buffers, in the order of their requests. -/
def scratchDims (p : SetupPlan) : List Dims :=
  [p.hiddenDims, p.hiddenDims, p.packedDims, p.scoresDims, p.massDims,
    p.massDims, p.massDims, p.massDims, p.massDims]

/-- The extents of every buffer of a step. -/
def dims (p : SetupPlan) : List Dims :=
  p.inputDims ++ [p.outputDims] ++ p.weightDims ++ p.scratchDims

/-- The machine can hold every buffer of a step. -/
def Addressable (p : SetupPlan) : Prop := Machine.HasRoom p.dims

instance (p : SetupPlan) : Decidable p.Addressable :=
  inferInstanceAs (Decidable (Machine.HasRoom p.dims))

end SetupPlan

namespace Setup

variable {p : SetupPlan} {settings : Settings} {b : Blueprint}

/-- If the layer can be set up on the blueprint, the machine can hold
everything that is requested then, by this layer and by others before. -/
def Fits (l : Layer α) (b : Blueprint) : Prop :=
  ∀ p, SetupPlan.of l b.inputs = .ok p →
    (finalized p l.settings b).Addressable

/-- If a plan fits, what the layer asks for by it is addressable. -/
theorem Fits.addressable {l : Layer α} {setup : Setup α} (h : Fits l b)
    (hfinal : finalize ⟨l, b⟩ = .ok () setup) :
    setup.blueprint.Addressable := by
  obtain ⟨p, hplan, rfl⟩ := finalize_cases hfinal
  exact h p hplan

/-- Room for a blueprint that a layer was set up on is room for the buffers
of its steps. -/
theorem addressable_of_finalized (hinputs : b.inputs = p.inputDims)
    (h : (finalized p settings b).Addressable) : p.Addressable := by
  refine Machine.HasRoom.mono h fun d hd => ?_
  simp only [SetupPlan.dims, List.mem_append] at hd
  simp only [Blueprint.dims, finalized, List.mem_append, List.map_append,
    hinputs]
  rcases hd with ((hd | hd) | hd) | hd
  · exact .inl (.inl (.inl hd))
  · exact .inl (.inl (.inr hd))
  · exact .inl (.inr (.inr hd))
  · exact .inr (.inr hd)

end Setup

namespace Workspace

/-- The extents of a weight. -/
def weightDims? (w : Workspace α) (h : WeightHandle) : Option Dims :=
  w.weights[h.index]?.map (·.decl.dims)

/-- The current extents of a scratch buffer. -/
def scratchDims? (w : Workspace α) (h : ScratchHandle) : Option Dims :=
  w.scratch[h.index]?.map (·.decl.dims)

variable {w : Workspace α} {d : Dims} {t : Tensor α}

/-- A tensor of a weight's extents fits it. -/
theorem fitsWeight_of_dims {h : WeightHandle} (hd : w.weightDims? h = some d)
    (ht : t.shape = d.toShape) : w.fitsWeight h t = .ok () := by
  obtain ⟨e, he, rfl⟩ := Option.map_eq_some_iff.1 hd
  exact lookup_bind_eq_ok.2 ⟨e, he, if_pos ht.symm⟩

/-- A tensor of a scratch buffer's extents fits it. -/
theorem fitsScratch_of_dims {h : ScratchHandle}
    (hd : w.scratchDims? h = some d) (ht : t.shape = d.toShape) :
    w.fitsScratch h t = .ok () := by
  obtain ⟨e, he, rfl⟩ := Option.map_eq_some_iff.1 hd
  exact lookup_bind_eq_ok.2 ⟨e, he, if_pos ht.symm⟩

end Workspace

-- ================================================================= wiring

/-- The workspace has the buffers that a layer with handles `s` works on,
with the extents of a plan. -/
structure Wired (p : SetupPlan) (s : Slots) (w : Workspace α) : Prop where
  slots : ∃ i j, s = .startingAt i j
  weights : s.weights.map w.weightDims? = p.weightDims.map some
  scratch : s.scratch.map w.scratchDims? = p.scratchDims.map some
  packedGrad : ∃ t, w.scratchGrad s.packed = .ok t
  /-- The output may have any batch extent. -/
  outputDims : ∃ d, w.outputDims[0]? = some d
    ∧ d.toShape.tail = [1, 1, p.valueWidth]
  outputs : w.outputs ≠ []
  inputs : w.inputs.length = 3
  outgoing : w.outgoing.length = 3

-- ================================================================== giving

namespace Given

variable (c : Given α) (p : SetupPlan) (s : Slots)

/-- The three inputs, each with its index. -/
def inputs : List (Nat × Tensor α) :=
  [(s.query.index, cube p.batch 1 p.queryWidth fun b _ => c.query b),
    (s.value.index, cube p.batch p.positions p.valueWidth c.value),
    (s.state.index, cube p.batch 1 p.mixtures fun b _ => c.state b)]

/-- The three weights, each with its index. -/
def weights : List (Nat × Tensor α) :=
  [(s.hiddenWeight.index,
      cube 1 p.queryWidth p.unit fun _ => c.hiddenWeight),
    (s.hiddenBias.index, cube 1 1 p.unit fun _ _ => c.hiddenBias),
    (s.packedWeight.index,
      cube 1 p.unit (3 * p.mixtures) fun _ => c.packedWeight)]

end Given

/-- The workspace with other inputs and weights, and nothing else changed. -/
def Workspace.give (p : SetupPlan) (s : Slots) (c : Given α)
    (w : Workspace α) : Workspace α :=
  { w with
    inputs := overlay (fun t _ => t) (c.inputs p s) w.inputs
    weights := overlay (fun t e => { e with value := t }) (c.weights p s)
      w.weights }

section

variable {c : Given α} {p : SetupPlan} {s : Slots} {w : Workspace α}

/-- A wired workspace can be given anything and stays wired. -/
theorem Wired.give (h : Wired p s w) (c : Given α) :
    Wired p s (w.give p s c) := by
  have hdims : (w.give p s c).weightDims? = w.weightDims? := by
    funext i
    unfold weightDims? Workspace.give
    dsimp only
    rw [map_overlay]
    exact fun _ _ => rfl
  refine ⟨h.slots, ?_, h.scratch, h.packedGrad, h.outputDims, h.outputs, ?_,
    h.outgoing⟩
  · rw [hdims]
    exact h.weights
  · unfold Workspace.give
    dsimp only
    rw [length_overlay]
    exact h.inputs

/-- It holds what it was given. -/
theorem Wired.held_give (h : Wired p s w) (c : Given α) :
    c.Held p s (w.give p s c) := by
  have hinput : ∀ q ∈ c.inputs p s, q.1 < 3 →
      lookup .input (w.give p s c).inputs q.1 = .ok q.2 := by
    intro q hq hlt
    have hnodup : ((c.inputs p s).map (·.1)).Nodup := by
      obtain ⟨i, j, rfl⟩ := h.slots
      show [0, 1, 2].Nodup
      decide
    refine lookup_eq_ok.2 ?_
    unfold Workspace.give
    dsimp only
    rw [getElem?_overlay_of_mem _ hnodup hq,
      List.getElem?_eq_getElem (by rw [h.inputs]; exact hlt)]
    rfl
  have hweight : ∀ q ∈ c.weights p s, ∀ d,
      w.weightDims? ⟨q.1⟩ = some d →
      (w.give p s c).weight ⟨q.1⟩ = .ok q.2 := by
    intro q hq d hd
    have hnodup : ((c.weights p s).map (·.1)).Nodup := by
      obtain ⟨i, j, rfl⟩ := h.slots
      simp [Given.weights, Slots.startingAt]
    obtain ⟨e, he, -⟩ := Option.map_eq_some_iff.1 hd
    refine lookup_bind_eq_ok.2 ⟨{ e with value := q.2 }, ?_, rfl⟩
    unfold Workspace.give
    dsimp only
    rw [getElem?_overlay_of_mem _ hnodup hq, he]
    rfl
  have hdims := h.weights
  simp only [Slots.weights, SetupPlan.weightDims, List.map_cons,
    List.cons.injEq] at hdims
  obtain ⟨hhidden, hbias, hpacked, -⟩ := hdims
  simp only [Given.inputs, List.forall_mem_cons] at hinput
  simp only [Given.weights, List.forall_mem_cons] at hweight
  obtain ⟨i, j, rfl⟩ := h.slots
  exact ⟨hinput.1 (show 0 < 3 by decide), hinput.2.1 (show 1 < 3 by decide),
    hinput.2.2.1 (show 2 < 3 by decide), hweight.1 _ hhidden,
    hweight.2.1 _ hbias, hweight.2.2.1 _ hpacked⟩

/-- Giving a workspace what it holds changes nothing. -/
theorem Given.Held.give (h : c.Held p s w) : w.give p s c = w := by
  have hinput : ∀ {i : InputHandle} {t}, w.input i = .ok t →
      ∀ e, w.inputs[i.index]? = some e → t = e := by
    intro i t ht e he
    have hentry := lookup_eq_ok.1 ht
    rw [he] at hentry
    injection hentry with hentry
    exact hentry.symm
  have hweight : ∀ {i : WeightHandle} {t}, w.weight i = .ok t →
      ∀ e, w.weights[i.index]? = some e → { e with value := t } = e := by
    intro i t ht e he
    obtain ⟨e', he', hvalue⟩ := lookup_bind_eq_ok.1 ht
    rw [he] at he'
    cases he'
    injection hvalue with hvalue
    rw [← hvalue]
  have hinputs : overlay (fun t _ => t) (c.inputs p s) w.inputs
      = w.inputs := by
    refine overlay_self _ _ ?_
    simp only [Given.inputs, List.forall_mem_cons]
    exact ⟨hinput h.query, hinput h.value, hinput h.state, nofun⟩
  have hweights : overlay (fun t e => { e with value := t }) (c.weights p s)
      w.weights = w.weights := by
    refine overlay_self _ _ ?_
    simp only [Given.weights, List.forall_mem_cons]
    exact ⟨hweight h.hiddenWeight, hweight h.hiddenBias,
      hweight h.packedWeight, nofun⟩
  unfold Workspace.give
  rw [hinputs, hweights]

end

-- ========================================================== another batch

/-- The buffers of a list of handles, reallocated. -/
def putResized [Zero α] (n : Nat) (hs : List ScratchHandle)
    (w : Workspace α) : Workspace α :=
  { w with
    scratch := overlay (fun n e => e.resize n) (hs.map fun h => (h.index, n))
      w.scratch }

/-- All buffers that there are can be resized. -/
theorem resizeAll_ok [Zero α] (n : Nat) :
    ∀ (hs : List ScratchHandle) (w : Workspace α),
      (∀ h ∈ hs, ∃ d, w.scratchDims? h = some d) →
        Layer.resizeAll n hs w = .ok () (putResized n hs w)
  | [], _, _ => rfl
  | h :: hs, w, hall => by
      have hfirst : resize h n w = .ok () (putResized n [h] w) := by
        obtain ⟨d, hd⟩ := hall h (List.mem_cons_self ..)
        obtain ⟨e, he, -⟩ := Option.map_eq_some_iff.1 hd
        rw [resize_eq, scratchEntry, lookup_eq_ok.2 he]
        rfl
      have hrest : ∀ i ∈ hs, ∃ d,
          (putResized n [h] w).scratchDims? i = some d := by
        intro i hi
        obtain ⟨d, hd⟩ := hall i (List.mem_cons_of_mem _ hi)
        obtain ⟨e, he, -⟩ := Option.map_eq_some_iff.1 hd
        unfold scratchDims? putResized
        dsimp only
        rw [getElem?_overlay, he]
        exact ⟨_, rfl⟩
      show EStateM.bind (resize h n) (fun _ => Layer.resizeAll n hs) w = _
      unfold EStateM.bind
      rw [hfirst]
      exact resizeAll_ok n hs _ hrest

/-- Distinct handles of a list are reallocated once each. -/
theorem scratch_putResized [Zero α] {n : Nat} {hs : List ScratchHandle}
    (hnodup : (hs.map (·.index)).Nodup) {h : ScratchHandle} (hmem : h ∈ hs)
    (w : Workspace α) :
    (putResized n hs w).scratch[h.index]?
      = w.scratch[h.index]?.map (·.resize n) := by
  have hindex : ((hs.map fun h => (h.index, n)).map (·.1)).Nodup := by
    rw [List.map_map]
    exact hnodup
  have hwrite : (h.index, n) ∈ hs.map fun h => (h.index, n) :=
    List.mem_map.2 ⟨h, hmem, rfl⟩
  unfold putResized
  dsimp only
  rw [getElem?_overlay_of_mem _ hindex hwrite]

/-- A change of the batch extent rewires the workspace for the new one. -/
theorem Wired.resize [Zero α] {p : SetupPlan} {s : Slots} {w : Workspace α}
    (h : Wired p s w) (n : Nat) :
    Wired { p with batch := n } s (putResized n s.scratch w) := by
  have hnodup : (s.scratch.map (·.index)).Nodup := by
    obtain ⟨i, j, rfl⟩ := h.slots
    show (List.range' j 9).Nodup
    exact List.nodup_range'
  refine ⟨h.slots, h.weights, ?_, ?_, h.outputDims, h.outputs, h.inputs,
    h.outgoing⟩
  · have hdims : s.scratch.map (putResized n s.scratch w).scratchDims?
        = (s.scratch.map w.scratchDims?).map
            (Option.map fun d => { d with batch := n }) := by
      rw [List.map_map]
      refine List.map_congr_left fun i hi => ?_
      unfold scratchDims?
      rw [scratch_putResized hnodup hi, Option.map_map, Function.comp_apply,
        Option.map_map]
      rfl
    rw [hdims, h.scratch]
    rfl
  · have hmem : s.packed ∈ s.scratch := by simp [Slots.scratch]
    obtain ⟨t, ht⟩ := h.packedGrad
    obtain ⟨e, he, hgrad⟩ := scratchGrad_eq_ok.1 ht
    refine ⟨.zeros ({ e.decl.dims with batch := n } : Dims).toShape,
      scratchGrad_eq_ok.2 ⟨e.resize n, ?_, ?_⟩⟩
    · rw [scratch_putResized hnodup hmem, he]
      rfl
    · unfold Scratch.resize
      dsimp only
      rw [hgrad]
      rfl

/-- On a wired workspace a change of the batch extent succeeds, and the layer
can work with batches of the new extent. -/
theorem Layer.setBatch_wired [Zero α] {st : Session α} {p : SetupPlan}
    {s : Slots} (hs : st.layer.slots = some s)
    (h : Wired p s st.workspace) (n : Nat) :
    ∃ w, setBatch n st = .ok () ((st.withMemo .stale).withWorkspace w)
      ∧ Wired { p with batch := n } s w := by
  have hexists : ∀ i ∈ s.scratch, ∃ d,
      st.workspace.scratchDims? i = some d := by
    intro i hi
    have hmem : st.workspace.scratchDims? i ∈ p.scratchDims.map some := by
      rw [← h.scratch]
      exact List.mem_map_of_mem hi
    obtain ⟨d, -, hd⟩ := List.mem_map.1 hmem
    exact ⟨d, hd.symm⟩
  refine ⟨putResized n s.scratch st.workspace, ?_, h.resize n⟩
  unfold setBatch
  rw [Procedure.bind_of_ok (Procedure.read_of_ok (slots?_of_some hs))]
  exact Procedure.bind_of_ok
    (Procedure.onWorkspace_of_ok (resizeAll_ok n s.scratch _ hexists))

-- ======================================================== what is built

variable [Scalar α]

/-- A built workspace has the weights of its blueprint. -/
theorem weightDims?_build (b : Blueprint) (g : Generator) (seed : UInt64)
    (h : WeightHandle) :
    (b.build (α := α) g seed).weightDims? h
      = b.weights[h.index]?.map (·.dims) := by
  have hdecl := decl_allocateWeights (α := α) g b.weights (g.start seed)
  unfold weightDims? Blueprint.build
  dsimp only
  rw [← hdecl, List.getElem?_map, Option.map_map, hdecl]
  rfl

/-- A built workspace has the scratch buffers of its blueprint. -/
theorem scratchDims?_build (b : Blueprint) (g : Generator) (seed : UInt64)
    (h : ScratchHandle) :
    (b.build (α := α) g seed).scratchDims? h
      = b.scratch[h.index]?.map (·.dims) := by
  unfold scratchDims? Blueprint.build
  dsimp only
  rw [List.getElem?_map, Option.map_map]
  rfl

/-- The blueprint with more requests. -/
def Blueprint.extended (b : Blueprint) (weights : List WeightDecl)
    (scratch : List ScratchDecl) : Blueprint :=
  { b with
    weights := b.weights ++ weights
    scratch := b.scratch ++ scratch }

/-- A workspace that is built after a setup is wired to the handles that the
setup gave, whatever was requested before and after it. -/
theorem wired_build_extended {l : Layer α} {b : Blueprint} {p : SetupPlan}
    (hplan : SetupPlan.of l b.inputs = .ok p) (settings : Settings)
    (weights : List WeightDecl) (scratch : List ScratchDecl)
    (g : Generator) (seed : UInt64) :
    Wired p (.startingAt b.weights.length b.scratch.length)
      (((Setup.finalized p settings b).extended weights scratch).build
        (α := α) g seed) where
  slots := ⟨_, _, rfl⟩
  weights := by
    simp only [Slots.weights, Slots.startingAt, List.map_cons, List.map_nil,
      weightDims?_build, Blueprint.extended, Setup.finalized,
      List.append_assoc]
    simp [SetupPlan.weightDecls, SetupPlan.weightDims]
  scratch := by
    simp only [Slots.scratch, Slots.startingAt, List.map_cons, List.map_nil,
      scratchDims?_build, Blueprint.extended, Setup.finalized,
      List.append_assoc]
    simp [SetupPlan.scratchDecls, SetupPlan.scratchDims]
  packedGrad := by
    have hentry : (((Setup.finalized p settings b).extended weights
        scratch).build (α := α) g seed).scratch[b.scratch.length + 2]?
        = some (ScratchDecl.allocate
            ⟨b.qualify "fc_proj_out", p.packedDims, true, .iteration⟩) := by
      simp [Blueprint.build, Blueprint.extended, Setup.finalized,
        SetupPlan.scratchDecls]
    exact ⟨.zeros p.packedDims.toShape,
      scratchGrad_eq_ok.2 ⟨_, hentry, rfl⟩⟩
  outputDims := ⟨_, rfl, rfl⟩
  outputs := nofun
  inputs := by
    obtain ⟨query, value, state, hinputs, -⟩ := Setup.plan_cases hplan
    unfold Blueprint.build Blueprint.extended Setup.finalized
    simp [hinputs]
  outgoing := by
    obtain ⟨query, value, state, hinputs, -⟩ := Setup.plan_cases hplan
    unfold Blueprint.build Blueprint.extended Setup.finalized
    simp [hinputs]

/-- So after finalize and build the handles point at buffers of the planned
extents. -/
theorem wired_build {l : Layer α} {b : Blueprint} {p : SetupPlan}
    (hplan : SetupPlan.of l b.inputs = .ok p) (settings : Settings)
    (g : Generator) (seed : UInt64) :
    Wired p (.startingAt b.weights.length b.scratch.length)
      ((Setup.finalized p settings b).build (α := α) g seed) := by
  have hbuild := wired_build_extended (α := α) hplan settings [] [] g seed
  unfold Blueprint.extended at hbuild
  rw [List.append_nil, List.append_nil] at hbuild
  exact hbuild

-- ======================================================== a blank session

/-- Nothing but zeros. -/
def Given.blank : Given α where
  query _ _ := 0
  value _ _ _ := 0
  state _ _ := 0
  hiddenWeight _ _ := 0
  hiddenBias _ := 0
  packedWeight _ _ := 0

namespace Session

variable (p : SetupPlan)

/-- Settings for a plan, with every weight starting at zero. -/
def blankSettings : Settings :=
  { unit := some p.unit, mixtures := some p.mixtures,
    weightInitializer := .zeros }

/-- A blueprint with the inputs of a plan. -/
def blankBlueprint : Blueprint :=
  .new "attention" [⟨p.batch, 1, 1, p.queryWidth⟩,
    ⟨p.batch, 1, p.positions, p.valueWidth⟩, ⟨p.batch, 1, 1, p.mixtures⟩]

/-- A new layer that was set up for a plan, on a new workspace. -/
def blank : Session α where
  layer := { settings := blankSettings p, slots := some (.startingAt 0 0) }
  workspace := (Setup.finalized p (blankSettings p)
    (blankBlueprint p)).build Generator.splitMix 0

omit [Scalar α] in
/-- The settings of a blank session give back its plan. -/
theorem blank_plan (hunit : 0 < p.unit) (hmixtures : 0 < p.mixtures) :
    SetupPlan.of ({ settings := blankSettings p } : Layer α)
      (blankBlueprint p).inputs = .ok p := by
  have hu : checkPositive .unit p.unit = .ok () :=
    if_neg (Nat.ne_of_gt hunit)
  have hk : checkPositive .mixtures p.mixtures = .ok () :=
    if_neg (Nat.ne_of_gt hmixtures)
  have hvalue : checkBatch p.batch
      (Dims.toShape ⟨p.batch, 1, p.positions, p.valueWidth⟩) = .ok () :=
    if_pos rfl
  have hstate : checkBatch p.batch
      (Dims.toShape ⟨p.batch, 1, 1, p.mixtures⟩) = .ok () := if_pos rfl
  show (do
    checkPositive .unit p.unit
    checkPositive .mixtures p.mixtures
    checkBatch p.batch (Dims.toShape ⟨p.batch, 1, p.positions, p.valueWidth⟩)
    checkBatch p.batch (Dims.toShape ⟨p.batch, 1, 1, p.mixtures⟩)
    _ : Except LayerError SetupPlan) = _
  rw [hu, ok_bind, hk, ok_bind, hvalue, ok_bind, hstate, ok_bind]
  exact if_neg (fun hne => hne rfl)

/-- It is what a setup and a build leave. -/
theorem blank_finalize (hunit : 0 < p.unit) (hmixtures : 0 < p.mixtures) :
    Setup.finalize ⟨{ settings := blankSettings p }, blankBlueprint p⟩
      = .ok () ⟨(blank p : Session α).layer,
          Setup.finalized p (blankSettings p) (blankBlueprint p)⟩ :=
  Setup.finalize_of_plan (blank_plan p hunit hmixtures)

/-- A blank session is wired by it. -/
theorem blank_wired (hunit : 0 < p.unit) (hmixtures : 0 < p.mixtures) :
    Wired p (.startingAt 0 0) (blank p : Session α).workspace :=
  wired_build (blank_plan (α := α) p hunit hmixtures) (blankSettings p)
    Generator.splitMix 0

/-- A blank session holds zeros throughout. -/
theorem blank_held :
    (Given.blank : Given α).Held p (.startingAt 0 0)
      (blank p : Session α).workspace := by
  refine ⟨?_, ?_, ?_, ?_, ?_, ?_⟩ <;>
    exact congrArg Except.ok Tensor.zeros_cube

/-- A blank session that was given inputs, weights and the derivative with
respect to the output. -/
def stocked (c : Given α) (g : Nat → Nat → α) : Session α :=
  (blank p).edit fun w =>
    { w.give p (.startingAt 0 0) c with
      incoming := [cube p.batch 1 p.valueWidth fun b _ => g b] }

/-- Filling a blank session leaves it wired. -/
theorem stocked_wired (hunit : 0 < p.unit) (hmixtures : 0 < p.mixtures)
    (c : Given α) (g : Nat → Nat → α) :
    Wired p (.startingAt 0 0) (stocked p c g).workspace := by
  have hwired := (blank_wired (α := α) p hunit hmixtures).give c
  exact ⟨hwired.slots, hwired.weights, hwired.scratch, hwired.packedGrad,
    hwired.outputDims, hwired.outputs, hwired.inputs, hwired.outgoing⟩

/-- It holds what it was given. -/
theorem stocked_held (hunit : 0 < p.unit) (hmixtures : 0 < p.mixtures)
    (c : Given α) (g : Nat → Nat → α) :
    c.Held p (.startingAt 0 0) (stocked p c g).workspace := by
  have hheld := (blank_wired (α := α) p hunit hmixtures).held_give c
  exact ⟨hheld.query, hheld.value, hheld.state, hheld.hiddenWeight,
    hheld.hiddenBias, hheld.packedWeight⟩

end Session
end MixtureAttention
