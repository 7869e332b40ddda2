/-
What a setup leaves of a layer and its blueprint, and what the layer then
finds under its handles. A refused setup leaves both as they were. One that
is accepted has appended its requests to those made before, whatever these
were, and holds the numbers of its own (`SetUp`). The columns of the packed buffer
are counted in a word, and the buffers are allocated where there is room.

A handle is the index of a request, so it names the same buffer in every
workspace that is built later, provided that requests are only ever appended
(`weight_kept`, `scratch_kept`) and that a workspace has one buffer for each
request, of its extents and under its name (`build_holdsWeight`,
`build_holdsScratch`). The buffers of the layer follow one by one.
-/
import MixtureAttention.Proofs.Layer.Attunement

namespace MixtureAttention

variable {α : Type}

-- ============================================= buffers and their requests

namespace Workspace

/-- The weight under a handle has this name, and it and its gradient have
these extents. -/
def HoldsWeight (w : Workspace α) (h : WeightHandle) (name : String)
    (shape : Shape) : Prop :=
  ∃ e, w.weightEntry h = .ok e ∧ e.decl.name = name
    ∧ e.value.shape = shape ∧ e.grad.shape = shape

/-- The scratch buffer under a handle has this name and these extents, and
a gradient of the same extents or none. -/
def HoldsScratch (w : Workspace α) (h : ScratchHandle) (name : String)
    (shape : Shape) (hasGrad : Bool) : Prop :=
  ∃ e, w.scratchEntry h = .ok e ∧ e.decl.name = name
    ∧ e.value.shape = shape
    ∧ e.grad.map Tensor.shape = if hasGrad then some shape else none

end Workspace

namespace Blueprint

variable {b : Blueprint} {i : Nat}

/-- A request keeps its number, whatever is requested after it. -/
theorem weight_kept {d : WeightDecl} (h : b.weights[i]? = some d)
    (later : List Request) :
    (b.requestAll later).2.weights[i]? = some d := by
  obtain ⟨weights, scratch, hextends⟩ := requestAll_extends later b
  obtain ⟨hi, -⟩ := List.getElem?_eq_some_iff.1 h
  rw [hextends]
  exact (List.getElem?_append_left hi).trans h

theorem scratch_kept {d : ScratchDecl} (h : b.scratch[i]? = some d)
    (later : List Request) :
    (b.requestAll later).2.scratch[i]? = some d := by
  obtain ⟨weights, scratch, hextends⟩ := requestAll_extends later b
  obtain ⟨hi, -⟩ := List.getElem?_eq_some_iff.1 h
  rw [hextends]
  exact (List.getElem?_append_left hi).trans h

variable [Scalar α]

/-- The weight under the number of a request is the one that was
requested. -/
theorem build_holdsWeight {d : WeightDecl} (h : b.weights[i]? = some d)
    (g : Generator) (seed : UInt64) :
    (b.build (α := α) g seed).HoldsWeight ⟨i⟩ d.name d.dims.toShape := by
  have hdecl := decl_allocateWeights (α := α) g b.weights (g.start seed)
  rw [← hdecl, List.getElem?_map] at h
  obtain ⟨e, he, rfl⟩ := Option.map_eq_some_iff.1 h
  obtain ⟨hvalue, hgrad⟩ := Workspace.sized_allocateWeights g b.weights _ e
    (List.mem_of_getElem? he)
  exact ⟨e, Workspace.lookup_eq_ok.2 he, rfl, hvalue, hgrad⟩

theorem build_holdsScratch {d : ScratchDecl} (h : b.scratch[i]? = some d)
    (g : Generator) (seed : UInt64) :
    (b.build (α := α) g seed).HoldsScratch ⟨i⟩ d.name d.dims.toShape
      d.hasGrad := by
  refine ⟨d.allocate, Workspace.lookup_eq_ok.2 ?_, rfl, rfl, ?_⟩
  · show (b.scratch.map ScratchDecl.allocate)[i]? = _
    rw [List.getElem?_map, h]
    rfl
  · unfold ScratchDecl.allocate
    cases d.hasGrad <;> rfl

end Blueprint

-- ======================================================== a layer's setup

/-- The buffers of a layer, in the order of their handles: each is named
after the blueprint and its own part. -/
structure Slots.Allocated (s : Slots) (blueprint : String) (p : SetupPlan)
    (w : Workspace α) : Prop where
  hiddenWeight : w.HoldsWeight s.hiddenWeight (blueprint ++ ":" ++ "fc_w")
    [1, 1, p.queryWidth, p.unit]
  hiddenBias : w.HoldsWeight s.hiddenBias (blueprint ++ ":" ++ "fc_bias")
    [1, 1, 1, p.unit]
  packedWeight : w.HoldsWeight s.packedWeight
    (blueprint ++ ":" ++ "fc_proj_w") [1, 1, p.unit, 3 * p.mixtures]
  hiddenSum : w.HoldsScratch s.hiddenSum (blueprint ++ ":" ++ "fc_out")
    [p.batch, 1, 1, p.unit] false
  hidden : w.HoldsScratch s.hidden (blueprint ++ ":" ++ "fc_tanh")
    [p.batch, 1, 1, p.unit] false
  packed : w.HoldsScratch s.packed (blueprint ++ ":" ++ "fc_proj_out")
    [p.batch, 1, 1, 3 * p.mixtures] true
  scores : w.HoldsScratch s.scores (blueprint ++ ":" ++ "scores")
    [p.batch, 1, 1, p.positions] false
  mass : w.HoldsScratch s.mass (blueprint ++ ":" ++ "prob")
    [p.batch, 1, p.positions, p.mixtures] false
  upper : w.HoldsScratch s.upper (blueprint ++ ":" ++ "prob_left")
    [p.batch, 1, p.positions, p.mixtures] false
  lower : w.HoldsScratch s.lower (blueprint ++ ":" ++ "prob_right")
    [p.batch, 1, p.positions, p.mixtures] false
  lowerEdge : w.HoldsScratch s.lowerEdge (blueprint ++ ":" ++ "u_neg_div")
    [p.batch, 1, p.positions, p.mixtures] false
  upperEdge : w.HoldsScratch s.upperEdge (blueprint ++ ":" ++ "u_pos_div")
    [p.batch, 1, p.positions, p.mixtures] false

/-- The extents of a plan are read off the settings and the declared
inputs: a query, the values and the state. -/
structure SetupPlan.ReadOff (p : SetupPlan) (settings : Settings)
    (inputs : List Dims) : Prop where
  unit : settings.unit = some p.unit
  mixtures : settings.mixtures = some p.mixtures
  inputs : ∃ query value state, inputs = [query, value, state]
    ∧ p.batch = query.batch ∧ p.queryWidth = query.width
    ∧ p.positions = value.height ∧ p.valueWidth = value.width

/-- What an accepted setup of a layer on a blueprint leaves: the layer has
handles and an empty memo and is otherwise as before, the blueprint has one
output, its earlier requests and twelve more, and the handles are the inputs
and the numbers of the new requests. -/
structure SetUp [Scalar α] (l : Layer α) (b : Blueprint) (p : SetupPlan)
    (s : Slots) (setup : Setup α) : Prop where
  plan : p.ReadOff l.settings b.inputs
  layer : setup.layer = { l with slots := some s, memo := .stale }
  blueprint : ∃ weights scratch,
    weights.length = 3 ∧ scratch.length = 9
      ∧ setup.blueprint = { b with
          outputs := [⟨p.batch, 1, 1, p.valueWidth⟩]
          weights := b.weights ++ weights
          scratch := b.scratch ++ scratch }
  inputs : s.query = ⟨0⟩ ∧ s.value = ⟨1⟩ ∧ s.state = ⟨2⟩
  /-- The width of the packed parameters, as the machine computes it. -/
  packedWidth : (Machine.times 3 p.mixtures : Machine.Run LayerError Nat)
    = .ok (3 * p.mixtures)
  fresh : Blueprint.Numbered b s.weights s.scratch setup.blueprint
  distinct : s.weights.Nodup ∧ s.scratch.Nodup
  /-- Whatever is requested next, if the machine has room for all of it. -/
  buffers : ∀ (later : List Blueprint.Request) (g : Generator)
    (seed : UInt64), (setup.blueprint.requestAll later).2.Addressable →
      Machine.Allocates α (setup.blueprint.requestAll later).2.dims
        ∧ s.Allocated b.name p
          ((setup.blueprint.requestAll later).2.build (α := α) g seed)

namespace Setup

variable [Scalar α]

/-- What a layer requested is under its handles in every workspace that is
built later. -/
theorem allocated_finalized (p : SetupPlan) (settings : Settings)
    (b : Blueprint) (later : List Blueprint.Request) (g : Generator)
    (seed : UInt64) :
    (Slots.startingAt b.weights.length b.scratch.length).Allocated b.name p
      (((finalized p settings b).requestAll later).2.build (α := α) g
        seed) := by
  have hweight : ∀ {i : Nat} {d : WeightDecl},
      (p.weightDecls settings b)[i]? = some d →
      (((finalized p settings b).requestAll later).2.build (α := α) g
        seed).HoldsWeight ⟨b.weights.length + i⟩ d.name d.dims.toShape := by
    intro i d hd
    refine Blueprint.build_holdsWeight (Blueprint.weight_kept ?_ later) g seed
    show (b.weights ++ p.weightDecls settings b)[b.weights.length + i]? = _
    rw [List.getElem?_append_right (Nat.le_add_right _ _),
      Nat.add_sub_cancel_left, hd]
  have hscratch : ∀ {i : Nat} {d : ScratchDecl},
      (p.scratchDecls b)[i]? = some d →
      (((finalized p settings b).requestAll later).2.build (α := α) g
        seed).HoldsScratch ⟨b.scratch.length + i⟩ d.name d.dims.toShape
          d.hasGrad := by
    intro i d hd
    refine Blueprint.build_holdsScratch (Blueprint.scratch_kept ?_ later) g
      seed
    show (b.scratch ++ p.scratchDecls b)[b.scratch.length + i]? = _
    rw [List.getElem?_append_right (Nat.le_add_right _ _),
      Nat.add_sub_cancel_left, hd]
  exact {
    hiddenWeight := hweight (i := 0) rfl
    hiddenBias := hweight (i := 1) rfl
    packedWeight := hweight (i := 2) rfl
    hiddenSum := hscratch (i := 0) rfl
    hidden := hscratch (i := 1) rfl
    packed := hscratch (i := 2) rfl
    scores := hscratch (i := 3) rfl
    mass := hscratch (i := 4) rfl
    upper := hscratch (i := 5) rfl
    lower := hscratch (i := 6) rfl
    lowerEdge := hscratch (i := 7) rfl
    upperEdge := hscratch (i := 8) rfl }

/-- A setup does everything or nothing, for a layer in any state and a
blueprint with any requests. Refused, it leaves the layer and the blueprint
as they were. Accepted, it leaves what `SetUp` says. Three times the number
of mixture components must be a word, since that many columns are
requested. -/
theorem finalize_all_or_nothing (l : Layer α) (b : Blueprint)
    (hword : ∀ p, SetupPlan.of l b.inputs = .ok p →
      3 * p.mixtures < Machine.words) :
    (∀ e setup, finalize ⟨l, b⟩ = .error e setup → setup = ⟨l, b⟩)
      ∧ ∀ setup, finalize ⟨l, b⟩ = .ok () setup →
          ∃ p s, SetUp l b p s setup := by
  constructor
  · intro e setup h
    rw [finalize_eq] at h
    dsimp only at h
    split at h
    · injection h with _ h
      exact h.symm
    · cases h
  · intro setup h
    obtain ⟨s, hs, hfresh⟩ := Blueprint.numbered_finalize h
    obtain ⟨p, hplan, rfl⟩ := finalize_cases h
    cases hs
    obtain ⟨query, value, state, hinputs, hunit, -, hmixtures, -, hbatch,
      hwidth, -, hpositions, hvalueWidth, -⟩ := plan_cases hplan
    exact ⟨p, _, {
      plan := ⟨hunit, hmixtures, query, value, state, hinputs, hbatch.symm,
        hwidth.symm, hpositions.symm, hvalueWidth.symm⟩
      layer := rfl
      blueprint := ⟨p.weightDecls l.settings b, p.scratchDecls b, rfl, rfl,
        rfl⟩
      inputs := ⟨rfl, rfl, rfl⟩
      packedWidth := Machine.times_ok (hword p hplan)
      fresh := hfresh
      distinct := hfresh.nodup
      buffers := fun later g seed hroom => ⟨Machine.HasRoom.allocates hroom,
        allocated_finalized p l.settings b later g seed⟩ }⟩

/-- A blueprint with a request of someone else's: a layer without settings
leaves it alone, and one that is set up takes the numbers after it and has
its buffers. -/
theorem finalize_all_or_nothing_second_request :
    let p : SetupPlan := ⟨2, 3, 3, 1, 2, 2⟩
    let b := ((Session.blankBlueprint p).requestAll
      [.weight ⟨1, 1, 3, 3⟩ .zeros .none 1.0 "embedding" true]).2
    let l : Layer Float := { settings := Session.blankSettings p }
    (∃ e, finalize ⟨({} : Layer Float), b⟩ = .error e ⟨{}, b⟩)
      ∧ ∃ setup q s, finalize ⟨l, b⟩ = .ok () setup ∧ SetUp l b q s setup
          ∧ s.weights.map (·.index) = [1, 2, 3]
          ∧ s.Allocated b.name q
            (setup.blueprint.build (α := Float) .splitMix 7) := by
  intro p b l
  constructor
  · obtain ⟨e, setup, hrefused⟩ :
        ∃ e setup, finalize ⟨({} : Layer Float), b⟩ = .error e setup :=
      ⟨_, _, rfl⟩
    have hsame := (finalize_all_or_nothing {} b nofun).1 e setup hrefused
    exact ⟨e, hsame ▸ hrefused⟩
  · have hplan : SetupPlan.of l b.inputs = .ok p :=
      Session.blank_plan p (by decide) (by decide)
    have hword : ∀ q, SetupPlan.of l b.inputs = .ok q →
        3 * q.mixtures < Machine.words := by
      intro q hq
      obtain rfl : p = q := Except.ok.inj (hplan.symm.trans hq)
      decide
    have hfinal := finalize_of_plan hplan
    obtain ⟨q, s, hsetup⟩ := (finalize_all_or_nothing l b hword).2 _ hfinal
    have hbuffers := hsetup.buffers [] .splitMix 7 (by decide)
    exact ⟨_, q, s, hfinal, hsetup, hsetup.fresh.weights, hbuffers.2⟩

end Setup
end MixtureAttention
