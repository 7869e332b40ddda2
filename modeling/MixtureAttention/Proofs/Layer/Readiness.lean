/-
When a step succeeds. Whatever was called before, a forward pass succeeds
exactly if the three inputs have the batch extent that was set last. Nothing
else that earlier calls left can stand in its way: scratch buffers are
overwritten before they are read, and a batch extent that a product or a
stretched operand would let through is caught when the scores are stored
(`batches_of_forward`). What the buffers of a batch extent need of the machine
is asked along the calls (`Setup.HasRoom`).

After a forward pass both gradient procedures succeed, in either order, as
soon as the derivative with respect to the output has the batch extent of
the inputs. This is settled by shapes alone, so the weights may have been
written in between.
-/
import MixtureAttention.Proofs.Layer.BackwardPass
import MixtureAttention.Proofs.Layer.Reachable

namespace MixtureAttention

open Tensor Workspace Procedure
open Given (HasShape)

variable {α : Type}

/-- The declared extents and the hidden width are the whole plan. -/
theorem SetupPlan.eq_of_inputDims {l : Layer α} {p p' : SetupPlan}
    (hplan : SetupPlan.of l p.inputDims = .ok p')
    (hunit : l.settings.unit = some p.unit) : p = p' := by
  obtain ⟨query, value, state, hdims, hunit', -, -, -, -, hwidth, -,
    hpositions, hvalueWidth, hstate⟩ := Setup.plan_cases hplan
  rw [hunit] at hunit'
  rw [inputDims, List.cons.injEq, List.cons.injEq, List.cons.injEq] at hdims
  obtain ⟨rfl, rfl, hstate', -⟩ := hdims
  rw [← hstate', Dims.mk.injEq] at hstate
  obtain ⟨batch, queryWidth, positions, valueWidth, unit, mixtures⟩ := p
  obtain ⟨hbatch, -, -, hmixtures⟩ := hstate
  dsimp only at hwidth hpositions hvalueWidth hunit' hbatch hmixtures
  rw [hwidth, hpositions, hvalueWidth, Option.some.inj hunit', hbatch,
    hmixtures]

-- ================================================================= inputs

/-- Only the batch axis is left to be known. -/
theorem shape_of_tail {t : Tensor α} {c h w : Nat}
    (ht : t.shape.tail = [c, h, w]) : t.shape = [t.extent 0, c, h, w] := by
  unfold extent
  cases hshape : t.shape with
  | nil =>
      rw [hshape] at ht
      cases ht
  | cons b ds =>
      rw [hshape] at ht
      rw [show ds = [c, h, w] from ht]
      rfl

section

variable {p : SetupPlan} {s : Slots} {dims : List Dims} {st : Session α}

/-- A stored input has the declared extents beyond the batch. -/
theorem Running.input (h : Running p s dims st) {i : InputHandle} {d : Dims}
    (hd : dims[i.index]? = some d) :
    ∃ t ∈ st.workspace.inputs, st.workspace.input i = .ok t
      ∧ t.shape = [t.extent 0, d.channel, d.height, d.width] := by
  have hmatch := h.sound.inputs
  rw [h.inputDims] at hmatch
  obtain ⟨t, ht, htail⟩ := hmatch.allocated hd
  exact ⟨t, List.mem_of_getElem? ht, lookup_eq_ok.2 ht, shape_of_tail htail⟩

/-- Three handles name the three inputs. -/
theorem Running.inputs_eq (h : Running p s dims st)
    {query value state : Tensor α}
    (hquery : st.workspace.input s.query = .ok query)
    (hvalue : st.workspace.input s.value = .ok value)
    (hstate : st.workspace.input s.state = .ok state) :
    st.workspace.inputs = [query, value, state] := by
  have hlen := h.wired.inputs
  obtain ⟨i, j, rfl⟩ := h.wired.slots
  have hquery := lookup_eq_ok.1 hquery
  have hvalue := lookup_eq_ok.1 hvalue
  have hstate := lookup_eq_ok.1 hstate
  match hinputs : st.workspace.inputs, hlen with
  | [a, b, c], _ =>
      rw [hinputs] at hquery hvalue hstate
      cases hquery
      cases hvalue
      cases hstate
      rfl

/-- Three handles name the derivatives with respect to the inputs. -/
theorem Running.outgoing_put (h : Running p s dims st)
    (dquery dvalue dstate : Tensor α) :
    (st.workspace.putOutgoings (Layer.inputStores s dquery dvalue
      dstate)).outgoing = [dquery, dvalue, dstate] := by
  have hlen := h.wired.outgoing
  obtain ⟨i, j, rfl⟩ := h.wired.slots
  match houtgoing : st.workspace.outgoing, hlen with
  | [a, b, c], _ =>
      unfold putOutgoings Layer.inputStores
      simp only [List.foldl_cons, List.foldl_nil, putOutgoing, houtgoing]
      rfl

end

-- ================================================================ forward

variable [Scalar α] {p : SetupPlan} {s : Slots} {dims : List Dims}
  {st st' : Session α} {w : Workspace α}

/-- What a forward pass looked at before it computed a value, and the shape
of the scores, whose batch is that of the query. -/
theorem forwardValues_looks {k : Nat} :
    Ensures (fun v : ForwardValues α => ∃ query value state logits mix,
        w.input s.query = .ok query ∧ w.input s.value = .ok value
        ∧ w.input s.state = .ok state
        ∧ checkBatch (query.extent 0) value.shape = .ok ()
        ∧ checkBatch (query.extent 0) state.shape = .ok ()
        ∧ Mixture.of k logits = .ok mix ∧ v.packed = mix.packed
        ∧ v.scores.shape = [query.extent 0, 1, 1, value.extent 2])
      (forwardValues s k w) := by
  unfold forwardValues
  refine .bind (.self _) fun query hquery => ?_
  refine .bind (.self _) fun value hvalue => ?_
  refine .bind (.self _) fun state hstate => ?_
  refine .bind (.self _) fun _ hcheckValue => ?_
  refine .bind (.self _) fun _ hcheckState => ?_
  refine .skip fun _ => .skip fun _ => .skip fun _ => .skip fun _ => ?_
  refine .skip fun _ => .skip fun logits => ?_
  refine .bind (Ensures.self _).lift fun mix hmix => ?_
  refine .skip fun centres => .skip fun upperEdge => .skip fun lowerEdge => ?_
  refine .skip fun mass => .skip fun weighted => .skip fun summed => ?_
  refine .bind ensures_reshape.lift fun scores hscores => ?_
  refine .skip fun output => ?_
  rintro v ⟨⟩
  exact ⟨query, value, state, logits, mix, hquery, hvalue, hstate,
    hcheckValue, hcheckState, hmix, rfl, hscores⟩

omit [Scalar α] in
/-- The batch check tells it. -/
theorem extent_of_checkBatch {n : Nat} {t : Tensor α}
    (h : checkBatch n t.shape = .ok ()) : t.extent 0 = n := by
  have hhead := (of_ite_eq_ok h).1
  unfold extent
  cases hshape : t.shape with
  | nil =>
      rw [hshape] at hhead
      cases hhead
  | cons b ds =>
      rw [hshape] at hhead
      exact Option.some.inj hhead

/-- Results are only computed from inputs of one batch extent, which the
scores then have. -/
theorem Running.batches_of_values {k : Nat} {v : ForwardValues α}
    (h : Running p s dims st)
    (hv : forwardValues s k st.workspace = .ok v) :
    ∃ (query : Tensor α) (n : Nat), st.workspace.input s.query = .ok query
      ∧ v.scores.shape = [query.extent 0, 1, 1, n]
      ∧ ∀ t ∈ st.workspace.inputs, t.extent 0 = query.extent 0 := by
  obtain ⟨query, value, state, -, -, hquery, hvalue, hstate, hcheckValue,
    hcheckState, -, -, hscores⟩ := forwardValues_looks v hv
  refine ⟨query, _, hquery, hscores, ?_⟩
  rw [h.inputs_eq hquery hvalue hstate]
  exact List.forall_mem_cons.2 ⟨rfl, List.forall_mem_cons.2
    ⟨extent_of_checkBatch hcheckValue, List.forall_mem_cons.2
      ⟨extent_of_checkBatch hcheckState, List.forall_mem_nil _⟩⟩⟩

/-- The scores of a forward pass are stored with the batch extent of the
query, so in a pass that succeeds it is the current one. -/
theorem Running.batches_of_forward (h : Running p s dims st)
    (hrun : Layer.forward st = .ok () st') :
    ∀ t ∈ st.workspace.inputs, t.extent 0 = p.batch := by
  obtain ⟨v, hv, hfits, -, -⟩ :=
    (Layer.forward_ok_iff h.slots h.mixtures).1 hrun
  obtain ⟨query, _, -, hscores, hbatches⟩ := h.batches_of_values hv
  have hmem : (s.scores, p.scoresDims) ∈ s.scratch.zip p.scratchDims := by
    simp [Slots.scratch, SetupPlan.scratchDims]
  have hfit : st.workspace.fitsScratch s.scores v.scores = .ok () :=
    hfits (s.scores, v.scores) (by simp [ForwardValues.scratchStores])
  have hshape : v.scores.shape = p.scoresDims.toShape :=
    h.wired.shape_of_fits hmem hfit
  rw [hscores] at hshape
  exact fun t ht => (hbatches t ht).trans (List.cons.inj hshape).1

/-- The three inputs have the batch extent of the plan and the declared
extents beyond it. -/
structure Fed (p : SetupPlan) (s : Slots) (w : Workspace α) : Prop where
  query : HasShape (w.input s.query) [p.batch, 1, 1, p.queryWidth]
  value : HasShape (w.input s.value) [p.batch, 1, p.positions, p.valueWidth]
  state : HasShape (w.input s.state) [p.batch, 1, 1, p.mixtures]

omit [Scalar α] in
/-- What is fed depends on the inputs alone. -/
theorem Fed.congr (h : Fed p s w) {w' : Workspace α}
    (hsame : w'.inputs = w.inputs) : Fed p s w' := by
  refine ⟨?_, ?_, ?_⟩
  · rw [input_congr hsame]
    exact h.query
  · rw [input_congr hsame]
    exact h.value
  · rw [input_congr hsame]
    exact h.state

omit [Scalar α] in
/-- Beyond the batch the inputs always have the declared extents. -/
theorem Running.fed {b₀ : Nat}
    (h : Running p s { p with batch := b₀ }.inputDims st)
    (hbatch : ∀ t ∈ st.workspace.inputs, t.extent 0 = p.batch) :
    Fed p s st.workspace := by
  have hinput : ∀ (i : InputHandle) (d : Dims),
      { p with batch := b₀ }.inputDims[i.index]? = some d →
        HasShape (st.workspace.input i)
          [p.batch, d.channel, d.height, d.width] := by
    intro i d hd
    obtain ⟨t, hmem, ht, hshape⟩ := h.input hd
    rw [hbatch t hmem] at hshape
    exact ⟨t, ht, hshape⟩
  obtain ⟨i, j, rfl⟩ := h.wired.slots
  exact ⟨hinput ⟨0⟩ _ rfl, hinput ⟨1⟩ _ rfl, hinput ⟨2⟩ _ rfl⟩

omit [Scalar α] in
/-- The weights by shape, one by one. -/
theorem Wired.each_weight_shape (h : Wired p s w) (hsized : w.WeightsSized) :
    HasShape (w.weight s.hiddenWeight) [1, 1, p.queryWidth, p.unit]
      ∧ HasShape (w.weight s.hiddenBias) [1, 1, 1, p.unit]
      ∧ HasShape (w.weight s.packedWeight)
          [1, 1, p.unit, 3 * p.mixtures] := by
  have hshapes := h.weight_shapes hsized
  simp only [Slots.weights, SetupPlan.weightDims, List.zip_cons_cons,
    List.zip_nil_left, List.forall_mem_cons] at hshapes
  exact ⟨hshapes.1, hshapes.2.1, hshapes.2.2.1⟩

omit [Scalar α] in
/-- In a running session the three weights have the planned extents. -/
theorem Running.weight_shapes (h : Running p s dims st)
    (hsized : st.workspace.WeightsSized) :
    HasShape (st.workspace.weight s.hiddenWeight)
        [1, 1, p.queryWidth, p.unit]
      ∧ HasShape (st.workspace.weight s.hiddenBias) [1, 1, 1, p.unit]
      ∧ HasShape (st.workspace.weight s.packedWeight)
          [1, 1, p.unit, 3 * p.mixtures] :=
  h.wired.each_weight_shape hsized

/-- When the inputs are fed and the weights have their extents, there is
something to compute the forward pass from. -/
theorem Running.held (h : Running p s dims st)
    (hsized : st.workspace.WeightsSized) (hfed : Fed p s st.workspace) :
    ∃ c : Given α, c.Held p s st.workspace := by
  obtain ⟨hhidden, hbias, hpacked⟩ := h.weight_shapes hsized
  exact (Given.exists_held_iff p s st.workspace).2
    ⟨hfed.query, hfed.value, hfed.state, hhidden, hbias, hpacked⟩

/-- With inputs of the declared extents beyond the batch, the batch extents
alone decide whether a forward pass succeeds. -/
theorem Running.forward_ok_iff {b₀ : Nat}
    (h : Running p s { p with batch := b₀ }.inputDims st)
    (hsized : st.workspace.WeightsSized) :
    (∃ st', Layer.forward st = .ok () st')
      ↔ ∀ t ∈ st.workspace.inputs, t.extent 0 = p.batch := by
  constructor
  · rintro ⟨st', hrun⟩
    exact h.batches_of_forward hrun
  · intro hbatch
    obtain ⟨c, hheld⟩ := h.held hsized (h.fed hbatch)
    exact ⟨_, Layer.forward_succeeds h.slots h.mixtures h.wired hheld⟩

-- ================================================= after a forward pass

namespace Action

/-- The calls after which a forward pass still counts: no input is replaced,
no weight as a whole, and the batch extent stays. -/
def Rests : Action α → Prop
  | setIncoming _ _ => True
  | writeWeight _ _ _ => True
  | gradient _ => True
  | _ => False

omit [Scalar α] in
/-- A call that leaves the forward pass in place leaves all extents. -/
theorem Rests.sparesExtents {a : Action α} (h : a.Rests) :
    a.SparesExtents := by
  cases a <;> trivial

end Action

/-- What a forward pass is good for is not used up. -/
theorem fresh_step {a : Action α} (ha : a.Rests)
    (h : st.layer.memo ≠ .stale) :
    (final a.procedure st).layer.memo ≠ .stale := by
  cases a with
  | setIncoming i t =>
      unfold Action.procedure
      rw [layer_onWorkspace]
      exact h
  | writeWeight i n x =>
      unfold Action.procedure
      rw [layer_onWorkspace]
      exact h
  | gradient c =>
      rcases c.outcome st with ⟨e, he, -⟩ | ⟨st', f, -, hst', hrun, hfinal, -⟩
      · rw [Action.procedure, final_of_error he]
        exact h
      · rw [Action.procedure, final_congr hrun, hfinal]
        exact (Layer.ensureDifferentiated_again hst').2.2.2.1
  | setInput i t => exact ha.elim
  | replaceWeight i t => exact ha.elim
  | forward => exact ha.elim
  | setBatch n => exact ha.elim

/-- A forward pass succeeded and still counts. -/
structure Forwarded (p : SetupPlan) (s : Slots) (dims : List Dims)
    (st : Session α) : Prop where
  running : Running p s dims st
  fresh : st.layer.memo ≠ .stale
  weights : st.workspace.WeightsSized
  fed : Fed p s st.workspace
  output : HasShape (st.workspace.output 0) [p.batch, 1, 1, p.valueWidth]

/-- So it does when it has just succeeded. -/
theorem Running.forwarded {b₀ : Nat}
    (h : Running p s { p with batch := b₀ }.inputDims st)
    (hsized : st.workspace.WeightsSized)
    (hrun : Layer.forward st = .ok () st') :
    Forwarded p s { p with batch := b₀ }.inputDims st' := by
  have hfed := h.fed (h.batches_of_forward hrun)
  obtain ⟨c, hheld⟩ := h.held hsized hfed
  have hrunning := h.forward
  have hweights := weightsSized_step (a := .forward) hsized trivial
  rw [Action.procedure] at hweights
  rw [final_of_ok hrun] at hrunning hweights
  have hst' := Layer.forward_succeeds h.slots h.mixtures h.wired hheld
  rw [hrun] at hst'
  injection hst' with _ hst'
  subst hst'
  have hput : ((c.values p).put s st.workspace).inputs
      = st.workspace.inputs := by
    rw [ForwardValues.put_eq]
  exact ⟨hrunning, nofun, hweights, hfed.congr hput,
    ⟨_, ForwardValues.output_put s _ h.wired.outputs, rfl⟩⟩

/-- Such a call keeps the forward buffers. -/
theorem Forwarded.step (h : Forwarded p s dims st) {a : Action α}
    (ha : a.Rests) : Forwarded p s dims (final a.procedure st) := by
  let P (w : Workspace α) : Prop :=
    w.inputs = st.workspace.inputs ∧ w.outputs = st.workspace.outputs
  have hsame : P (final a.procedure st).workspace := by
    refine Action.keeps (fun c hc => ?_) st ⟨rfl, rfl⟩
    cases hc with
    | setIncoming i t => exact .stored (setIncoming_eq i t) fun _ hw _ => hw
    | writeWeight i n x =>
        have hreplace : ∀ t, Workspace.Keeps P (replaceWeight i t) :=
          fun t => .stored (replaceWeight_eq i t) fun _ hw _ => hw
        exact .inspect_bind fun w hw t _ => hreplace t w hw
    | setScratchGrad _ i t =>
        exact .stored (setScratchGrad_eq i t) fun _ hw _ => hw
    | setWeightGrad i t =>
        exact .stored (setWeightGrad_eq i t) fun _ hw _ => hw
    | setOutgoing i t => exact .stored (setOutgoing_eq i t) fun _ hw _ => hw
    | _ => exact ha.elim
  have hbatch : a.batch p.batch = p.batch := by
    cases a <;> first | rfl | exact ha.elim
  have hrunning := h.running.step a
  rw [hbatch] at hrunning
  refine ⟨hrunning, fresh_step ha h.fresh,
    weightsSized_step h.weights ha.sparesExtents, h.fed.congr hsame.1, ?_⟩
  unfold Workspace.output
  rw [hsame.2]
  exact h.output

/-- Any number of calls that leave the forward pass in place keep its buffers.
-/
theorem Forwarded.after (as : List (Action α)) :
    ∀ {st : Session α}, Forwarded p s dims st → (∀ a ∈ as, a.Rests) →
      Forwarded p s dims (st.after as) := by
  induction as with
  | nil => exact fun h _ => h
  | cons a as ih =>
      intro st h has
      rw [List.forall_mem_cons] at has
      exact ih (h.step has.1) has.2

-- ========================================================== the gradients

/-- Everything that a gradient call looks at is there and of the right
shape. -/
structure Ready (p : SetupPlan) (s : Slots) (dims : List Dims)
    (st : Session α) : Prop extends Forwarded p s dims st where
  incoming : HasShape (st.workspace.incomingAt 0)
    [p.batch, 1, 1, p.valueWidth]

/-- With a fresh memo the packed derivative is there or can be computed from
the values and the derivative with respect to the output. -/
theorem Running.ensureDifferentiated_ok (h : Running p s dims st)
    (hfresh : st.layer.memo ≠ .stale)
    (hincoming : HasShape (st.workspace.incomingAt 0)
      [p.batch, 1, 1, p.valueWidth])
    (hvalue : HasShape (st.workspace.input s.value)
      [p.batch, 1, p.positions, p.valueWidth]) :
    ∃ st' d, Layer.ensureDifferentiated st = .ok () st'
      ∧ st'.layer.memo = .differentiated d
      ∧ d.shape = [p.batch, 1, 1, p.mixtures] := by
  cases hm : st.layer.memo with
  | stale => exact absurd hm hfresh
  | differentiated d =>
      exact ⟨st, d, Layer.ensureDifferentiated_of_differentiated hm, hm,
        h.memo d hm⟩
  | forwarded =>
      obtain ⟨d, hd, hpacked, hstate⟩ :=
        packedDerivative_shape (h.wired.laid h.sound) hincoming hvalue
      have hfits : Layer.fitsPacked s st.workspace d = .ok () := by
        have hdims := h.wired.scratch
        simp only [Slots.scratch, SetupPlan.scratchDims, List.map_cons,
          List.cons.injEq] at hdims
        obtain ⟨grad, hgrad⟩ := h.wired.packedGrad
        have hfit : st.workspace.fitsScratch s.packed d.packed = .ok () :=
          fitsScratch_of_dims hdims.2.2.1 hpacked
        rw [Layer.fitsPacked, hfit, ok_bind, hgrad]
        rfl
      have hrun : Layer.ensureDifferentiated st
          = .ok () (st.withDerivative s d) := by
        rw [Layer.ensureDifferentiated_of_forwarded hm]
        exact Layer.differentiate_ok_iff.2
          ⟨s, p.mixtures, d, h.slots, h.mixtures, hd, hfits, rfl⟩
      exact ⟨_, d.state, hrun, rfl, hstate⟩

/-- The packed derivative is there or can be computed; either way nothing
but its own buffer is touched. -/
theorem Ready.ensureDifferentiated (h : Ready p s dims st) :
    ∃ st' d, Layer.ensureDifferentiated st = .ok () st'
      ∧ Ready p s dims st'
      ∧ st'.layer.memo = .differentiated d
      ∧ d.shape = [p.batch, 1, 1, p.mixtures] := by
  obtain ⟨st', d, hrun, hmemo, hshape⟩ :=
    h.running.ensureDifferentiated_ok h.fresh h.incoming h.fed.value
  refine ⟨st', d, hrun, ?_, hmemo, hshape⟩
  rcases Layer.ensureDifferentiated_ok hrun with
    ⟨_, -, rfl⟩ | ⟨s', r, -, -, rfl⟩
  · exact h
  · exact ⟨⟨h.running.ensureDifferentiated hrun, nofun, h.weights,
      h.fed.congr rfl, h.output⟩, h.incoming⟩

/-- Gradients of the weights that have their extents are stored, all
three. -/
theorem Wired.weightGradients_stored (h : Wired p s st.workspace)
    {d : WeightDerivatives α} (hd : weightDerivatives .release s st.workspace = .ok d)
    (hhidden : d.hiddenWeight.shape = [1, 1, p.queryWidth, p.unit])
    (hbias : d.hiddenBias.shape = [1, 1, 1, p.unit])
    (hpacked : d.packedWeight.shape = [1, 1, p.unit, 3 * p.mixtures]) :
    ∃ st', Layer.storeWeightGradients s st = .ok () st' := by
  have hdims := h.weights
  simp only [Slots.weights, SetupPlan.weightDims, List.map_cons,
    List.cons.injEq] at hdims
  obtain ⟨hhiddenDims, hbiasDims, hpackedDims, -⟩ := hdims
  have hfits : ∀ q ∈ Layer.weightStores s d,
      st.workspace.fitsWeight q.1 q.2 = .ok () := by
    simp only [Layer.weightStores, List.forall_mem_cons]
    exact ⟨fitsWeight_of_dims hpackedDims hpacked,
      fitsWeight_of_dims hhiddenDims hhidden,
      fitsWeight_of_dims hbiasDims hbias, List.forall_mem_nil _⟩
  have hstore := (storeAll_ok_iff
    (fun (q : WeightHandle × Tensor α) => setWeightGrad_eq q.1 q.2)
    (fun q q' => fitsWeight_putWeightGrad q.1 q'.1 q.2 q'.2)
    (Layer.weightStores s d) st.workspace _).2 ⟨hfits, rfl⟩
  rw [Layer.storeWeightGradients_eq hd]
  exact ⟨_, onWorkspace_of_ok hstore⟩

/-- The gradients of the weights are computed and stored. -/
theorem Ready.weightGradients (h : Ready p s dims st) :
    ∃ st', Layer.weightGradients .release st = .ok () st' := by
  obtain ⟨st₁, -, hrun, h₁, -, -⟩ := h.ensureDifferentiated
  have hwired := h₁.running.wired
  obtain ⟨hhidden, -, hpacked⟩ := h₁.running.weight_shapes h₁.weights
  obtain ⟨d, hd, hdhidden, hdbias, hdpacked⟩ := weightDerivatives_shape
    (hwired.laid h₁.running.sound) h₁.fed.query hpacked hhidden
  rw [Layer.weightGradients_eq h.running.slots, hrun]
  exact hwired.weightGradients_stored hd hdhidden hdbias hdpacked

/-- The derivatives with respect to the inputs are computed and stored, each
with the shape of its input. -/
theorem Ready.inputGradients (h : Ready p s dims st) :
    ∃ st', Layer.inputGradients .release st = .ok () st'
      ∧ st'.workspace.outgoing.map (·.shape)
          = st'.workspace.inputs.map (·.shape) := by
  obtain ⟨dvalue, hdvalue, hvalueShape⟩ := valueDerivative_shape
    (h.running.wired.laid h.running.sound) h.incoming h.fed.value
  obtain ⟨st₁, dstate, hrun, h₁, hm, hstateShape⟩ :=
    h.ensureDifferentiated
  obtain ⟨hhidden, -, hpacked⟩ := h₁.running.weight_shapes h₁.weights
  obtain ⟨dquery, hdquery, hqueryShape⟩ := queryDerivative_shape
    (h₁.running.wired.laid h₁.running.sound) hpacked hhidden
  obtain ⟨query, hquery, hquerySame⟩ := h₁.fed.query
  obtain ⟨value, hvalue, hvalueSame⟩ := h₁.fed.value
  obtain ⟨state, hstate, hstateSame⟩ := h₁.fed.state
  -- each derivative has the extents of its input
  have hfits : ∀ q ∈ Layer.inputStores s dquery dvalue dstate,
      st₁.workspace.fitsInput q.1 q.2 = .ok () := by
    simp only [Layer.inputStores, List.forall_mem_cons, fitsInput, hquery,
      hvalue, hstate]
    exact ⟨if_pos (hquerySame.trans hqueryShape.symm),
      if_pos (hvalueSame.trans hvalueShape.symm),
      if_pos (hstateSame.trans hstateShape.symm), List.forall_mem_nil _⟩
  have hstore := (storeAll_ok_iff
    (fun (q : InputHandle × Tensor α) => setOutgoing_eq q.1 q.2)
    (fun _ _ _ => rfl) (Layer.inputStores s dquery dvalue dstate)
    st₁.workspace _).2 ⟨hfits, rfl⟩
  have hdstate : st₁.layer.stateDerivative = .ok dstate := by
    rw [Layer.stateDerivative, hm]
  refine ⟨st₁.edit (putOutgoings
    (Layer.inputStores s dquery dvalue dstate)), ?_, ?_⟩
  · rw [Layer.inputGradients_eq h.running.slots h.fresh, hdvalue]
    dsimp only
    rw [hrun]
    dsimp only
    rw [Layer.storeInputGradients_eq hdquery hdstate]
    exact onWorkspace_of_ok hstore
  · have hinputs := h₁.running.inputs_eq hquery hvalue hstate
    have hkeep : (st₁.workspace.putOutgoings (Layer.inputStores s dquery
        dvalue dstate)).inputs = st₁.workspace.inputs := by
      rw [putOutgoings_eq]
    show (st₁.workspace.putOutgoings _).outgoing.map _
      = (st₁.workspace.putOutgoings _).inputs.map _
    rw [h₁.running.outgoing_put, hkeep, hinputs]
    simp only [List.map_cons, List.map_nil, hqueryShape, hvalueShape,
      hstateShape, hquerySame, hvalueSame, hstateSame]

/-- A gradient call succeeds and leaves everything ready for the next. -/
theorem Ready.gradient (h : Ready p s dims st) (c : GradientCall) :
    ∃ st', c.procedure st = .ok () st' ∧ Ready p s dims st' := by
  obtain ⟨st', hrun⟩ : ∃ st', c.procedure st = .ok () st' := by
    cases c with
    | weights => exact h.weightGradients
    | inputs =>
        obtain ⟨st', hrun, -⟩ := h.inputGradients
        exact ⟨st', hrun⟩
  let P (w : Workspace α) : Prop :=
    HasShape (w.incomingAt 0) [p.batch, 1, 1, p.valueWidth]
  have hincoming : P (final (Action.gradient c).procedure st).workspace := by
    refine Action.keeps (fun _ hc => ?_) st h.incoming
    cases hc with
    | setScratchGrad _ i t =>
        exact .stored (setScratchGrad_eq i t) fun _ hw _ => hw
    | setWeightGrad i t =>
        exact .stored (setWeightGrad_eq i t) fun _ hw _ => hw
    | setOutgoing i t => exact .stored (setOutgoing_eq i t) fun _ hw _ => hw
  have hforwarded := h.toForwarded.step (a := .gradient c) trivial
  rw [Action.procedure, final_of_ok hrun] at hforwarded hincoming
  exact ⟨st', hrun, hforwarded, hincoming⟩

-- ============================================================= the step

/-- What a step leaves when it is over: every buffer has the extents of what
it is about. -/
structure Finished (p : SetupPlan) (s : Slots) (w : Workspace α) : Prop where
  output : HasShape (w.output 0) [p.batch, 1, 1, p.valueWidth]
  scratch : ∀ q ∈ s.scratch.zip p.scratchDims,
    HasShape (w.scratchValue q.1) q.2.toShape
  packedGrad : HasShape (w.scratchGrad s.packed) p.packedDims.toShape
  outgoing : w.outgoing.map (·.shape) = w.inputs.map (·.shape)
  weightGrads : w.weights.map (·.grad.shape) = w.weights.map (·.value.shape)

omit [Scalar α] in
/-- Ready to be differentiated, with outgoing buffers of the inputs' shapes, a
workspace is finished. -/
theorem Ready.finished (h : Ready p s dims st)
    (houtgoing : st.workspace.outgoing.map (·.shape)
      = st.workspace.inputs.map (·.shape)) :
    Finished p s st.workspace := by
  have hwired := h.running.wired
  have hsound := h.running.sound
  refine ⟨h.output, hwired.scratch_shapes hsound,
    hwired.packedGrad_shape hsound, houtgoing, ?_⟩
  refine List.map_congr_left fun e he => ?_
  exact (hsound.weightGrads e he).trans (h.weights e he).symm

/-- Both gradient calls succeed, in either order. -/
theorem Ready.gradients (h : Ready p s dims st) {c c' : GradientCall}
    (hne : c ≠ c') :
    ∃ st₁ st₂, c.procedure st = .ok () st₁ ∧ c'.procedure st₁ = .ok () st₂
      ∧ Finished p s st₂.workspace := by
  obtain ⟨st₁, hrun₁, h₁⟩ := h.gradient c
  obtain ⟨st₂, hrun₂, h₂⟩ := h₁.gradient c'
  refine ⟨st₁, st₂, hrun₁, hrun₂, h₂.finished ?_⟩
  cases c' with
  | inputs =>
      obtain ⟨st', hrun, hshapes⟩ := h₁.inputGradients
      rw [show GradientCall.inputs.procedure st₁ = _ from hrun] at hrun₂
      cases hrun₂
      exact hshapes
  | weights =>
      cases c with
      | weights => exact absurd rfl hne
      | inputs =>
          obtain ⟨st', hrun, hshapes⟩ := h.inputGradients
          rw [show GradientCall.inputs.procedure st = _ from hrun] at hrun₁
          cases hrun₁
          let P (w : Workspace α) : Prop :=
            w.outgoing.map (·.shape) = w.inputs.map (·.shape)
          have hkept : P (final (Action.gradient .weights).procedure
              st₁).workspace := by
            refine Action.keeps (fun _ hc => ?_) st₁ hshapes
            cases hc with
            | setScratchGrad _ i t =>
                exact .stored (setScratchGrad_eq i t) fun _ hw _ => hw
            | setWeightGrad i t =>
                exact .stored (setWeightGrad_eq i t) fun _ hw _ => hw
          rw [Action.procedure, final_of_ok hrun₂] at hkept
          exact hkept

/-- When a step succeeds. A layer is set up on a query, a sequence of values
and a state of one batch extent, and a workspace is built for it. Whatever
is called then, each call answered or refused, a forward pass succeeds
exactly if the three inputs have the batch extent that was set last. After
one that does both gradient calls succeed in either order, provided that no
input was replaced and that the derivative with respect to the output has
the extents of the output; every buffer then has the extents that are
declared for the current batch.

The machine must have room for what is requested and for the batches that
come up. Then it has room for the current one, and every buffer that a step
works on is allocated with its extents. -/
theorem step_succeeds_iff_batches_agree {l : Layer α} {b : Blueprint}
    {setup : Setup α} (hinputs : b.inputs = p.inputDims)
    (hunit : l.settings.unit = some p.unit)
    (hfinal : Setup.finalize ⟨l, b⟩ = .ok () setup)
    (hslots : setup.layer.slots = some s) (g : Generator) (seed : UInt64)
    {as : List (Action α)} (hroom : setup.HasRoom p as)
    (has : ∀ a ∈ as, a.SparesExtents) :
    let st := (Session.start setup g seed).after as
    let n := batchAfter as p.batch
    Machine.Allocates α { p with batch := n }.dims
      ∧ ((∃ st', Layer.forward st = .ok () st')
        ↔ st.workspace.inputs.map (·.extent 0) = [n, n, n])
      ∧ ∀ st', Layer.forward st = .ok () st' →
        ∀ later : List (Action α), (∀ a ∈ later, a.Fits p ∧ a.Rests) →
          HasShape ((st'.after later).workspace.incomingAt 0)
            [n, 1, 1, p.valueWidth] →
          ∀ c c' : GradientCall, c ≠ c' →
            ∃ st₁ st₂, c.procedure (st'.after later) = .ok () st₁
              ∧ c'.procedure st₁ = .ok () st₂
              ∧ Finished { p with batch := n } s st₂.workspace := by
  intro st n
  obtain ⟨p', s', hplan, hstart, hbuilt⟩ := running_start hfinal g seed
  obtain rfl : s = s' := Option.some.inj (hslots.symm.trans hstart.slots)
  rw [hinputs] at hplan hstart
  obtain rfl := SetupPlan.eq_of_inputDims hplan hunit
  have hrun : Running { p with batch := n } s
      { { p with batch := n } with batch := p.batch }.inputDims st :=
    hstart.after as
  have hsized := weightsSized_after as hbuilt has
  refine ⟨?_, ?_, ?_⟩
  · obtain ⟨p', hplan', rfl⟩ := Setup.finalize_cases hfinal
    rw [hinputs, hplan] at hplan'
    cases hplan'
    exact Machine.HasRoom.allocates (addressable_batchAfter as hroom.calls
      (Setup.addressable_of_finalized hinputs hroom.requests))
  · have hlen : st.workspace.inputs.length = 3 := hrun.wired.inputs
    rw [hrun.forward_ok_iff hsized, show [n, n, n] = List.replicate 3 n from
      rfl, ← hlen, List.map_eq_replicate_iff]
  · intro st' hforward later hlater hincoming c c' hne
    have hready : Ready { p with batch := n } s _ (st'.after later) :=
      ⟨(hrun.forwarded hsized hforward).after later
        fun a ha => (hlater a ha).2, hincoming⟩
    exact hready.gradients hne

/-- Calls that change the batch extent to one, with a gradient call on the
way that is refused. -/
def resizingCalls : List (Action Float) :=
  [.setBatch 1, .setInput ⟨0⟩ (.full [1, 1, 1, 3] 0.5), .gradient .weights,
    .setInput ⟨1⟩ (.full [1, 1, 3, 1] 2), .setInput ⟨2⟩ (.full [1, 1, 1, 2] 1)]

/-- The theorem for a layer in binary64 that was set up for a batch of
two. -/
theorem step_succeeds_iff_batches_agree_resized :
    ∃ st' st₁ st₂,
      Layer.forward ((Session.blank ⟨2, 3, 3, 1, 2, 2⟩).after resizingCalls)
          = .ok () st'
        ∧ Layer.inputGradients .release
            (st'.after [.setIncoming 0 (.zeros [1, 1, 1, 1])]) = .ok () st₁
        ∧ Layer.weightGradients .release st₁ = .ok () st₂
        ∧ Finished ⟨1, 3, 3, 1, 2, 2⟩ (.startingAt 0 0) st₂.workspace := by
  have hsparing : ∀ a ∈ resizingCalls, a.SparesExtents := by
    simp [resizingCalls, Action.SparesExtents]
  have hroom : Setup.HasRoom ⟨(Session.blank ⟨2, 3, 3, 1, 2, 2⟩).layer,
      Setup.finalized ⟨2, 3, 3, 1, 2, 2⟩
        (Session.blankSettings ⟨2, 3, 3, 1, 2, 2⟩)
        (Session.blankBlueprint ⟨2, 3, 3, 1, 2, 2⟩)⟩
      ⟨2, 3, 3, 1, 2, 2⟩ resizingCalls :=
    ⟨by decide, by decide⟩
  obtain ⟨-, hiff, hstep⟩ := step_succeeds_iff_batches_agree
    (p := ⟨2, 3, 3, 1, 2, 2⟩) rfl rfl
    (Session.blank_finalize _ (by decide) (by decide)) rfl
    Generator.splitMix 0 hroom hsparing
  obtain ⟨st', hforward⟩ := hiff.2 rfl
  have hincoming : Given.HasShape ((st'.after
      [.setIncoming 0 (.zeros [1, 1, 1, 1])]).workspace.incomingAt 0)
      [1, 1, 1, 1] := by
    obtain ⟨v, -, -, -, hput⟩ :=
      (Layer.forward_ok_iff (s := .startingAt 0 0) rfl rfl).1 hforward
    rw [hput, Session.withWorkspace, ForwardValues.put_eq]
    exact ⟨.zeros [1, 1, 1, 1], rfl, rfl⟩
  have hlater : ∀ a ∈ ([.setIncoming 0 (.zeros [1, 1, 1, 1])]
      : List (Action Float)), a.Fits ⟨2, 3, 3, 1, 2, 2⟩ ∧ a.Rests := by
    rw [List.forall_mem_singleton]
    exact ⟨by decide, trivial⟩
  obtain ⟨st₁, st₂, hinputs, hweights, hfinished⟩ :=
    hstep st' hforward _ hlater hincoming .inputs .weights nofun
  exact ⟨st', st₁, st₂, hforward, hinputs, hweights, hfinished⟩

end MixtureAttention
