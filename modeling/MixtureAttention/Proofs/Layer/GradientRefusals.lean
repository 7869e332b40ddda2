/-
What a refused gradient call leaves. Both gradient procedures compute
everything before they store anything, so a refusal can undo the work of an
earlier store only where a store itself is refused.

For the weights that never happens: a gradient that is computed has the
extents of its weight. For the inputs it happens in one case, and at the
last of three stores. The derivative with respect to the values always has
their extents, and that with respect to the query is stored first; the
derivative with respect to the state has the batch extent of the scratch
buffers, and a state of another one may have been stored since
(`StoppedAtState`).
-/
import MixtureAttention.Proofs.Layer.Readiness
import MixtureAttention.Proofs.Tensor.Acceptance

namespace MixtureAttention

open Tensor Workspace Procedure
open Given (HasShape)

variable {α : Type} [Scalar α] {p : SetupPlan} {s : Slots}
  {w : Workspace α} {st st' : Session α} {b₀ : Nat} {e : LayerError}

-- ================================================= gradients by their shape

/-- A gradient with respect to a right factor that is computed has the shape
of the factor. -/
theorem ensures_gradRight {b l k b' k' n : Nat} {t u : Tensor α}
    (ht : t.shape = [b, 1, l, k]) :
    Ensures (fun v => v.shape = [b', 1, k', n])
      (t.matmulGradRight .release u [b', 1, k', n]) := by
  intro v hv
  have hrank : [b', 1].length = [b, 1].length := rfl
  have hdecided : Decided
      (k' = k ∧ u.shape = [b, 1] ++ [l, n] ∧ Shape.Serves [b', 1] [b, 1])
      ([b', 1] ++ [k', n]) (t.matmulGradRight .release u ([b', 1] ++ [k', n])) :=
    decided_matmulGradRight ht hrank u
  exact (hdecided.of_ok hv).2

/-- Weight gradients that are computed have the extents of the weights,
whatever batch extent the query has. -/
theorem ensures_weightDerivatives {n : Nat} (hlaid : Laid p s w)
    (hquery : HasShape (w.input s.query) [n, 1, 1, p.queryWidth])
    (hpackedWeight : HasShape (w.weight s.packedWeight)
      [1, 1, p.unit, 3 * p.mixtures])
    (hhiddenWeight : HasShape (w.weight s.hiddenWeight)
      [1, 1, p.queryWidth, p.unit]) :
    Ensures (fun d => d.hiddenWeight.shape = [1, 1, p.queryWidth, p.unit]
        ∧ d.hiddenBias.shape = [1, 1, 1, p.unit]
        ∧ d.packedWeight.shape = [1, 1, p.unit, 3 * p.mixtures])
      (weightDerivatives .release s w) := by
  unfold weightDerivatives
  refine .bind (Returns.ensures hlaid.hidden) fun hidden hhidden => ?_
  refine .skip fun dpacked => ?_
  refine .bind (Returns.ensures hpackedWeight) fun weight hweight => ?_
  rw [hweight]
  refine .bind (ensures_gradRight hhidden).lift fun packedWeight hpacked => ?_
  refine .bind (hiddenDerivative_shape hlaid hpackedWeight).ensures
    fun dsum hdsum => ?_
  refine .bind (Returns.ensures hquery) fun query hquery => ?_
  refine .bind (Returns.ensures hhiddenWeight) fun weight hweight => ?_
  rw [hweight]
  refine .bind (ensures_gradRight hquery).lift fun hiddenWeight hhidden => ?_
  refine .bind (shape_sumToRow hdsum).lift.ensures fun hiddenBias hbias => ?_
  rintro d ⟨⟩
  exact ⟨hhidden, hbias, hpacked⟩

/-- The derivative with respect to the values, if it is computed, has their
shape. -/
theorem ensures_valueDerivative (hlaid : Laid p s w) {value : Tensor α}
    {n : Nat} (hvalue : w.input s.value = .ok value)
    (hshape : value.shape = [n, 1, p.positions, p.valueWidth]) :
    Ensures (fun v => v.shape = value.shape) (valueDerivative .release s w) := by
  unfold valueDerivative
  refine .bind (Returns.ensures hlaid.scores) fun scores hscores => ?_
  refine .skip fun dout => ?_
  rw [hvalue, ok_bind, hshape]
  exact (ensures_gradRight hscores).lift

-- ============================================================== the weights

/-- A packed derivative is stored apart from inputs, weights and
derivatives. -/
theorem Layer.rest_ensureDifferentiated
    (h : Layer.ensureDifferentiated st = .ok () st') :
    st'.workspace.inputs = st.workspace.inputs
      ∧ st'.workspace.outgoing = st.workspace.outgoing
      ∧ st'.workspace.weights = st.workspace.weights
      ∧ ∃ dstate, st'.layer.memo = .differentiated dstate := by
  rcases Layer.ensureDifferentiated_ok h with
    ⟨dstate, hm, rfl⟩ | ⟨_, d, -, -, rfl⟩
  · exact ⟨rfl, rfl, rfl, dstate, hm⟩
  · exact ⟨rfl, rfl, rfl, d.state, rfl⟩

omit [Scalar α] in
/-- The three inputs of a running session, by shape. -/
theorem Running.input_shapes
    (h : Running p s { p with batch := b₀ }.inputDims st) :
    ∃ query value state, st.workspace.input s.query = .ok query
      ∧ st.workspace.input s.value = .ok value
      ∧ st.workspace.input s.state = .ok state
      ∧ query.shape = [query.extent 0, 1, 1, p.queryWidth]
      ∧ value.shape = [value.extent 0, 1, p.positions, p.valueWidth]
      ∧ state.shape = [state.extent 0, 1, 1, p.mixtures] := by
  obtain ⟨i, j, hs⟩ := h.wired.slots
  obtain ⟨query, -, hquery, hqueryShape⟩ := h.input (i := ⟨0⟩) rfl
  obtain ⟨value, -, hvalue, hvalueShape⟩ := h.input (i := ⟨1⟩) rfl
  obtain ⟨state, -, hstate, hstateShape⟩ := h.input (i := ⟨2⟩) rfl
  subst hs
  exact ⟨query, value, state, hquery, hvalue, hstate, hqueryShape,
    hvalueShape, hstateShape⟩

/-- Gradients of the weights that are computed are stored, all three. -/
theorem Running.weightGradients_stored
    (h : Running p s { p with batch := b₀ }.inputDims st)
    (hsized : st.workspace.WeightsSized) {d : WeightDerivatives α}
    (hd : weightDerivatives .release s st.workspace = .ok d) :
    ∃ st', Layer.storeWeightGradients s st = .ok () st' := by
  obtain ⟨query, -, -, hquery, -, -, hqueryShape, -⟩ := h.input_shapes
  obtain ⟨hhidden, -, hpacked⟩ := h.weight_shapes hsized
  obtain ⟨hdhidden, hdbias, hdpacked⟩ := ensures_weightDerivatives
    (h.wired.laid h.sound) ⟨query, hquery, hqueryShape⟩ hpacked hhidden d hd
  exact h.wired.weightGradients_stored hd hdhidden hdbias hdpacked

/-- A refused call leaves every weight and every weight's gradient. -/
theorem Running.weightGradients_refused
    (h : Running p s { p with batch := b₀ }.inputDims st)
    (hsized : st.workspace.WeightsSized)
    (hrun : Layer.weightGradients .release st = .error e st') :
    st'.workspace.weights = st.workspace.weights := by
  rw [Layer.weightGradients_eq h.slots] at hrun
  rcases Layer.ensureDifferentiated_error_or_ok st with ⟨_, he⟩ | ⟨st₁, hok⟩
  · rw [he] at hrun
    cases hrun
    rfl
  · rw [hok] at hrun
    dsimp only at hrun
    obtain ⟨-, -, hweights, -⟩ := Layer.rest_ensureDifferentiated hok
    have hsized₁ := hsized.congr hweights
    cases hd : weightDerivatives .release s st₁.workspace with
    | error _ =>
        unfold Layer.storeWeightGradients at hrun
        rw [bind_of_error (read_of_error hd)] at hrun
        cases hrun
        exact hweights
    | ok d =>
        obtain ⟨st₂, hstored⟩ :=
          (h.ensureDifferentiated hok).weightGradients_stored hsized₁ hd
        rw [hstored] at hrun
        cases hrun

-- =============================================================== the inputs

/-- A call that was refused at its last store: the derivatives with respect
to the query and the values were stored, and then the one with respect to
the state did not have the batch extent of the state. -/
structure StoppedAtState (p : SetupPlan) (s : Slots) (st : Session α)
    (e : LayerError) (st' : Session α) : Prop where
  query : ∃ t, st.workspace.input s.query = .ok t ∧ t.extent 0 = p.batch
  state : ∃ t, st.workspace.input s.state = .ok t ∧ t.extent 0 ≠ p.batch
    ∧ e = .tensor (.shapeMismatch t.shape [p.batch, 1, 1, p.mixtures])
  stored : ∃ dquery dvalue, dquery.shape = [p.batch, 1, 1, p.queryWidth]
    ∧ st'.workspace.outgoing = (st.workspace.putOutgoings
        [(s.query, dquery), (s.value, dvalue)]).outgoing

omit [Scalar α] in
/-- Three derivatives to be stored, of which the second fits: a refusal is
due to the first, or to the third after the other two were stored. -/
theorem storeInputs_refused {dquery dvalue dstate : Tensor α}
    {w' : Workspace α} (hvalue : w.fitsInput s.value dvalue = .ok ())
    (h : storeAll (fun q => setOutgoing q.1 q.2)
      (Layer.inputStores s dquery dvalue dstate) w = .error e w') :
    w' = w ∨ w.fitsInput s.query dquery = .ok ()
      ∧ w.fitsInput s.state dstate = .error e
      ∧ w' = w.putOutgoings [(s.query, dquery), (s.value, dvalue)] := by
  obtain ⟨made, q, rest, hsplit, hmade, hq, hleft⟩ := storeAll_refused
    (fun (q : InputHandle × Tensor α) => setOutgoing_eq q.1 q.2)
    (fun _ _ _ => rfl) h
  unfold Layer.inputStores at hsplit
  match made, hsplit with
  | [], _ => exact .inl hleft
  | [_], hsplit =>
      injection hsplit with _ hsplit
      injection hsplit with hsecond _
      rw [← hsecond, hvalue] at hq
      cases hq
  | [_, _], hsplit =>
      injection hsplit with hfirst hsplit
      injection hsplit with hsecond hsplit
      injection hsplit with hthird _
      subst hfirst hsecond hthird
      exact .inr ⟨hmade _ (List.mem_cons_self ..), hq, hleft⟩
  | _ :: _ :: _ :: made, hsplit =>
      injection hsplit with _ hsplit
      injection hsplit with _ hsplit
      injection hsplit with _ hsplit
      cases made <;> cases hsplit

omit [Scalar α] in
/-- If the third alone does not fit, the other two are stored. -/
theorem storeInputs_stopped {dquery dvalue dstate : Tensor α}
    (hquery : w.fitsInput s.query dquery = .ok ())
    (hvalue : w.fitsInput s.value dvalue = .ok ())
    (hstate : w.fitsInput s.state dstate = .error e) :
    storeAll (fun q => setOutgoing q.1 q.2)
        (Layer.inputStores s dquery dvalue dstate) w
      = .error e (w.putOutgoings [(s.query, dquery), (s.value, dvalue)]) := by
  show EStateM.bind (setOutgoing s.query dquery) (fun _ =>
    EStateM.bind (setOutgoing s.value dvalue) fun _ =>
      EStateM.bind (setOutgoing s.state dstate) fun _ => pure ()) w = _
  unfold EStateM.bind
  have hvalue' : (w.putOutgoing s.query dquery).fitsInput s.value dvalue
      = .ok () := hvalue
  have hstate' : ((w.putOutgoing s.query dquery).putOutgoing s.value
      dvalue).fitsInput s.state dstate = .error e := hstate
  simp only [setOutgoing_eq, hquery, stored, hvalue', hstate']
  rfl

omit [Scalar α] in
theorem fitsInput_of_input {i : InputHandle} {t u : Tensor α}
    (ht : w.input i = .ok t) :
    w.fitsInput i u = checkExact t.shape u := by
  rw [fitsInput, ht, ok_bind]

omit [Scalar α] in
/-- A shape that is refused is another one, and the refusal names both. -/
theorem checkExact_refused {expected : Shape} {t : Tensor α}
    (h : checkExact expected t = .error e) :
    expected ≠ t.shape ∧ e = .tensor (.shapeMismatch expected t.shape) := by
  unfold checkExact at h
  split at h
  · cases h
  · next hne => exact ⟨hne, by injection h with h; exact h.symm⟩

omit [Scalar α] in
/-- It is said of the inputs and the derivatives alone. -/
theorem StoppedAtState.congr {st₁ : Session α}
    (h : StoppedAtState p s st₁ e st')
    (hinputs : st₁.workspace.inputs = st.workspace.inputs)
    (houtgoing : st₁.workspace.outgoing = st.workspace.outgoing) :
    StoppedAtState p s st e st' := by
  have hlook := input_congr hinputs.symm
  obtain ⟨dquery, dvalue, hshape, hleft⟩ := h.stored
  rw [putOutgoings_eq] at hleft
  dsimp only at hleft
  rw [houtgoing] at hleft
  refine ⟨?_, ?_, dquery, dvalue, hshape, ?_⟩
  · rw [hlook]
    exact h.query
  · rw [hlook]
    exact h.state
  · rw [putOutgoings_eq]
    exact hleft

/-- Once the packed derivative is there and the derivative with respect to
the values fits, only a store can be refused. -/
theorem Running.storeInputGradients_refused
    (h : Running p s { p with batch := b₀ }.inputDims st)
    (hsized : st.workspace.WeightsSized) {dvalue dstate : Tensor α}
    (hmemo : st.layer.memo = .differentiated dstate)
    (hfit : st.workspace.fitsInput s.value dvalue = .ok ())
    (hrun : Layer.storeInputGradients s dvalue st = .error e st') :
    st'.workspace.outgoing = st.workspace.outgoing
      ∨ StoppedAtState p s st e st' := by
  obtain ⟨query, -, state, hquery, -, hstate, hqueryShape, -, hstateShape⟩ :=
    h.input_shapes
  obtain ⟨hhidden, -, hpacked⟩ := h.weight_shapes hsized
  obtain ⟨dquery, hdquery, hdqueryShape⟩ := queryDerivative_shape
    (h.wired.laid h.sound) hpacked hhidden
  have hdstateShape := h.memo dstate hmemo
  have hdstate : st.layer.stateDerivative = .ok dstate := by
    rw [Layer.stateDerivative, hmemo]
  rw [Layer.storeInputGradients_eq hdquery hdstate] at hrun
  cases hstore : storeAll (fun q => setOutgoing q.1 q.2)
      (Layer.inputStores s dquery dvalue dstate) st.workspace with
  | ok _ w' =>
      rw [onWorkspace_of_ok hstore] at hrun
      cases hrun
  | error e' w' =>
      rw [onWorkspace_of_error hstore] at hrun
      cases hrun
      -- the values always fit, so a store stops at the query or at the state
      rcases storeInputs_refused hfit hstore with
        rfl | ⟨hfirst, hthird, rfl⟩
      · exact .inl rfl
      · right
        rw [fitsInput_of_input hquery] at hfirst
        rw [fitsInput_of_input hstate] at hthird
        have hbatch : query.extent 0 = p.batch := by
          have hsame := (of_ite_eq_ok hfirst).1
          rw [hqueryShape, hdqueryShape] at hsame
          exact (List.cons.inj hsame).1
        obtain ⟨hother, hwords⟩ := checkExact_refused hthird
        rw [hdstateShape] at hother hwords
        refine ⟨⟨query, hquery, hbatch⟩, ⟨state, hstate, ?_, hwords⟩,
          dquery, dvalue, hdqueryShape, rfl⟩
        intro hsame
        rw [hstateShape, hsame] at hother
        exact hother rfl

/-- A refused call leaves the derivatives with respect to the inputs, unless
it got as far as the state. -/
theorem Running.inputGradients_refused
    (h : Running p s { p with batch := b₀ }.inputDims st)
    (hsized : st.workspace.WeightsSized)
    (hrun : Layer.inputGradients .release st = .error e st') :
    st'.workspace.outgoing = st.workspace.outgoing
      ∨ StoppedAtState p s st e st' := by
  by_cases hm : st.layer.memo = .stale
  · rw [Layer.inputGradients_of_stale h.slots hm] at hrun
    cases hrun
    exact .inl rfl
  rw [Layer.inputGradients_eq h.slots hm] at hrun
  cases hv : valueDerivative .release s st.workspace with
  | error _ =>
      rw [hv] at hrun
      cases hrun
      exact .inl rfl
  | ok dvalue =>
      rw [hv] at hrun
      dsimp only at hrun
      rcases Layer.ensureDifferentiated_error_or_ok st with
        ⟨_, he⟩ | ⟨st₁, hok⟩
      · rw [he] at hrun
        cases hrun
        exact .inl rfl
      · rw [hok] at hrun
        dsimp only at hrun
        obtain ⟨hinputs, houtgoing, hweights, dstate, hmemo⟩ :=
          Layer.rest_ensureDifferentiated hok
        have hsized₁ : st₁.workspace.WeightsSized := hsized.congr hweights
        obtain ⟨-, value, -, -, hvalue, -, -, hvalueShape, -⟩ :=
          h.input_shapes
        have hsame := ensures_valueDerivative (h.wired.laid h.sound) hvalue
          hvalueShape dvalue hv
        -- the shared derivatives leave the inputs, so the values still fit
        have hfit : st₁.workspace.fitsInput s.value dvalue = .ok () := by
          unfold fitsInput Workspace.input
          rw [hinputs]
          exact (fitsInput_of_input hvalue).trans (if_pos hsame.symm)
        rcases (h.ensureDifferentiated hok).storeInputGradients_refused
          hsized₁ hmemo hfit hrun with hleft | hstopped
        · exact .inl (hleft.trans houtgoing)
        · exact .inr (hstopped.congr hinputs houtgoing)

/-- A state of another batch extent than the rest stops the call at the
state. -/
theorem Running.inputGradients_stops
    (h : Running p s { p with batch := b₀ }.inputDims st)
    (hsized : st.workspace.WeightsSized) (hfresh : st.layer.memo ≠ .stale)
    (hincoming : HasShape (st.workspace.incomingAt 0)
      [p.batch, 1, 1, p.valueWidth])
    (hquery : HasShape (st.workspace.input s.query)
      [p.batch, 1, 1, p.queryWidth])
    (hvalue : HasShape (st.workspace.input s.value)
      [p.batch, 1, p.positions, p.valueWidth])
    {t : Tensor α} (ht : st.workspace.input s.state = .ok t)
    (hother : t.extent 0 ≠ p.batch) :
    ∃ e st', Layer.inputGradients .release st = .error e st'
      ∧ StoppedAtState p s st e st' := by
  obtain ⟨dvalue, hdvalue, hdvalueShape⟩ :=
    valueDerivative_shape (h.wired.laid h.sound) hincoming hvalue
  obtain ⟨st₁, dstate, hok, hmemo, hdstateShape⟩ :=
    h.ensureDifferentiated_ok hfresh hincoming hvalue
  obtain ⟨hinputs, houtgoing, hweights, -⟩ :=
    Layer.rest_ensureDifferentiated hok
  have h₁ := h.ensureDifferentiated hok
  have hsized₁ := hsized.congr hweights
  obtain ⟨hhidden, -, hpacked⟩ := h₁.weight_shapes hsized₁
  obtain ⟨dquery, hdquery, hdqueryShape⟩ := queryDerivative_shape
    (h₁.wired.laid h₁.sound) hpacked hhidden
  have hdstate : st₁.layer.stateDerivative = .ok dstate := by
    rw [Layer.stateDerivative, hmemo]
  have hlook := input_congr hinputs
  obtain ⟨query, hquery, hqueryShape⟩ := hquery
  obtain ⟨value, hvalue, hvalueShape⟩ := hvalue
  -- the first two stores fit, and the third one does not
  have hfirst : st₁.workspace.fitsInput s.query dquery = .ok () := by
    rw [fitsInput_of_input ((hlook _).trans hquery)]
    exact if_pos (hqueryShape.trans hdqueryShape.symm)
  have hsecond : st₁.workspace.fitsInput s.value dvalue = .ok () := by
    rw [fitsInput_of_input ((hlook _).trans hvalue)]
    exact if_pos (hvalueShape.trans hdvalueShape.symm)
  have hthird : st₁.workspace.fitsInput s.state dstate
      = .error (.tensor (.shapeMismatch t.shape dstate.shape)) := by
    rw [fitsInput_of_input ((hlook _).trans ht)]
    refine if_neg fun hsame => hother ?_
    rw [extent, hsame, hdstateShape]
    rfl
  have hrun : Layer.inputGradients .release st
      = .error (.tensor (.shapeMismatch t.shape dstate.shape))
          (st₁.withWorkspace (st₁.workspace.putOutgoings
            [(s.query, dquery), (s.value, dvalue)])) := by
    rw [Layer.inputGradients_eq h.slots hfresh, hdvalue]
    dsimp only
    rw [hok]
    dsimp only
    rw [Layer.storeInputGradients_eq hdquery hdstate]
    exact onWorkspace_of_error (storeInputs_stopped hfirst hsecond hthird)
  have hbatch : query.extent 0 = p.batch := by
    rw [extent, hqueryShape]
    rfl
  have hstopped : StoppedAtState p s st₁
      (.tensor (.shapeMismatch t.shape dstate.shape))
      (st₁.withWorkspace (st₁.workspace.putOutgoings
        [(s.query, dquery), (s.value, dvalue)])) :=
    ⟨⟨query, (hlook _).trans hquery, hbatch⟩,
      ⟨t, (hlook _).trans ht, hother, by rw [hdstateShape]⟩,
      dquery, dvalue, hdqueryShape, rfl⟩
  exact ⟨_, _, hrun, hstopped.congr hinputs houtgoing⟩

/-- So does one that is stored after a forward pass, whatever was computed
from the other. -/
theorem Forwarded.inputGradients_stops
    (h : Forwarded p s { p with batch := b₀ }.inputDims st)
    (hincoming : HasShape (st.workspace.incomingAt 0)
      [p.batch, 1, 1, p.valueWidth]) {t : Tensor α}
    (ht : t.shape.tail = [1, 1, p.mixtures]) (hother : t.extent 0 ≠ p.batch) :
    ∃ e st', Layer.inputGradients .release
          (final (onWorkspace (setInput s.state t)) st) = .error e st'
      ∧ StoppedAtState p s (final (onWorkspace (setInput s.state t)) st)
          e st' := by
  obtain ⟨i, j, hslots⟩ := h.running.wired.slots
  have hrunning := h.running.step (.setInput s.state t)
  have hsized := weightsSized_step (a := .setInput s.state t) h.weights trivial
  have hquery := h.fed.query
  have hvalue := h.fed.value
  have hlen := h.running.wired.inputs
  subst hslots
  have hdims : st.workspace.inputDims[2]? = some ⟨b₀, 1, 1, p.mixtures⟩ := by
    rw [h.running.inputDims]
    rfl
  have hfinal : final (onWorkspace (setInput ⟨2⟩ t)) st
      = st.edit fun w => { w with inputs := w.inputs.set 2 t } :=
    final_setInput hdims ht
  -- the query and the values are still those of the forward pass
  have hkept : ∀ n, n ≠ 2 → (st.edit fun w =>
      { w with inputs := w.inputs.set 2 t }).workspace.input ⟨n⟩
        = st.workspace.input ⟨n⟩ := by
    intro n hn
    show lookup .input (st.workspace.inputs.set 2 t) n = _
    unfold Workspace.input lookup
    rw [List.getElem?_set_ne (Ne.symm hn)]
  have hstored : (st.edit fun w =>
      { w with inputs := w.inputs.set 2 t }).workspace.input ⟨2⟩
        = .ok t := by
    refine lookup_eq_ok.2 ?_
    show (st.workspace.inputs.set 2 t)[2]? = some t
    rw [List.getElem?_set_self (by omega)]
  show ∃ e st', Layer.inputGradients .release
      (final (onWorkspace (setInput ⟨2⟩ t)) st) = .error e st'
    ∧ StoppedAtState p _ (final (onWorkspace (setInput ⟨2⟩ t)) st) e st'
  rw [Action.procedure, show (Slots.startingAt i j).state = ⟨2⟩ from rfl]
    at hrunning hsized
  rw [hfinal] at hrunning hsized ⊢
  exact Running.inputGradients_stops hrunning hsized h.fresh hincoming
    ((hkept 0 (by decide)).symm ▸ hquery)
    ((hkept 1 (by decide)).symm ▸ hvalue) hstored hother

-- ====================================================== after any calls

/-- Only a call for the derivatives with respect to the inputs changes
them. -/
theorem outgoing_step {a : Action α} (ha : a ≠ .gradient .inputs) :
    (final a.procedure st).workspace.outgoing = st.workspace.outgoing := by
  let P (w : Workspace α) : Prop := w.outgoing = st.workspace.outgoing
  have hkept : Procedure.Keeps P a.procedure := by
    refine Action.keeps fun c hc => ?_
    cases hc with
    | setInput i t => exact .stored (setInput_eq i t) fun _ hw _ => hw
    | setIncoming i t => exact .stored (setIncoming_eq i t) fun _ hw _ => hw
    | writeWeight i n x =>
        have hreplace : ∀ t, Workspace.Keeps P (replaceWeight i t) :=
          fun t => .stored (replaceWeight_eq i t) fun _ hw _ => hw
        exact .inspect_bind fun w hw t _ => hreplace t w hw
    | replaceWeight i t =>
        exact .stored (replaceWeight_eq i t) fun _ hw _ => hw
    | setScratch i t => exact .stored (setScratch_eq i t) fun _ hw _ => hw
    | setOutput i t => exact .stored (setOutput_eq i t) fun _ hw _ => hw
    | setScratchGrad _ i t =>
        exact .stored (setScratchGrad_eq i t) fun _ hw _ => hw
    | setWeightGrad i t =>
        exact .stored (setWeightGrad_eq i t) fun _ hw _ => hw
    | setOutgoing i t => exact absurd rfl ha
    | resize i n => exact .stored (resize_eq i n) fun _ hw _ => hw
  exact hkept st rfl

theorem outgoing_after (as : List (Action α)) :
    ∀ {st : Session α}, (∀ a ∈ as, a ≠ .gradient .inputs) →
      (st.after as).workspace.outgoing = st.workspace.outgoing := by
  induction as with
  | nil => exact fun _ => rfl
  | cons a as ih =>
      intro st has
      rw [List.forall_mem_cons] at has
      exact (ih has.2).trans (outgoing_step has.1)

/-- What refused gradient calls leave. A layer is set up on a query, a
sequence of values and a state of one batch extent, and a workspace is built
for it. Whatever is called then, each call answered or refused, a refused
call for the gradients of the weights leaves all of them; and a refused call
for the derivatives with respect to the inputs leaves all of them, unless
the state alone was stored with another batch extent than the one that is
set, and then it leaves the last of the three. -/
theorem refused_gradients_leave_gradients {l : Layer α} {b : Blueprint}
    {setup : Setup α} (hinputs : b.inputs = p.inputDims)
    (hunit : l.settings.unit = some p.unit)
    (hfinal : Setup.finalize ⟨l, b⟩ = .ok () setup)
    (hslots : setup.layer.slots = some s) (g : Generator) (seed : UInt64)
    {as : List (Action α)} (has : ∀ a ∈ as, a.SparesExtents) :
    let st := (Session.start setup g seed).after as
    let n := batchAfter as p.batch
    (∀ e st', Layer.weightGradients .release st = .error e st' →
        st'.workspace.weights = st.workspace.weights)
      ∧ ∀ e st', Layer.inputGradients .release st = .error e st' →
        st'.workspace.outgoing = st.workspace.outgoing
          ∨ StoppedAtState { p with batch := n } s st e st' := by
  intro st n
  obtain ⟨p', s', hplan, hstart, hbuilt⟩ := running_start hfinal g seed
  obtain rfl : s = s' := Option.some.inj (hslots.symm.trans hstart.slots)
  rw [hinputs] at hplan hstart
  obtain rfl := SetupPlan.eq_of_inputDims hplan hunit
  have hrunning : Running { p with batch := n } s
      { { p with batch := n } with batch := p.batch }.inputDims st :=
    hstart.after as
  have hsized := weightsSized_after as hbuilt has
  exact ⟨fun _ _ => hrunning.weightGradients_refused hsized,
    fun _ _ => hrunning.inputGradients_refused hsized⟩

-- ================================================ a state left behind

/-- Two queries, with all that belongs to them. -/
def twoQueries : List (Action Float) :=
  [.setBatch 2, .setInput ⟨0⟩ (.zeros [2, 1, 1, 1]),
    .setInput ⟨1⟩ (.zeros [2, 1, 1, 1]), .setInput ⟨2⟩ (.zeros [2, 1, 1, 1]),
    .setIncoming 0 (.zeros [2, 1, 1, 1])]

/-- The layer has passed forward on two queries, and then a single state was
stored. -/
def stateLeftBehind : List (Action Float) :=
  twoQueries ++ [.forward, .setInput ⟨2⟩ (.zeros [1, 1, 1, 1])]

/-- For a layer that was set up for one query. -/
theorem refused_gradients_leave_gradients_behind :
    let st := (Session.blank ⟨1, 1, 1, 1, 1, 1⟩).after stateLeftBehind
    (∀ e st', Layer.weightGradients .release st = .error e st' →
        st'.workspace.weights = st.workspace.weights)
      ∧ ∀ e st', Layer.inputGradients .release st = .error e st' →
        st'.workspace.outgoing = st.workspace.outgoing
          ∨ StoppedAtState ⟨2, 1, 1, 1, 1, 1⟩ (.startingAt 0 0) st e st' := by
  have hsparing : ∀ a ∈ stateLeftBehind, a.SparesExtents := by
    simp [stateLeftBehind, twoQueries, Action.SparesExtents]
  exact refused_gradients_leave_gradients (p := ⟨1, 1, 1, 1, 1, 1⟩) rfl rfl
    (Session.blank_finalize _ (by decide) (by decide)) rfl
    Generator.splitMix 0 hsparing

/-- The forward pass on the two queries. -/
theorem twoQueries_forwarded :
    ∃ st', Layer.forward ((Session.blank ⟨1, 1, 1, 1, 1, 1⟩).after twoQueries)
          = .ok () st'
      ∧ Forwarded ⟨2, 1, 1, 1, 1, 1⟩ (.startingAt 0 0)
          (SetupPlan.inputDims ⟨1, 1, 1, 1, 1, 1⟩) st'
      ∧ HasShape (st'.workspace.incomingAt 0) [2, 1, 1, 1] := by
  obtain ⟨p', s', hplan, hstart, hbuilt⟩ := running_start (α := Float)
    (Session.blank_finalize ⟨1, 1, 1, 1, 1, 1⟩ (by decide) (by decide))
    Generator.splitMix 0
  obtain rfl : .startingAt 0 0 = s' :=
    Option.some.inj ((rfl : some _ = _).trans hstart.slots)
  obtain rfl := SetupPlan.eq_of_inputDims (p := ⟨1, 1, 1, 1, 1, 1⟩) hplan rfl
  have hrunning : Running ⟨2, 1, 1, 1, 1, 1⟩ (.startingAt 0 0)
      (SetupPlan.inputDims ⟨1, 1, 1, 1, 1, 1⟩)
      ((Session.blank ⟨1, 1, 1, 1, 1, 1⟩).after twoQueries) :=
    hstart.after twoQueries
  have hsized := weightsSized_after twoQueries hbuilt (by
    simp [twoQueries, Action.SparesExtents])
  have hbatch : ∀ t ∈ ((Session.blank ⟨1, 1, 1, 1, 1, 1⟩).after
      twoQueries).workspace.inputs, t.extent 0 = 2 :=
    List.map_eq_replicate_iff.1 (rfl : _ = [2, 2, 2])
  obtain ⟨st', hforward⟩ := (hrunning.forward_ok_iff hsized).2 hbatch
  refine ⟨st', hforward, hrunning.forwarded hsized hforward, ?_⟩
  obtain ⟨v, -, -, -, rfl⟩ :=
    (Layer.forward_ok_iff hrunning.slots hrunning.mixtures).1 hforward
  rw [Session.withWorkspace, ForwardValues.put_eq]
  exact ⟨.zeros [2, 1, 1, 1], rfl, rfl⟩

/-- The call is refused, and the derivative with respect to the query is not
the one from before. -/
theorem query_derivative_of_refused_call :
    let st := (Session.blank ⟨1, 1, 1, 1, 1, 1⟩).after stateLeftBehind
    ∃ e st', Layer.inputGradients .release st = .error e st'
      ∧ st'.workspace.outgoing ≠ st.workspace.outgoing := by
  intro st
  obtain ⟨passed, hforward, hforwarded, hincoming⟩ := twoQueries_forwarded
  have hlast : st = final (onWorkspace (setInput ⟨2⟩ (.zeros [1, 1, 1, 1])))
      passed := by
    rw [← final_of_ok hforward]
    exact List.foldl_append
  obtain ⟨e, st', hrun, hstopped⟩ := hforwarded.inputGradients_stops
    hincoming (t := .zeros [1, 1, 1, 1]) rfl (by decide)
  have hbefore : st.workspace.outgoing
      = (Session.blank (α := Float) ⟨1, 1, 1, 1, 1, 1⟩).workspace.outgoing :=
    outgoing_after stateLeftBehind (by simp [stateLeftBehind, twoQueries])
  refine ⟨e, st', by rw [hlast]; exact hrun, fun hsame => ?_⟩
  obtain ⟨dquery, dvalue, hshape, hleft⟩ := hstopped.stored
  have hstored : st'.workspace.outgoing
      = (st.workspace.outgoing.set 0 dquery).set 1 dvalue := by
    rw [hleft, hlast]
    rfl
  rw [hsame, hbefore] at hstored
  have hzeros : .zeros [1, 1, 1, 1] = dquery := (List.cons.inj hstored).1
  rw [← hzeros] at hshape
  exact absurd hshape (by decide)

end MixtureAttention
