/-
A forward pass and the two gradient procedures after it. On a wired
workspace that holds what is given and the derivative with respect to the
output, each of the three calls succeeds, and then the gradient in formulas
is what the six gradient buffers hold.
-/
import MixtureAttention.Proofs.Layer.BackwardFormula
import MixtureAttention.Proofs.Layer.GradientOrder

namespace MixtureAttention

open Tensor Workspace Procedure

variable {α : Type} [Scalar α]

/-- The workspace holds these derivatives in its gradient buffers. -/
structure Given.Stored (r : Given α) (p : SetupPlan) (s : Slots)
    (w : Workspace α) : Prop where
  query : w.outgoingAt s.query
    = .ok (cube p.batch 1 p.queryWidth fun b _ => r.query b)
  value : w.outgoingAt s.value
    = .ok (cube p.batch p.positions p.valueWidth r.value)
  state : w.outgoingAt s.state
    = .ok (cube p.batch 1 p.mixtures fun b _ => r.state b)
  hiddenWeight : w.weightGrad s.hiddenWeight
    = .ok (cube 1 p.queryWidth p.unit fun _ => r.hiddenWeight)
  hiddenBias : w.weightGrad s.hiddenBias
    = .ok (cube 1 1 p.unit fun _ _ => r.hiddenBias)
  packedWeight : w.weightGrad s.packedWeight
    = .ok (cube 1 p.unit (3 * p.mixtures) fun _ => r.packedWeight)

/-- The workspace holds everything that a forward pass and the two gradient
procedures compute. -/
structure Given.Differentiated (c : Given α) (p : SetupPlan)
    (g : Nat → Nat → α) (s : Slots) (w : Workspace α) : Prop where
  filled : Filled c p s w
  output : w.output 0 = .ok (c.values p).output
  packed : c.Packed p g s w
  stored : (c.gradient p g).Stored p s w

/-- What a forward pass made of what is given stays there while inputs,
weights and scratch values stay. -/
theorem Filled.of_same {c : Given α} {p : SetupPlan} {s : Slots}
    {w w' : Workspace α} (h : Filled c p s w)
    (hinput : ∀ i, w'.input i = w.input i)
    (hweight : ∀ i, w'.weight i = w.weight i)
    (hscratch : ∀ i, w'.scratchValue i = w.scratchValue i) :
    Filled c p s w' := by
  have hheld : c.Held p s w' := by
    refine ⟨?_, ?_, ?_, ?_, ?_, ?_⟩
    · rw [hinput, h.held.query]
    · rw [hinput, h.held.value]
    · rw [hinput, h.held.state]
    · rw [hweight, h.held.hiddenWeight]
    · rw [hweight, h.held.hiddenBias]
    · rw [hweight, h.held.packedWeight]
  refine ⟨hheld, ?_, ?_, ?_, ?_, ?_, ?_, ?_, ?_, ?_⟩ <;> rw [hscratch]
  · exact h.hiddenSum
  · exact h.hidden
  · exact h.packed
  · exact h.scores
  · exact h.mass
  · exact h.upper
  · exact h.lower
  · exact h.lowerEdge
  · exact h.upperEdge

namespace Layer

variable {c : Given α} {p : SetupPlan} {s : Slots} {g g' : Nat → Nat → α}
  {st : Session α} {w : Workspace α}

-- ======================================================= what is stored

/-- The derivative with respect to the packed row, and with it the one with
respect to the state. -/
def packedPair (c : Given α) (p : SetupPlan) (g : Nat → Nat → α) :
    PackedDerivative α where
  packed := cube p.batch 1 (3 * p.mixtures) fun b _ => c.dLogit p g b
  state := cube p.batch 1 p.mixtures fun b _ => c.dCentre p g b

/-- The gradients of the weights, as tensors. -/
def weightPair (c : Given α) (p : SetupPlan) (g : Nat → Nat → α) :
    WeightDerivatives α where
  hiddenWeight := cube 1 p.queryWidth p.unit fun _ =>
    (c.gradient p g).hiddenWeight
  hiddenBias := cube 1 1 p.unit fun _ _ => (c.gradient p g).hiddenBias
  packedWeight := cube 1 p.unit (3 * p.mixtures) fun _ =>
    (c.gradient p g).packedWeight

/-- What the weight gradients store. -/
def weightWrites (c : Given α) (p : SetupPlan) (g : Nat → Nat → α)
    (s : Slots) : List (WeightHandle × Tensor α) :=
  weightStores s (weightPair c p g)

/-- What the input gradients store, if the packed derivative stems from `g`
and the derivative with respect to the values from `g'`. -/
def inputWrites (c : Given α) (p : SetupPlan) (g g' : Nat → Nat → α)
    (s : Slots) : List (InputHandle × Tensor α) :=
  inputStores s
    (cube p.batch 1 p.queryWidth fun b _ => (c.gradient p g).query b)
    (cube p.batch p.positions p.valueWidth (c.gradient p g').value)
    (packedPair c p g).state

/-- The packed derivative fits the packed buffer's gradient. -/
theorem fitsPacked_pair (hwired : Wired p s w) :
    fitsPacked s w (packedPair c p g) = .ok () := by
  have hdims := hwired.scratch
  simp only [Slots.scratch, SetupPlan.scratchDims, List.map_cons,
    List.cons.injEq] at hdims
  obtain ⟨-, -, hpacked, -⟩ := hdims
  obtain ⟨t, ht⟩ := hwired.packedGrad
  have hfit : w.fitsScratch s.packed (packedPair c p g).packed = .ok () :=
    fitsScratch_of_dims hpacked rfl
  rw [fitsPacked, hfit, ok_bind, ht]
  rfl

/-- Each weight gradient fits its weight. -/
theorem fits_weightWrites (hwired : Wired p s w) :
    ∀ q ∈ weightWrites c p g s, w.fitsWeight q.1 q.2 = .ok () := by
  have hdims := hwired.weights
  simp only [Slots.weights, SetupPlan.weightDims, List.map_cons,
    List.cons.injEq] at hdims
  obtain ⟨hweight, hbias, hpacked, -⟩ := hdims
  simp only [weightWrites, weightStores, List.forall_mem_cons]
  exact ⟨fitsWeight_of_dims hpacked rfl, fitsWeight_of_dims hweight rfl,
    fitsWeight_of_dims hbias rfl, List.forall_mem_nil _⟩

/-- Each outgoing derivative fits its input. -/
theorem fits_inputWrites (hheld : c.Held p s w) :
    ∀ q ∈ inputWrites c p g g' s, w.fitsInput q.1 q.2 = .ok () := by
  simp only [inputWrites, inputStores, List.forall_mem_cons]
  refine ⟨?_, ?_, ?_, nofun⟩
  · rw [fitsInput, hheld.query]
    exact if_pos rfl
  · rw [fitsInput, hheld.value]
    exact if_pos rfl
  · rw [fitsInput, hheld.state]
    exact if_pos rfl

-- ============================================================ read back

omit [Scalar α] in
/-- A packed derivative that was stored is read back. -/
theorem packed_putScratchGrad (hwired : Wired p s w) (t : Tensor α) :
    (w.putScratchGrad s.packed t).scratchGrad s.packed = .ok t := by
  obtain ⟨t', ht⟩ := hwired.packedGrad
  obtain ⟨e, he, -⟩ := scratchGrad_eq_ok.1 ht
  refine scratchGrad_eq_ok.2 ⟨{ e with grad := some t }, ?_, rfl⟩
  unfold putScratchGrad
  dsimp only
  rw [List.getElem?_modify, he]
  simp

omit [Scalar α] in
/-- Storing a scratch gradient changes no extents. -/
theorem wired_putScratchGrad (hwired : Wired p s w) (t : Tensor α) :
    Wired p s (w.putScratchGrad s.packed t) := by
  have hdims : (w.putScratchGrad s.packed t).scratchDims?
      = w.scratchDims? := by
    funext i
    unfold scratchDims? putScratchGrad
    dsimp only
    rw [map_modify]
    exact fun _ => rfl
  refine ⟨hwired.slots, hwired.weights, ?_,
    ⟨t, packed_putScratchGrad hwired t⟩, hwired.outputDims, hwired.outputs,
    hwired.inputs, hwired.outgoing⟩
  rw [hdims]
  exact hwired.scratch

omit [Scalar α] in
/-- Storing weight gradients changes no extents. -/
theorem wired_putWeightGrads (hwired : Wired p s w)
    (qs : List (WeightHandle × Tensor α)) :
    Wired p s (w.putWeightGrads qs) := by
  have hdims : (w.putWeightGrads qs).weightDims? = w.weightDims? := by
    funext i
    rw [putWeightGrads_eq]
    unfold weightDims?
    dsimp only
    rw [map_overlay]
    exact fun _ _ => rfl
  rw [putWeightGrads_eq] at hdims ⊢
  refine ⟨hwired.slots, ?_, hwired.scratch, hwired.packedGrad,
    hwired.outputDims, hwired.outputs, hwired.inputs, hwired.outgoing⟩
  rw [hdims]
  exact hwired.weights

/-- The weight gradients stored are the ones read. -/
theorem weightGrad_weightWrites (hwired : Wired p s w) :
    ∀ q ∈ weightWrites c p g s,
      (w.putWeightGrads (weightWrites c p g s)).weightGrad q.1 = .ok q.2 := by
  intro q hq
  have hnodup : ((weightWrites c p g s).map (·.1.index)).Nodup := by
    obtain ⟨i, j, rfl⟩ := hwired.slots
    simp [weightWrites, weightStores, Slots.startingAt]
  exact weightGrad_putWeightGrads hnodup hq (fits_weightWrites hwired q hq)

/-- The outgoing derivatives stored are the ones read. -/
theorem outgoingAt_inputWrites (hwired : Wired p s w) :
    ∀ q ∈ inputWrites c p g g' s,
      (w.putOutgoings (inputWrites c p g g' s)).outgoingAt q.1
        = .ok q.2 := by
  intro q hq
  have hindices : (inputWrites c p g g' s).map (·.1.index) = [0, 1, 2] := by
    obtain ⟨i, j, rfl⟩ := hwired.slots
    rfl
  have hnodup : ((inputWrites c p g g' s).map (·.1.index)).Nodup := by
    rw [hindices]
    decide
  have hlen : q.1.index < w.outgoing.length := by
    have hmem : q.1.index ∈ [0, 1, 2] := by
      rw [← hindices]
      exact List.mem_map.2 ⟨q, hq, rfl⟩
    rw [hwired.outgoing]
    simp only [List.mem_cons, List.not_mem_nil, or_false] at hmem
    omega
  exact outgoingAt_putOutgoings hnodup hq hlen

/-- The derivatives with respect to the three inputs. -/
theorem outgoings_put (g g' : Nat → Nat → α) (hwired : Wired p s w) :
    let w' := w.putOutgoings (inputWrites c p g g' s)
    w'.outgoingAt s.query
        = .ok (cube p.batch 1 p.queryWidth fun b _ => (c.gradient p g).query b)
      ∧ w'.outgoingAt s.value
        = .ok (cube p.batch p.positions p.valueWidth (c.gradient p g').value)
      ∧ w'.outgoingAt s.state
        = .ok (cube p.batch 1 p.mixtures fun b _ =>
            (c.gradient p g).state b) := by
  intro w'
  have hinputs : ∀ q ∈ inputWrites c p g g' s,
      w'.outgoingAt q.1 = .ok q.2 := outgoingAt_inputWrites hwired
  simp only [inputWrites, inputStores, List.forall_mem_cons] at hinputs
  obtain ⟨hquery, hvalue, hstate, -⟩ := hinputs
  exact ⟨hquery, hvalue, hstate⟩

/-- With both stored the six buffers hold the gradient. -/
theorem stored_put (hwired : Wired p s w) :
    (c.gradient p g).Stored p s
      ((w.putWeightGrads (weightWrites c p g s)).putOutgoings
        (inputWrites c p g g s)) := by
  have hwired' : Wired p s (w.putWeightGrads (weightWrites c p g s)) :=
    wired_putWeightGrads hwired _
  have hkeep : ∀ h, ((w.putWeightGrads (weightWrites c p g s)).putOutgoings
      (inputWrites c p g g s)).weightGrad h
      = (w.putWeightGrads (weightWrites c p g s)).weightGrad h := by
    intro h
    rw [putOutgoings_eq]
    rfl
  obtain ⟨hquery, hvalue, hstate⟩ :=
    outgoings_put (c := c) g g hwired'
  have hweights := weightGrad_weightWrites (c := c) (g := g) hwired
  generalize hw' : w.putWeightGrads (weightWrites c p g s) = w' at *
  simp only [weightWrites, weightStores, List.forall_mem_cons] at hweights
  obtain ⟨hpacked, hhidden, hbias, -⟩ := hweights
  exact ⟨hquery, hvalue, hstate, (hkeep _).trans hhidden,
    (hkeep _).trans hbias, (hkeep _).trans hpacked⟩

-- ===================================================== a primed session

/-- A session in which a gradient procedure finds everything: the layer is
set up on a wired workspace, a forward pass filled it, and the derivative
with respect to the output is there. -/
structure Primed (c : Given α) (p : SetupPlan) (s : Slots)
    (g : Nat → Nat → α) (st : Session α) : Prop where
  slots : st.layer.slots = some s
  mixtures : st.layer.settings.mixtures = some p.mixtures
  wired : Wired p s st.workspace
  filled : Filled c p s st.workspace
  incoming : st.workspace.incomingAt 0
    = .ok (cube p.batch 1 p.valueWidth fun b _ => g b)

/-- A forward pass primes the session. -/
theorem forward_primes (hs : st.layer.slots = some s)
    (hk : st.layer.settings.mixtures = some p.mixtures)
    (hwired : Wired p s st.workspace) (hheld : c.Held p s st.workspace)
    (hdout : st.workspace.incomingAt 0
      = .ok (cube p.batch 1 p.valueWidth fun b _ => g b)) :
    ∃ st', forward st = .ok () st' ∧ st'.layer.memo = .forwarded
      ∧ st'.workspace.output 0 = .ok (c.values p).output
      ∧ Primed c p s g st' := by
  refine ⟨_, forward_succeeds hs hk hwired hheld, rfl,
    ForwardValues.output_put s (c.values p) hwired.outputs, hs, hk,
    hwired.put (c.values p), ?_, ?_⟩
  · obtain ⟨hfits, -⟩ := hwired.fits_values c
    obtain ⟨i, j, rfl⟩ := hwired.slots
    exact filled_put hheld hfits
  · show ((c.values p).put s st.workspace).incomingAt 0 = _
    rw [ForwardValues.put_eq]
    exact hdout

/-- Storing the packed derivative keeps the session primed. -/
theorem Primed.withDerivative (h : Primed c p s g st)
    (d : PackedDerivative α) : Primed c p s g (st.withDerivative s d) :=
  ⟨h.slots, h.mixtures, wired_putScratchGrad h.wired _,
    h.filled.of_same (fun _ => rfl) (fun _ => rfl)
      fun i => scratchValue_putScratchGrad s.packed i d.packed st.workspace,
    h.incoming⟩

/-- So does storing gradients of weights. -/
theorem Primed.putWeightGrads (h : Primed c p s g st)
    (qs : List (WeightHandle × Tensor α)) :
    Primed c p s g (st.edit (Workspace.putWeightGrads qs)) := by
  obtain ⟨r, hr⟩ := putWeightGrads_eq_regrade (α := α) qs
  refine ⟨h.slots, h.mixtures, wired_putWeightGrads h.wired qs, ?_, ?_⟩
  · show Filled c p s (st.workspace.putWeightGrads qs)
    rw [hr]
    exact h.filled.of_same (fun _ => rfl) (weight_regrade r st.workspace)
      fun _ => rfl
  · show (st.workspace.putWeightGrads qs).incomingAt 0 = _
    rw [putWeightGrads_eq]
    exact h.incoming

-- ======================================================= the procedures

/-- The packed derivative is computed and stored. -/
theorem differentiate_succeeds (h : Primed c p s g st) :
    differentiate st = .ok () (st.withDerivative s (packedPair c p g)) := by
  exact differentiate_ok_iff.2 ⟨s, p.mixtures, _, h.slots, h.mixtures,
    Given.packedDerivative_eq h.filled h.incoming, fitsPacked_pair h.wired,
    rfl⟩

/-- The first gradient call after a forward pass computes it. -/
theorem ensureDifferentiated_succeeds (h : Primed c p s g st)
    (hm : st.layer.memo = .forwarded) :
    ensureDifferentiated st
      = .ok () (st.withDerivative s (packedPair c p g)) := by
  rw [ensureDifferentiated_of_forwarded hm, differentiate_succeeds h]

/-- The three weight gradients are all stored. -/
theorem storeWeightGradients_succeeds (hwired : Wired p s st.workspace)
    (hfilled : Filled c p s st.workspace)
    (hpacked : c.Packed p g s st.workspace) :
    storeWeightGradients s st
      = .ok () (st.edit (putWeightGrads (weightWrites c p g s))) := by
  have hrun := (storeAll_ok_iff
    (fun (q : WeightHandle × Tensor α) => setWeightGrad_eq q.1 q.2)
    (fun q q' => fitsWeight_putWeightGrad q.1 q'.1 q.2 q'.2)
    (weightWrites c p g s) st.workspace _).2 ⟨fits_weightWrites hwired, rfl⟩
  rw [storeWeightGradients_eq (Given.weightDerivatives_eq hfilled hpacked)]
  exact onWorkspace_of_ok hrun

/-- The derivative with respect to the values may stem from elsewhere than
the packed derivative. -/
theorem storeInputGradients_succeeds
    (hfilled : Filled c p s st.workspace)
    (hpacked : c.Packed p g s st.workspace)
    (hm : st.layer.memo = .differentiated (packedPair c p g).state) :
    storeInputGradients s
        (cube p.batch p.positions p.valueWidth (c.gradient p g').value) st
      = .ok () (st.edit (putOutgoings (inputWrites c p g g' s))) := by
  have hrun := (storeAll_ok_iff
    (fun (q : InputHandle × Tensor α) => setOutgoing_eq q.1 q.2)
    (fun _ _ _ => rfl) (inputWrites c p g g' s) st.workspace _).2
    ⟨fits_inputWrites hfilled.held, rfl⟩
  have hstate : st.layer.stateDerivative = .ok (packedPair c p g).state := by
    rw [stateDerivative, hm]
  rw [storeInputGradients_eq (Given.queryDerivative_eq hfilled hpacked)
    hstate]
  exact onWorkspace_of_ok hrun

/-- After a forward pass the gradients of the weights are computed and
stored, and the packed derivative with them. -/
theorem weightGradients_succeeds (h : Primed c p s g st)
    (hm : st.layer.memo = .forwarded) :
    weightGradients .release st = .ok () ((st.withDerivative s
      (packedPair c p g)).edit (putWeightGrads (weightWrites c p g s))) := by
  rw [weightGradients_eq h.slots, ensureDifferentiated_succeeds h hm]
  have hprimed := h.withDerivative (packedPair c p g)
  exact storeWeightGradients_succeeds hprimed.wired hprimed.filled
    (packed_putScratchGrad h.wired _)

/-- The session is still primed after them, and the packed derivative is
there. -/
theorem weightGradients_primes (h : Primed c p s g st) :
    let st' := (st.withDerivative s (packedPair c p g)).edit
      (putWeightGrads (weightWrites c p g s))
    Primed c p s g st' ∧ c.Packed p g s st'.workspace := by
  intro st'
  refine ⟨(h.withDerivative (packedPair c p g)).putWeightGrads _, ?_⟩
  show ((st.withDerivative s (packedPair c p g)).workspace.putWeightGrads
    (weightWrites c p g s)).scratchGrad s.packed = _
  rw [putWeightGrads_eq]
  exact packed_putScratchGrad h.wired _

/-- Storing another derivative with respect to the output primes the session
with that one. -/
theorem setIncoming_primes (h : Primed c p s g st) (g' : Nat → Nat → α) :
    let t := cube p.batch 1 p.valueWidth fun b _ => g' b
    let st' := st.edit fun w => { w with incoming := w.incoming.set 0 t }
    onWorkspace (Workspace.setIncoming 0 t) st = .ok () st'
      ∧ Primed c p s g' st' := by
  intro t st'
  have hstore := setIncoming_eq 0 t st.workspace
  obtain ⟨d, hd, htail⟩ := h.wired.outputDims
  have hcheck : (do
      checkBeyondBatch (← lookup .output st.workspace.outputDims 0) t :
      Except LayerError Unit) = .ok () :=
    lookup_bind_eq_ok.2 ⟨d, hd, if_pos htail⟩
  rw [hcheck] at hstore
  refine ⟨onWorkspace_of_ok hstore, h.slots, h.mixtures,
    ⟨h.wired.slots, h.wired.weights, h.wired.scratch, h.wired.packedGrad,
      h.wired.outputDims, h.wired.outputs, h.wired.inputs,
      h.wired.outgoing⟩,
    h.filled.of_same (fun _ => rfl) (fun _ => rfl) fun _ => rfl, ?_⟩
  obtain ⟨hlen, -⟩ :=
    List.getElem?_eq_some_iff.1 (lookup_eq_ok.1 h.incoming)
  exact lookup_eq_ok.2 (List.getElem?_set_self hlen)

/-- Once the packed derivative is there the derivatives with respect to the
inputs are stored. The one with respect to the values stems from the
derivative with respect to the output that is there now, which need not be
the one that the packed derivative was computed from. -/
theorem inputGradients_succeeds (h : Primed c p s g' st)
    (hpacked : c.Packed p g s st.workspace)
    (hm : st.layer.memo = .differentiated (packedPair c p g).state) :
    inputGradients .release st
      = .ok () (st.edit (putOutgoings (inputWrites c p g g' s))) := by
  have hstale : st.layer.memo ≠ .stale := by
    rw [hm]
    nofun
  rw [inputGradients_eq h.slots hstale,
    Given.valueDerivative_eq h.filled h.incoming]
  dsimp only
  rw [ensureDifferentiated_of_differentiated hm]
  exact storeInputGradients_succeeds h.filled hpacked hm

/-- A forward pass and the two gradient procedures after it succeed, and
leave in every buffer what its formula says. -/
theorem gradients_leave (hs : st.layer.slots = some s)
    (hk : st.layer.settings.mixtures = some p.mixtures)
    (hwired : Wired p s st.workspace) (hheld : c.Held p s st.workspace)
    (hdout : st.workspace.incomingAt 0
      = .ok (cube p.batch 1 p.valueWidth fun b _ => g b)) :
    ∃ st₁ st₂ st₃, forward st = .ok () st₁
      ∧ weightGradients .release st₁ = .ok () st₂
      ∧ inputGradients .release st₂ = .ok () st₃
      ∧ c.Differentiated p g s st₃.workspace := by
  obtain ⟨st₁, hforward, hm₁, houtput₁, hprimed₁⟩ :=
    forward_primes hs hk hwired hheld hdout
  let d := packedPair c p g
  let ws := weightWrites c p g s
  have hwired₂ : Wired p s (st₁.withDerivative s d).workspace :=
    (hprimed₁.withDerivative d).wired
  obtain ⟨hprimed₂, hpacked₂⟩ := weightGradients_primes hprimed₁
  have houtput₂ : ((st₁.withDerivative s d).workspace.putWeightGrads
      ws).output 0 = .ok (c.values p).output := by
    rw [putWeightGrads_eq]
    exact houtput₁
  refine ⟨st₁, _, _, hforward, weightGradients_succeeds hprimed₁ hm₁,
    inputGradients_succeeds hprimed₂ hpacked₂ rfl, ?_, ?_, ?_,
    stored_put hwired₂⟩
  · -- what is stored last are outgoing derivatives, which nothing reads
    show Filled c p s (putOutgoings _ _)
    rw [putOutgoings_eq]
    exact hprimed₂.filled.of_same (fun _ => rfl) (fun _ => rfl) fun _ => rfl
  · show (putOutgoings _ _).output 0 = _
    rw [putOutgoings_eq]
    exact houtput₂
  · show (putOutgoings _ _).scratchGrad s.packed = _
    rw [putOutgoings_eq]
    exact hpacked₂

/-- In particular they leave the gradient in its six buffers. -/
theorem gradients_stored (hs : st.layer.slots = some s)
    (hk : st.layer.settings.mixtures = some p.mixtures)
    (hwired : Wired p s st.workspace) (hheld : c.Held p s st.workspace)
    (hdout : st.workspace.incomingAt 0
      = .ok (cube p.batch 1 p.valueWidth fun b _ => g b)) :
    ∃ st₁ st₂ st₃, forward st = .ok () st₁
      ∧ weightGradients .release st₁ = .ok () st₂
      ∧ inputGradients .release st₂ = .ok () st₃
      ∧ (c.gradient p g).Stored p s st₃.workspace := by
  obtain ⟨st₁, st₂, st₃, hforward, hweights, hinputs, hleft⟩ :=
    gradients_leave hs hk hwired hheld hdout
  exact ⟨st₁, st₂, st₃, hforward, hweights, hinputs, hleft.stored⟩

-- =================================================== a supplied session

/-- A session in which a forward pass and the gradient procedures after it
find everything they need: the layer is set up on a wired workspace, which
holds what is given and the derivative with respect to the output. -/
structure Supplied (c : Given α) (p : SetupPlan) (s : Slots)
    (g : Nat → Nat → α) (st : Session α) : Prop where
  slots : st.layer.slots = some s
  mixtures : st.layer.settings.mixtures = some p.mixtures
  wired : Wired p s st.workspace
  held : c.Held p s st.workspace
  incoming : st.workspace.incomingAt 0
    = .ok (cube p.batch 1 p.valueWidth fun b _ => g b)

/-- A forward pass and both gradient procedures. -/
def forwardBackward : Procedure α Unit := do
  forward
  weightGradients .release
  inputGradients .release

/-- A supplied session runs forward and backward without a refusal, to the
gradients of the formula. -/
theorem Supplied.forwardBackward (h : Supplied c p s g st) :
    Layer.forwardBackward st = .ok () (final Layer.forwardBackward st)
      ∧ c.Differentiated p g s
          (final Layer.forwardBackward st).workspace := by
  obtain ⟨st₁, st₂, st₃, hforward, hweights, hinputs, hleft⟩ :=
    gradients_leave h.slots h.mixtures h.wired h.held h.incoming
  have hrun : Layer.forwardBackward st = .ok () st₃ := by
    unfold Layer.forwardBackward
    rw [bind_of_ok hforward, bind_of_ok hweights, hinputs]
  rw [final_of_ok hrun]
  exact ⟨hrun, hleft⟩

end Layer

/-- A stocked session is supplied, so that there is one for any values. -/
theorem Session.stocked_supplied {p : SetupPlan} (hunit : 0 < p.unit)
    (hmixtures : 0 < p.mixtures) (c : Given α) (g : Nat → Nat → α) :
    Layer.Supplied c p (.startingAt 0 0) g (stocked p c g) :=
  ⟨rfl, rfl, stocked_wired p hunit hmixtures c g,
    stocked_held p hunit hmixtures c g, rfl⟩

end MixtureAttention
