/-
The centres between two passes. A pass moves the state that it reads ahead
by the steps that it computes, and measures every edge from the centres that
come out (`Session.Centred`). The centres themselves are not stored. When
they are asked for, the steps are read back from the packed buffer and added
to the state that is stored by then.

The steps stay as the pass left them until the next pass or the next batch
extent (`Standing`): the other two parts of the packed row are written beside
them (`Mixture.read_packed`), and whatever is called in between writes no
scratch value. The state does not have to stay. As long as none is stored the
answer is the centres of the pass; after one is stored, it is that state
moved ahead by the steps, whether or not any pass has read it
(`centres_follow_state`, `centres_fed_back`).
-/
import MixtureAttention.Proofs.Layer.Decoding
import MixtureAttention.Proofs.Layer.Recast
import MixtureAttention.Proofs.Tensor.Sheets

namespace MixtureAttention

open Tensor Workspace Procedure

section

variable {α : Type} [Scalar α] {s : Slots} {k : Nat} {st st' : Session α}

-- ====================================================== what a pass used

/-- The three parts are read back from the packed row as they were
activated. -/
theorem Mixture.read_packed {logits : Tensor α} {m : Mixture α}
    {lead : Shape} {w : Nat} (hlogits : logits.shape = lead ++ [w])
    (h : Mixture.of k logits = .ok m) :
    Segment.step.read k m.packed = .ok m.step
      ∧ Segment.scale.read k m.packed = .ok m.scale
      ∧ Segment.share.read k m.packed = .ok m.share := by
  obtain ⟨step, -, h⟩ := exists_of_bind h
  obtain ⟨scale, -, h⟩ := exists_of_bind h
  obtain ⟨share, -, h⟩ := exists_of_bind h
  obtain ⟨t₁, h₁, h⟩ := exists_of_bind h
  obtain ⟨t₂, h₂, h⟩ := exists_of_bind h
  obtain ⟨t₃, h₃, h⟩ := exists_of_bind h
  cases h
  have hshape₁ := (ensures_setColumns t₁ h₁).trans hlogits
  have hshape₂ := (ensures_setColumns t₂ h₂).trans hshape₁
  unfold Segment.read Segment.write Segment.offset at *
  dsimp only at *
  refine ⟨?_, ?_, columns_written hshape₂ h₃⟩
  · rw [columns_apart hshape₂ h₃ (.inr (by omega)),
      columns_apart hshape₁ h₂ (.inr (by omega))]
    exact columns_written hlogits h₁
  · rw [columns_apart hshape₂ h₃ (.inr (by omega))]
    exact columns_written hshape₁ h₂

/-- What a pass computes of the state: the centres, and the edges measured
from them. -/
theorem forwardValues_centres {w : Workspace α} :
    Ensures (fun v : ForwardValues α => ∃ value state step scale centres,
        w.input s.value = .ok value ∧ w.input s.state = .ok state
        ∧ Segment.step.read k v.packed = .ok step
        ∧ Segment.scale.read k v.packed = .ok scale
        ∧ state.add step = .ok centres
        ∧ edgeDistance (edges false (value.extent 2) k) centres
            (divisors scale) = .ok v.upperEdge
        ∧ edgeDistance (edges true (value.extent 2) k) centres
            (divisors scale) = .ok v.lowerEdge)
      (forwardValues s k w) := by
  unfold forwardValues
  refine .skip fun query => ?_
  refine .bind (.self _) fun value hvalue => ?_
  refine .bind (.self _) fun state hstate => ?_
  refine .skip fun _ => .skip fun _ => .skip fun _ => .skip fun _ => ?_
  refine .skip fun _ => .skip fun _ => .skip fun _ => ?_
  refine .bind (Ensures.self _).lift fun logits hlogits => ?_
  refine .bind (Ensures.self _).lift fun mix hmix => ?_
  refine .bind (Ensures.self _).lift fun centres hcentres => ?_
  refine .bind (Ensures.self _).lift fun upperEdge hupper => ?_
  refine .bind (Ensures.self _).lift fun lowerEdge hlower => ?_
  refine .skip fun _ => .skip fun _ => .skip fun _ => .skip fun _ => ?_
  refine .skip fun _ => ?_
  rintro v ⟨⟩
  -- a product has rows, so the parts of the packed row are apart
  obtain ⟨lead, -, m, -, n, -, -, -, hshape⟩ := matmul_ok hlogits
  rw [show lead ++ [m, n] = (lead ++ [m]) ++ [n] by simp] at hshape
  obtain ⟨hstep, hscale, -⟩ := Mixture.read_packed hshape hmix
  exact ⟨value, state, mix.step, mix.scale, centres, hvalue, hstate, hstep,
    hscale, hcentres, hupper, hlower⟩

/-- The pass that led from one session to the other used these centres: they
are the state that it read, moved ahead by the steps that it left, and the
edges that it left are measured from them in the scales that it left. -/
structure Session.Centred (s : Slots) (st st' : Session α)
    (state step centres : Tensor α) : Prop where
  input : st.workspace.input s.state = .ok state
  segment : st'.layer.packedSegment st'.workspace .step = .ok step
  sum : state.add step = .ok centres
  edges : ∃ k value scale upper lower,
    st.layer.settings.mixtures = some k
      ∧ st.workspace.input s.value = .ok value
      ∧ st'.layer.packedSegment st'.workspace .scale = .ok scale
      ∧ edgeDistance (edges false (value.extent 2) k) centres
          (divisors scale) = .ok upper
      ∧ st'.workspace.scratchValue s.upperEdge = .ok upper
      ∧ edgeDistance (edges true (value.extent 2) k) centres
          (divisors scale) = .ok lower
      ∧ st'.workspace.scratchValue s.lowerEdge = .ok lower

-- ================================================== what stays of a pass

/-- What the centres are computed from is there: a pass that still counts,
its packed row, and a state. -/
structure Standing (s : Slots) (k : Nat) (packed : Tensor α)
    (st : Session α) : Prop where
  slots : st.layer.slots = some s
  mixtures : st.layer.settings.mixtures = some k
  fresh : st.layer.memo ≠ .stale
  packed : st.workspace.scratchValue s.packed = .ok packed
  state : ∃ t, st.workspace.input s.state = .ok t

variable {packed step : Tensor α}

/-- The centres are the state that is stored, moved ahead by the steps of
the pass. -/
theorem Standing.centres (h : Standing s k packed st)
    (hstep : Segment.step.read k packed = .ok step) :
    st.layer.centres st.workspace
      = (do (← st.workspace.input s.state).add step) := by
  have hfresh : st.layer.isStale = false := by
    have hne := h.fresh
    unfold Layer.isStale
    cases hmemo : st.layer.memo with
    | stale => exact absurd hmemo hne
    | forwarded => rfl
    | differentiated d => rfl
  rw [Layer.centres, hfresh, if_neg Bool.false_ne_true,
    Layer.packedSegment_eq h.slots h.mixtures h.packed, hstep, lift_ok,
    ok_bind, Layer.slots?_of_some h.slots, ok_bind]

/-- A successful pass stands, and used the centres of the state that it
read. -/
theorem standing_forward {i j : Nat}
    (hslots : st.layer.slots = some (.startingAt i j))
    (hrun : Layer.forward st = .ok () st') :
    ∃ k packed state step centres,
      Standing (.startingAt i j) k packed st'
        ∧ st'.workspace.inputs = st.workspace.inputs
        ∧ Segment.step.read k packed = .ok step
        ∧ st.Centred (.startingAt i j) st' state step centres := by
  obtain ⟨k, hk⟩ : ∃ k, st.layer.settings.mixtures = some k := by
    cases hmixtures : st.layer.settings.mixtures with
    | some k => exact ⟨k, rfl⟩
    | none =>
        rw [Layer.forward_of_noMixtures hslots hmixtures] at hrun
        cases hrun
  obtain ⟨v, hv, hfits, -, rfl⟩ := (Layer.forward_ok_iff hslots hk).1 hrun
  obtain ⟨value, state, step, scale, centres, hvalue, hstate, hstep, hscale,
    hcentres, hupper, hlower⟩ := forwardValues_centres v hv
  -- what was stored is read back, the packed buffer among it
  have hread := ForwardValues.read_put hfits
  simp only [ForwardValues.scratchStores, List.forall_mem_cons] at hread
  obtain ⟨-, -, hpacked, -, -, -, -, hlowerEdge, hupperEdge, -⟩ := hread
  have hinputs : (v.put (.startingAt i j) st.workspace).inputs
      = st.workspace.inputs := by rw [ForwardValues.put_eq]
  have hstate' : (v.put (.startingAt i j) st.workspace).input
      (Slots.startingAt i j).state = .ok state := by
    unfold Workspace.input
    rw [hinputs]
    exact hstate
  have hsegment := Layer.packedSegment_eq
    (l := (st.withMemo .forwarded).layer) hslots hk hpacked
  have hfresh : (st.withMemo .forwarded).layer.memo ≠ .stale := by
    intro hstale
    cases hstale
  exact ⟨k, v.packed, state, step, centres,
    { slots := hslots
      mixtures := hk
      fresh := hfresh
      packed := hpacked
      state := ⟨state, hstate'⟩ },
    hinputs, hstep,
    { input := hstate
      segment := (hsegment .step).trans (congrArg liftM hstep)
      sum := hcentres
      edges := ⟨k, value, scale, _, _, hk, hvalue,
        (hsegment .scale).trans (congrArg liftM hscale), hupper, hupperEdge,
        hlower, hlowerEdge⟩ }⟩

namespace Action

/-- The call leaves the latest pass standing: it is no pass itself and does
not change the batch extent. -/
def SparesPass : Action α → Prop
  | forward => False
  | setBatch _ => False
  | _ => True

end Action

variable {a : Action α}

/-- Of the layer it changes at most what is remembered, and never forgets
that there was a pass. -/
theorem layer_call (ha : a.SparesPass) (h : st.layer.memo ≠ .stale) :
    (final a.procedure st).layer.setup = st.layer.setup
      ∧ (final a.procedure st).layer.memo ≠ .stale := by
  have hstore : ∀ c : Workspace.Command α Unit,
      (final (onWorkspace c) st).layer.setup = st.layer.setup
        ∧ (final (onWorkspace c) st).layer.memo ≠ .stale := by
    intro c
    rw [layer_onWorkspace]
    exact ⟨rfl, h⟩
  cases a with
  | setInput i t => exact hstore _
  | setIncoming i t => exact hstore _
  | writeWeight i n x => exact hstore _
  | replaceWeight i t => exact hstore _
  | gradient c =>
      exact ⟨Layer.setup_gradient c st,
        fresh_step (a := .gradient c) trivial h⟩
  | forward => exact ha.elim
  | setBatch n => exact ha.elim

omit [Scalar α] in
/-- An input that is replaced is still there. -/
theorem exists_input_set {w : Workspace α} {h i : InputHandle}
    (hw : ∃ t, w.input h = .ok t) (t : Tensor α) :
    ∃ t', Workspace.input { w with inputs := w.inputs.set i.index t } h
      = .ok t' := by
  obtain ⟨t', ht'⟩ := hw
  obtain ⟨hlt, -⟩ := List.getElem?_eq_some_iff.1 (lookup_eq_ok.1 ht')
  have hlt' : h.index < (w.inputs.set i.index t).length := by
    rwa [List.length_set]
  exact ⟨_, lookup_eq_ok.2 (List.getElem?_eq_getElem hlt')⟩

/-- No scratch value is written by it: gradients go to buffers of their
own. -/
theorem workspace_call (ha : a.SparesPass)
    (hpacked : st.workspace.scratchValue s.packed = .ok packed)
    (hstate : ∃ t, st.workspace.input s.state = .ok t) :
    (final a.procedure st).workspace.scratchValue s.packed = .ok packed
      ∧ ∃ t, (final a.procedure st).workspace.input s.state = .ok t := by
  let P (w : Workspace α) : Prop :=
    w.scratchValue s.packed = .ok packed ∧ ∃ t, w.input s.state = .ok t
  have hreplace : ∀ i t, Workspace.Keeps P (replaceWeight i t) :=
    fun i t => .stored (replaceWeight_eq i t) fun _ hw _ => hw
  refine Action.keeps (P := P) (fun c hc => ?_) st ⟨hpacked, hstate⟩
  cases hc with
  | setInput i t =>
      exact .stored (setInput_eq i t) fun w hw _ =>
        ⟨hw.1, exists_input_set hw.2 t⟩
  | setIncoming i t => exact .stored (setIncoming_eq i t) fun _ hw _ => hw
  | writeWeight i n x =>
      exact .inspect_bind fun w hw t _ => hreplace i t w hw
  | replaceWeight i t => exact hreplace i t
  | setScratchGrad _ i t =>
      refine .stored (setScratchGrad_eq i t) fun w hw _ => ⟨?_, hw.2⟩
      rw [scratchValue_putScratchGrad]
      exact hw.1
  | setWeightGrad i t =>
      exact .stored (setWeightGrad_eq i t) fun _ hw _ => hw
  | setOutgoing i t => exact .stored (setOutgoing_eq i t) fun _ hw _ => hw
  | setScratch i t => exact ha.elim
  | setOutput i t => exact ha.elim
  | resize i n => exact ha.elim

theorem Standing.after_call (h : Standing s k packed st)
    (ha : a.SparesPass) : Standing s k packed (final a.procedure st) := by
  obtain ⟨hsetup, hfresh⟩ := layer_call ha h.fresh
  obtain ⟨hpacked, hstate⟩ := workspace_call ha h.packed h.state
  have hmixtures := congrArg (·.1.mixtures) hsetup
  have hslots := congrArg (·.2) hsetup
  exact ⟨hslots.trans h.slots, hmixtures.trans h.mixtures, hfresh, hpacked,
    hstate⟩

theorem Standing.after (as : List (Action α)) :
    ∀ {st : Session α}, Standing s k packed st →
      (∀ a ∈ as, a.SparesPass) → Standing s k packed (st.after as) := by
  induction as with
  | nil => exact fun h _ => h
  | cons a as ih =>
      intro st h has
      rw [List.forall_mem_cons] at has
      exact ih (h.after_call has.1) has.2

/-- An accepted state is the one that is there. -/
theorem Standing.store (h : Standing s k packed st) {t : Tensor α}
    (hstore : (Action.setInput s.state t).procedure st = .ok () st') :
    Standing s k packed st' ∧ st'.workspace.input s.state = .ok t := by
  have hstands := h.after_call (a := .setInput s.state t) trivial
  rw [final_of_ok hstore] at hstands
  refine ⟨hstands, ?_⟩
  obtain ⟨t', ht'⟩ := h.state
  obtain ⟨hlt, -⟩ := List.getElem?_eq_some_iff.1 (lookup_eq_ok.1 ht')
  have hset := setInput_eq s.state t st.workspace
  replace hstore : onWorkspace (setInput s.state t) st = .ok () st' := hstore
  unfold stored at hset
  split at hset
  · rw [onWorkspace_of_ok hset] at hstore
    cases hstore
    exact lookup_eq_ok.2 (List.getElem?_set_self hlt)
  · rw [onWorkspace_of_error hset] at hstore
    cases hstore

-- ========================================================== being asked

/-- The centres that a layer gives out after a pass. For every layer that
was set up and every workspace, if a pass succeeds it used centres that are
the state it read moved ahead by its steps. Let anything be called then but
another pass or a change of the batch extent: inputs and incoming
derivatives stored, weights written, gradients computed, accepted or
refused. The layer gives out the state that is stored, moved ahead by the
steps of the pass; so these are the centres of the pass as long as no state
is stored, and after a state is stored they are those that a pass with the
same steps would use next. Asking changes neither the layer nor the
workspace. -/
theorem centres_follow_state {i j : Nat}
    (hslots : st.layer.slots = some (.startingAt i j))
    (hrun : Layer.forward st = .ok () st') :
    ∃ state step centres, st.Centred (.startingAt i j) st' state step centres
      ∧ ∀ as : List (Action α), (∀ a ∈ as, a.SparesPass) →
        (st'.after as).layer.centres (st'.after as).workspace
            = (do
                let stored ← (st'.after as).workspace.input
                  (Slots.startingAt i j).state
                stored.add step)
          ∧ ((∀ a ∈ as, a.Spares (Slots.startingAt i j).state) →
              (st'.after as).layer.centres (st'.after as).workspace
                = .ok centres)
          ∧ ∀ (t : Tensor α) (fed : Session α),
              (Action.setInput (Slots.startingAt i j).state t).procedure
                (st'.after as) = .ok () fed →
              ∀ rest : List (Action α),
                (∀ a ∈ rest, a.SparesPass
                  ∧ a.Spares (Slots.startingAt i j).state) →
                (fed.after rest).layer.centres (fed.after rest).workspace
                  = liftM (t.add step) := by
  obtain ⟨k, packed, state, step, centres, hstands, hinputs, hstep,
    hcentred⟩ := standing_forward hslots hrun
  refine ⟨state, step, centres, hcentred, fun as has => ?_⟩
  have hlater := hstands.after as has
  refine ⟨hlater.centres hstep, fun hspares => ?_, ?_⟩
  · have hstate : (st'.after as).workspace.input (Slots.startingAt i j).state
        = .ok state := by
      rw [input_after as hspares]
      unfold Workspace.input
      rw [hinputs]
      exact hcentred.input
    rw [hlater.centres hstep, hstate, ok_bind, hcentred.sum, lift_ok]
  · intro t fed hstore rest hrest
    obtain ⟨hfed, hstate⟩ := hlater.store hstore
    have hlast := hfed.after rest fun a ha => (hrest a ha).1
    rw [hlast.centres hstep, input_after rest fun a ha => (hrest a ha).2,
      hstate, ok_bind]

end

/-- The theorem in rational numbers: after a pass both gradients are
computed, the centres are those of the pass, and once a state is stored they
follow it. -/
theorem centres_follow_state_small :
    ∃ (pass fed : Session ℚ) (state step centres : Tensor ℚ),
      Layer.forward (Session.blank ⟨1, 1, 1, 1, 1, 1⟩) = .ok () pass
        ∧ Session.Centred (.startingAt 0 0)
            (Session.blank ⟨1, 1, 1, 1, 1, 1⟩) pass state step centres
        ∧ (Action.setInput ⟨2⟩ (.full [1, 1, 1, 1] 5)).procedure
            (pass.after [.gradient .weights, .gradient .inputs])
              = .ok () fed
        ∧ fed.layer.centres fed.workspace
            = liftM ((Tensor.full [1, 1, 1, 1] (5 : ℚ)).add step) := by
  obtain ⟨pass, hrun⟩ : ∃ pass, Layer.forward
      (Session.blank ⟨1, 1, 1, 1, 1, 1⟩ : Session ℚ) = .ok () pass :=
    ok_of_answer (by decide +kernel)
  obtain ⟨state, step, centres, hcentred, hlater⟩ :=
    centres_follow_state (i := 0) (j := 0) rfl hrun
  obtain ⟨-, -, hfed⟩ := hlater [.gradient .weights, .gradient .inputs]
    (by simp [Action.SparesPass])
  obtain ⟨fed, hstore⟩ : ∃ fed,
      (Action.setInput ⟨2⟩ (.full [1, 1, 1, 1] (5 : ℚ))).procedure
        (pass.after [.gradient .weights, .gradient .inputs])
          = .ok () fed := by
    rw [← final_of_ok hrun]
    exact ok_of_answer (by decide +kernel)
  exact ⟨pass, fed, state, step, centres, hrun, hcentred, hstore,
    hfed _ fed hstore [] nofun⟩

/-- Centres that are stored as the next state are not given out again: a
layer whose state is zero and whose steps are one gives out one, and two once
one is stored, although there was no second pass. -/
theorem centres_fed_back :
    let pass : Session ℚ :=
      final Layer.forward (.blank ⟨1, 1, 1, 1, 1, 1⟩)
    let fed := pass.after [.setInput ⟨2⟩ (.full [1, 1, 1, 1] 1)]
    answer Layer.forward (.blank ⟨1, 1, 1, 1, 1, 1⟩ : Session ℚ) = .ok ()
      ∧ (pass.layer.centres pass.workspace).toOption.map Tensor.data
          = some #[1]
      ∧ (fed.workspace.input ⟨2⟩).toOption.map Tensor.data = some #[1]
      ∧ (fed.layer.centres fed.workspace).toOption.map Tensor.data
          = some #[2] := by
  intro pass fed
  refine ⟨eq_ok_of_isOk ?_, ?_, ?_, ?_⟩ <;> decide +kernel

end MixtureAttention
