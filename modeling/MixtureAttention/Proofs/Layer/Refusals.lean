/-
Which refusals the computations of the backward pass can give. They read
buffers and compute with tensors, so they are refused for a handle, for a
missing gradient buffer or by a tensor operation, and never for want of a
forward pass: that refusal comes from the memo alone. The last part says so
for the calls: on a layer that is set up, each of them asks for a forward
pass exactly when the memo is stale.
-/
import MixtureAttention.Proofs.Layer.Transitions

namespace MixtureAttention

variable {α β γ : Type}

/-- The outcome is not the refusal for want of a forward pass. -/
def NotStale (x : Except LayerError β) : Prop := x ≠ .error .forwardNotRun

namespace NotStale

/-- A success asks for no forward pass. -/
theorem ok (x : β) : NotStale (.ok x) := nofun

/-- Any other refusal asks for no forward pass. -/
theorem error {e : LayerError} (h : e ≠ .forwardNotRun) :
    NotStale (.error e : Except LayerError β) := by
  intro he
  injection he with he
  exact h he

/-- Sequencing asks for none unless a step does. -/
theorem bind {x : Except LayerError β} {f : β → Except LayerError γ}
    (hx : NotStale x) (hf : ∀ b, NotStale (f b)) : NotStale (x >>= f) := by
  cases x with
  | error e => exact fun h => hx (by injection h with h; rw [h])
  | ok b => exact hf b

/-- An operation on tensors is refused in its own words. -/
theorem lift (x : Except TensorError β) :
    NotStale (liftM x : Except LayerError β) := by
  cases x with
  | error e => exact error nofun
  | ok b => exact ok b

/-- A handle that is not found is another refusal. -/
theorem lookup (kind : HandleKind) (entries : List β) (i : Nat) :
    NotStale (Workspace.lookup kind entries i) := by
  unfold Workspace.lookup
  cases entries[i]? with
  | none => exact error nofun
  | some x => exact ok x

/-- A shape that does not fit is another refusal. -/
theorem checkExact (shape : Shape) (t : Tensor α) :
    NotStale (Workspace.checkExact shape t) := by
  unfold Workspace.checkExact
  split
  · exact ok ()
  · exact error nofun

variable (w : Workspace α)

/-- Reading an input asks for no forward pass. -/
theorem input (h : InputHandle) : NotStale (w.input h) := lookup _ _ _

/-- Reading an incoming derivative asks for no forward pass. -/
theorem incoming (i : Nat) : NotStale (w.incomingAt i) := lookup _ _ _

/-- Reading a weight asks for no forward pass. -/
theorem weight (h : WeightHandle) : NotStale (w.weight h) :=
  bind (lookup _ _ _) fun _ => ok _

/-- Reading a scratch value asks for no forward pass. -/
theorem scratchValue (h : ScratchHandle) : NotStale (w.scratchValue h) :=
  bind (lookup _ _ _) fun _ => ok _

/-- Reading the gradient of a scratch buffer asks for no forward pass. -/
theorem scratchGrad (h : ScratchHandle) : NotStale (w.scratchGrad h) := by
  refine bind (lookup _ _ _) fun entry => ?_
  cases entry.grad with
  | none => exact error nofun
  | some grad => exact ok grad

end NotStale

namespace Layer

open NotStale

/-- A layer without handles is refused as unfinished. -/
theorem slots?_notStale (l : Layer α) : NotStale l.slots? := by
  unfold slots?
  cases l.slots with
  | none => exact error nofun
  | some s => exact ok s

/-- A layer without mixtures is refused for its settings. -/
theorem mixtures?_notStale (l : Layer α) : NotStale l.mixtures? := by
  unfold mixtures?
  cases l.settings.mixtures with
  | none => exact error nofun
  | some k => exact ok k

variable (s : Slots) (k : Nat) (w : Workspace α)

/-- The shared derivatives are computed from what is there, stale or not. -/
theorem packedDerivative_notStale [Scalar α] :
    NotStale (packedDerivative s k w) := by
  unfold packedDerivative
  refine bind (incoming w 0) fun dout => ?_
  refine bind (input w s.value) fun value => ?_
  refine bind (lift _) fun dweighted => ?_
  refine bind (scratchValue w s.packed) fun packed => ?_
  iterate 3 refine bind (lift _) fun _ => ?_
  refine bind (scratchValue w s.mass) fun mass => ?_
  iterate 3 refine bind (lift _) fun _ => ?_
  refine bind (scratchValue w s.upper) fun upper => ?_
  refine bind (lift _) fun dupper => ?_
  refine bind (scratchValue w s.lower) fun lower => ?_
  iterate 5 refine bind (lift _) fun _ => ?_
  refine bind (scratchValue w s.upperEdge) fun upperEdge => ?_
  iterate 2 refine bind (lift _) fun _ => ?_
  refine bind (scratchValue w s.lowerEdge) fun lowerEdge => ?_
  iterate 8 refine bind (lift _) fun _ => ?_
  exact ok _

/-- The derivative of the values is computed from what is there. -/
theorem valueDerivative_notStale [Scalar α] :
    NotStale (valueDerivative .release s w) := by
  unfold valueDerivative
  refine bind (scratchValue w s.scores) fun scores => ?_
  refine bind (incoming w 0) fun dout => ?_
  refine bind (input w s.value) fun value => ?_
  exact lift _

/-- The derivative of the hidden row is computed from what is there. -/
theorem hiddenDerivative_notStale [Scalar α] :
    NotStale (hiddenDerivative s w) := by
  unfold hiddenDerivative
  refine bind (scratchGrad w s.packed) fun dpacked => ?_
  refine bind (weight w s.packedWeight) fun packedWeight => ?_
  refine bind (lift _) fun dhidden => ?_
  refine bind (scratchValue w s.hidden) fun hidden => ?_
  exact lift _

/-- The derivative of the query is computed from what is there. -/
theorem queryDerivative_notStale [Scalar α] :
    NotStale (queryDerivative s w) := by
  unfold queryDerivative
  refine bind (hiddenDerivative_notStale s w) fun dsum => ?_
  refine bind (weight w s.hiddenWeight) fun hiddenWeight => ?_
  exact lift _

/-- The weight gradients are computed from what is there. -/
theorem weightDerivatives_notStale [Scalar α] :
    NotStale (weightDerivatives .release s w) := by
  unfold weightDerivatives
  refine bind (scratchValue w s.hidden) fun hidden => ?_
  refine bind (scratchGrad w s.packed) fun dpacked => ?_
  refine bind (weight w s.packedWeight) fun packedWeight => ?_
  refine bind (lift _) fun dpackedWeight => ?_
  refine bind (hiddenDerivative_notStale s w) fun dsum => ?_
  refine bind (input w s.query) fun query => ?_
  refine bind (weight w s.hiddenWeight) fun hiddenWeight => ?_
  iterate 2 refine bind (lift _) fun _ => ?_
  exact ok _

/-- Storing the shared derivatives asks for no forward pass. -/
theorem fitsPacked_notStale (d : PackedDerivative α) :
    NotStale (fitsPacked s w d) := by
  unfold fitsPacked Workspace.fitsScratch
  refine bind (bind (lookup _ _ _) fun _ => checkExact _ _) fun _ => ?_
  exact bind (scratchGrad w s.packed) fun _ => ok ()

/-- Reading a segment of the packed buffer asks for no forward pass. -/
theorem packedSegment_notStale (l : Layer α) (seg : Segment) :
    NotStale (l.packedSegment w seg) := by
  unfold packedSegment
  refine bind (mixtures?_notStale l) fun k => ?_
  refine bind (slots?_notStale l) fun s => ?_
  refine bind (scratchValue w s.packed) fun packed => ?_
  exact lift _

-- ============================================================== the calls

open Procedure

omit s k w

/-- A step that is not refused for want of a forward pass, followed by such
steps. -/
theorem answer_bind_notStale {p : Procedure α β} {q : β → Procedure α γ}
    {st : Session α} (hp : NotStale (answer p st))
    (hq : ∀ x st', p st = .ok x st' → NotStale (answer (q x) st')) :
    NotStale (answer (p >>= q) st) := by
  cases hst : p st with
  | error e st' =>
      rw [answer_of_error hst] at hp
      rw [answer_of_error (bind_of_error hst)]
      exact error fun he => hp (by rw [he])
  | ok x st' =>
      rw [answer_congr (bind_of_ok hst)]
      exact hq x st' hst

/-- A read asks for none if what is read does not. -/
theorem answer_read_notStale {f : Session α → Except LayerError β}
    {st : Session α} (h : NotStale (f st)) :
    NotStale (answer (read f) st) := by
  cases hf : f st with
  | error e =>
      rw [answer_of_error (read_of_error hf), ← hf]
      exact h
  | ok x =>
      rw [answer_of_ok (read_of_ok hf), ← hf]
      exact h

/-- A read that succeeds, followed by steps that are not refused for want of
a forward pass. -/
theorem answer_read_bind_notStale {f : Session α → Except LayerError β}
    {q : β → Procedure α γ} {st : Session α} (hf : NotStale (f st))
    (hq : ∀ x, f st = .ok x → NotStale (answer (q x) st)) :
    NotStale (answer (read f >>= q) st) := by
  refine answer_bind_notStale (answer_read_notStale hf) fun x st' hst => ?_
  cases hx : f st with
  | error e =>
      rw [read_of_error hx] at hst
      cases hst
  | ok y =>
      rw [read_of_ok hx] at hst
      cases hst
      exact hq x hx

/-- A store is refused by its check alone. -/
theorem answer_store_notStale {c : Workspace.Command α Unit}
    {check : Workspace α → Except LayerError Unit}
    {put : Workspace α → Workspace α}
    (hform : ∀ w, c w = Workspace.stored (check w) w (put w))
    (hcheck : ∀ w, NotStale (check w)) (st : Session α) :
    NotStale (answer (onWorkspace c) st) := by
  have hrun := hform st.workspace
  cases hw : check st.workspace with
  | error e =>
      rw [hw] at hrun
      rw [answer_of_error (onWorkspace_of_error hrun), ← hw]
      exact hcheck _
  | ok u =>
      rw [hw] at hrun
      rw [answer_of_ok (onWorkspace_of_ok hrun)]
      exact ok _

/-- Stores whose checks ask for no forward pass do not ask for one. -/
theorem storeAll_notStale {store : β → Workspace.Command α Unit}
    {check : β → Workspace α → Except LayerError Unit}
    {put : β → Workspace α → Workspace α}
    (hform : ∀ b w, store b w = Workspace.stored (check b w) w (put b w))
    (hcheck : ∀ b w, NotStale (check b w)) (bs : List β) :
    ∀ st,
      NotStale (answer (onWorkspace (Workspace.storeAll store bs)) st) := by
  induction bs with
  | nil => exact fun st => ok ()
  | cons b bs ih =>
      intro st
      rw [Workspace.storeAll, onWorkspace_bind]
      exact answer_bind_notStale
        (answer_store_notStale (hform b) (hcheck b) st) fun _ st' _ => ih st'

/-- The check of a weight gradient asks for none. -/
theorem fitsWeight_notStale (h : WeightHandle) (t : Tensor α)
    (w : Workspace α) : NotStale (w.fitsWeight h t) :=
  bind (lookup _ _ _) fun _ => checkExact _ _

/-- The check of an outgoing derivative asks for none. -/
theorem fitsInput_notStale (h : InputHandle) (t : Tensor α)
    (w : Workspace α) : NotStale (w.fitsInput h t) :=
  bind (input w h) fun _ => checkExact _ _

variable [Scalar α] {st : Session α} {s : Slots}

/-- Once a forward pass is remembered, the shared derivatives do not ask for
one. -/
theorem ensureDifferentiated_notStale (hm : st.layer.memo ≠ .stale) :
    NotStale (answer ensureDifferentiated st) := by
  cases hmemo : st.layer.memo with
  | stale => exact absurd hmemo hm
  | differentiated dstate =>
      rw [answer_of_ok (ensureDifferentiated_of_differentiated hmemo)]
      exact ok ()
  | forwarded =>
      rw [answer_congr (ensureDifferentiated_of_forwarded hmemo)]
      unfold differentiate
      refine answer_read_bind_notStale (slots?_notStale _) fun s _ => ?_
      refine answer_read_bind_notStale (mixtures?_notStale _) fun k _ => ?_
      refine answer_read_bind_notStale (packedDerivative_notStale s k _)
        fun d _ => ?_
      refine answer_bind_notStale ?_ fun _ _ _ => ok ()
      exact answer_store_notStale (setPacked_eq s d)
        (fun w => fitsPacked_notStale s w d) st

/-- The weight gradients ask for a forward pass exactly if none is remembered.
-/
theorem weightGradients_asks_iff (hs : st.layer.slots = some s) :
    answer (weightGradients .release) st = .error .forwardNotRun
      ↔ st.layer.memo = .stale := by
  by_cases hm : st.layer.memo = .stale
  · have hrun : weightGradients .release st = .error .forwardNotRun st := by
      rw [weightGradients_eq hs, ensureDifferentiated_of_stale hm]
    exact ⟨fun _ => hm, fun _ => answer_of_error hrun⟩
  · refine ⟨fun h => absurd h ?_, fun h => absurd h hm⟩
    show NotStale (answer (weightGradients .release) st)
    have hensure := ensureDifferentiated_notStale hm
    have hrun := weightGradients_eq hs
    cases hst : ensureDifferentiated st with
    | error e st' =>
        rw [hst] at hrun
        rw [answer_of_error hst] at hensure
        rw [answer_of_error hrun]
        exact hensure
    | ok _ st' =>
        simp only [hst] at hrun
        rw [answer_congr hrun]
        refine answer_read_bind_notStale (weightDerivatives_notStale s _)
          fun d _ => ?_
        exact storeAll_notStale
          (fun (p : WeightHandle × Tensor α) =>
            Workspace.setWeightGrad_eq p.1 p.2)
          (fun p w => fitsWeight_notStale p.1 p.2 w) _ st'

/-- The derivative with respect to the state comes with the packed
derivative. -/
theorem stateDerivative_of_ensureDifferentiated {st' : Session α}
    (h : ensureDifferentiated st = .ok () st') :
    ∃ dstate, st'.layer.memo = .differentiated dstate := by
  rcases ensureDifferentiated_ok h with ⟨dstate, hm, rfl⟩ | ⟨s, d, -, -, rfl⟩
  · exact ⟨dstate, hm⟩
  · exact ⟨d.state, rfl⟩

/-- The input gradients ask for one in the same case. -/
theorem inputGradients_asks_iff (hs : st.layer.slots = some s) :
    answer (inputGradients .release) st = .error .forwardNotRun
      ↔ st.layer.memo = .stale := by
  by_cases hm : st.layer.memo = .stale
  · exact ⟨fun _ => hm, fun _ =>
      answer_of_error (inputGradients_of_stale hs hm)⟩
  · refine ⟨fun h => absurd h ?_, fun h => absurd h hm⟩
    show NotStale (answer (inputGradients .release) st)
    have hvalue := valueDerivative_notStale s st.workspace
    have hensure := ensureDifferentiated_notStale hm
    have hrun := inputGradients_eq hs hm
    cases hv : valueDerivative .release s st.workspace with
    | error e =>
        rw [hv] at hrun hvalue
        rw [answer_of_error hrun]
        exact error fun he => hvalue (by rw [he])
    | ok dvalue =>
        cases hst : ensureDifferentiated st with
        | error e st' =>
            simp only [hv, hst] at hrun
            rw [answer_of_error hst] at hensure
            rw [answer_of_error hrun]
            exact hensure
        | ok _ st' =>
            simp only [hv, hst] at hrun
            rw [answer_congr hrun]
            obtain ⟨dstate, hd⟩ := stateDerivative_of_ensureDifferentiated hst
            refine answer_read_bind_notStale (queryDerivative_notStale s _)
              fun dquery _ => ?_
            refine answer_read_bind_notStale ?_ fun _ _ => ?_
            · unfold stateDerivative
              rw [hd]
              exact ok dstate
            exact storeAll_notStale
              (fun (p : InputHandle × Tensor α) =>
                Workspace.setOutgoing_eq p.1 p.2)
              (fun p w => fitsInput_notStale p.1 p.2 w) _ st'

/-- The mixture centres ask for a forward pass in the same case, for any
workspace. -/
theorem centres_asks_iff (l : Layer α) (w : Workspace α) :
    l.centres w = .error .forwardNotRun ↔ l.memo = .stale := by
  unfold centres isStale
  cases hm : l.memo with
  | stale => exact ⟨fun _ => rfl, fun _ => rfl⟩
  | _ =>
      refine ⟨fun h => absurd h ?_, nofun⟩
      refine NotStale.bind (packedSegment_notStale w l .step) fun step => ?_
      refine NotStale.bind (slots?_notStale l) fun s => ?_
      exact NotStale.bind (input w s.state) fun _ => lift _

end Layer
end MixtureAttention
