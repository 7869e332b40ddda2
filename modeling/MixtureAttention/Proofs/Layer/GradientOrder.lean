/-
The two gradient procedures in any order and any number. They share the
packed derivative, which the first of them computes and the memo keeps, and
beyond that each writes what the other never looks at: `inputGradients` the
outgoing derivatives, `weightGradients` the gradients of the weights.

The argument has three parts. Each procedure is blind to what the other
writes. Each leaves, relative to the session that `ensureDifferentiated`
leaves, an edit of its own kind. And each, run again, changes nothing,
because the memo is filled and the same buffers are overwritten with the
same values. Nothing is asked of the session: the memo may hold anything,
the workspace may belong to another blueprint, and the calls may fail at
any point.
-/
import MixtureAttention.Proofs.Layer.Transitions

namespace MixtureAttention

variable {α : Type}

open Procedure

-- ============================================================== two edits

namespace Workspace

/-- Other derivatives with respect to the inputs. -/
def withOutgoing (o : List (Tensor α)) (w : Workspace α) : Workspace α :=
  { w with outgoing := o }

/-- Other gradients of the weights, each computed from its position and the
one that was there. -/
def regrade (g : Nat → Tensor α → Tensor α) (w : Workspace α) :
    Workspace α :=
  { w with
    weights := w.weights.mapIdx fun i e => { e with grad := g i e.grad } }

/-- Weights are read alike whatever their gradients are. -/
theorem weight_regrade (g : Nat → Tensor α → Tensor α) (w : Workspace α)
    (h : WeightHandle) : (w.regrade g).weight h = w.weight h := by
  unfold weight weightEntry lookup regrade
  rw [List.getElem?_mapIdx]
  cases w.weights[h.index]? <;> rfl

/-- What fits a weight does not depend on its gradient. -/
theorem fitsWeight_regrade (g : Nat → Tensor α → Tensor α)
    (w : Workspace α) (h : WeightHandle) (t : Tensor α) :
    (w.regrade g).fitsWeight h t = w.fitsWeight h t := by
  unfold fitsWeight weightEntry lookup regrade
  rw [List.getElem?_mapIdx]
  cases w.weights[h.index]? <;> rfl

/-- Overwriting gradients is an edit of the gradients. -/
theorem putWeightGrads_eq_regrade (ps : List (WeightHandle × Tensor α)) :
    ∃ g, ∀ w : Workspace α, w.putWeightGrads ps = w.regrade g := by
  let ws := ps.map fun p => (p.1.index, p.2)
  refine ⟨fun i x => (writesAt ws i).foldl (fun _ t => t) x, fun w => ?_⟩
  have key : ∀ (ts : List (Tensor α)) (e : Weight α),
      ts.foldl (fun e t => { e with grad := t }) e
        = { e with grad := ts.foldl (fun _ t => t) e.grad } := by
    intro ts
    induction ts with
    | nil => exact fun _ => rfl
    | cons t ts ih => exact fun e => ih _
  rw [putWeightGrads_eq]
  unfold regrade
  congr 1
  refine List.ext_getElem? fun i => ?_
  rw [getElem?_overlay, List.getElem?_mapIdx]
  congr 1
  funext e
  exact key (writesAt ws i) e

/-- A weight gradient fits as before once another is stored. -/
theorem fitsWeight_putWeightGrad (h h' : WeightHandle) (t t' : Tensor α)
    (w : Workspace α) :
    (w.putWeightGrad h' t').fitsWeight h t = w.fitsWeight h t := by
  obtain ⟨g, hg⟩ := putWeightGrads_eq_regrade [(h', t')]
  exact (congrArg (fun w => w.fitsWeight h t) (hg w)).trans
    (fitsWeight_regrade g w h t)

/-- Changing no gradient changes nothing. -/
theorem regrade_id (w : Workspace α) : w.regrade (fun _ x => x) = w := by
  unfold regrade
  have hsame : w.weights.mapIdx (fun _ e => { e with grad := e.grad })
      = w.weights := by
    refine List.ext_getElem? fun i => ?_
    rw [List.getElem?_mapIdx]
    cases w.weights[i]? <;> rfl
  rw [hsame]

end Workspace

namespace Layer

open Workspace

variable [Scalar α]

/-- The weight gradients do not look at what was stored as such. -/
theorem weightDerivatives_regrade (g : Nat → Tensor α → Tensor α)
    (s : Slots) (w : Workspace α) :
    weightDerivatives .release s (w.regrade g) = weightDerivatives .release s w := by
  unfold weightDerivatives hiddenDerivative
  simp only [weight_regrade]
  rfl

/-- The derivative of the query does not look at stored weight gradients. -/
theorem queryDerivative_regrade (g : Nat → Tensor α → Tensor α)
    (s : Slots) (w : Workspace α) :
    queryDerivative s (w.regrade g) = queryDerivative s w := by
  unfold queryDerivative hiddenDerivative
  simp only [weight_regrade]
  rfl

-- ============================================================= blindness

/-- The shared derivative is blind to every edit that leaves alone what it
reads and the buffer that it writes. -/
theorem blind_ensureDifferentiated {f : Workspace α → Workspace α}
    (hread : ∀ s k w, packedDerivative s k (f w) = packedDerivative s k w)
    (hcheck : ∀ s w d, fitsPacked s (f w) d = fitsPacked s w d)
    (hput : ∀ h t w, (f w).putScratchGrad h t = f (w.putScratchGrad h t)) :
    Blind f (ensureDifferentiated (α := α)) := by
  refine .get (fun _ => rfl) fun st => ?_
  cases st.layer.memo with
  | stale => exact .throw _
  | differentiated _ => exact .pure _
  | forwarded =>
      refine .bind (.read fun _ => rfl) fun s => ?_
      refine .bind (.read fun _ => rfl) fun k => ?_
      refine .bind (.read fun st => hread s k st.workspace) fun d => ?_
      refine .bind ?_ fun _ => .modify fun _ => rfl
      exact Blind.store (setPacked_eq s d) (fun w => hcheck s w d)
        fun w => hput _ _ w

/-- The gradients of the weights are computed without a look at the
outgoing derivatives. -/
theorem blind_weightGradients (o : List (Tensor α)) :
    Blind (withOutgoing o) (weightGradients (α := α) .release) := by
  refine .bind (.read fun _ => rfl) fun s => ?_
  refine .bind (blind_ensureDifferentiated (fun _ _ _ => rfl)
    (fun _ _ _ => rfl) fun _ _ _ => rfl) fun _ => ?_
  refine .bind (.read fun _ => rfl) fun d => ?_
  have hstore : ∀ (h : WeightHandle) (t : Tensor α),
      Blind (withOutgoing o) (onWorkspace (setWeightGrad h t)) :=
    fun h t => .store (setWeightGrad_eq h t) (fun _ => rfl) fun _ => rfl
  exact .bind (hstore _ _) fun _ => .bind (hstore _ _) fun _ => hstore _ _

/-- The derivatives with respect to the inputs are computed without a look
at the gradients of the weights. -/
theorem blind_inputGradients (g : Nat → Tensor α → Tensor α) :
    Blind (regrade g) (inputGradients (α := α) .release) := by
  refine .bind (.read fun _ => rfl) fun s => ?_
  refine .get (fun _ => rfl) fun st => ?_
  have hrest : Blind (regrade g) (do
      let dvalue ← Procedure.read fun st => valueDerivative .release s st.workspace
      ensureDifferentiated
      let dquery ← Procedure.read fun st => queryDerivative s st.workspace
      let dstate ← Procedure.read fun st => st.layer.stateDerivative
      onWorkspace (setOutgoing s.query dquery)
      onWorkspace (setOutgoing s.value dvalue)
      onWorkspace (setOutgoing s.state dstate)) := by
    refine .bind (.read fun _ => rfl) fun dvalue => ?_
    refine .bind (blind_ensureDifferentiated (fun _ _ _ => rfl)
      (fun _ _ _ => rfl) fun _ _ _ => rfl) fun _ => ?_
    refine .bind (.read fun st => ?_) fun dquery => ?_
    · exact queryDerivative_regrade g s st.workspace
    refine .bind (.read fun _ => rfl) fun dstate => ?_
    have hstore : ∀ (h : InputHandle) (t : Tensor α),
        Blind (regrade g) (onWorkspace (setOutgoing h t)) :=
      fun h t => .store (setOutgoing_eq h t) (fun _ => rfl) fun _ => rfl
    exact .bind (hstore _ _) fun _ => .bind (hstore _ _) fun _ => hstore _ _
  by_cases hstale : st.layer.isStale = true
  · simp only [hstale, if_true]
    exact .bind (.throw _) fun _ => hrest
  · simp only [hstale]
    exact hrest

-- ======================================================= what is written

/-- Storing the gradients of the weights edits the gradients only, and
storing them again changes nothing. -/
theorem storeWeightGradients_settles (s : Slots) (st : Session α) :
    (∃ g, final (storeWeightGradients s) st = st.edit (regrade g))
      ∧ storeWeightGradients s (final (storeWeightGradients s) st)
          = storeWeightGradients s st := by
  cases hd : weightDerivatives .release s st.workspace with
  | error e =>
      have hrun : storeWeightGradients s st = .error e st :=
        bind_of_error (read_of_error hd)
      rw [final_of_error hrun]
      exact ⟨⟨fun _ x => x, by rw [Session.edit, regrade_id]⟩, rfl⟩
  | ok d =>
      obtain ⟨r, qs, hfirst, hagain⟩ := storeAll_settles
        (fun (p : WeightHandle × Tensor α) => setWeightGrad_eq p.1 p.2)
        (fun p p' => fitsWeight_putWeightGrad p.1 p'.1 p.2 p'.2)
        putWeightGrads_putWeightGrads (weightStores s d) st.workspace
      obtain ⟨g, hg⟩ := putWeightGrads_eq_regrade qs
      have hfinal : final (storeWeightGradients s) st
          = st.edit (putWeightGrads qs) := by
        rw [final_congr (storeWeightGradients_eq hd)]
        exact (onWorkspace_of_answered hfirst).1
      rw [hfinal]
      refine ⟨⟨g, by rw [Session.edit, hg]; rfl⟩, ?_⟩
      have hd' : weightDerivatives .release s (st.edit (putWeightGrads qs)).workspace
          = .ok d := by
        rw [Session.edit, hg, weightDerivatives_regrade, hd]
      rw [storeWeightGradients_eq hd', storeWeightGradients_eq hd]
      exact onWorkspace_congr hagain

/-- Storing the derivatives with respect to the inputs edits these only, and
storing them again changes nothing. -/
theorem storeInputGradients_settles (s : Slots) (dvalue : Tensor α)
    (st : Session α) :
    (∃ o, final (storeInputGradients s dvalue) st = st.edit (withOutgoing o))
      ∧ storeInputGradients s dvalue (final (storeInputGradients s dvalue) st)
          = storeInputGradients s dvalue st := by
  -- a call that is refused before any store leaves all as it is
  have hquiet : ∀ e, storeInputGradients s dvalue st = .error e st →
      (∃ o, final (storeInputGradients s dvalue) st
          = st.edit (withOutgoing o))
        ∧ storeInputGradients s dvalue
            (final (storeInputGradients s dvalue) st)
          = storeInputGradients s dvalue st := by
    intro e h
    rw [final_of_error h]
    exact ⟨⟨st.workspace.outgoing, rfl⟩, rfl⟩
  cases hq : queryDerivative s st.workspace with
  | error e => exact hquiet e (bind_of_error (read_of_error hq))
  | ok dquery =>
      cases hm : st.layer.stateDerivative with
      | error e =>
          refine hquiet e ?_
          unfold storeInputGradients
          rw [bind_of_ok (read_of_ok hq)]
          exact bind_of_error (read_of_error hm)
      | ok dstate =>
          obtain ⟨r, qs, hfirst, hagain⟩ := storeAll_settles
            (fun (p : InputHandle × Tensor α) => setOutgoing_eq p.1 p.2)
            (fun _ _ _ => rfl) putOutgoings_putOutgoings
            (inputStores s dquery dvalue dstate) st.workspace
          have hfinal : final (storeInputGradients s dvalue) st
              = st.edit (putOutgoings qs) := by
            rw [final_congr (storeInputGradients_eq hq hm)]
            exact (onWorkspace_of_answered hfirst).1
          have hedit : st.edit (putOutgoings qs)
              = st.edit (withOutgoing
                  (putOutgoings qs st.workspace).outgoing) := by
            unfold Session.edit
            rw [putOutgoings_eq]
            rfl
          rw [hfinal]
          refine ⟨⟨_, hedit⟩, ?_⟩
          -- outgoing derivatives are not looked at, so the call computes the
          -- same again
          have hq' : queryDerivative s (st.edit (putOutgoings qs)).workspace
              = .ok dquery := by
            rw [hedit]
            exact hq
          exact (storeInputGradients_eq hq' hm).trans
            ((onWorkspace_congr hagain).trans
              (storeInputGradients_eq hq hm).symm)

end Layer

-- ============================================================= the two calls

/-- A call of one of the two gradient procedures. -/
inductive GradientCall
  | inputs
  | weights
deriving DecidableEq, Repr

namespace GradientCall

open Layer Workspace

/-- The procedure that is called. -/
def procedure [Scalar α] : GradientCall → Procedure α Unit
  | inputs => inputGradients .release
  | weights => weightGradients .release

/-- The edits of the workspace that a call makes beyond the packed
derivative. -/
def Edits : GradientCall → (Workspace α → Workspace α) → Prop
  | inputs, f => ∃ o, f = withOutgoing o
  | weights, f => ∃ g, f = regrade g

/-- Edits of the two kinds can be made in either order. -/
theorem edits_comm {c d : GradientCall} (hcd : c ≠ d)
    {f g : Workspace α → Workspace α} (hf : c.Edits f) (hg : d.Edits g)
    (st : Session α) : (st.edit f).edit g = (st.edit g).edit f := by
  cases c with
  | inputs =>
      obtain ⟨o, rfl⟩ := hf
      cases d with
      | inputs => exact absurd rfl hcd
      | weights => obtain ⟨r, rfl⟩ := hg; rfl
  | weights =>
      obtain ⟨r, rfl⟩ := hf
      cases d with
      | inputs => obtain ⟨o, rfl⟩ := hg; rfl
      | weights => exact absurd rfl hcd

variable [Scalar α]

/-- A call is blind to the edits of the other one. -/
theorem blind_of_ne {c d : GradientCall} (hcd : c ≠ d)
    {f : Workspace α → Workspace α} (hf : c.Edits f) :
    Blind f (d.procedure (α := α)) := by
  cases c with
  | inputs =>
      obtain ⟨o, rfl⟩ := hf
      cases d with
      | inputs => exact absurd rfl hcd
      | weights => exact blind_weightGradients o
  | weights =>
      obtain ⟨g, rfl⟩ := hf
      cases d with
      | inputs => exact blind_inputGradients g
      | weights => exact absurd rfl hcd

/-- The packed derivative that is there stays there when something else is
edited. -/
theorem ensureDifferentiated_edit {c : GradientCall}
    {f : Workspace α → Workspace α} (hf : c.Edits f) {st : Session α}
    (h : ensureDifferentiated st = .ok () st) :
    ensureDifferentiated (st.edit f) = .ok () (st.edit f) := by
  have hblind : Blind f (ensureDifferentiated (α := α)) := by
    cases c with
    | inputs =>
        obtain ⟨o, rfl⟩ := hf
        exact blind_ensureDifferentiated (fun _ _ _ => rfl)
          (fun _ _ _ => rfl) fun _ _ _ => rfl
    | weights =>
        obtain ⟨g, rfl⟩ := hf
        exact blind_ensureDifferentiated (fun _ _ _ => rfl)
          (fun _ _ _ => rfl) fun _ _ _ => rfl
  rw [hblind st, h]
  rfl

/-- What a call does. Either it is refused, with or without the packed
derivative, and changes nothing. Or it makes sure of the packed derivative
and makes an edit of its own kind, and run again it does the same. -/
def Outcome (c : GradientCall) (st : Session α) : Prop :=
  (∃ e, c.procedure st = .error e st
      ∧ ∀ st', ensureDifferentiated st = .ok () st' →
          c.procedure st' = .error e st')
    ∨ ∃ st' f, c.Edits f ∧ ensureDifferentiated st = .ok () st'
        ∧ c.procedure st = c.procedure st'
        ∧ final c.procedure st' = st'.edit f
        ∧ c.procedure (st'.edit f) = c.procedure st'

/-- A call for the weight gradients has one of the outcomes. -/
theorem outcome_weights (st : Session α) : weights.Outcome st := by
  cases hs : st.layer.slots with
  | none =>
      refine .inl ⟨_, weightGradients_of_unset hs, fun st' h => ?_⟩
      exact weightGradients_of_unset
        ((ensureDifferentiated_again h).2.1.trans hs)
  | some s =>
      have hrun := weightGradients_eq hs
      rcases ensureDifferentiated_error_or_ok st with ⟨e, he⟩ | ⟨st', hst'⟩
      · rw [he] at hrun
        exact .inl ⟨e, hrun, fun st' h => by rw [he] at h; cases h⟩
      obtain ⟨hagain, hslots, -, -, -⟩ := ensureDifferentiated_again hst'
      have hs' := hslots.trans hs
      have hrun' := weightGradients_eq hs'
      obtain ⟨⟨g, hg⟩, hsettle⟩ := storeWeightGradients_settles s st'
      have hslots'' : (st'.edit (regrade g)).layer.slots = some s := hs'
      have hrun'' := weightGradients_eq hslots''
      rw [hst'] at hrun
      rw [hagain] at hrun'
      rw [ensureDifferentiated_edit (c := weights) ⟨g, rfl⟩ hagain] at hrun''
      rw [hg] at hsettle
      refine .inr ⟨st', regrade g, ⟨g, rfl⟩, hst', hrun.trans hrun'.symm,
        ?_, ?_⟩
      · exact (final_congr hrun').trans hg
      · exact hrun''.trans (hsettle.trans hrun'.symm)

/-- A call for the input gradients has one of the outcomes. -/
theorem outcome_inputs (st : Session α) : inputs.Outcome st := by
  cases hs : st.layer.slots with
  | none =>
      refine .inl ⟨_, inputGradients_of_unset hs, fun st' h => ?_⟩
      exact inputGradients_of_unset
        ((ensureDifferentiated_again h).2.1.trans hs)
  | some s =>
      by_cases hm : st.layer.memo = .stale
      · refine .inl ⟨_, inputGradients_of_stale hs hm, fun st' h => ?_⟩
        exact absurd hm (ensureDifferentiated_again h).2.2.1
      have hrun := inputGradients_eq hs hm
      cases hv : valueDerivative .release s st.workspace with
      | error e =>
          rw [hv] at hrun
          refine .inl ⟨e, hrun, fun st' h => ?_⟩
          obtain ⟨-, hslots, -, hm', hvalue⟩ := ensureDifferentiated_again h
          have hrun' := inputGradients_eq (hslots.trans hs) hm'
          rw [hvalue, hv] at hrun'
          exact hrun'
      | ok dvalue =>
          rw [hv] at hrun
          rcases ensureDifferentiated_error_or_ok st with
            ⟨e, he⟩ | ⟨st', hst'⟩
          · simp only [he] at hrun
            exact .inl ⟨e, hrun, fun st' h => by rw [he] at h; cases h⟩
          obtain ⟨hagain, hslots, -, hm', hvalue⟩ :=
            ensureDifferentiated_again hst'
          have hs' := hslots.trans hs
          have hv' := (hvalue s).trans hv
          obtain ⟨⟨o, ho⟩, hsettle⟩ :=
            storeInputGradients_settles s dvalue st'
          have hrun' := inputGradients_eq hs' hm'
          have hslots'' : (st'.edit (withOutgoing o)).layer.slots = some s :=
            hs'
          have hrun'' := inputGradients_eq hslots'' hm'
          have hv'' : valueDerivative .release s
              (st'.edit (withOutgoing o)).workspace = .ok dvalue := hv'
          simp only [hst'] at hrun
          simp only [hv', hagain] at hrun'
          simp only [hv'', ensureDifferentiated_edit (c := inputs) ⟨o, rfl⟩
            hagain] at hrun''
          rw [ho] at hsettle
          refine .inr ⟨st', withOutgoing o, ⟨o, rfl⟩, hst',
            hrun.trans hrun'.symm, ?_, ?_⟩
          · exact (final_congr hrun').trans ho
          · exact hrun''.trans (hsettle.trans hrun'.symm)

/-- Every gradient call has one of the outcomes. -/
theorem outcome (c : GradientCall) (st : Session α) : c.Outcome st := by
  cases c with
  | inputs => exact outcome_inputs st
  | weights => exact outcome_weights st

-- ================================================== two calls in a row

/-- A call that is made again answers the same and changes nothing. -/
theorem call_again (c : GradientCall) (st : Session α) :
    c.procedure (final c.procedure st) = c.procedure st := by
  rcases c.outcome st with ⟨e, he, -⟩ | ⟨st', f, -, -, hst, hfinal, hagain⟩
  · rw [final_of_error he]
  · rw [final_congr hst, hfinal]
    exact hagain.trans hst.symm

/-- Two different calls end in one session in either order, and neither
changes what the other answers. -/
theorem call_other {c d : GradientCall} (hcd : c ≠ d) (st : Session α) :
    answer c.procedure (final d.procedure st) = answer c.procedure st
      ∧ final c.procedure (final d.procedure st)
          = final d.procedure (final c.procedure st) := by
  rcases c.outcome st with
    ⟨e, hc, hrefusec⟩ | ⟨st', f, hf, hst', hc, hfinalc, -⟩
  · rcases d.outcome st with ⟨e', hd, -⟩ | ⟨st', g, hg, hst', hd, hfinald, -⟩
    · -- both are refused
      rw [final_of_error hc, final_of_error hd, final_of_error hc]
      exact ⟨rfl, rfl⟩
    · -- only `c` is refused, and it is again on what `d` leaves
      have hblind := blind_of_ne (Ne.symm hcd) hg
      rw [final_congr hd, hfinald, hblind.answer, hblind.final,
        final_of_error hc, final_of_error (hrefusec st' hst'),
        answer_of_error hc, answer_of_error (hrefusec st' hst'),
        final_congr hd, hfinald]
      exact ⟨rfl, rfl⟩
  · rcases d.outcome st with ⟨e, hd, hrefused⟩ |
      ⟨st₂, g, hg, hst₂, hd, hfinald, -⟩
    · -- only `d` is refused, and it is again on what `c` leaves
      rw [final_of_error hd, final_congr hc, hfinalc,
        (blind_of_ne hcd hf).final, final_of_error (hrefused st' hst')]
      exact ⟨rfl, rfl⟩
    · -- both edit what the packed derivative left
      obtain rfl : st' = st₂ := by
        rw [hst'] at hst₂
        injection hst₂
      have hblind := blind_of_ne (Ne.symm hcd) hg
      rw [final_congr hd, hfinald, hblind.answer, hblind.final, hfinalc,
        final_congr hc, hfinalc, (blind_of_ne hcd hf).final, hfinald]
      exact ⟨(answer_congr hc).symm, edits_comm hcd hf hg st'⟩

-- ===================================================== calls in sequence

/-- The session that a sequence of calls leaves. -/
def finalAll (cs : List GradientCall) (st : Session α) : Session α :=
  cs.foldl (fun st c => final c.procedure st) st

/-- What the calls of a sequence answer, in order. -/
def answerAll : List GradientCall → Session α → List (Except LayerError Unit)
  | [], _ => []
  | c :: cs, st =>
      answer c.procedure st :: answerAll cs (final c.procedure st)

/-- Two gradient calls leave the same session in both orders. -/
theorem final_comm (c d : GradientCall) (st : Session α) :
    final c.procedure (final d.procedure st)
      = final d.procedure (final c.procedure st) := by
  by_cases hcd : c = d
  · rw [hcd]
  · exact (call_other hcd st).2

/-- A gradient call answers the same after another. -/
theorem answer_after (c d : GradientCall) (st : Session α) :
    answer c.procedure (final d.procedure st) = answer c.procedure st := by
  by_cases hcd : c = d
  · rw [hcd]
    exact answer_congr (call_again d st)
  · exact (call_other hcd st).1

/-- The calls that occur, each once. -/
def normalForm (cs : List GradientCall) (st : Session α) : Session α :=
  let st := if inputs ∈ cs then final inputs.procedure st else st
  if weights ∈ cs then final weights.procedure st else st

/-- A sequence of calls leaves what the calls that occur leave, each made
once. -/
theorem finalAll_eq_normalForm (cs : List GradientCall) :
    ∀ st : Session α, finalAll cs st = normalForm cs st := by
  induction cs with
  | nil => exact fun _ => rfl
  | cons c cs ih =>
      intro st
      show finalAll cs (final c.procedure st) = _
      rw [ih]
      have hagain := fun c (st : Session α) => final_congr (call_again c st)
      cases c with
      | inputs =>
          by_cases hi : inputs ∈ cs <;> by_cases hw : weights ∈ cs <;>
            simp [normalForm, hi, hw, hagain]
      | weights =>
          by_cases hi : inputs ∈ cs <;> by_cases hw : weights ∈ cs <;>
            simp [normalForm, hi, hw, hagain, final_comm inputs weights]

/-- A call makes no run of the shared derivative that the memo did not
allow. -/
theorem budget_final (c : GradientCall) (st : Session α) :
    (final c.procedure st).layer.budget = st.layer.budget
      ∧ st.layer.packedRuns ≤ (final c.procedure st).layer.packedRuns := by
  rcases c.outcome st with ⟨e, he, -⟩ | ⟨st', f, -, hst', hst, hfinal, -⟩
  · rw [final_of_error he]
    exact ⟨rfl, Nat.le_refl _⟩
  · rw [final_congr hst, hfinal]
    show st'.layer.budget = _ ∧ _ ≤ st'.layer.packedRuns
    exact budget_ensureDifferentiated hst'

/-- Gradient calls run backward at most once, and never take a run back. -/
theorem budget_finalAll (cs : List GradientCall) :
    ∀ st : Session α,
      (finalAll cs st).layer.budget = st.layer.budget
        ∧ st.layer.packedRuns ≤ (finalAll cs st).layer.packedRuns := by
  induction cs with
  | nil => exact fun _ => ⟨rfl, Nat.le_refl _⟩
  | cons c cs ih =>
      intro st
      obtain ⟨hbudget, hruns⟩ := ih (final c.procedure st)
      obtain ⟨hbudget', hruns'⟩ := budget_final c st
      exact ⟨hbudget.trans hbudget', Nat.le_trans hruns' hruns⟩

/-- Each of many gradient calls answers as it would alone. -/
theorem answerAll_eq (cs : List GradientCall) :
    ∀ st : Session α,
      answerAll cs st = cs.map fun c => answer c.procedure st := by
  induction cs with
  | nil => exact fun _ => rfl
  | cons c cs ih =>
      intro st
      rw [answerAll, ih, List.map_cons]
      congr 1
      exact List.map_congr_left fun d _ => answer_after d c st

/-- The order of the two gradient procedures does not matter, nor how often
they are called. From every session, whatever its memo holds and whether or
not the calls succeed, the two orders end in one session with the same
answers; and a sequence of calls ends where any sequence of the same calls
does, each call answers what it would have answered at the start, and the
shared derivative runs at most once. -/
theorem gradients_in_any_order (st : Session α) :
    final (weightGradients .release) (final (inputGradients .release) st)
        = final (inputGradients .release) (final (weightGradients .release) st)
      ∧ answer (weightGradients .release) (final (inputGradients .release) st)
        = answer (weightGradients .release) st
      ∧ answer (inputGradients .release) (final (weightGradients .release) st)
        = answer (inputGradients .release) st
      ∧ ∀ cs : List GradientCall,
          (∀ ds : List GradientCall, (∀ c, c ∈ ds ↔ c ∈ cs) →
            finalAll ds st = finalAll cs st)
          ∧ answerAll cs st = (cs.map fun c => answer c.procedure st)
          ∧ st.layer.packedRuns ≤ (finalAll cs st).layer.packedRuns
          ∧ (finalAll cs st).layer.packedRuns ≤ st.layer.packedRuns + 1 := by
  refine ⟨final_comm weights inputs st, answer_after weights inputs st,
    answer_after inputs weights st, fun cs => ?_⟩
  obtain ⟨hbudget, hruns⟩ := budget_finalAll cs st
  refine ⟨fun ds hmem => ?_, answerAll_eq cs st, hruns, ?_⟩
  · rw [finalAll_eq_normalForm, finalAll_eq_normalForm]
    unfold normalForm
    simp only [hmem]
  · unfold budget at hbudget
    have hcredit := st.layer.memo.credit_le_one
    omega

end GradientCall
end MixtureAttention
