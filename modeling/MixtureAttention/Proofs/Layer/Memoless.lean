/-
The memo against a layer that remembers nothing. A layer without a memo
would compute the packed derivative again in every gradient call. What the
memo keeps is what such a layer would compute, not from the derivative that
is stored when a gradient procedure is called, but from the one that was
stored when the packed derivative was computed: between two forward passes
it is computed once, and storing another derivative with respect to the
output does not make it stale (`memo_recomputes`). The derivative with
respect to the values alone is computed from what is stored.

The invariant is that the packed derivative can be computed again from the
derivatives that it was computed from, to the same result and to no effect
(`Recalls`). It holds because no call that leaves the memo filled changes
anything that the packed derivative is computed from.
-/
import MixtureAttention.Proofs.Real.Mixture
import MixtureAttention.Proofs.Layer.BackwardPass
import MixtureAttention.Proofs.Layer.History
import MixtureAttention.Proofs.Layer.Recast

namespace MixtureAttention

variable {α : Type}

open Tensor Layer Procedure Workspace

namespace Workspace

/-- Other derivatives with respect to the outputs. -/
def withIncoming (dout : List (Tensor α)) (w : Workspace α) : Workspace α :=
  { w with incoming := dout }

/-- Storing the same gradient twice is storing it once. -/
theorem putScratchGrad_again (h : ScratchHandle) (t : Tensor α)
    (w : Workspace α) :
    (w.putScratchGrad h t).putScratchGrad h t = w.putScratchGrad h t := by
  unfold putScratchGrad
  dsimp only
  congr 1
  refine List.ext_getElem? fun i => ?_
  rw [List.getElem?_modify, List.getElem?_modify]
  cases w.scratch[i]? with
  | none => rfl
  | some e => by_cases hi : h.index = i <;> simp [hi]

end Workspace

namespace Layer

variable [Scalar α] {st st' : Session α} {dout : List (Tensor α)}

-- ====================================================== without the memo

/-- The shared derivative as a layer without a memo computes it, from
derivatives `dout` with respect to the outputs: whatever is remembered, as
long as there is a usable forward pass. -/
def differentiateFrom (dout : List (Tensor α)) : Procedure α Unit :=
  fun st =>
    if st.layer.isStale then .error .forwardNotRun st
    else mapOutcome (Session.edit (withIncoming st.workspace.incoming))
      (differentiate (st.edit (withIncoming dout)))

/-- Computing the packed derivative leaves the derivatives that it is
computed from. -/
theorem differentiate_keeps_incoming (st : Session α) :
    mapOutcome (Session.edit (withIncoming st.workspace.incoming))
      (differentiate st) = differentiate st := by
  cases hs : st.layer.slots with
  | none => rw [differentiate_of_unset hs]; rfl
  | some s =>
      cases hk : st.layer.settings.mixtures with
      | none => rw [differentiate_of_noMixtures hs hk]; rfl
      | some k =>
          rw [differentiate_eq hs hk]
          cases packedDerivative s k st.workspace with
          | error e => rfl
          | ok d =>
              cases hfit : fitsPacked s st.workspace d <;>
                simp only [hfit] <;> rfl

/-- After a forward pass the packed derivative is computed from what is
stored. -/
theorem differentiateFrom_incoming (h : st.layer.isStale = false) :
    differentiateFrom st.workspace.incoming st = differentiate st := by
  unfold differentiateFrom
  rw [h]
  exact differentiate_keeps_incoming st

/-- While nothing is remembered, the layer does what it would do without a
memo. -/
theorem differentiateFrom_stored (h : st.layer.hasPackedGrad = false) :
    differentiateFrom st.workspace.incoming st = ensureDifferentiated st := by
  cases hm : st.layer.memo with
  | stale =>
      unfold differentiateFrom isStale
      rw [hm]
      exact (ensureDifferentiated_of_stale hm).symm
  | differentiated dstate =>
      rw [hasPackedGrad, hm] at h
      cases h
  | forwarded =>
      rw [ensureDifferentiated_of_forwarded hm]
      exact differentiateFrom_incoming (by rw [isStale, hm])

-- ========================================================== the invariant

/-- What is remembered can be computed again from `dout`, and storing it
again changes nothing. -/
def Recalls (dout : List (Tensor α)) (st : Session α) : Prop :=
  ∃ s k d, st.layer.slots = some s ∧ st.layer.settings.mixtures = some k
    ∧ st.layer.memo = .differentiated d.state
    ∧ packedDerivative s k (st.workspace.withIncoming dout) = .ok d
    ∧ fitsPacked s st.workspace d = .ok ()
    ∧ st.workspace.putScratchGrad s.packed d.packed = st.workspace

/-- The shared derivatives do not look at scratch gradients. -/
theorem packedDerivative_putScratchGrad (s : Slots) (k : Nat)
    (h : ScratchHandle) (t : Tensor α) (w : Workspace α) :
    packedDerivative s k (w.putScratchGrad h t) = packedDerivative s k w := by
  unfold packedDerivative
  simp only [scratchValue_putScratchGrad]
  rfl

omit [Scalar α] in
/-- A packed derivative that was stored can be stored again. -/
theorem fitsPacked_again {s : Slots} {d : PackedDerivative α}
    {w : Workspace α} (h : fitsPacked s w d = .ok ()) :
    fitsPacked s (w.putScratchGrad s.packed d.packed) d = .ok () := by
  obtain ⟨_, hextents, -⟩ := exists_of_bind h
  obtain ⟨e, he, hexact⟩ := lookup_bind_eq_ok.1 hextents
  have hentry :
      (w.putScratchGrad s.packed d.packed).scratch[s.packed.index]?
        = some { e with grad := some d.packed } := by
    unfold putScratchGrad
    dsimp only
    rw [List.getElem?_modify, he]
    simp
  have hextents' : (w.putScratchGrad s.packed d.packed).fitsScratch s.packed
      d.packed = .ok () := lookup_bind_eq_ok.2 ⟨_, hentry, hexact⟩
  have hgrad : (w.putScratchGrad s.packed d.packed).scratchGrad s.packed
      = .ok d.packed := scratchGrad_eq_ok.2 ⟨_, hentry, rfl⟩
  rw [fitsPacked, hextents', ok_bind, hgrad]
  rfl

/-- The packed derivative is remembered right after it is computed. -/
theorem recalls_of_differentiate (h : differentiate st = .ok () st') :
    Recalls st.workspace.incoming st' := by
  obtain ⟨s, k, d, hs, hk, hd, hfit, rfl⟩ := differentiate_ok_iff.1 h
  exact ⟨s, k, d, hs, hk, rfl,
    (packedDerivative_putScratchGrad s k s.packed d.packed
      st.workspace).trans hd,
    fitsPacked_again hfit, putScratchGrad_again s.packed d.packed _⟩

/-- It stays remembered through an edit of what it has nothing to do
with. -/
theorem Recalls.edit {f : Workspace α → Workspace α}
    (h : Recalls dout st)
    (hread : ∀ s k w, packedDerivative s k ((f w).withIncoming dout)
      = packedDerivative s k (w.withIncoming dout))
    (hcheck : ∀ s w d, fitsPacked s (f w) d = fitsPacked s w d)
    (hput : ∀ h t w, (f w).putScratchGrad h t = f (w.putScratchGrad h t)) :
    Recalls dout (st.edit f) := by
  obtain ⟨s, k, d, hs, hk, hm, hd, hfit, hsame⟩ := h
  exact ⟨s, k, d, hs, hk, hm, (hread ..).trans hd, (hcheck ..).trans hfit,
    (hput ..).trans (congrArg f hsame)⟩

/-- Such edits are those that the gradient procedures make, and other
derivatives with respect to the outputs. -/
theorem Recalls.gradient {c : GradientCall} {f : Workspace α → Workspace α}
    (hf : c.Edits f) (h : Recalls dout st) : Recalls dout (st.edit f) := by
  cases c with
  | inputs =>
      obtain ⟨o, rfl⟩ := hf
      exact h.edit (fun _ _ _ => rfl) (fun _ _ _ => rfl) fun _ _ _ => rfl
  | weights =>
      obtain ⟨g, rfl⟩ := hf
      exact h.edit (fun _ _ _ => rfl) (fun _ _ _ => rfl) fun _ _ _ => rfl

/-- A remembered derivative stays when another arrives. -/
theorem Recalls.incoming (o : List (Tensor α)) (h : Recalls dout st) :
    Recalls dout (st.edit (withIncoming o)) :=
  h.edit (fun _ _ _ => rfl) (fun _ _ _ => rfl) fun _ _ _ => rfl

/-- Where a layer without a memo computes the packed derivative again, one
that remembers it changes nothing but the count of its runs. -/
theorem differentiateFrom_of_recalls (h : Recalls dout st) :
    differentiateFrom dout st
      = .ok () (st.recast st.layer.settings 1) := by
  obtain ⟨s, k, d, hs, hk, hm, hd, hfit, hsame⟩ := h
  have hfresh : st.layer.isStale = false := by rw [isStale, hm]
  have hrun : differentiate (st.edit (withIncoming dout))
      = .ok () ((st.edit (withIncoming dout)).withDerivative s d) :=
    differentiate_ok_iff.2 ⟨s, k, d, hs, hk, hd, hfit, rfl⟩
  have hlayer : { st.layer with
      packedRuns := st.layer.packedRuns + 1, memo := .differentiated d.state }
      = st.layer.recast st.layer.settings 1 := by
    rw [← hm]
    rfl
  have hworkspace : ((st.workspace.withIncoming dout).putScratchGrad s.packed
      d.packed).withIncoming st.workspace.incoming = st.workspace := hsame
  unfold differentiateFrom
  rw [hfresh, hrun]
  show EStateM.Result.ok () (Session.mk _ _) = .ok () (Session.mk _ _)
  exact congrArg _ (congr (congrArg Session.mk hlayer) hworkspace)

end Layer

namespace GradientCall

variable [Scalar α] {st : Session α} {dout : List (Tensor α)}

-- =========================================================== one call

/-- The input gradients look at the memo and compute the derivative with
respect to the values before they need the packed derivative. -/
theorem sharing_inputs_eq {s : Slots} (hs : st.layer.slots = some s)
    (shared : Procedure α Unit) :
    inputs.sharing shared st
      = (do
          if st.layer.isStale then
            throw .forwardNotRun
          let dvalue ← read fun st => valueDerivative .release s st.workspace
          shared
          storeInputGradients s dvalue : Procedure α Unit) st :=
  bind_of_ok (read_of_ok (f := fun st : Session α => st.layer.slots?)
    (slots?_of_some hs))

/-- With a forward pass at hand the input gradients compute the values' part
first. -/
theorem sharing_inputs_of_fresh {s : Slots} {dvalue : Tensor α}
    (hs : st.layer.slots = some s) (hfresh : st.layer.isStale = false)
    (hv : valueDerivative .release s st.workspace = .ok dvalue)
    (shared : Procedure α Unit) :
    inputs.sharing shared st
      = (shared >>= fun _ => storeInputGradients s dvalue) st := by
  rw [sharing_inputs_eq hs, hfresh]
  exact bind_of_ok (read_of_ok hv)

/-- A gradient procedure is refused before it needs the packed derivative,
or it asks for it before it does anything, and in what it does then it
neither looks at the settings nor at the count of runs. -/
theorem sharing_cases (c : GradientCall) (st : Session α) :
    (∃ e, ∀ shared, c.sharing shared st = .error e st)
      ∨ ∃ rest : Procedure α Unit,
          (∀ settings n, Commutes (Session.recast settings n) rest)
            ∧ ∀ shared, c.sharing shared st
                = (shared >>= fun _ => rest) st := by
  cases hs : st.layer.slots with
  | none =>
      refine .inl ⟨.notFinalized, fun shared => ?_⟩
      cases c <;>
        exact bind_of_error (read_of_error (slots?_of_none hs))
  | some s =>
      cases c with
      | weights =>
          refine .inr ⟨storeWeightGradients s,
            fun _ _ => recast_storeWeightGradients s, fun shared => ?_⟩
          exact bind_of_ok (read_of_ok
            (f := fun st : Session α => st.layer.slots?) (slots?_of_some hs))
      | inputs =>
          cases hfresh : st.layer.isStale with
          | true =>
              refine .inl ⟨.forwardNotRun, fun shared => ?_⟩
              rw [sharing_inputs_eq hs, hfresh]
              rfl
          | false =>
              cases hv : valueDerivative .release s st.workspace with
              | error e =>
                  refine .inl ⟨e, fun shared => ?_⟩
                  rw [sharing_inputs_eq hs, hfresh]
                  exact bind_of_error (read_of_error hv)
              | ok dvalue =>
                  exact .inr ⟨storeInputGradients s dvalue,
                    fun _ _ => recast_storeInputGradients s dvalue,
                    sharing_inputs_of_fresh hs hfresh hv⟩

/-- What was computed from `dout` is remembered, or nothing is and `dout` is
stored. -/
def Pinned (dout : List (Tensor α)) (st : Session α) : Prop :=
  st.layer.hasPackedGrad = false ∧ dout = st.workspace.incoming
    ∨ Recalls dout st

/-- A gradient procedure answers and leaves what it would without a memo,
computing the packed derivative from what it is pinned to. -/
theorem procedure_eq_memoless (h : Pinned dout st) (c : GradientCall) :
    let memoless := c.sharing (differentiateFrom dout)
    answer c.procedure st = answer memoless st
      ∧ (final c.procedure st).workspace = (final memoless st).workspace
      ∧ (final c.procedure st).layer.memo
        = (final memoless st).layer.memo := by
  intro memoless
  rw [← c.sharing_ensureDifferentiated]
  rcases c.sharing_cases st with ⟨e, hrefused⟩ | ⟨rest, hrest, hrun⟩
  · rw [answer_of_error (hrefused _), answer_of_error (hrefused _),
      final_of_error (hrefused _), final_of_error (hrefused _)]
    exact ⟨rfl, rfl, rfl⟩
  · rw [answer_congr (hrun _), answer_congr (hrun _), final_congr (hrun _),
      final_congr (hrun _)]
    rcases h with ⟨hnone, rfl⟩ | h
    · -- nothing is remembered, so both compute the same from the same
      have hsame : (ensureDifferentiated >>= fun _ => rest) st
          = (differentiateFrom st.workspace.incoming >>= fun _ => rest)
              st := by
        show EStateM.bind _ _ st = EStateM.bind _ _ st
        rw [EStateM.bind, EStateM.bind, differentiateFrom_stored hnone]
      rw [answer_congr hsame, final_congr hsame]
      exact ⟨rfl, rfl, rfl⟩
    · -- what is remembered is computed again, and one more run is counted
      have hkept : ensureDifferentiated st = .ok () st := by
        obtain ⟨_, _, d, _, _, hm, _⟩ := h
        exact ensureDifferentiated_of_differentiated hm
      rw [answer_congr (bind_of_ok hkept), final_congr (bind_of_ok hkept),
        answer_congr (bind_of_ok (differentiateFrom_of_recalls h)),
        final_congr (bind_of_ok (differentiateFrom_of_recalls h)),
        (hrest _ _).answer, (hrest _ _).final]
      exact ⟨rfl, rfl, rfl⟩

end GradientCall

-- ============================================================== whole runs

/-- What is called between and in forward passes on one workspace: nothing
that replaces an input or a weight. -/
inductive Pass [Scalar α] : Procedure α Unit → Prop
  | forward : Pass Layer.forward
  | setIncoming (o : Nat) (t : Tensor α) :
      Pass (onWorkspace (Workspace.setIncoming o t))
  | gradient (c : GradientCall) : Pass c.procedure

/-- The call is of this kind, and on workspace `i`. -/
def Call.PassesOn (i : Nat) : Call α → Prop
  | .setIncoming j _ _ => j = i
  | .forward j => j = i
  | .inputGradients j => j = i
  | .weightGradients j => j = i
  | _ => False

/-- Whether a call stores a derivative with respect to an output. -/
def Call.setsIncoming : Call α → Bool
  | .setIncoming _ _ _ => true
  | _ => false

namespace Session

variable [Scalar α] {st : Session α} {p : Procedure α Unit}
  {dout : List (Tensor α)}

/-- A forward pass has nothing to do with the derivatives with respect to
the outputs. -/
theorem blind_forward (dout : List (Tensor α)) :
    Blind (withIncoming dout) (Layer.forward (α := α)) := by
  have hscratch : ∀ (h : ScratchHandle) (t : Tensor α),
      Blind (withIncoming dout) (onWorkspace (setScratch h t)) :=
    fun h t => .store (setScratch_eq h t) (fun _ => rfl) fun _ => rfl
  have houtput : ∀ (o : Nat) (t : Tensor α),
      Blind (withIncoming dout) (onWorkspace (setOutput o t)) :=
    fun o t => .store (setOutput_eq o t) (fun _ => rfl) fun _ => rfl
  refine .bind (.read fun _ => rfl) fun s => ?_
  refine .bind (.read fun _ => rfl) fun k => ?_
  refine .bind (.modify fun _ => rfl) fun _ => ?_
  refine .bind (.read fun _ => rfl) fun v => ?_
  refine .bind ?_ fun _ => .modify fun _ => rfl
  unfold ForwardValues.store
  simp only [onWorkspace_bind]
  exact .bind (hscratch _ _) fun _ => .bind (hscratch _ _) fun _ =>
    .bind (hscratch _ _) fun _ => .bind (hscratch _ _) fun _ =>
    .bind (hscratch _ _) fun _ => .bind (hscratch _ _) fun _ =>
    .bind (hscratch _ _) fun _ => .bind (hscratch _ _) fun _ =>
    .bind (hscratch _ _) fun _ => houtput _ _

/-- A forward pass leaves the incoming derivatives. -/
theorem incoming_forward (st : Session α) :
    (final Layer.forward st).workspace.incoming = st.workspace.incoming :=
  congrArg (fun st => st.workspace.incoming)
    ((blind_forward st.workspace.incoming).final st)

/-- A gradient call leaves the incoming derivatives. -/
theorem incoming_gradient (c : GradientCall) (st : Session α) :
    (final c.procedure st).workspace.incoming = st.workspace.incoming := by
  rcases c.outcome st with ⟨e, he, -⟩ | ⟨st', f, hf, hensure, hrun, hfinal, -⟩
  · rw [final_of_error he]
  · have hedit : (st'.edit f).workspace.incoming
        = st'.workspace.incoming := by
      cases c with
      | inputs => obtain ⟨o, rfl⟩ := hf; rfl
      | weights => obtain ⟨g, rfl⟩ := hf; rfl
    rw [final_congr hrun, hfinal, hedit]
    rcases ensureDifferentiated_ok hensure with
      ⟨_, -, rfl⟩ | ⟨s, d, -, -, rfl⟩ <;> rfl

omit [Scalar α] in
/-- Storing a derivative with respect to an output is an edit of these, or
no edit at all. -/
theorem setIncoming_edits (o : Nat) (t : Tensor α) (st : Session α) :
    ∃ dout, final (onWorkspace (Workspace.setIncoming o t)) st
      = st.edit (withIncoming dout) := by
  have hstore := setIncoming_eq o t st.workspace
  cases hcheck : (do
      checkBeyondBatch (← lookup .output st.workspace.outputDims o) t :
      Except LayerError Unit) with
  | error e =>
      rw [hcheck] at hstore
      exact ⟨_, final_of_error (onWorkspace_of_error hstore)⟩
  | ok _ =>
      rw [hcheck] at hstore
      exact ⟨_, final_of_ok (onWorkspace_of_ok hstore)⟩

/-- A call that leaves something remembered either found it remembered and
kept it, or computed it from what is stored. -/
theorem Pass.remembers (hp : Pass p)
    (hafter : (final p st).layer.hasPackedGrad = true) :
    (st.layer.hasPackedGrad = true
        ∧ (final p st).layer.packedRuns = st.layer.packedRuns
        ∧ ∀ dout, Recalls dout st → Recalls dout (final p st))
      ∨ (st.layer.hasPackedGrad = false
        ∧ st.layer.packedRuns < (final p st).layer.packedRuns
        ∧ Recalls st.workspace.incoming (final p st)) := by
  cases hp with
  | forward =>
      rcases final_forward_cases st with hsame | ⟨memo, w, hmemo, hleft⟩
      · rw [hsame] at hafter ⊢
        exact .inl ⟨hafter, rfl, fun _ h => h⟩
      · -- a forward pass that gets to the memo leaves nothing remembered
        rw [hleft] at hafter
        cases memo with
        | stale => cases hafter
        | forwarded => cases hafter
        | differentiated dstate => exact absurd rfl (hmemo dstate)
  | setIncoming o t =>
      obtain ⟨dout, hedit⟩ := setIncoming_edits o t st
      rw [hedit] at hafter ⊢
      exact .inl ⟨hafter, rfl, fun _ h => h.incoming dout⟩
  | gradient c =>
      rcases c.outcome st with
        ⟨e, he, -⟩ | ⟨st', f, hf, hensure, hrun, hfinal, -⟩
      · rw [final_of_error he] at hafter ⊢
        exact .inl ⟨hafter, rfl, fun _ h => h⟩
      · rw [final_congr hrun, hfinal] at hafter ⊢
        rcases ensureDifferentiated_ok hensure with
          ⟨dstate, hm, rfl⟩ | ⟨s, d, -, hm, rfl⟩
        · exact .inl ⟨hafter, rfl, fun _ h => h.gradient hf⟩
        · have hdone := (ensureDifferentiated_of_forwarded hm).symm.trans
            hensure
          refine .inr ⟨by rw [Layer.hasPackedGrad, hm], Nat.lt_succ_self _,
            (recalls_of_differentiate hdone).gradient hf⟩

end Session

namespace Bench

variable [Scalar α] {b : Bench α} {c : Call α} {i : Nat}

/-- A call on a workspace is a procedure, which leaves the derivatives with
respect to the outputs unless it stores one. -/
theorem drive_of_passesOn (hc : c.PassesOn i) :
    ∃ p, Pass p ∧ (∀ b : Bench α, b.step c = b.drive p i)
      ∧ (c.setsIncoming = false → ∀ st : Session α,
          (final p st).workspace.incoming = st.workspace.incoming) := by
  cases c with
  | setIncoming j o t =>
      cases hc
      exact ⟨_, .setIncoming o t, fun _ => rfl, nofun⟩
  | forward j =>
      cases hc
      exact ⟨_, .forward, fun _ => rfl, fun _ => Session.incoming_forward⟩
  | inputGradients j =>
      cases hc
      exact ⟨_, .gradient .inputs, fun _ => rfl,
        fun _ => Session.incoming_gradient .inputs⟩
  | weightGradients j =>
      cases hc
      exact ⟨_, .gradient .weights, fun _ => rfl,
        fun _ => Session.incoming_gradient .weights⟩
  | _ => cases hc

/-- The derivatives with respect to the outputs that the packed derivative
stems from after some calls: those that are stored, if it is not remembered,
and otherwise those that were stored when it was computed. -/
def pin (b : Bench α) (i : Nat) : List (Call α) → List (Tensor α)
  | [] => (b.workspaces i).incoming
  | c :: earlier =>
      let e := (b.afterAll earlier).entry c
      if !e.after.layer.hasPackedGrad then (e.after.workspaces i).incoming
      else if e.completes then (e.before.workspaces i).incoming
      else b.pin i earlier

/-- A call on a workspace, seen from the session with it. -/
theorem session_cons {p : Procedure α Unit}
    (hstep : ∀ b : Bench α, b.step c = b.drive p i)
    (earlier : List (Call α)) :
    (b.afterAll (c :: earlier)).session i
      = final p ((b.afterAll earlier).session i) := by
  rw [afterAll, hstep]
  exact session_resume ..

/-- Without a packed derivative the pin is what arrives now, and a backward run
pins what arrived before it; any other call keeps the pin. -/
theorem pin_cons {p : Procedure α Unit}
    (hstep : ∀ b : Bench α, b.step c = b.drive p i)
    (earlier : List (Call α)) :
    b.pin i (c :: earlier)
      = if !(final p ((b.afterAll earlier).session i)).layer.hasPackedGrad
        then (final p ((b.afterAll earlier).session i)).workspace.incoming
        else if ((b.afterAll earlier).session i).layer.packedRuns
            < (final p ((b.afterAll earlier).session i)).layer.packedRuns
          then ((b.afterAll earlier).session i).workspace.incoming
          else b.pin i earlier := by
  rw [← session_cons hstep]
  simp only [pin, Entry.completes, decide_eq_true_eq]
  rfl

/-- The packed derivative stems from what it is pinned to. -/
theorem pinned_afterAll (hfresh : b.layer.hasPackedGrad = false) :
    ∀ calls : List (Call α), (∀ c ∈ calls, c.PassesOn i) →
      GradientCall.Pinned (b.pin i calls) ((b.afterAll calls).session i)
  | [], _ => .inl ⟨hfresh, rfl⟩
  | c :: earlier, hcalls => by
      have hearlier := pinned_afterAll hfresh earlier
        fun c hc => hcalls c (List.mem_cons_of_mem _ hc)
      obtain ⟨p, hp, hstep, -⟩ :=
        drive_of_passesOn (hcalls c (List.mem_cons_self ..))
      rw [session_cons hstep, pin_cons hstep]
      generalize (b.afterAll earlier).session i = st at hearlier ⊢
      cases hafter : (final p st).layer.hasPackedGrad with
      | false => exact .inl ⟨hafter, rfl⟩
      | true =>
          right
          rcases Session.Pass.remembers hp hafter with
            ⟨hbefore, hruns, hkeep⟩ | ⟨-, hruns, hrecalls⟩
          · rcases hearlier with ⟨hnone, -⟩ | hrecalls
            · rw [hbefore] at hnone
              cases hnone
            · rw [if_neg (by decide), if_neg (by
                rw [hruns]
                exact Nat.lt_irrefl _)]
              exact hkeep _ hrecalls
          · rw [if_neg (by decide), if_pos hruns]
            exact hrecalls

/-- As long as nothing is stored between, the packed derivative stems from
what is stored. -/
theorem pin_eq_incoming {earlier : List (Call α)}
    (hnone : (b.afterAll earlier).layer.hasPackedGrad = false) :
    ∀ recent : List (Call α),
      (∀ c ∈ recent, c.PassesOn i ∧ c.setsIncoming = false) →
        b.pin i (recent ++ earlier)
          = ((b.afterAll (recent ++ earlier)).workspaces i).incoming
  | [], _ => by
      cases earlier with
      | nil => rfl
      | cons c earlier => exact if_pos (by rw [entry, ← afterAll, hnone]; rfl)
  | c :: recent, hrecent => by
      have hbefore := pin_eq_incoming hnone recent
        fun c hc => hrecent c (List.mem_cons_of_mem _ hc)
      obtain ⟨hc, hquiet⟩ := hrecent c (List.mem_cons_self ..)
      obtain ⟨p, -, hstep, hincoming⟩ := drive_of_passesOn hc
      have hsame :=
        hincoming hquiet ((b.afterAll (recent ++ earlier)).session i)
      change b.pin i (c :: (recent ++ earlier))
        = ((b.afterAll (c :: (recent ++ earlier))).session
            i).workspace.incoming
      rw [pin_cons hstep, session_cons hstep, hsame, hbefore]
      exact (if_congr Iff.rfl rfl (ite_self _)).trans (ite_self _)

/-- The memo is not noticed but for the derivative that gradients stem from.
Whatever forward passes, gradient calls and stored derivatives with respect
to the output came before on one workspace, a gradient procedure answers and
leaves what it would leave without a memo, if the packed derivative were
computed again from what it is pinned to. That is the derivative with
respect to the output that is stored, unless another one was stored since
the packed derivative was computed. -/
theorem memo_recomputes (hfresh : b.layer.hasPackedGrad = false)
    {calls : List (Call α)} (hcalls : ∀ c ∈ calls, c.PassesOn i)
    (g : GradientCall) :
    let st := (b.afterAll calls).session i
    let memoless := g.sharing (differentiateFrom (b.pin i calls))
    answer g.procedure st = answer memoless st
      ∧ (final g.procedure st).workspace = (final memoless st).workspace
      ∧ (final g.procedure st).layer.memo = (final memoless st).layer.memo
      ∧ ∀ recent earlier, calls = recent ++ earlier →
          (b.afterAll earlier).layer.hasPackedGrad = false →
            (∀ c ∈ recent, c.setsIncoming = false) →
              b.pin i calls = st.workspace.incoming := by
  intro st memoless
  obtain ⟨hanswer, hworkspace, hmemo⟩ :=
    g.procedure_eq_memoless (pinned_afterAll hfresh calls hcalls)
  refine ⟨hanswer, hworkspace, hmemo, ?_⟩
  rintro recent earlier rfl hnone hquiet
  exact pin_eq_incoming hnone recent fun c hc =>
    ⟨hcalls c (List.mem_append_left _ hc), hquiet c hc⟩

/-- A forward pass, the gradients of the weights, and then another
derivative with respect to the output: the derivatives with respect to the
inputs are what they are without a memo, from the derivative that was stored
first. -/
theorem memo_recomputes_stocked :
    let p : SetupPlan := ⟨1, 1, 1, 1, 1, 1⟩
    let st : Session Float := .stocked p .blank fun _ _ => 1
    let b : Bench Float := ⟨st.layer, fun _ => Session.blankBlueprint p,
      fun _ => st.workspace⟩
    let later := (b.afterAll [.setIncoming 0 0 (cube 1 1 1 fun _ _ _ => 2),
      .weightGradients 0, .forward 0]).session 0
    let memoless := GradientCall.inputs.sharing
      (differentiateFrom st.workspace.incoming)
    answer (inputGradients .release) later = answer memoless later
      ∧ (final (inputGradients .release) later).workspace
        = (final memoless later).workspace := by
  intro p st b later memoless
  have hsupplied :=
    Session.stocked_supplied (p := p) (by decide) (by decide) .blank
      fun _ _ => (1 : Float)
  obtain ⟨st₁, hforward, hm₁, -, hprimed₁⟩ := forward_primes
    hsupplied.slots hsupplied.mixtures hsupplied.wired hsupplied.held
    hsupplied.incoming
  have hweights := weightGradients_succeeds hprimed₁ hm₁
  have hpasses : ∀ c ∈ [Call.setIncoming 0 0 (cube 1 1 1 fun _ _ _ => 2),
      .weightGradients 0, .forward 0], Call.PassesOn (α := Float) 0 c := by
    simp [Call.PassesOn]
  -- the packed derivative is computed in the second call and kept after it
  have hfirst : (b.afterAll [.forward 0]).session 0 = st₁ :=
    (session_cons (fun _ => rfl) []).trans (final_of_ok hforward)
  have hsecond := session_cons (b := b) (c := .weightGradients 0) (i := 0)
    (fun _ => rfl) [.forward 0]
  rw [hfirst, final_of_ok hweights] at hsecond
  have hthird := (setIncoming_primes
    (weightGradients_primes hprimed₁).1 fun _ _ => 2).1
  have hpin : b.pin 0 [.setIncoming 0 0 (cube 1 1 1 fun _ _ _ => 2),
      .weightGradients 0, .forward 0] = st.workspace.incoming := by
    rw [pin_cons (fun _ => rfl), hsecond, final_of_ok hthird,
      pin_cons (fun _ => rfl), hfirst, final_of_ok hweights]
    refine (if_neg Bool.false_ne_true).trans
      ((if_neg (Nat.lt_irrefl _)).trans
      ((if_neg Bool.false_ne_true).trans
      ((if_pos (Nat.lt_succ_self _)).trans ?_)))
    rw [← final_of_ok hforward]
    exact Session.incoming_forward st
  obtain ⟨hanswer, hworkspace, -⟩ :=
    memo_recomputes (b := b) (i := 0) rfl hpasses .inputs
  rw [hpin] at hanswer hworkspace
  exact ⟨hanswer, hworkspace⟩

end Bench

-- ======================================================== in exact numbers

open Finset

namespace Given

/-- A position that ends at the centre. -/
noncomputable def offCentre : Given ℝ :=
  { (blank : Given ℝ) with
    value := fun _ _ _ => 1
    state := fun _ _ => 0.5 }

/-- The upper edge is at the centre and the lower one below it. -/
theorem offCentre_distance (p : SetupPlan) :
    offCentre.distance p false 0 0 0 = 0
      ∧ offCentre.distance p true 0 0 0 < 0 := by
  have hstep : offCentre.step p 0 0 = 1 := by
    unfold step
    rw [logit_eq_zero fun _ _ => rfl]
    exact Real.exp_zero
  have hcentre : offCentre.centre p 0 0 = 3 / 2 := by
    unfold centre
    rw [hstep]
    show (0.5 : ℝ) + 1 = 3 / 2
    norm_num
  unfold distance
  rw [hcentre, if_neg Bool.false_ne_true, if_pos rfl]
  constructor
  · rw [div_eq_zero_iff]
    left
    norm_num
  · refine div_neg_of_neg_of_pos ?_ (divisor_pos ..)
    norm_num

/-- There the score moves with the centre. -/
theorem offCentre_dCentre {g : Nat → Nat → ℝ} :
    offCentre.dCentre ⟨1, 1, 1, 1, 1, 1⟩ g 0 0 = 0 ↔ g 0 0 = 0 := by
  let p : SetupPlan := ⟨1, 1, 1, 1, 1, 1⟩
  obtain ⟨hupper, hlower⟩ := offCentre_distance p
  have hbelow : offCentre.massBelow p false 0 0 0 = 1 / 2 := by
    unfold massBelow
    rw [hupper, sigmoid_eq, Real.sigmoid_zero]
    norm_num
  have hslope : offCentre.massBelow p true 0 0 0
      * (1 - offCentre.massBelow p true 0 0 0) < 1 / 4 := by
    refine slope_lt (ne_of_lt ?_)
    have hlt := Real.sigmoid_lt hlower
    rw [Real.sigmoid_zero] at hlt
    unfold massBelow
    rw [sigmoid_eq]
    linarith
  have hmass : offCentre.dMass p g 0 0 0 = g 0 0 * offCentre.share p 0 0 := by
    unfold dMass dScore
    rw [sumTo_eq_sum]
    show (∑ d ∈ range 1, g 0 d * 1) * _ = _
    rw [sum_range_one, mul_one]
  have hshare := share_pos (c := offCentre) (p := p) (b := 0) (k := 0) one_pos
  have hdivisor := divisor_pos offCentre p 0 0
  change offCentre.dCentre p g 0 0 = 0 ↔ _
  rw [dCentre_eq_slopes]
  show (∑ h ∈ range 1, _) = 0 ↔ _
  rw [sum_range_one, hbelow, hmass, mul_eq_zero, div_eq_zero_iff, mul_eq_zero]
  constructor
  · rintro (((hg | hs) | hd) | hs)
    · exact hg
    · exact absurd hs hshare.ne'
    · exact absurd hd hdivisor.ne'
    · linarith
  · exact fun hg => .inl (.inl (.inl hg))

end Given

namespace Layer

/-- Without a memo the input gradients of a primed session stem from the
derivative that is stored. -/
theorem inputGradients_memoless [Scalar α] {c : Given α} {p : SetupPlan}
    {s : Slots} {g : Nat → Nat → α} {st : Session α} (h : Primed c p s g st)
    (hfresh : st.layer.isStale = false) :
    GradientCall.inputs.sharing (differentiateFrom st.workspace.incoming) st
      = .ok () ((st.withDerivative s (packedPair c p g)).edit
          (putOutgoings (inputWrites c p g g s))) := by
  have hshared : differentiateFrom st.workspace.incoming st
      = .ok () (st.withDerivative s (packedPair c p g)) :=
    (differentiateFrom_incoming hfresh).trans (differentiate_succeeds h)
  have hprimed := h.withDerivative (packedPair c p g)
  rw [GradientCall.sharing_inputs_of_fresh h.slots hfresh
    (Given.valueDerivative_eq h.filled h.incoming), bind_of_ok hshared]
  exact storeInputGradients_succeeds hprimed.filled
    (packed_putScratchGrad h.wired _) rfl

/-- The derivative with respect to the output that is stored between the two
gradient procedures reaches the derivative with respect to the values and no
other. Without the memo the derivatives are others, and there is no single
derivative with respect to the output that those which are left stem from. -/
theorem derivatives_mixed :
    let p : SetupPlan := ⟨1, 1, 1, 1, 1, 1⟩
    let s := Slots.startingAt 0 0
    let c := Given.offCentre
    let st : Session ℝ := .stocked p c fun _ _ => 0
    ∃ st₁ st₂ st₃ st₄ st₅ : Session ℝ,
      forward st = .ok () st₁ ∧ weightGradients .release st₁ = .ok () st₂
        ∧ onWorkspace (setIncoming 0 (cube 1 1 1 fun _ _ _ => 1)) st₂
          = .ok () st₃
        ∧ inputGradients .release st₃ = .ok () st₄
        ∧ GradientCall.inputs.sharing
            (differentiateFrom st₃.workspace.incoming) st₃ = .ok () st₅
        ∧ st₄.workspace.outgoing ≠ st₅.workspace.outgoing
        ∧ ∀ g, ¬ (st₄.workspace.outgoingAt s.value
              = .ok (cube 1 1 1 (c.gradient p g).value)
            ∧ st₄.workspace.outgoingAt s.state
              = .ok (cube 1 1 1 fun b _ => (c.gradient p g).state b)) := by
  intro p s c st
  have hsupplied := Session.stocked_supplied (p := p) (by decide) (by decide)
    c fun _ _ => (0 : ℝ)
  obtain ⟨st₁, hforward, hm₁, -, hprimed₁⟩ := forward_primes
    hsupplied.slots hsupplied.mixtures hsupplied.wired hsupplied.held
    hsupplied.incoming
  obtain ⟨hprimed₂, hpacked₂⟩ := weightGradients_primes hprimed₁
  obtain ⟨hset, hprimed₃⟩ := setIncoming_primes hprimed₂ fun _ _ => 1
  have hprimed₅ := hprimed₃.withDerivative (packedPair c p fun _ _ => 1)
  obtain ⟨-, hvalue, hstate⟩ := outgoings_put (c := c) (fun _ _ => 0)
    (fun _ _ => 1) hprimed₃.wired
  obtain ⟨-, -, hstate'⟩ := outgoings_put (c := c) (fun _ _ => 1)
    (fun _ _ => 1) hprimed₅.wired
  -- the values stem from one and the state from zero
  have hnone : ∀ g, ¬ (cube 1 1 1 (c.gradient p fun _ _ => 1).value
        = cube 1 1 1 (c.gradient p g).value
      ∧ (cube 1 1 1 fun b _ => (c.gradient p fun _ _ => 0).state b)
        = cube 1 1 1 fun b _ => (c.gradient p g).state b) := by
    rintro g ⟨hvalues, hstates⟩
    have hv := congrArg (fun t => t.elem 0 0 0) hvalues
    have hs := congrArg (fun t => t.elem 0 0 0) hstates
    simp only [elem_cube Nat.one_pos Nat.one_pos Nat.one_pos, Given.gradient,
      sumTo_eq_sum, sum_range_one] at hv hs
    have hscore := Given.score_pos (c := c) (p := p) (b := 0) (h := 0) one_pos
    -- the values say what arrived was one, the state that it was zero
    have hone : g 0 0 = 1 := (mul_left_cancel₀ hscore.ne' hv).symm
    have hzero := Given.offCentre_dCentre.1
      (hs.symm.trans (Given.offCentre_dCentre.2 rfl))
    rw [hone] at hzero
    exact one_ne_zero hzero
  refine ⟨st₁, _, _, _, _, hforward, weightGradients_succeeds hprimed₁ hm₁,
    hset, inputGradients_succeeds hprimed₃ hpacked₂ rfl,
    inputGradients_memoless hprimed₃ rfl, fun hsame => ?_, fun g hg => ?_⟩
  · have hread := congrArg (fun os => lookup .input os s.state.index) hsame
    exact hnone _ ⟨rfl,
      Except.ok.inj (hstate.symm.trans (hread.trans hstate'))⟩
  · exact hnone g ⟨Except.ok.inj (hvalue.symm.trans hg.1),
      Except.ok.inj (hstate.symm.trans hg.2)⟩

end Layer
end MixtureAttention
