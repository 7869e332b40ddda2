/-
What each procedure of a layer can do, said once. A layer that is not set
up refuses every procedure (`forward_of_unset` and its siblings); for a
layer with handles `s` and `k` components each procedure has an equation
that shows its exits in order, with the session that each leaves. Later
proofs cite these equations and do not unfold a procedure.
-/
import MixtureAttention.Proofs.Layer.Outcome

namespace MixtureAttention

variable {α : Type}

open Procedure

namespace Session

/-- The session with another memo. -/
def withMemo (memo : Memo α) (st : Session α) : Session α :=
  { st with layer := { st.layer with memo } }

/-- The session with another workspace. -/
def withWorkspace (w : Workspace α) (st : Session α) : Session α :=
  { st with workspace := w }

/-- The session with a packed derivative stored and remembered. -/
def withDerivative (s : Slots) (d : PackedDerivative α) (st : Session α) :
    Session α where
  layer :=
    { st.layer with
      packedRuns := st.layer.packedRuns + 1
      memo := .differentiated d.state }
  workspace := st.workspace.putScratchGrad s.packed d.packed

end Session

/-- How many runs of the shared derivative the memo still allows. -/
def Memo.credit : Memo α → Nat
  | .forwarded => 1
  | _ => 0

/-- The memo allows at most one backward run. -/
theorem Memo.credit_le_one (m : Memo α) : m.credit ≤ 1 := by
  cases m <;> simp [credit]

namespace Layer

/-- A finalized layer has its handles. -/
theorem slots?_of_some {l : Layer α} {s : Slots} (h : l.slots = some s) :
    l.slots? = .ok s := by
  rw [slots?, h]

/-- Any other is refused as unfinished. -/
theorem slots?_of_none {l : Layer α} (h : l.slots = none) :
    l.slots? = .error .notFinalized := by
  rw [slots?, h]

/-- The number of mixtures is read from the settings. -/
theorem mixtures?_of_some {l : Layer α} {k : Nat}
    (h : l.settings.mixtures = some k) : l.mixtures? = .ok k := by
  rw [mixtures?, h]

/-- A part of the packed parameters, when the buffer can be read. -/
theorem packedSegment_eq {l : Layer α} {w : Workspace α} {s : Slots}
    {k : Nat} {t : Tensor α} (hs : l.slots = some s)
    (hk : l.settings.mixtures = some k)
    (ht : w.scratchValue s.packed = .ok t) (seg : Segment) :
    l.packedSegment w seg = liftM (seg.read k t) := by
  rw [packedSegment, mixtures?_of_some hk, slots?_of_some hs]
  show (w.scratchValue s.packed >>= fun packed => liftM (seg.read k packed))
    = _
  rw [ht]
  rfl

/-- The refusal of a layer whose number of components is not set. -/
def noMixtures : LayerError :=
  .missingProperty typeName Property.mixtures.key

/-- Without one the layer is refused for its settings. -/
theorem mixtures?_of_none {l : Layer α} (h : l.settings.mixtures = none) :
    l.mixtures? = .error noMixtures := by
  rw [mixtures?, h]
  rfl

variable [Scalar α] {st : Session α} {s : Slots} {k : Nat}

-- ================================================================ forward

/-- A forward pass needs a finalized layer. -/
theorem forward_of_unset (h : st.layer.slots = none) :
    forward st = .error .notFinalized st :=
  bind_of_error (read_of_error (slots?_of_none h))

/-- It needs the number of mixtures too, and asks for it second. -/
theorem forward_of_noMixtures (hs : st.layer.slots = some s)
    (hk : st.layer.settings.mixtures = none) :
    forward st = .error noMixtures st := by
  unfold forward
  rw [bind_of_ok (read_of_ok (slots?_of_some hs))]
  exact bind_of_error (read_of_error (mixtures?_of_none hk))

/-- The memo is dropped before anything is computed and stays dropped on
every refusal. -/
theorem forward_eq (hs : st.layer.slots = some s)
    (hk : st.layer.settings.mixtures = some k) :
    forward st
      = match forwardValues s k st.workspace with
        | .error e => .error e (st.withMemo .stale)
        | .ok v =>
            match v.store s st.workspace with
            | .error e w => .error e ((st.withMemo .stale).withWorkspace w)
            | .ok _ w =>
                .ok () ((st.withMemo .forwarded).withWorkspace w) := by
  unfold forward
  rw [bind_of_ok (read_of_ok (slots?_of_some hs)),
    bind_of_ok (read_of_ok (mixtures?_of_some hk)),
    bind_of_ok (remember_eq .stale st)]
  cases hv : forwardValues s k st.workspace with
  | error e => exact bind_of_error (read_of_error hv)
  | ok v =>
      rw [bind_of_ok (read_of_ok hv)]
      cases hw : v.store s st.workspace with
      | error e w =>
          simp only [hw]
          have hw' : v.store s (st.withMemo .stale).workspace
              = .error e w := hw
          exact bind_of_error (onWorkspace_of_error hw')
      | ok _ w =>
          simp only [hw]
          have hw' : v.store s (st.withMemo .stale).workspace = .ok () w := hw
          exact bind_of_ok (onWorkspace_of_ok hw')

/-- An attempted forward pass leaves the memo filled or dropped. -/
theorem forward_cases (hs : st.layer.slots = some s)
    (hk : st.layer.settings.mixtures = some k) :
    (∃ e w, forward st = .error e ((st.withMemo .stale).withWorkspace w))
      ∨ ∃ w, forward st
          = .ok () ((st.withMemo .forwarded).withWorkspace w) := by
  rw [forward_eq hs hk]
  cases hv : forwardValues s k st.workspace with
  | error e => exact .inl ⟨e, st.workspace, rfl⟩
  | ok v =>
      cases hw : v.store s st.workspace with
      | error e w => exact .inl ⟨e, w, by simp only [hw]⟩
      | ok _ w => exact .inr ⟨w, by simp only [hw]⟩

/-- Whatever a forward pass is called on, it changes nothing, or nothing but
the workspace and the memo, which is not the packed derivative then. -/
theorem final_forward_cases (st : Session α) :
    final forward st = st
      ∨ ∃ memo w, (∀ dstate, memo ≠ .differentiated dstate)
          ∧ final forward st = (st.withMemo memo).withWorkspace w := by
  cases hs : st.layer.slots with
  | none => exact .inl (final_of_error (forward_of_unset hs))
  | some s =>
      cases hk : st.layer.settings.mixtures with
      | none => exact .inl (final_of_error (forward_of_noMixtures hs hk))
      | some k =>
          right
          rcases forward_cases hs hk with ⟨e, w, hrun⟩ | ⟨w, hrun⟩
          · exact ⟨.stale, w, nofun, final_of_error hrun⟩
          · exact ⟨.forwarded, w, nofun, final_of_ok hrun⟩

-- ================================================== another batch extent

omit [Scalar α] in
/-- A refused change of the batch extent may have reallocated some buffers,
but it leaves the layer as it was. -/
theorem setBatch_cases [Zero α] (n : Nat) (st : Session α) :
    (∃ e w, setBatch n st = .error e (st.withWorkspace w))
      ∨ ∃ w, setBatch n st
          = .ok () ((st.withMemo .stale).withWorkspace w) := by
  cases hs : st.layer.slots with
  | none =>
      exact .inl ⟨_, st.workspace,
        bind_of_error (read_of_error (slots?_of_none hs))⟩
  | some s =>
      unfold setBatch
      rw [bind_of_ok (read_of_ok (slots?_of_some hs))]
      cases hw : resizeAll n s.scratch st.workspace with
      | error e w =>
          exact .inl ⟨e, w, bind_of_error (onWorkspace_of_error hw)⟩
      | ok _ w => exact .inr ⟨w, bind_of_ok (onWorkspace_of_ok hw)⟩

-- =============================================== the shared derivative

/-- Whether a packed derivative can be stored. -/
def fitsPacked (s : Slots) (w : Workspace α) (d : PackedDerivative α) :
    Except LayerError Unit := do
  w.fitsScratch s.packed d.packed
  let _ ← w.scratchGrad s.packed

omit [Scalar α] in
/-- Storing the shared derivatives is a guarded store. -/
theorem setPacked_eq (s : Slots) (d : PackedDerivative α)
    (w : Workspace α) :
    Workspace.setScratchGrad s.packed d.packed w
      = Workspace.stored (fitsPacked s w d) w
          (w.putScratchGrad s.packed d.packed) :=
  Workspace.setScratchGrad_eq ..

/-- The backward run needs a finalized layer. -/
theorem differentiate_of_unset (h : st.layer.slots = none) :
    differentiate st = .error .notFinalized st :=
  bind_of_error (read_of_error (slots?_of_none h))

/-- The backward run needs the number of mixtures, and asks for it second. -/
theorem differentiate_of_noMixtures (hs : st.layer.slots = some s)
    (hk : st.layer.settings.mixtures = none) :
    differentiate st = .error noMixtures st := by
  unfold differentiate
  rw [bind_of_ok (read_of_ok (slots?_of_some hs))]
  exact bind_of_error (read_of_error (mixtures?_of_none hk))

/-- A refused derivative leaves the session as it was. -/
theorem differentiate_eq (hs : st.layer.slots = some s)
    (hk : st.layer.settings.mixtures = some k) :
    differentiate st
      = match packedDerivative s k st.workspace with
        | .error e => .error e st
        | .ok d =>
            match fitsPacked s st.workspace d with
            | .error e => .error e st
            | .ok _ => .ok () (st.withDerivative s d) := by
  unfold differentiate
  rw [bind_of_ok (read_of_ok (slots?_of_some hs)),
    bind_of_ok (read_of_ok (mixtures?_of_some hk))]
  cases hd : packedDerivative s k st.workspace with
  | error e => exact bind_of_error (read_of_error hd)
  | ok d =>
      rw [bind_of_ok (read_of_ok hd)]
      have hset := setPacked_eq s d st.workspace
      cases hfit : fitsPacked s st.workspace d with
      | error e =>
          rw [hfit] at hset
          simp only [hfit]
          exact bind_of_error (onWorkspace_of_error hset)
      | ok _ =>
          rw [hfit] at hset
          simp only [hfit]
          exact bind_of_ok (onWorkspace_of_ok hset)

/-- When the packed derivative is computed, and what from. -/
theorem differentiate_ok_iff {st' : Session α} :
    differentiate st = .ok () st'
      ↔ ∃ s k d, st.layer.slots = some s
        ∧ st.layer.settings.mixtures = some k
        ∧ packedDerivative s k st.workspace = .ok d
        ∧ fitsPacked s st.workspace d = .ok ()
        ∧ st' = st.withDerivative s d := by
  cases hs : st.layer.slots with
  | none =>
      rw [differentiate_of_unset hs]
      exact ⟨nofun, fun ⟨_, _, _, h, _⟩ => nomatch h⟩
  | some s =>
      cases hk : st.layer.settings.mixtures with
      | none =>
          rw [differentiate_of_noMixtures hs hk]
          exact ⟨nofun, fun ⟨_, _, _, _, h, _⟩ => nomatch h⟩
      | some k =>
          rw [differentiate_eq hs hk]
          constructor
          · intro h
            cases hd : packedDerivative s k st.workspace with
            | error e =>
                rw [hd] at h
                cases h
            | ok d =>
                simp only [hd] at h
                cases hfit : fitsPacked s st.workspace d with
                | error e =>
                    rw [hfit] at h
                    cases h
                | ok _ =>
                    rw [hfit] at h
                    injection h with _ h
                    exact ⟨s, k, d, rfl, rfl, hd, hfit, h.symm⟩
          · rintro ⟨_, _, d, ⟨⟩, ⟨⟩, hd, hfit, rfl⟩
            simp only [hd, hfit]

/-- What happens depends on the memo alone: refuse, run, or do nothing. -/
theorem ensureDifferentiated_eq (st : Session α) :
    ensureDifferentiated st
      = (match st.layer.memo with
        | .stale => throw LayerError.forwardNotRun
        | .forwarded => differentiate
        | .differentiated _ => pure () : Procedure α Unit) st := rfl

/-- Without a forward pass it is refused. -/
theorem ensureDifferentiated_of_stale (h : st.layer.memo = .stale) :
    ensureDifferentiated st = .error .forwardNotRun st := by
  rw [ensureDifferentiated_eq, h]
  rfl

/-- After one the backward run is made. -/
theorem ensureDifferentiated_of_forwarded (h : st.layer.memo = .forwarded) :
    ensureDifferentiated st = differentiate st := by
  rw [ensureDifferentiated_eq, h]

/-- After that there is nothing to do. -/
theorem ensureDifferentiated_of_differentiated {dstate : Tensor α}
    (h : st.layer.memo = .differentiated dstate) :
    ensureDifferentiated st = .ok () st := by
  rw [ensureDifferentiated_eq, h]
  rfl

/-- A derivative that is there is the one that was there, or the first
since a forward pass. -/
theorem ensureDifferentiated_cases (st : Session α) :
    (∃ e, ensureDifferentiated st = .error e st)
      ∨ (∃ dstate, st.layer.memo = .differentiated dstate
          ∧ ensureDifferentiated st = .ok () st)
      ∨ ∃ s d, st.layer.slots = some s ∧ st.layer.memo = .forwarded
          ∧ ensureDifferentiated st = .ok () (st.withDerivative s d) := by
  cases hm : st.layer.memo with
  | stale => exact .inl ⟨_, ensureDifferentiated_of_stale hm⟩
  | differentiated dstate =>
      exact .inr (.inl
        ⟨dstate, rfl, ensureDifferentiated_of_differentiated hm⟩)
  | forwarded =>
      rw [ensureDifferentiated_of_forwarded hm]
      cases hs : st.layer.slots with
      | none => exact .inl ⟨_, differentiate_of_unset hs⟩
      | some s =>
          cases hk : st.layer.settings.mixtures with
          | none => exact .inl ⟨_, differentiate_of_noMixtures hs hk⟩
          | some k =>
              rw [differentiate_eq hs hk]
              cases packedDerivative s k st.workspace with
              | error e => exact .inl ⟨e, rfl⟩
              | ok d =>
                  cases hfit : fitsPacked s st.workspace d with
                  | error e => exact .inl ⟨e, by simp only [hfit]⟩
                  | ok _ =>
                      exact .inr (.inr
                        ⟨s, d, rfl, rfl, by simp only [hfit]⟩)

/-- A refusal leaves the session as it was. -/
theorem ensureDifferentiated_error_or_ok (st : Session α) :
    (∃ e, ensureDifferentiated st = .error e st)
      ∨ ∃ st', ensureDifferentiated st = .ok () st' := by
  rcases ensureDifferentiated_cases st with
    ⟨e, he⟩ | ⟨_, -, hok⟩ | ⟨_, _, -, -, hok⟩
  · exact .inl ⟨e, he⟩
  · exact .inr ⟨_, hok⟩
  · exact .inr ⟨_, hok⟩

/-- What is left when the derivative is there: the session itself, if it was
remembered, and otherwise the session with it. -/
theorem ensureDifferentiated_ok {st' : Session α}
    (h : ensureDifferentiated st = .ok () st') :
    (∃ dstate, st.layer.memo = .differentiated dstate ∧ st' = st)
      ∨ ∃ s d, st.layer.slots = some s ∧ st.layer.memo = .forwarded
          ∧ st' = st.withDerivative s d := by
  rcases ensureDifferentiated_cases st with
    ⟨e, he⟩ | ⟨dstate, hm, hok⟩ | ⟨s, d, hs, hm, hok⟩
  · rw [he] at h
    cases h
  · rw [hok] at h
    cases h
    exact .inl ⟨dstate, hm, rfl⟩
  · rw [hok] at h
    cases h
    exact .inr ⟨s, d, hs, hm, rfl⟩

/-- A filled memo stays filled, and what filled it changed nothing that the
derivative with respect to the values is computed from. -/
theorem ensureDifferentiated_again {st' : Session α}
    (h : ensureDifferentiated st = .ok () st') :
    ensureDifferentiated st' = .ok () st'
      ∧ st'.layer.slots = st.layer.slots
      ∧ st.layer.memo ≠ .stale ∧ st'.layer.memo ≠ .stale
      ∧ ∀ s, valueDerivative .release s st'.workspace
          = valueDerivative .release s st.workspace := by
  rcases ensureDifferentiated_ok h with ⟨dstate, hm, rfl⟩ | ⟨s, d, -, hm, rfl⟩
  · exact ⟨h, rfl, by rw [hm]; nofun, by rw [hm]; nofun, fun _ => rfl⟩
  · refine ⟨ensureDifferentiated_of_differentiated rfl, rfl,
      by rw [hm]; nofun, nofun, fun s' => ?_⟩
    unfold valueDerivative
    rw [Session.withDerivative, Workspace.scratchValue_putScratchGrad]
    rfl

/-- The runs so far together with those that the memo allows. -/
def budget (l : Layer α) : Nat := l.packedRuns + l.memo.credit

/-- Only an allowed run is made, and then no other is allowed. -/
theorem budget_ensureDifferentiated {st' : Session α}
    (h : ensureDifferentiated st = .ok () st') :
    st'.layer.budget = st.layer.budget
      ∧ st.layer.packedRuns ≤ st'.layer.packedRuns := by
  rcases ensureDifferentiated_ok h with ⟨_, -, rfl⟩ | ⟨s, d, -, hm, rfl⟩
  · exact ⟨rfl, Nat.le_refl _⟩
  · unfold budget
    rw [hm]
    exact ⟨rfl, Nat.le_succ _⟩

-- ================================================= storing the gradients

/-- The gradients of the weights, in the order in which they are stored. -/
def weightStores (s : Slots) (d : WeightDerivatives α) :
    List (WeightHandle × Tensor α) :=
  [(s.packedWeight, d.packedWeight), (s.hiddenWeight, d.hiddenWeight),
    (s.hiddenBias, d.hiddenBias)]

/-- The derivatives with respect to the inputs, in the order in which they
are stored. -/
def inputStores (s : Slots) (dquery dvalue dstate : Tensor α) :
    List (InputHandle × Tensor α) :=
  [(s.query, dquery), (s.value, dvalue), (s.state, dstate)]

/-- The second half of `weightGradients`, once the packed derivative is
there. -/
def storeWeightGradients (s : Slots) : Procedure α Unit := do
  let d ← read fun st => weightDerivatives .release s st.workspace
  onWorkspace (Workspace.storeAll (fun p => Workspace.setWeightGrad p.1 p.2)
    (weightStores s d))

/-- The second half of `inputGradients`, once the packed derivative is
there. -/
def storeInputGradients (s : Slots) (dvalue : Tensor α) :
    Procedure α Unit := do
  let dquery ← read fun st => queryDerivative s st.workspace
  let dstate ← read fun st => st.layer.stateDerivative
  onWorkspace (Workspace.storeAll (fun p => Workspace.setOutgoing p.1 p.2)
    (inputStores s dquery dvalue dstate))

/-- The three weight gradients are stored in sequence. -/
theorem storeWeightGradients_eq {d : WeightDerivatives α}
    (hd : weightDerivatives .release s st.workspace = .ok d) :
    storeWeightGradients s st
      = onWorkspace (Workspace.storeAll
          (fun p => Workspace.setWeightGrad p.1 p.2) (weightStores s d)) st :=
  bind_of_ok (read_of_ok hd)

/-- The derivatives of query, value and state are stored in sequence. -/
theorem storeInputGradients_eq {dvalue dquery dstate : Tensor α}
    (hq : queryDerivative s st.workspace = .ok dquery)
    (hm : st.layer.stateDerivative = .ok dstate) :
    storeInputGradients s dvalue st
      = onWorkspace (Workspace.storeAll
          (fun p => Workspace.setOutgoing p.1 p.2)
          (inputStores s dquery dvalue dstate)) st := by
  unfold storeInputGradients
  rw [bind_of_ok (read_of_ok hq)]
  exact bind_of_ok (read_of_ok hm)

/-- The weight gradients need a finalized layer. -/
theorem weightGradients_of_unset (h : st.layer.slots = none) :
    weightGradients .release st = .error .notFinalized st :=
  bind_of_error (read_of_error (slots?_of_none h))

/-- The input gradients need a finalized layer. -/
theorem inputGradients_of_unset (h : st.layer.slots = none) :
    inputGradients .release st = .error .notFinalized st :=
  bind_of_error (read_of_error (slots?_of_none h))

/-- On a finalized layer the weight gradients are stored after the shared
derivatives. -/
theorem weightGradients_eq (hs : st.layer.slots = some s) :
    weightGradients .release st
      = match ensureDifferentiated st with
        | .error e st' => .error e st'
        | .ok _ st' => storeWeightGradients s st' := by
  unfold weightGradients
  rw [bind_of_ok (read_of_ok (slots?_of_some hs))]
  cases hst : ensureDifferentiated st with
  | error e st' => exact bind_of_error hst
  | ok _ st' =>
      rw [bind_of_ok hst]
      unfold storeWeightGradients weightStores
      simp only [onWorkspace_storeAll_cons, onWorkspace_storeAll_single]

/-- A stale layer is refused before any buffer is looked at. -/
theorem inputGradients_of_stale (hs : st.layer.slots = some s)
    (hm : st.layer.memo = .stale) :
    inputGradients .release st = .error .forwardNotRun st := by
  unfold inputGradients
  rw [bind_of_ok (read_of_ok (slots?_of_some hs))]
  have hstale : st.layer.isStale = true := by rw [isStale, hm]
  rw [get_bind, hstale, if_pos rfl]
  rfl

/-- The derivative with respect to the values is computed before the packed
derivative, and where it fails no packed derivative is computed. -/
theorem inputGradients_eq (hs : st.layer.slots = some s)
    (hm : st.layer.memo ≠ .stale) :
    inputGradients .release st
      = match valueDerivative .release s st.workspace with
        | .error e => .error e st
        | .ok dvalue =>
            match ensureDifferentiated st with
            | .error e st' => .error e st'
            | .ok _ st' => storeInputGradients s dvalue st' := by
  unfold inputGradients
  rw [bind_of_ok (read_of_ok (slots?_of_some hs))]
  have hstale : st.layer.isStale = false := by
    rw [isStale]
    cases h : st.layer.memo <;> simp_all
  rw [get_bind, hstale, if_neg Bool.false_ne_true]
  cases hv : valueDerivative .release s st.workspace with
  | error e => exact bind_of_error (read_of_error hv)
  | ok dvalue =>
      refine (bind_of_ok (read_of_ok hv)).trans ?_
      cases hst : ensureDifferentiated st with
      | error e st' => exact bind_of_error hst
      | ok _ st' =>
          rw [bind_of_ok hst]
          unfold storeInputGradients inputStores
          simp only [onWorkspace_storeAll_cons, onWorkspace_storeAll_single]

end Layer
end MixtureAttention
