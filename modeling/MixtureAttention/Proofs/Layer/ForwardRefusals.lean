/-
What a refused forward pass leaves. The pass drops the memo, computes
everything and only then stores, scratch buffer by scratch buffer and the
output last. So on any workspace whatever, a refusal can leave nothing
behind but values of the layer's own scratch buffers
(`ForwardValues.store_refused`), and the three calls that need a forward
pass ask for one until one succeeds (`Bench.Onward.stale`).

On a workspace of the layer's own not even these values change. There the
first store decides about all of them: if the hidden sums fit their buffer,
then the query has one channel, one row and the current batch extent, so
the results are known by their formulas and everything fits
(`Attuned.held_of_values`). The number of components may have been set again
since the setup. The pass then fails before anything is stored or not at
all.
-/
import MixtureAttention.Proofs.Layer.Attunement
import MixtureAttention.Proofs.Layer.Recut
import MixtureAttention.Proofs.Layer.Validation

namespace MixtureAttention

open Workspace Procedure

variable {α : Type}

-- ================================================== a store that is refused

/-- Scratch values are stored in their places. -/
theorem sameBut_putScratches {X : List Place}
    {ps : List (ScratchHandle × Tensor α)}
    (hps : ∀ p ∈ ps, .scratch p.1.index ∈ X) (w : Workspace α) :
    SameBut X w (w.putScratches ps) := by
  have hwrites : w.putScratches ps
      = writeAll (ps.map fun p => .scratch p.1 p.2) w := by
    rw [putScratches, writeAll, List.foldl_map]
    rfl
  rw [hwrites]
  exact sameBut_writeAll (List.forall_mem_map.2 hps) w

namespace ForwardValues

variable {s : Slots} {v : ForwardValues α} {w w' : Workspace α}
  {e : LayerError}

/-- Where the results are not all stored, the output is not. -/
theorem store_refused (h : v.store s w = .error e w') :
    SameBut (s.scratch.map fun i => .scratch i.index) w w' := by
  have hplace : ∀ p ∈ v.scratchStores s,
      Place.scratch p.1.index ∈ s.scratch.map fun i => .scratch i.index := by
    simp [scratchStores, Slots.scratch]
  rw [store_eq] at h
  have hstep : EStateM.bind (storeAll (fun p => setScratch p.1 p.2)
      (v.scratchStores s)) (fun _ => setOutput 0 v.output) w
      = .error e w' := h
  unfold EStateM.bind at hstep
  cases hrun : storeAll (fun p => setScratch p.1 p.2) (v.scratchStores s)
      w with
  | error e₁ w₁ =>
      rw [hrun] at hstep
      injection hstep with _ hw
      obtain ⟨made, _, _, hsplit, -, -, rfl⟩ := storeAll_refused
        (fun (p : ScratchHandle × Tensor α) => setScratch_eq p.1 p.2)
        (fun p p' => fitsScratch_putScratch p.1 p'.1 p.2 p'.2) hrun
      rw [← hw]
      exact sameBut_putScratches (fun p hp => hplace p
        (hsplit ▸ List.mem_append_left _ hp)) w
  | ok _ w₁ =>
      rw [hrun] at hstep
      obtain ⟨-, rfl⟩ := (storeAll_ok_iff
        (fun (p : ScratchHandle × Tensor α) => setScratch_eq p.1 p.2)
        (fun p p' => fitsScratch_putScratch p.1 p'.1 p.2 p'.2) _ _ _).1 hrun
      dsimp only at hstep
      rw [setOutput_eq] at hstep
      unfold stored at hstep
      split at hstep
      · cases hstep
      · cases hstep
        exact sameBut_putScratches hplace w

/-- Where the first result is not stored, nothing is. -/
theorem store_of_unfit
    (h : w.fitsScratch s.hiddenSum v.hiddenSum = .error e) :
    v.store s w = .error e w := by
  unfold store
  show EStateM.bind (setScratch s.hiddenSum v.hiddenSum) _ w = _
  unfold EStateM.bind
  rw [setScratch_eq, h]
  rfl

end ForwardValues

variable [Scalar α]

-- ================================================ what is called afterwards

namespace Bench

/-- Calls lead from one bench to another, none of them a forward pass that
succeeds. In between the workspaces may change in any way. -/
inductive Onward (b : Bench α) : Bench α → Prop
  | refl : Onward b b
  | call {b' : Bench α} (h : Onward b b') (c : Call α)
      (hc : (b'.entry c).mark? ≠ some .filled) : Onward b (b'.step c).2
  | change {b' : Bench α} (h : Onward b b')
      (workspaces : Nat → Workspace α) : Onward b { b' with workspaces }

/-- The layer is set up and no forward pass is there to be
differentiated. -/
structure Unpassed (b : Bench α) : Prop where
  slots : b.layer.slots.isSome
  ready : b.layer.Ready
  stale : b.layer.memo = .stale

variable {b b' : Bench α}

/-- A layer that is set up stays so. -/
theorem slots_step (c : Call α) (h : b.layer.slots.isSome) :
    (b.step c).2.layer.slots.isSome := by
  have hsame : ∀ {l : Layer α}, l.setup = b.layer.setup → l.slots.isSome :=
    fun hl => (congrArg (·.2.isSome) hl).trans h
  cases c with
  | setProperty key value =>
      rw [step]
      cases Settings.set key value b.layer.settings <;> exact h
  | configure entries =>
      rw [step, Layer.configure]
      cases Settings.load entries b.layer.settings <;> exact h
  | finalize i =>
      have hrun := Setup.finalize_eq ⟨b.layer, b.blueprints i⟩
      rw [step, hrun]
      dsimp only
      cases SetupPlan.of b.layer (b.blueprints i).inputs with
      | error e => exact h
      | ok p => rfl
  | build i j g seed => exact h
  | setInput i k t => exact hsame (Layer.setup_onWorkspace _ _)
  | setIncoming i o t => exact hsame (Layer.setup_onWorkspace _ _)
  | forward i => exact hsame (Layer.setup_forward _)
  | inputGradients i => exact hsame (Layer.setup_gradient .inputs _)
  | weightGradients i => exact hsame (Layer.setup_gradient .weights _)
  | setBatch i n => exact hsame (Layer.setup_setBatch n _)
  | centres i => exact h

/-- Only a forward pass that succeeds puts something there. -/
theorem Unpassed.step (h : b.Unpassed) {c : Call α}
    (hc : (b.entry c).mark? ≠ some .filled) : (b.step c).2.Unpassed := by
  obtain ⟨hstep, hready⟩ := entry_step c h.ready
  refine ⟨slots_step c h.slots, hready, ?_⟩
  rcases hstep with ⟨mark, -, -⟩ | ⟨-, memo, -⟩ | ⟨-, -, before, _, -, -⟩ |
    ⟨-, memo, -⟩
  · exact absurd mark hc
  · exact memo
  · cases before.symm.trans h.stale
  · exact memo.trans h.stale

theorem Unpassed.onward (h : b.Unpassed) (hb : b.Onward b') :
    b'.Unpassed := by
  induction hb with
  | refl => exact h
  | call _ c hc ih => exact ih.step hc
  | change _ workspaces ih => exact ⟨ih.slots, ih.ready, ih.stale⟩

/-- Then all three calls that need a forward pass ask for one, on every
workspace. -/
theorem Unpassed.asks (h : b.Unpassed) (i : Nat) :
    (b.step (.inputGradients i)).1 = .error .forwardNotRun
      ∧ (b.step (.weightGradients i)).1 = .error .forwardNotRun
      ∧ (b.step (.centres i)).1 = .error .forwardNotRun := by
  obtain ⟨s, hs⟩ := Option.isSome_iff_exists.1 h.slots
  have hs' : (b.session i).layer.slots = some s := hs
  refine ⟨(Layer.inputGradients_asks_iff hs').2 h.stale,
    (Layer.weightGradients_asks_iff hs').2 h.stale, ?_⟩
  rw [Bench.step, (Layer.centres_asks_iff _ _).2 h.stale]
  rfl

end Bench

-- ====================================================== an attuned workspace

section

variable {p : SetupPlan} {s : Slots} {dims : List Dims} {w : Workspace α}
  {l : Layer α} {n k : Nat} {v : ForwardValues α} {st st' : Session α}
  {e : LayerError}

/-- If the hidden sums fit their buffer in a workspace that is attuned to a
setup, then the workspace holds all that the formulas are about. -/
theorem Attuned.held_of_values (hplan : SetupPlan.of l dims = .ok p)
    (h : Attuned { p with batch := n } s dims w)
    (hv : forwardValues s k w = .ok v)
    (hfit : w.fitsScratch s.hiddenSum v.hiddenSum = .ok ()) :
    ∃ c : Given α, c.Held { p with batch := n } s w := by
  -- the layer as it was when it was set up
  let st : Session α :=
    ⟨{ slots := some s, settings := { mixtures := some p.mixtures } }, w⟩
  have hrunning : Running { p with batch := n } s dims st :=
    ⟨rfl, rfl, h.wired, h.sound, h.inputDims, nofun⟩
  obtain ⟨query, value, state, rfl, -, -, -, -, hquery, hqueryWidth, hvalue,
    hpositions, hvalueWidth, hstate⟩ := Setup.plan_cases hplan
  obtain ⟨tquery, bias, r, htquery, hbias, hjoin⟩ :=
    hrunning.join_of_values hv hfit
  obtain ⟨hqueryChannel, hqueryHeight, hvalueChannel⟩ :=
    hrunning.units_of_values hv hfit
  -- the bias has one row for all batch entries, so the query has the extent
  have htbatch : tquery.extent 0 = n := by
    obtain ⟨t, ht, htshape⟩ := (hrunning.weight_shapes h.weights).2.1
    cases hbias.symm.trans ht
    rw [htshape] at hjoin
    obtain ⟨_, _, hcons, hbatch, -⟩ := cons_of_join hjoin
    cases hcons
    rw [Tensor.joinAxis_one_right] at hbatch
    exact Option.some.inj hbatch
  obtain ⟨_, _, hlook, -, hbatches⟩ := hrunning.batches_of_values hv
  cases htquery.symm.trans hlook
  rw [htbatch] at hbatches
  have hdims : [query, value, state] = p.inputDims := by
    obtain ⟨batch, channel, height, width⟩ := query
    obtain ⟨batch', channel', height', width'⟩ := value
    dsimp only at *
    subst_vars
    rfl
  have hdeclared : Running { p with batch := n } s
      { { p with batch := n } with batch := p.batch }.inputDims st :=
    hdims ▸ hrunning
  exact hrunning.held h.weights (hdeclared.fed hbatches)

/-- A forward pass that is refused on an attuned workspace leaves it as it
was. -/
theorem Attuned.forward_refused (hplan : SetupPlan.of l dims = .ok p)
    (h : Attuned { p with batch := n } s dims st.workspace)
    (hlayer : st.layer.Equipped s)
    (hrun : Layer.forward st = .error e st') :
    st'.workspace = st.workspace := by
  obtain ⟨k, hk, hpos⟩ := hlayer.mixtures
  have hforward := Layer.forward_eq hlayer.slots hk
  cases hv : forwardValues s k st.workspace with
  | error e' =>
      rw [hrun, hv] at hforward
      cases hforward
      rfl
  | ok v =>
      cases hfit : st.workspace.fitsScratch s.hiddenSum v.hiddenSum with
      | error e' =>
          have hstore := ForwardValues.store_of_unfit (s := s) hfit
          rw [hrun, hv] at hforward
          simp only [hstore] at hforward
          cases hforward
          rfl
      | ok _ =>
          obtain ⟨c, hheld⟩ := h.held_of_values hplan hv hfit
          by_cases hsame : k = p.mixtures
          · have hok := Layer.forward_succeeds hlayer.slots (hsame ▸ hk)
              h.wired hheld
            cases hok.symm.trans hrun
          · obtain ⟨-, -, -, -, -, -, -, hplanPos, -⟩ :=
              Setup.plan_cases hplan
            rcases Layer.forward_recut (p := { p with batch := n })
              hlayer.slots hk hpos hsame hplanPos h.wired hheld with
              ⟨-, hok⟩ | ⟨-, e', herror⟩
            · cases hok.symm.trans hrun
            · cases herror.symm.trans hrun
              rfl

end

-- ================================================================== refusals

/-- What a refused forward pass leaves, on any workspace whatever. The layer
has lost its memo and nothing else. The workspace differs at most in values
of the layer's own scratch buffers, so inputs, outputs, derivatives, weights
and all gradients are what they were. All that needs a forward pass fails,
whatever is called and however the workspaces are changed, until one
succeeds. And if the workspace is the layer's own, it has not changed at
all. -/
theorem Layer.refused_forward_harmless {st st' : Session α} {s : Slots}
    {e : LayerError} (hs : st.layer.slots = some s)
    (hready : st.layer.Ready) (hrun : forward st = .error e st') :
    st'.layer = { st.layer with memo := .stale }
      ∧ SameBut (s.scratch.map fun i => .scratch i.index)
          st.workspace st'.workspace
      ∧ (∀ b b' : Bench α, b.layer = st'.layer → b.Onward b' → ∀ i,
          (b'.step (.inputGradients i)).1 = .error .forwardNotRun
            ∧ (b'.step (.weightGradients i)).1 = .error .forwardNotRun
            ∧ (b'.step (.centres i)).1 = .error .forwardNotRun)
      ∧ (st.Native s → st'.workspace = st.workspace) := by
  have hset : st.layer.slots.isSome := Option.isSome_of_eq_some hs
  obtain ⟨k, hk⟩ := Option.isSome_iff_exists.1 (hready hset)
  -- a forward pass forgets first, and remembers only at its end
  have hlayer : st'.layer = { st.layer with memo := .stale } := by
    rcases forward_cases hs hk with ⟨_, _, hcase⟩ | ⟨_, hcase⟩ <;>
      cases hcase.symm.trans hrun
    rfl
  refine ⟨hlayer, ?_, ?_, ?_⟩
  · have hforward := forward_eq hs hk
    rw [hrun] at hforward
    cases hv : forwardValues s k st.workspace with
    | error e' =>
        rw [hv] at hforward
        cases hforward
        exact .refl _ _
    | ok v =>
        rw [hv] at hforward
        cases hstore : v.store s st.workspace with
        | error e' w =>
            simp only [hstore] at hforward
            cases hforward
            exact ForwardValues.store_refused hstore
        | ok _ w =>
            simp only [hstore] at hforward
            cases hforward
  · intro b b' hb honward
    have hunpassed : b.Unpassed := by
      rw [hlayer] at hb
      exact ⟨by rw [hb]; exact hset, by rw [hb]; exact hready, by rw [hb]⟩
    exact (hunpassed.onward honward).asks
  · intro hnative
    obtain ⟨hequipped, l, dims, p, n, hplan, hw⟩ := hnative.attuned
    exact hw.forward_refused hplan hequipped hrun

/-- A query of two batch entries on a workspace that was built for one, which
is refused before anything is stored; and a buffer for the scores that was
resized alone, so that the fourth store is refused after three were made. -/
theorem Layer.refused_forward_harmless_two_entries :
    let p : SetupPlan := ⟨1, 1, 1, 1, 1, 1⟩
    let s := Slots.startingAt 0 0
    let c : Given Float := {
      query := fun _ _ => 2
      value := fun _ _ _ => 3
      state := fun _ _ => 1
      hiddenWeight := fun _ _ => 0.5
      hiddenBias := fun _ => 1
      packedWeight := fun _ j => (j : Nat) }
    let two : Session Float := (Session.blank p).edit
      (left (setInput ⟨0⟩ (.full [2, 1, 1, 1] 2)))
    let resized : Session Float := (Session.stocked p c fun _ _ => 1).edit
      (left (resize s.scores 2))
    (∃ e st', forward two = .error e st' ∧ st'.workspace = two.workspace)
      ∧ ∃ e st', forward resized = .error e st'
        ∧ st'.layer.memo = .stale
        ∧ resized.workspace.scratchValue s.hidden
          = .ok (.zeros [1, 1, 1, 1])
        ∧ st'.workspace.scratchValue s.hidden = .ok (c.values p).hidden
        ∧ SameBut (s.scratch.map fun i => .scratch i.index)
          resized.workspace st'.workspace := by
  intro p s c two resized
  have hready : ∀ st : Session Float, st.layer.settings.mixtures = some 1 →
      st.layer.Ready := fun st hk _ => by rw [hk]; rfl
  constructor
  · have hnative : two.Native s :=
      .edit (.built (Session.blank_finalize p (by decide) (by decide)) rfl []
        rfl .splitMix 0) (.setInput ⟨0⟩ (.full [2, 1, 1, 1] 2)) nofun
    have hvalues : forwardValues s 1 two.workspace
        = .error (.tensor (.shapeMismatch [2, 1, 1, 1] [1, 1, 1, 1])) := rfl
    have hrun : forward two = _ :=
      (forward_eq rfl rfl).trans (by rw [hvalues])
    exact ⟨_, _, hrun, (Layer.refused_forward_harmless rfl
      (hready two rfl) hrun).2.2.2 hnative⟩
  · have hstocked := Session.stocked_held (p := p) (by decide) (by decide) c
      fun _ _ => 1
    have hheld : c.Held p s resized.workspace :=
      ⟨hstocked.query, hstocked.value, hstocked.state,
        hstocked.hiddenWeight, hstocked.hiddenBias, hstocked.packedWeight⟩
    have hvalues := c.forwardValues_eq p s resized.workspace hheld
    have hrun : forward resized = _ :=
      (forward_eq rfl rfl).trans (by rw [hvalues])
    obtain ⟨hlayer, hsame, -⟩ :=
      Layer.refused_forward_harmless rfl (hready resized rfl) hrun
    exact ⟨_, _, hrun, rfl, rfl, rfl, hsame⟩

end MixtureAttention
