/-
What a forward pass leaves. Its results are nine scratch buffers and the
output, stored one after the other; the pass succeeds exactly when the
results can be computed and each store passes its check, and then every
buffer is read back as it was computed (`read_put`). With the formulas of
the layer this gives what a successful forward pass leaves in each buffer.
-/
import MixtureAttention.Proofs.Layer.Transitions
import MixtureAttention.Proofs.Layer.Wiring

namespace MixtureAttention

open Tensor Workspace

variable {α : Type}

namespace ForwardValues

-- ================================================================ storing

/-- The scratch buffers that a forward pass stores, in order. -/
def scratchStores (s : Slots) (v : ForwardValues α) :
    List (ScratchHandle × Tensor α) :=
  [(s.hiddenSum, v.hiddenSum), (s.hidden, v.hidden), (s.packed, v.packed),
    (s.scores, v.scores), (s.mass, v.mass), (s.upper, v.upper),
    (s.lower, v.lower), (s.lowerEdge, v.lowerEdge),
    (s.upperEdge, v.upperEdge)]

/-- Whether the output can be stored. -/
def fitsOutput (v : ForwardValues α) (w : Workspace α) :
    Except LayerError Unit := do
  checkBeyondBatch (← lookup .output w.outputDims 0) v.output

/-- The workspace with everything stored. -/
def put (s : Slots) (v : ForwardValues α) (w : Workspace α) : Workspace α :=
  { w.putScratches (v.scratchStores s) with
    outputs := w.outputs.set 0 v.output }

/-- The scratch buffers are stored one after the other, and then the
output. -/
theorem store_eq (s : Slots) (v : ForwardValues α) :
    v.store s
      = storeAll (fun p => setScratch p.1 p.2) (v.scratchStores s)
          >>= fun _ => setOutput 0 v.output := by
  unfold store
  simp only [scratchStores, storeAll, bind_assoc, pure_bind]

/-- Storing succeeds exactly when each check passes. -/
theorem store_ok_iff (s : Slots) (v : ForwardValues α)
    (w w' : Workspace α) :
    v.store s w = .ok () w'
      ↔ (∀ p ∈ v.scratchStores s, w.fitsScratch p.1 p.2 = .ok ())
        ∧ v.fitsOutput w = .ok () ∧ w' = v.put s w := by
  have hscratch := storeAll_ok_iff
    (fun (p : ScratchHandle × Tensor α) => setScratch_eq p.1 p.2)
    (fun p p' => fitsScratch_putScratch p.1 p'.1 p.2 p'.2) (v.scratchStores s)
    w
  -- the stores of the buffers change nothing that the last store looks at
  have hput : ∀ w₁ : Workspace α, w₁ = w.putScratches (v.scratchStores s) →
      setOutput 0 v.output w₁ = stored (v.fitsOutput w) w₁ (v.put s w) := by
    intro w₁ h₁
    have hdims : w₁.outputDims = w.outputDims := by rw [h₁, putScratches_eq]
    have houts : w₁.outputs = w.outputs := by rw [h₁, putScratches_eq]
    rw [setOutput_eq, put, ← h₁, houts, fitsOutput, ← hdims]
  rw [store_eq]
  show EStateM.bind _ _ w = _ ↔ _
  unfold EStateM.bind
  cases hrun : storeAll (fun p => setScratch p.1 p.2)
      (v.scratchStores s) w with
  | error e w₁ =>
      constructor
      · intro h
        cases h
      · intro h
        have hok := (hscratch _).2 ⟨h.1, rfl⟩
        rw [hrun] at hok
        cases hok
  | ok u w₁ =>
      obtain ⟨hfits, hw₁⟩ := (hscratch w₁).1 hrun
      show setOutput 0 v.output w₁ = _ ↔ _
      rw [hput w₁ hw₁]
      cases hout : v.fitsOutput w with
      | error e =>
          constructor
          · intro h
            cases h
          · rintro ⟨-, h, -⟩
            cases h
      | ok u =>
          show EStateM.Result.ok () (v.put s w) = _ ↔ _
          constructor
          · intro h
            injection h with _ h
            exact ⟨hfits, rfl, h.symm⟩
          · rintro ⟨-, -, rfl⟩
            rfl

/-- Every scratch buffer is read back as it was stored. -/
theorem read_put {i j : Nat} {v : ForwardValues α} {w : Workspace α}
    (hfits : ∀ p ∈ v.scratchStores (.startingAt i j),
      w.fitsScratch p.1 p.2 = .ok ()) :
    ∀ p ∈ v.scratchStores (.startingAt i j),
      (v.put (.startingAt i j) w).scratchValue p.1 = .ok p.2 := by
  intro p hp
  have hnodup : ((v.scratchStores (.startingAt i j)).map
      (·.1.index)).Nodup := by
    show (List.range' j 9).Nodup
    exact List.nodup_range'
  exact scratchValue_putScratches hnodup hp (hfits p hp)

theorem output_put (s : Slots) (v : ForwardValues α) {w : Workspace α}
    (h : w.outputs ≠ []) : (v.put s w).output 0 = .ok v.output := by
  refine lookup_eq_ok.2 ?_
  unfold put
  dsimp only
  cases hout : w.outputs with
  | nil => exact absurd hout h
  | cons t ts => rfl

/-- Nothing but scratch values and the output is stored. -/
theorem put_eq (s : Slots) (v : ForwardValues α) (w : Workspace α) :
    v.put s w
      = { w with
          outputs := w.outputs.set 0 v.output
          scratch := overlay (fun t e => { e with value := t })
            ((v.scratchStores s).map fun p => (p.1.index, p.2)) w.scratch
        } := by
  rw [put, putScratches_eq]

end ForwardValues

variable [Scalar α] {c : Given α} {p : SetupPlan} {s : Slots}
  {w : Workspace α}

/-- The workspace holds what is given and what a forward pass makes of
it. -/
structure Filled (c : Given α) (p : SetupPlan) (s : Slots)
    (w : Workspace α) : Prop where
  held : c.Held p s w
  hiddenSum : w.scratchValue s.hiddenSum = .ok (c.values p).hiddenSum
  hidden : w.scratchValue s.hidden = .ok (c.values p).hidden
  packed : w.scratchValue s.packed = .ok (c.values p).packed
  scores : w.scratchValue s.scores = .ok (c.values p).scores
  mass : w.scratchValue s.mass = .ok (c.values p).mass
  upper : w.scratchValue s.upper = .ok (c.values p).upper
  lower : w.scratchValue s.lower = .ok (c.values p).lower
  lowerEdge : w.scratchValue s.lowerEdge = .ok (c.values p).lowerEdge
  upperEdge : w.scratchValue s.upperEdge = .ok (c.values p).upperEdge

/-- Storing the results fills the workspace. -/
theorem filled_put {i j : Nat} (hheld : c.Held p (.startingAt i j) w)
    (hfits : ∀ q ∈ (c.values p).scratchStores (.startingAt i j),
      w.fitsScratch q.1 q.2 = .ok ()) :
    Filled c p (.startingAt i j) ((c.values p).put (.startingAt i j) w) := by
  have hread := ForwardValues.read_put hfits
  have hheld' : c.Held p (.startingAt i j)
      ((c.values p).put (.startingAt i j) w) := by
    rw [ForwardValues.put_eq]
    exact ⟨hheld.query, hheld.value, hheld.state, hheld.hiddenWeight,
      hheld.hiddenBias, hheld.packedWeight⟩
  simp only [ForwardValues.scratchStores, List.forall_mem_cons] at hread
  obtain ⟨hsum, hhidden, hpacked, hscores, hmass, hupper, hlower, hlowerEdge,
    hupperEdge, -⟩ := hread
  exact ⟨hheld', hsum, hhidden, hpacked, hscores, hmass, hupper, hlower,
    hlowerEdge, hupperEdge⟩

omit [Scalar α] in
/-- In a wired workspace everything of the shapes of the plan can be
stored. -/
theorem Wired.fits (h : Wired p s w) {v : ForwardValues α}
    (hshapes : (v.scratchStores s).map (·.2.shape)
      = p.scratchDims.map Dims.toShape)
    (houtput : v.output.shape.tail = [1, 1, p.valueWidth]) :
    (∀ q ∈ v.scratchStores s, w.fitsScratch q.1 q.2 = .ok ())
      ∧ v.fitsOutput w = .ok () := by
  refine ⟨?_, ?_⟩
  · have hdims := h.scratch
    simp only [Slots.scratch, SetupPlan.scratchDims, List.map_cons,
      List.cons.injEq] at hdims
    obtain ⟨h₁, h₂, h₃, h₄, h₅, h₆, h₇, h₈, h₉, -⟩ := hdims
    simp only [ForwardValues.scratchStores, SetupPlan.scratchDims,
      List.map_cons, List.cons.injEq] at hshapes
    obtain ⟨t₁, t₂, t₃, t₄, t₅, t₆, t₇, t₈, t₉, -⟩ := hshapes
    simp only [ForwardValues.scratchStores, List.forall_mem_cons]
    exact ⟨fitsScratch_of_dims h₁ t₁, fitsScratch_of_dims h₂ t₂,
      fitsScratch_of_dims h₃ t₃, fitsScratch_of_dims h₄ t₄,
      fitsScratch_of_dims h₅ t₅, fitsScratch_of_dims h₆ t₆,
      fitsScratch_of_dims h₇ t₇, fitsScratch_of_dims h₈ t₈,
      fitsScratch_of_dims h₉ t₉, List.forall_mem_nil _⟩
  · obtain ⟨d, hd, htail⟩ := h.outputDims
    exact lookup_bind_eq_ok.2 ⟨d, hd, if_pos (htail.trans houtput.symm)⟩

/-- So every result of a forward pass can be. -/
theorem Wired.fits_values (h : Wired p s w) (c : Given α) :
    (∀ q ∈ (c.values p).scratchStores s, w.fitsScratch q.1 q.2 = .ok ())
      ∧ (c.values p).fitsOutput w = .ok () :=
  h.fits rfl rfl

omit [Scalar α] in
/-- Storing the results of a forward pass keeps the wiring. -/
theorem Wired.put (h : Wired p s w) (v : ForwardValues α) :
    Wired p s (v.put s w) := by
  have hscratch : ∀ i : Nat,
      (v.put s w).scratch[i]?.map (fun e => (e.decl, e.grad))
        = w.scratch[i]?.map fun e => (e.decl, e.grad) := by
    intro i
    rw [ForwardValues.put_eq]
    dsimp only
    rw [map_overlay]
    exact fun _ _ => rfl
  have hdims : (v.put s w).scratchDims? = w.scratchDims? := by
    funext i
    have hdecl := congrArg (Option.map fun e => e.1.dims) (hscratch i.index)
    rw [Option.map_map, Option.map_map] at hdecl
    exact hdecl
  have hgrad : ∃ t, (v.put s w).scratchGrad s.packed = .ok t := by
    obtain ⟨t, ht⟩ := h.packedGrad
    obtain ⟨e, he, hgrad⟩ := scratchGrad_eq_ok.1 ht
    have hentry := hscratch s.packed.index
    rw [he] at hentry
    obtain ⟨e', he', hsame⟩ := Option.map_eq_some_iff.1 hentry
    injection hsame with _ hsame
    exact ⟨t, scratchGrad_eq_ok.2 ⟨e', he', hsame.trans hgrad⟩⟩
  refine ⟨h.slots, ?_, ?_, ?_, ?_, ?_, ?_, ?_⟩
  · rw [ForwardValues.put_eq]
    exact h.weights
  · rw [hdims]
    exact h.scratch
  · exact hgrad
  · rw [ForwardValues.put_eq]
    exact h.outputDims
  · rw [ForwardValues.put_eq]
    exact fun hnil => h.outputs (by simpa using hnil)
  · rw [ForwardValues.put_eq]
    exact h.inputs
  · rw [ForwardValues.put_eq]
    exact h.outgoing

namespace Layer

variable {st st' : Session α} {k : Nat}

/-- A forward pass succeeds exactly when its results can be computed and
stored. -/
theorem forward_ok_iff (hs : st.layer.slots = some s)
    (hk : st.layer.settings.mixtures = some k) :
    forward st = .ok () st'
      ↔ ∃ v, forwardValues s k st.workspace = .ok v
        ∧ (∀ p ∈ v.scratchStores s, st.workspace.fitsScratch p.1 p.2 = .ok ())
        ∧ v.fitsOutput st.workspace = .ok ()
        ∧ st' = (st.withMemo .forwarded).withWorkspace
            (v.put s st.workspace) := by
  rw [forward_eq hs hk]
  cases hv : forwardValues s k st.workspace with
  | error e => exact ⟨nofun, fun ⟨_, h, _⟩ => nomatch h⟩
  | ok v =>
      have hstore := v.store_ok_iff s st.workspace
      simp only [Except.ok.injEq, exists_eq_left']
      cases hw : v.store s st.workspace with
      | error e w =>
          refine ⟨nofun, fun ⟨hfits, hout, _⟩ => ?_⟩
          have hok := (hstore _).2 ⟨hfits, hout, rfl⟩
          rw [hw] at hok
          cases hok
      | ok u w =>
          obtain ⟨hfits, hout, hput⟩ := (hstore w).1 hw
          subst hput
          constructor
          · intro h
            injection h with _ h
            exact ⟨hfits, hout, h.symm⟩
          · rintro ⟨-, -, rfl⟩
            rfl

/-- On a wired workspace that holds what is given the forward pass
succeeds. -/
theorem forward_succeeds (hs : st.layer.slots = some s)
    (hk : st.layer.settings.mixtures = some p.mixtures)
    (hwired : Wired p s st.workspace) (hheld : c.Held p s st.workspace) :
    forward st = .ok () ((st.withMemo .forwarded).withWorkspace
      ((c.values p).put s st.workspace)) := by
  obtain ⟨hfits, hout⟩ := hwired.fits_values c
  exact (forward_ok_iff hs hk).2
    ⟨_, c.forwardValues_eq p s st.workspace hheld, hfits, hout, rfl⟩

/-- After a successful forward pass the workspace is filled, and the layer
remembers nothing but that it ran. -/
theorem forward_filled {i j : Nat}
    (hslots : st.layer.slots = some (.startingAt i j))
    (hmixtures : st.layer.settings.mixtures = some p.mixtures)
    (hheld : c.Held p (.startingAt i j) st.workspace)
    (hrun : forward st = .ok () st') :
    Filled c p (.startingAt i j) st'.workspace
      ∧ st'.layer = { st.layer with memo := .forwarded } := by
  obtain ⟨v, hv, hfits, -, rfl⟩ := (forward_ok_iff hslots hmixtures).1 hrun
  rw [c.forwardValues_eq p _ st.workspace hheld] at hv
  obtain rfl : c.values p = v := Except.ok.inj hv
  exact ⟨filled_put hheld hfits, rfl⟩

/-- A successful forward pass computes the mixture of logistic
distributions, whatever the operations on elements are: each buffer holds
its formula at every batch entry, position and component, and each sum is
added up left to right from zero. -/
theorem forward_computes_mixture {i j : Nat} {p : SetupPlan} {c : Given α}
    (hslots : st.layer.slots = some (.startingAt i j))
    (hmixtures : st.layer.settings.mixtures = some p.mixtures)
    (hheld : c.Held p (.startingAt i j) st.workspace)
    (houtputs : st.workspace.outputs ≠ [])
    (hrun : forward st = .ok () st') :
    let s := Slots.startingAt i j
    let w := st'.workspace
    w.scratchValue s.hiddenSum
        = .ok (cube p.batch 1 p.unit fun b _ u =>
            (sumTo p.queryWidth fun i => c.query b i * c.hiddenWeight i u)
              + c.hiddenBias u)
      ∧ w.scratchValue s.hidden
        = .ok (cube p.batch 1 p.unit fun b _ u =>
            Scalar.tanh (c.hiddenSum p b u))
      ∧ w.scratchValue s.packed
        = .ok (cube p.batch 1 (3 * p.mixtures) fun b _ => c.packed p b)
      ∧ w.scratchValue s.upperEdge
        = .ok (cube p.batch p.positions p.mixtures fun b h k =>
            (((h + 1 : Nat) : α) + 0.5 - (c.state b k + c.step p b k))
              / (c.scale p b k + 1e-8))
      ∧ w.scratchValue s.lowerEdge
        = .ok (cube p.batch p.positions p.mixtures fun b h k =>
            (((h + 1 : Nat) : α) - 0.5 - (c.state b k + c.step p b k))
              / (c.scale p b k + 1e-8))
      ∧ w.scratchValue s.upper
        = .ok (cube p.batch p.positions p.mixtures fun b h k =>
            sigmoid (c.distance p false b h k))
      ∧ w.scratchValue s.lower
        = .ok (cube p.batch p.positions p.mixtures fun b h k =>
            sigmoid (c.distance p true b h k))
      ∧ w.scratchValue s.mass
        = .ok (cube p.batch p.positions p.mixtures fun b h k =>
            c.massBelow p false b h k - c.massBelow p true b h k)
      ∧ w.scratchValue s.scores
        = .ok (cube p.batch 1 p.positions fun b _ h =>
            sumTo p.mixtures fun k => c.mass p b h k * c.share p b k)
      ∧ w.output 0
        = .ok (cube p.batch 1 p.valueWidth fun b _ d =>
            sumTo p.positions fun h => c.score p b h * c.value b h d) := by
  intro s w
  obtain ⟨v, hv, hfits, -, rfl⟩ := (forward_ok_iff hslots hmixtures).1 hrun
  have hvalues := c.forwardValues_eq p s st.workspace hheld
  obtain rfl : v = c.values p := by
    rw [hvalues] at hv
    injection hv with hv
    exact hv.symm
  have hfilled := filled_put hheld hfits
  exact ⟨hfilled.hiddenSum, hfilled.hidden, hfilled.packed,
    hfilled.upperEdge, hfilled.lowerEdge, hfilled.upper, hfilled.lower,
    hfilled.mass, hfilled.scores, ForwardValues.output_put _ _ houtputs⟩

/-- The theorem at a batch of two entries, three positions and two
components, in binary64. -/
theorem forward_computes_mixture_small :
    let p : SetupPlan := ⟨2, 3, 3, 1, 2, 2⟩
    let c : Given Float := {
      query := fun b i => (b + i : Nat)
      value := fun b h _ => (b + h : Nat)
      state := fun b k => (b + k : Nat)
      hiddenWeight := fun i u => (i + u : Nat)
      hiddenBias := fun u => (u : Nat)
      packedWeight := fun u j => (u * j : Nat) }
    ∃ st' : Session Float, forward (Session.stocked p c fun _ _ => 1)
        = .ok () st'
      ∧ st'.workspace.output 0
        = .ok (cube 2 1 1 fun b _ _ =>
            sumTo 3 fun h => c.score p b h * (b + h : Nat)) := by
  intro p c
  let st := Session.stocked p c fun _ _ => 1
  have hs : st.layer.slots = some (.startingAt 0 0) := rfl
  have hheld : c.Held p (.startingAt 0 0) st.workspace :=
    Session.stocked_held p (by decide) (by decide) c _
  have hrun := forward_succeeds hs rfl
    (Session.stocked_wired p (by decide) (by decide) c _) hheld
  have hcomputes := forward_computes_mixture hs rfl hheld nofun hrun
  exact ⟨_, hrun, hcomputes.2.2.2.2.2.2.2.2.2⟩

end Layer
end MixtureAttention
