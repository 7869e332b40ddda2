/-
Decoding. A decoding step runs the layer and stores the centres that come
out as the next state (`Layer.advance`); between two steps the query, the
values and the weights may be replaced, or anything else be called that
leaves the state alone.

One step reads the state that is stored, adds the steps of the pass to it
and can always store the sum, since the packed parameters fit their buffer
only if the steps have the extents of the state (`Running.decode`). A run is
that step over and over (`decoding`), so by induction the state before each
pass is known from the steps so far (`Decoding.run`). Over an ordered field
with a positive exponential the centres then only move ahead.
-/
import Mathlib.Algebra.BigOperators.Group.Finset.Basic
import Mathlib.Algebra.Order.Field.Basic
import MixtureAttention.Proofs.Exact.Elements
import MixtureAttention.Proofs.Layer.Readiness

namespace MixtureAttention

open Tensor Workspace Procedure
open Given (HasShape)

section

variable {α : Type} [Scalar α] {p : SetupPlan} {s : Slots}
  {dims : List Dims} {st st' : Session α}

-- ===================================================== an input at rest

namespace Action

/-- The call does not replace this input. -/
def Spares (h : InputHandle) : Action α → Prop
  | setInput i _ => i ≠ h
  | _ => True

end Action

theorem input_step {h : InputHandle} {a : Action α} (ha : a.Spares h) :
    (final a.procedure st).workspace.input h = st.workspace.input h := by
  let P (w : Workspace α) : Prop := w.input h = st.workspace.input h
  have hreplace : ∀ i t, Workspace.Keeps P (replaceWeight i t) :=
    fun i t => .stored (replaceWeight_eq i t) fun _ hw _ => hw
  refine Action.keeps (P := P) (fun c hc => ?_) st rfl
  cases hc with
  | setInput i t =>
      refine .stored (setInput_eq i t) fun w hw _ => ?_
      have hne : i.index ≠ h.index := fun heq =>
        ha (congrArg InputHandle.mk heq)
      show lookup .input (w.inputs.set i.index t) h.index = _
      rw [← hw]
      unfold Workspace.input lookup
      rw [List.getElem?_set_ne hne]
  | setIncoming i t => exact .stored (setIncoming_eq i t) fun _ hw _ => hw
  | writeWeight i n x =>
      exact .inspect_bind fun w hw t _ => hreplace i t w hw
  | replaceWeight i t => exact hreplace i t
  | setScratch i t => exact .stored (setScratch_eq i t) fun _ hw _ => hw
  | setOutput i t => exact .stored (setOutput_eq i t) fun _ hw _ => hw
  | setScratchGrad _ i t =>
      exact .stored (setScratchGrad_eq i t) fun _ hw _ => hw
  | setWeightGrad i t =>
      exact .stored (setWeightGrad_eq i t) fun _ hw _ => hw
  | setOutgoing i t => exact .stored (setOutgoing_eq i t) fun _ hw _ => hw
  | resize i n => exact .stored (resize_eq i n) fun _ hw _ => hw

theorem input_after {h : InputHandle} (as : List (Action α)) :
    ∀ {st : Session α}, (∀ a ∈ as, a.Spares h) →
      (st.after as).workspace.input h = st.workspace.input h := by
  induction as with
  | nil => exact fun _ => rfl
  | cons a as ih =>
      intro st has
      rw [List.forall_mem_cons] at has
      exact (ih has.2).trans (input_step has.1)

-- ============================================================= one step

/-- Stores the centres of the latest pass as the next state. -/
def Layer.advance : Procedure α Unit := do
  let s ← read fun st => st.layer.slots?
  let c ← read fun st => st.layer.centres st.workspace
  onWorkspace (setInput s.state c)

/-- The steps of the latest pass, by batch entry and component. -/
def Session.steps (st : Session α) (x z : Nat) : α :=
  match st.layer.packedSegment st.workspace .step with
  | .ok t => t.elem x 0 z
  | .error _ => 0

/-- The parameters are activated in place. -/
theorem ensures_packed {k : Nat} {logits : Tensor α} :
    Ensures (fun m => m.packed.shape = logits.shape)
      (Mixture.of k logits) := by
  unfold Mixture.of
  refine .skip fun _ => .skip fun _ => .skip fun _ => ?_
  refine .bind ensures_setColumns fun t ht => ?_
  refine .bind ensures_setColumns fun t' ht' => ?_
  refine .bind ensures_setColumns fun t'' ht'' => ?_
  rintro m ⟨⟩
  exact ht''.trans (ht'.trans ht)

/-- What a successful pass does to the parameters: there are logits of which
the packed buffer holds the activated ones, and the batch extent is that of
the state. -/
theorem Running.logits (h : Running p s dims st)
    (hrun : Layer.forward st = .ok () st') :
    ∃ logit : Nat → Nat → α,
      st'.layer.packedSegment st'.workspace .step
          = .ok (cube p.batch 1 p.mixtures fun x _ z =>
              Scalar.exp (logit x z))
        ∧ st'.layer.memo = .forwarded
        ∧ st'.workspace.inputs = st.workspace.inputs := by
  obtain ⟨v, hv, hfits, -, hst'⟩ :=
    (Layer.forward_ok_iff h.slots h.mixtures).1 hrun
  obtain ⟨query, value, state, logits, mix, -, -, -, -, -, hmix, hpacked, -⟩ :=
    forwardValues_looks v hv
  -- the packed parameters fit their buffer, so the logits had its extents
  have hmem : (s.packed, p.packedDims) ∈ s.scratch.zip p.scratchDims := by
    simp [Slots.scratch, SetupPlan.scratchDims]
  have hfit : st.workspace.fitsScratch s.packed v.packed = .ok () :=
    hfits (s.packed, v.packed) (by simp [ForwardValues.scratchStores])
  have hshape : v.packed.shape = [p.batch, 1, 1, 3 * p.mixtures] :=
    h.wired.shape_of_fits hmem hfit
  rw [hpacked, ensures_packed mix hmix] at hshape
  obtain ⟨logit, hlogits⟩ := HasShape.exists_row ⟨logits, rfl, hshape⟩
  rw [Except.ok.inj hlogits, Mixture.of_rows (Nat.le_refl _)] at hmix
  refine ⟨logit, ?_, ?_, ?_⟩
  · have hslots : st'.layer.slots = some s := by
      rw [hst']
      exact h.slots
    have hmixtures : st'.layer.settings.mixtures = some p.mixtures := by
      rw [hst']
      exact h.mixtures
    have hread : st'.workspace.scratchValue s.packed = .ok v.packed := by
      obtain ⟨i, j, rfl⟩ := h.wired.slots
      rw [hst']
      exact ForwardValues.read_put hfits (_, v.packed)
        (by simp [ForwardValues.scratchStores])
    rw [Layer.packedSegment_eq hslots hmixtures hread, hpacked,
      ← Except.ok.inj hmix]
    show liftM (Tensor.columns _ 0 p.mixtures) = _
    rw [columns_cube (by omega)]
    refine congrArg Except.ok (cube_congr fun x y z _ _ hz => ?_)
    rw [Nat.zero_add, if_pos hz]
  · rw [hst']
    rfl
  · rw [hst']
    show (v.put s st.workspace).inputs = _
    rw [ForwardValues.put_eq]

/-- The layer runs on a state that is known by batch entry and component. -/
structure Decoding (p : SetupPlan) (s : Slots) (dims : List Dims) (b : Nat)
    (state : Nat → Nat → α) (st : Session α) : Prop where
  running : ∃ n, Running { p with batch := n } s dims st
  declared : ∃ d, dims[s.state.index]? = some d
    ∧ d.toShape.tail = [1, 1, p.mixtures]
  state : st.workspace.input s.state
    = .ok (cube b 1 p.mixtures fun x _ z => state x z)

variable {b : Nat} {state : Nat → Nat → α}

theorem Decoding.after (h : Decoding p s dims b state st)
    {as : List (Action α)} (has : ∀ a ∈ as, a.Spares s.state) :
    Decoding p s dims b state (st.after as) := by
  obtain ⟨n, hrunning⟩ := h.running
  exact ⟨⟨batchAfter as n, hrunning.after as⟩, h.declared,
    (input_after as has).trans h.state⟩

/-- After a pass the centres are the state moved ahead by the steps of this
pass. -/
theorem Decoding.pass (h : Decoding p s dims b state st)
    (hrun : Layer.forward st = .ok () st') :
    (st'.layer.packedSegment st'.workspace .step
        = .ok (cube b 1 p.mixtures fun x _ z => st'.steps x z)
      ∧ ∀ x < b, ∀ z < p.mixtures, ∃ y, st'.steps x z = Scalar.exp y)
    ∧ st'.layer.centres st'.workspace
        = .ok (cube b 1 p.mixtures fun x _ z =>
            state x z + st'.steps x z)
    ∧ (∃ n, Running { p with batch := n } s dims st')
    ∧ st'.workspace.inputs = st.workspace.inputs := by
  obtain ⟨n, hrunning⟩ := h.running
  obtain rfl : b = n := hrunning.batches_of_forward hrun _
    (List.mem_of_getElem? (lookup_eq_ok.1 h.state))
  obtain ⟨logit, hpacked, hmemo, hinputs⟩ := hrunning.logits hrun
  have hrunning' := hrunning.forward
  rw [final_of_ok hrun] at hrunning'
  have hsteps : ∀ x < b, ∀ z < p.mixtures,
      st'.steps x z = Scalar.exp (logit x z) := by
    intro x hx z hz
    unfold Session.steps
    rw [hpacked]
    exact elem_cube hx Nat.one_pos hz
  have hsegment : st'.layer.packedSegment st'.workspace .step
      = .ok (cube b 1 p.mixtures fun x _ z => st'.steps x z) := by
    refine hpacked.trans (congrArg Except.ok (cube_congr ?_))
    intro x _ z hx _ hz
    exact (hsteps x hx z hz).symm
  have hstate : st'.workspace.input s.state
      = .ok (cube b 1 p.mixtures fun x _ z => state x z) := by
    unfold Workspace.input
    rw [hinputs]
    exact h.state
  refine ⟨⟨hsegment, fun x hx z hz => ⟨_, hsteps x hx z hz⟩⟩, ?_,
    ⟨b, hrunning'⟩, hinputs⟩
  have hfresh : st'.layer.isStale = false := by
    rw [Layer.isStale, hmemo]
  rw [Layer.centres, hfresh, if_neg Bool.false_ne_true, hsegment, ok_bind,
    Layer.slots?_of_some hrunning'.slots, ok_bind, hstate, ok_bind]
  exact congrArg liftM (combine_same _)

/-- The centres of a pass can always be stored as the next state. -/
theorem Decoding.advance (h : Decoding p s dims b state st)
    (hrun : Layer.forward st = .ok () st') :
    ∃ st'', Layer.advance st' = .ok () st''
      ∧ Decoding p s dims b (fun x z => state x z + st'.steps x z) st'' := by
  obtain ⟨-, hcentres, ⟨n, hrunning⟩, hinputs⟩ := h.pass hrun
  obtain ⟨d, hd, htail⟩ := h.declared
  let c : Tensor α := cube b 1 p.mixtures fun x _ z =>
    state x z + st'.steps x z
  have hfits : (lookup .input st'.workspace.inputDims s.state.index
      >>= fun d => checkBeyondBatch d c) = .ok () := by
    rw [hrunning.inputDims]
    exact lookup_bind_eq_ok.2 ⟨d, hd, if_pos htail⟩
  have hset := setInput_eq s.state c st'.workspace
  rw [hfits] at hset
  have hrunning' := hrunning.command fun _ => keeps_setInput s.state c
  have hstore := onWorkspace_of_ok hset
  rw [final_of_ok hstore] at hrunning'
  refine ⟨_, ?_, ⟨n, hrunning'⟩, h.declared, ?_⟩
  · unfold Layer.advance
    rw [bind_of_ok (read_of_ok (Layer.slots?_of_some hrunning.slots)),
      bind_of_ok (read_of_ok hcentres)]
    exact hstore
  · have hlt : s.state.index < st'.workspace.inputs.length := by
      rw [hinputs]
      exact (List.getElem?_eq_some_iff.1 (lookup_eq_ok.1 h.state)).1
    exact lookup_eq_ok.2 (List.getElem?_set_self hlt)

-- ================================================================== runs

/-- The session before pass `n` of a run, when `changes i` are the calls
before pass `i`. -/
def Session.decoding (changes : Nat → List (Action α)) (st : Session α) :
    Nat → Session α
  | 0 => st.after (changes 0)
  | n + 1 =>
      (final Layer.advance
        (final Layer.forward (st.decoding changes n))).after
          (changes (n + 1))

/-- The session after pass `n`. -/
def Session.passed (changes : Nat → List (Action α)) (st : Session α)
    (n : Nat) : Session α :=
  final Layer.forward (st.decoding changes n)

/-- The state before pass `n`: what it was at first, and the steps of every
pass added one after the other. -/
def Session.stateBefore (changes : Nat → List (Action α)) (st : Session α)
    (state : Nat → Nat → α) : Nat → Nat → Nat → α
  | 0 => state
  | n + 1 => fun x z =>
      st.stateBefore changes state n x z + (st.passed changes n).steps x z

variable {changes : Nat → List (Action α)}

theorem Decoding.run (h : Decoding p s dims b state st)
    (hspares : ∀ n, ∀ a ∈ changes n, a.Spares s.state) :
    ∀ n, (∀ m < n, ∃ st', Layer.forward (st.decoding changes m)
        = .ok () st') →
      Decoding p s dims b (st.stateBefore changes state n)
        (st.decoding changes n) := by
  intro n
  induction n with
  | zero => exact fun _ => h.after (hspares 0)
  | succ n ih =>
      intro hforward
      have hbefore := ih fun m hm => hforward m (Nat.lt_succ_of_lt hm)
      obtain ⟨st₁, hrun⟩ := hforward n (Nat.lt_succ_self n)
      obtain ⟨st₂, hstore, hnext⟩ := hbefore.advance hrun
      have hpassed : st.passed changes n = st₁ := final_of_ok hrun
      unfold Session.decoding Session.stateBefore
      rw [final_of_ok hrun, final_of_ok hstore, hpassed]
      exact hnext.after (hspares (n + 1))

end

-- ===================================================== exact arithmetic

open Finset

section

variable {α : Type} [Transcendental α] [Field α]

/-- The steps add up. -/
theorem stateBefore_eq_sum (changes : Nat → List (Action α))
    (st : Session α) (state : Nat → Nat → α) (n x z : Nat) :
    st.stateBefore changes state n x z
      = state x z + ∑ i ∈ range n, (st.passed changes i).steps x z := by
  induction n with
  | zero =>
      rw [range_zero, sum_empty, add_zero]
      rfl
  | succ n ih =>
      rw [sum_range_succ, ← add_assoc, ← ih]
      rfl

variable [LinearOrder α] [IsStrictOrderedRing α]

/-- Over a decoding run of any length the centres only move ahead. A layer
is set up, a workspace is built for it and used in any way; then before
every pass anything is called that leaves the state alone, the pass
succeeds, and its centres are stored as the next state. The store is always
accepted. The centres of a pass are the state at first and the steps of all
passes so far, these are above zero, and so the centres of the next pass lie
beyond them, for every batch entry and every component. -/
theorem centres_move_ahead {l : Layer α} {b : Blueprint} {setup : Setup α}
    {s : Slots} (hexp : ∀ x : α, 0 < Scalar.exp x)
    (hfinal : Setup.finalize ⟨l, b⟩ = .ok () setup)
    (hslots : setup.layer.slots = some s) (g : Generator) (seed : UInt64)
    (as : List (Action α)) {changes : Nat → List (Action α)}
    (hspares : ∀ n, ∀ a ∈ changes n, a.Spares s.state) {last : Nat}
    (hforward : ∀ n ≤ last, ∃ st',
      Layer.forward (((Session.start setup g seed).after as).decoding
        changes n) = .ok () st') :
    let st := (Session.start setup g seed).after as
    ∃ (batch mixtures : Nat) (state : Nat → Nat → α)
      (steps centres : Nat → Nat → Nat → α),
      st.workspace.input s.state
          = .ok (cube batch 1 mixtures fun x _ => state x)
        ∧ ∀ n ≤ last,
          let pass := st.passed changes n
          pass.layer.packedSegment pass.workspace .step
              = .ok (cube batch 1 mixtures fun x _ => steps n x)
            ∧ pass.layer.centres pass.workspace
              = .ok (cube batch 1 mixtures fun x _ => centres n x)
            ∧ (∃ st', Layer.advance pass = .ok () st')
            ∧ ∀ x < batch, ∀ z < mixtures,
                centres n x z
                    = state x z + ∑ i ∈ range (n + 1), steps i x z
                  ∧ 0 < steps n x z
                  ∧ (n < last → centres n x z < centres (n + 1) x z) := by
  intro st
  obtain ⟨p, s', hplan, hstart, -⟩ := running_start hfinal g seed
  obtain rfl : s = s' := Option.some.inj (hslots.symm.trans hstart.slots)
  have hrunning := hstart.after as
  obtain ⟨query, value, _, hdims, -, -, -, -, -, -, -, -, -, rfl⟩ :=
    Setup.plan_cases hplan
  have hdeclared : b.inputs[s.state.index]?
      = some ⟨p.batch, 1, 1, p.mixtures⟩ := by
    obtain ⟨i, j, rfl⟩ := hrunning.wired.slots
    rw [hdims]
    rfl
  obtain ⟨t, -, ht, hshape⟩ := hrunning.input hdeclared
  obtain ⟨state, hstate⟩ := HasShape.exists_row ⟨t, ht, hshape⟩
  have hdecoding : Decoding p s b.inputs (t.extent 0) state st :=
    ⟨⟨_, hrunning⟩, ⟨_, hdeclared, rfl⟩, hstate⟩
  -- what pass `n` leaves, from the state that it started from
  have hpass : ∀ n ≤ last, ∃ st',
      st.passed changes n = st' ∧ Layer.forward (st.decoding changes n)
        = .ok () st'
      ∧ Decoding p s b.inputs (t.extent 0) (st.stateBefore changes state n)
          (st.decoding changes n) := by
    intro n hn
    obtain ⟨st', hrun⟩ := hforward n hn
    exact ⟨st', final_of_ok hrun, hrun, hdecoding.run hspares n
      fun m hm => hforward m (Nat.le_trans (Nat.le_of_lt hm) hn)⟩
  -- a step is an exponential, whatever was stored before the pass
  have hpositive : ∀ n ≤ last, ∀ x < t.extent 0, ∀ z < p.mixtures,
      0 < (st.passed changes n).steps x z := by
    intro n hn x hx z hz
    obtain ⟨st', rfl, hrun, hbefore⟩ := hpass n hn
    obtain ⟨⟨-, hsteps⟩, -⟩ := hbefore.pass hrun
    obtain ⟨y, hy⟩ := hsteps x hx z hz
    rw [hy]
    exact hexp y
  refine ⟨t.extent 0, p.mixtures, state,
    fun n => (st.passed changes n).steps,
    fun n => st.stateBefore changes state (n + 1), hstate, ?_⟩
  intro n hn
  obtain ⟨st', rfl, hrun, hbefore⟩ := hpass n hn
  obtain ⟨⟨hsegment, -⟩, hcentres, -⟩ := hbefore.pass hrun
  obtain ⟨st'', hstore, -⟩ := hbefore.advance hrun
  refine ⟨hsegment, hcentres, ⟨st'', hstore⟩, ?_⟩
  intro x hx z hz
  refine ⟨stateBefore_eq_sum .., hpositive n hn x hx z hz, fun hlt => ?_⟩
  exact lt_add_of_pos_right _ (hpositive (n + 1) hlt x hx z hz)

end

/-- A layer in rational numbers whose state is three throughout. -/
def threeAhead : Session ℚ :=
  (Session.blank ⟨1, 2, 2, 1, 1, 2⟩).after
    [.setInput ⟨2⟩ (.full [1, 1, 1, 2] 3)]

/-- Before pass `n` the query becomes `n` throughout and an element of the
first weight twice that. -/
def countingChanges (n : Nat) : List (Action ℚ) :=
  [.setInput ⟨0⟩ (.full [1, 1, 1, 2] n), .writeWeight ⟨0⟩ 0 (2 * n)]

/-- The theorem for two passes in rational numbers. -/
theorem centres_move_ahead_two_passes :
    ∃ centres : Nat → Nat → Nat → ℚ,
      (∀ n ≤ 1,
        let pass := threeAhead.passed countingChanges n
        pass.layer.centres pass.workspace
          = .ok (cube 1 1 2 fun x _ => centres n x))
      ∧ ∀ z < 2, centres 0 0 z < centres 1 0 z := by
  have hspares : ∀ n, ∀ a ∈ countingChanges n,
      a.Spares (Slots.startingAt 0 0).state := by
    intro n
    simp [countingChanges, Action.Spares, Slots.startingAt]
  have hforward : ∀ n ≤ 1, ∃ st',
      Layer.forward (threeAhead.decoding countingChanges n) = .ok () st' := by
    intro n hn
    refine ok_of_answer ?_
    rcases Nat.le_one_iff_eq_zero_or_eq_one.1 hn with rfl | rfl
    · decide +kernel
    · decide +kernel
  obtain ⟨batch, mixtures, state, steps, centres, hstate, hpasses⟩ :=
    centres_move_ahead rational_exp_pos
      (Session.blank_finalize _ (by decide) (by decide)) rfl
      Generator.splitMix 0 _ hspares hforward
  have hshape : [batch, 1, 1, mixtures] = [1, 1, 1, 2] :=
    congrArg (fun r => r.toOption.elim [] Tensor.shape) hstate.symm
  cases hshape
  refine ⟨centres, fun n hn => (hpasses n hn).2.1, fun z hz => ?_⟩
  exact ((hpasses 0 (by decide)).2.2.2 0 (by decide) z hz).2.2 (by decide)

end MixtureAttention
