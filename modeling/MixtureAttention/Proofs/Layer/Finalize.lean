/-
What setting a layer up does, in one equation: a refusal changes nothing,
and otherwise three weights and nine scratch buffers are appended to the
requests made before, and the handles are the numbers of these requests.
-/
import MixtureAttention.Layer.Setup
import MixtureAttention.Proofs.Sequencing

namespace MixtureAttention

variable {α : Type}

/-- The handles of a layer whose first weight and first scratch buffer have
the given numbers. -/
def Slots.startingAt (weights scratch : Nat) : Slots where
  query := ⟨0⟩
  value := ⟨1⟩
  state := ⟨2⟩
  hiddenWeight := ⟨weights⟩
  hiddenBias := ⟨weights + 1⟩
  packedWeight := ⟨weights + 2⟩
  hiddenSum := ⟨scratch⟩
  hidden := ⟨scratch + 1⟩
  packed := ⟨scratch + 2⟩
  scores := ⟨scratch + 3⟩
  mass := ⟨scratch + 4⟩
  upper := ⟨scratch + 5⟩
  lower := ⟨scratch + 6⟩
  lowerEdge := ⟨scratch + 7⟩
  upperEdge := ⟨scratch + 8⟩

namespace SetupPlan

/-- The extents of the hidden projection. -/
def hiddenDims (p : SetupPlan) : Dims := ⟨p.batch, 1, 1, p.unit⟩

/-- The extents of the packed parameters. -/
def packedDims (p : SetupPlan) : Dims := ⟨p.batch, 1, 1, 3 * p.mixtures⟩

/-- The extents of the scores. -/
def scoresDims (p : SetupPlan) : Dims := ⟨p.batch, 1, 1, p.positions⟩

/-- The extents of the masses. -/
def massDims (p : SetupPlan) : Dims := ⟨p.batch, 1, p.positions, p.mixtures⟩

/-- The extents of the output. -/
def outputDims (p : SetupPlan) : Dims := ⟨p.batch, 1, 1, p.valueWidth⟩

/-- The three weights that a layer requests. -/
def weightDecls (p : SetupPlan) (settings : Settings) (b : Blueprint) :
    List WeightDecl :=
  let decl (name : String) (dims : Dims) (i : Initializer) : WeightDecl :=
    ⟨b.qualify name, dims, i, settings.weightRegularizer,
      settings.penaltyConstant, true⟩
  [decl "fc_w" ⟨1, 1, p.queryWidth, p.unit⟩ settings.weightInitializer,
    decl "fc_bias" ⟨1, 1, 1, p.unit⟩ settings.biasInitializer,
    decl "fc_proj_w" ⟨1, 1, p.unit, 3 * p.mixtures⟩
      settings.weightInitializer]

/-- The nine scratch buffers that a layer requests. Only the packed
parameters have a gradient. -/
def scratchDecls (p : SetupPlan) (b : Blueprint) : List ScratchDecl :=
  let decl (name : String) (dims : Dims) (hasGrad : Bool) : ScratchDecl :=
    ⟨b.qualify name, dims, hasGrad, .iteration⟩
  [decl "fc_out" p.hiddenDims false, decl "fc_tanh" p.hiddenDims false,
    decl "fc_proj_out" p.packedDims true, decl "scores" p.scoresDims false,
    decl "prob" p.massDims false, decl "prob_left" p.massDims false,
    decl "prob_right" p.massDims false, decl "u_neg_div" p.massDims false,
    decl "u_pos_div" p.massDims false]

end SetupPlan

namespace Setup

/-- The blueprint after a layer was set up on it. -/
def finalized (p : SetupPlan) (settings : Settings) (b : Blueprint) :
    Blueprint :=
  { b with
    outputs := [p.outputDims]
    weights := b.weights ++ p.weightDecls settings b
    scratch := b.scratch ++ p.scratchDecls b }

/-- The layer's requests go behind those made before it. -/
theorem requestSlots_eq (p : SetupPlan) (st : Setup α) :
    requestSlots p st
      = .ok (.startingAt st.blueprint.weights.length
            st.blueprint.scratch.length)
          { st with
            blueprint :=
              { finalized p st.layer.settings st.blueprint with
                outputs := st.blueprint.outputs } } := by
  obtain ⟨l, b⟩ := st
  show EStateM.Result.ok _ _ = _
  simp only [Slots.startingAt, finalized, SetupPlan.weightDecls,
    SetupPlan.scratchDecls, List.length_append, List.length_cons,
    List.length_nil, List.append_assoc]
  rfl

/-- A setup whose checks pass requests every buffer and empties the memo; a
refused setup changes neither the layer nor the blueprint. -/
theorem finalize_eq (st : Setup α) :
    finalize st
      = match SetupPlan.of st.layer st.blueprint.inputs with
        | .error e => .error e st
        | .ok p =>
            .ok () {
              layer :=
                { st.layer with
                  slots := some (.startingAt st.blueprint.weights.length
                    st.blueprint.scratch.length)
                  memo := .stale }
              blueprint := finalized p st.layer.settings st.blueprint } := by
  unfold finalize
  show EStateM.bind _ _ st = _
  cases hplan : SetupPlan.of st.layer st.blueprint.inputs with
  | error e => simp [EStateM.bind, hplan]
  | ok p =>
      simp only [EStateM.bind, hplan]
      show EStateM.bind (requestSlots p) _ st = _
      rw [EStateM.bind, requestSlots_eq]
      rfl

/-- What a setup leaves whose checks pass. -/
theorem finalize_of_plan {l : Layer α} {b : Blueprint} {p : SetupPlan}
    (hplan : SetupPlan.of l b.inputs = .ok p) :
    finalize ⟨l, b⟩
      = .ok () {
          layer :=
            { l with
              slots := some (.startingAt b.weights.length b.scratch.length)
              memo := .stale }
          blueprint := finalized p l.settings b } := by
  rw [finalize_eq]
  dsimp only
  rw [hplan]

/-- What a setup that succeeds leaves. -/
theorem finalize_cases {l : Layer α} {b : Blueprint} {setup : Setup α}
    (h : finalize ⟨l, b⟩ = .ok () setup) :
    ∃ p, SetupPlan.of l b.inputs = .ok p
      ∧ setup = {
          layer :=
            { l with
              slots := some (.startingAt b.weights.length b.scratch.length)
              memo := .stale }
          blueprint := finalized p l.settings b } := by
  rw [finalize_eq] at h
  dsimp only at h
  cases hplan : SetupPlan.of l b.inputs with
  | error e =>
      rw [hplan] at h
      cases h
  | ok p =>
      rw [hplan] at h
      injection h with _ h
      exact ⟨p, rfl, h.symm⟩

/-- A hidden width that is found was set. -/
theorem unit?_eq_ok {l : Layer α} {n : Nat} (h : l.unit? = .ok n) :
    l.settings.unit = some n := by
  unfold Layer.unit? at h
  cases hset : l.settings.unit with
  | none => rw [hset] at h; cases h
  | some m => rw [hset] at h; injection h with h; rw [h]

/-- A number of mixtures that is found was set. -/
theorem mixtures?_eq_ok {l : Layer α} {n : Nat} (h : l.mixtures? = .ok n) :
    l.settings.mixtures = some n := by
  unfold Layer.mixtures? at h
  cases hset : l.settings.mixtures with
  | none => rw [hset] at h; cases h
  | some m => rw [hset] at h; injection h with h; rw [h]

/-- What passes the check is positive. -/
theorem checkPositive_ok {p : Property} {n : Nat} {u : Unit}
    (h : checkPositive p n = .ok u) : 0 < n := by
  unfold checkPositive at h
  split at h
  · cases h
  · next hn => exact Nat.pos_of_ne_zero hn

/-- What a plan says about the settings and the declared inputs. -/
theorem plan_cases {l : Layer α} {inputs : List Dims} {p : SetupPlan}
    (h : SetupPlan.of l inputs = .ok p) :
    ∃ query value state, inputs = [query, value, state]
      ∧ l.settings.unit = some p.unit ∧ 0 < p.unit
      ∧ l.settings.mixtures = some p.mixtures ∧ 0 < p.mixtures
      ∧ query.batch = p.batch ∧ query.width = p.queryWidth
      ∧ value.batch = p.batch ∧ value.height = p.positions
      ∧ value.width = p.valueWidth
      ∧ state = ⟨p.batch, 1, 1, p.mixtures⟩ := by
  match inputs, h with
  | [query, value, state], h =>
      obtain ⟨u, hu, h⟩ := exists_of_bind h
      obtain ⟨k, hk, h⟩ := exists_of_bind h
      obtain ⟨_, hu0, h⟩ := exists_of_bind h
      obtain ⟨_, hk0, h⟩ := exists_of_bind h
      obtain ⟨_, hvalue, h⟩ := exists_of_bind h
      obtain ⟨_, hstate, h⟩ := exists_of_bind h
      have hvalue := (of_ite_eq_ok hvalue).1
      have hstate := (of_ite_eq_ok hstate).1
      split at h
      · cases h
      · next htail =>
          cases h
          obtain ⟨sb, sc, sh, sw⟩ := state
          simp only [Dims.toShape, List.tail_cons, ne_eq,
            Decidable.not_not, List.cons.injEq, and_true] at htail
          obtain ⟨rfl, rfl, rfl⟩ := htail
          simp only [Dims.toShape, List.head?_cons, Option.some.injEq]
            at hvalue hstate
          exact ⟨query, value, _, rfl, unit?_eq_ok hu, checkPositive_ok hu0,
            mixtures?_eq_ok hk, checkPositive_ok hk0, rfl, rfl, hvalue, rfl,
            rfl, by rw [← hstate]⟩

end Setup
end MixtureAttention
