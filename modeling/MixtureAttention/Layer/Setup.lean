/-
Setting a layer up on a blueprint. Everything is checked before anything
is requested, so a refused setup leaves the layer and the blueprint as
they were. The inputs are a query, a sequence of values and the state, one
centre for each mixture component; the layer requests three weights and
nine scratch buffers and declares one output as wide as the values.
-/
import MixtureAttention.Layer.Slots

namespace MixtureAttention

variable {α : Type}

/-- The extents that a setup runs over. -/
structure SetupPlan where
  batch : Nat
  /-- The width of the query. -/
  queryWidth : Nat
  /-- The number of positions. -/
  positions : Nat
  /-- The width of a value. -/
  valueWidth : Nat
  unit : Nat
  mixtures : Nat
deriving DecidableEq, Repr

/-- A layer and the blueprint that it is set up on. -/
structure Setup (α : Type) where
  layer : Layer α
  blueprint : Blueprint

-- ================================================================ checks

/-- The batch extent of a shape must be this one. -/
def checkBatch (batch : Nat) (shape : Shape) : Except LayerError Unit :=
  if shape.head? = some batch then .ok ()
  else .error (.tensor (.shapeMismatch (shape.set 0 batch) shape))

/-- A hyperparameter must not be zero. -/
def checkPositive (p : Property) (n : Nat) : Except LayerError Unit :=
  if n = 0 then .error (.invalidProperty p.key (Natural.text n)) else .ok ()

/-- Checks the settings and the declared inputs of a layer against each
other. -/
def SetupPlan.of (l : Layer α) (inputs : List Dims) :
    Except LayerError SetupPlan := do
  match inputs with
  | [query, value, state] =>
      let unit ← l.unit?
      let k ← l.mixtures?
      checkPositive .unit unit
      checkPositive .mixtures k
      checkBatch query.batch value.toShape
      checkBatch query.batch state.toShape
      if state.toShape.tail ≠ [1, 1, k] then
        throw (.tensor
          (.shapeMismatch [query.batch, 1, 1, k] state.toShape))
      return ⟨query.batch, query.width, value.height, value.width, unit, k⟩
  | _ => throw (.inputCount Layer.typeName 3 inputs.length)

-- ============================================================== requests

namespace Setup

/-- An action on a layer and its blueprint that may be refused. -/
abbrev Command (α β : Type) := EStateM LayerError (Setup α) β

/-- Requests a weight that is trained and penalised as the settings say. -/
def requestWeight (dims : Dims) (initializer : Initializer)
    (name : String) : Command α WeightHandle := fun st =>
  let settings := st.layer.settings
  let (h, blueprint) := st.blueprint.requestWeight dims initializer
    settings.weightRegularizer settings.penaltyConstant name true
  .ok h { st with blueprint }

/-- Requests a scratch buffer that lives for one step. -/
def requestScratch (dims : Dims) (name : String) (hasGrad : Bool) :
    Command α ScratchHandle := fun st =>
  let (h, blueprint) :=
    st.blueprint.requestScratch dims name hasGrad .iteration
  .ok h { st with blueprint }

/-- Requests every buffer of the layer. -/
def requestSlots (p : SetupPlan) : Command α Slots := do
  let settings := (← get).layer.settings
  let hiddenWeight ← requestWeight ⟨1, 1, p.queryWidth, p.unit⟩
    settings.weightInitializer "fc_w"
  let hiddenBias ← requestWeight ⟨1, 1, 1, p.unit⟩
    settings.biasInitializer "fc_bias"
  let packedWeight ← requestWeight ⟨1, 1, p.unit, 3 * p.mixtures⟩
    settings.weightInitializer "fc_proj_w"
  let hiddenDims := ⟨p.batch, 1, 1, p.unit⟩
  let massDims := ⟨p.batch, 1, p.positions, p.mixtures⟩
  let hiddenSum ← requestScratch hiddenDims "fc_out" false
  let hidden ← requestScratch hiddenDims "fc_tanh" false
  let packed ← requestScratch ⟨p.batch, 1, 1, 3 * p.mixtures⟩ "fc_proj_out"
    true
  let scores ← requestScratch ⟨p.batch, 1, 1, p.positions⟩ "scores" false
  let mass ← requestScratch massDims "prob" false
  let upper ← requestScratch massDims "prob_left" false
  let lower ← requestScratch massDims "prob_right" false
  let lowerEdge ← requestScratch massDims "u_neg_div" false
  let upperEdge ← requestScratch massDims "u_pos_div" false
  return {
    query := ⟨0⟩, value := ⟨1⟩, state := ⟨2⟩
    hiddenWeight, hiddenBias, packedWeight, hiddenSum, hidden, packed
    scores, mass, upper, lower, lowerEdge, upperEdge }

/-- Sets the layer up, for the first time or again. -/
def finalize : Command α Unit := do
  let plan ← fun st =>
    match SetupPlan.of st.layer st.blueprint.inputs with
    | .ok plan => .ok plan st
    | .error e => .error e st
  let slots ← requestSlots plan
  modify fun st => {
    blueprint := st.blueprint.setOutputs
      [⟨plan.batch, 1, 1, plan.valueWidth⟩]
    layer := { st.layer with slots := some slots, memo := .stale } }

end Setup
end MixtureAttention
