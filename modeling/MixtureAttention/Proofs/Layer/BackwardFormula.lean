/-
The backward pass in formulas. The derivative `g` with respect to the
output is carried down the mixture to the packed row and the state, and on
to the query and the weights; as in the forward pass, every sum is added up
left to right from zero and the operations on elements stay uninterpreted.
`packedDerivative_eq` and its siblings say that a workspace which a forward
pass filled gives these formulas.
-/
import MixtureAttention.Layer.Backward
import MixtureAttention.Proofs.Layer.ForwardPass

namespace MixtureAttention

open Tensor Workspace

variable {α : Type} [Scalar α]

namespace Given

-- ============================================================== formulas

section

variable (c : Given α) (p : SetupPlan) (g : Nat → Nat → α)

/-- With respect to a score. -/
def dScore (b h : Nat) : α :=
  sumTo p.valueWidth fun d => g b d * c.value b h d

/-- With respect to a share. -/
def dShare (b k : Nat) : α :=
  sumTo p.positions fun h => c.dScore p g b h * c.mass p b h k

/-- With respect to a mass. -/
def dMass (b h k : Nat) : α := c.dScore p g b h * c.share p b k

/-- With respect to the distance of an edge. The mass falls with the
distribution function at the lower edge. -/
def dDistance (below : Bool) (b h k : Nat) : α :=
  (if below then 0 - c.dMass p g b h k else c.dMass p g b h k)
    * c.massBelow p below b h k * (1 - c.massBelow p below b h k)

/-- The same, for a shift of the edge itself. -/
def dEdge (below : Bool) (b h k : Nat) : α :=
  c.dDistance p g below b h k / (c.scale p b k + scaleFloor)

/-- With respect to a centre: both edges fall away from it. -/
def dCentre (b k : Nat) : α :=
  (0 - sumTo p.positions fun h => c.dEdge p g false b h k)
    + (0 - sumTo p.positions fun h => c.dEdge p g true b h k)

/-- With respect to a scale. -/
def dScale (b k : Nat) : α :=
  (0 - sumTo p.positions fun h =>
      c.dEdge p g false b h k * c.distance p false b h k)
    + (0 - sumTo p.positions fun h =>
      c.dEdge p g true b h k * c.distance p true b h k)

/-- With respect to the logit of a step, of a scale and of a share. -/
def dStepLogit (b k : Nat) : α := c.dCentre p g b k * c.step p b k

def dScaleLogit (b k : Nat) : α := c.dScale p g b k * c.scale p b k

def dShareLogit (b : Nat) : Nat → α :=
  softmaxBackwardAt p.mixtures (c.share p b) (c.dShare p g b)

/-- With respect to the logits, in the order of the packed row. -/
def dLogit (b j : Nat) : α :=
  if j < p.mixtures then c.dStepLogit p g b j
  else if j < 2 * p.mixtures then c.dScaleLogit p g b (j - p.mixtures)
  else c.dShareLogit p g b (j - 2 * p.mixtures)

/-- With respect to the hidden projection, after its activation and
before. -/
def dHidden (b u : Nat) : α :=
  sumTo (3 * p.mixtures) fun j => c.dLogit p g b j * c.packedWeight u j

def dHiddenSum (b u : Nat) : α :=
  c.dHidden p g b u * (1 - c.hidden p b u * c.hidden p b u)

/-- With respect to everything that is given. A single contribution is
still added to zero. -/
def gradient : Given α where
  query b i := sumTo p.unit fun u => c.dHiddenSum p g b u * c.hiddenWeight i u
  value b h d := sumTo 1 fun _ => c.score p b h * g b d
  state := c.dCentre p g
  hiddenWeight i u := sumTo p.batch fun b =>
    c.query b i * c.dHiddenSum p g b u
  hiddenBias u := sumTo 1 fun _ => sumTo 1 fun _ => sumTo p.batch fun b =>
    c.dHiddenSum p g b u
  packedWeight u j := sumTo p.batch fun b =>
    c.hidden p b u * c.dLogit p g b j

end

-- ================================================================ segments

variable {c : Given α} {p : SetupPlan} {s : Slots} {w : Workspace α}
  {g : Nat → Nat → α}

/-- The first segment of the packed buffer holds the steps. -/
theorem read_step :
    Segment.step.read p.mixtures (c.values p).packed
      = .ok (cube p.batch 1 p.mixtures fun b _ => c.step p b) := by
  refine (columns_cube (by simp only [Segment.offset]; omega)).trans ?_
  refine congrArg _ (cube_congr fun b _ k _ _ hk => ?_)
  show c.packed p b (0 + k) = _
  rw [packed, Nat.zero_add, if_pos hk]

/-- The second holds the scales. -/
theorem read_scale :
    Segment.scale.read p.mixtures (c.values p).packed
      = .ok (cube p.batch 1 p.mixtures fun b _ => c.scale p b) := by
  refine (columns_cube (by simp only [Segment.offset]; omega)).trans ?_
  refine congrArg _ (cube_congr fun b _ k _ _ hk => ?_)
  show c.packed p b (p.mixtures + k) = _
  rw [packed, if_neg (by omega), if_pos (by omega), Nat.add_sub_cancel_left]

/-- The third holds the shares. -/
theorem read_share :
    Segment.share.read p.mixtures (c.values p).packed
      = .ok (cube p.batch 1 p.mixtures fun b _ => c.share p b) := by
  refine (columns_cube (by simp only [Segment.offset]; omega)).trans ?_
  refine congrArg _ (cube_congr fun b _ k _ _ hk => ?_)
  show c.packed p b (2 * p.mixtures + k) = _
  rw [packed, if_neg (by omega), if_neg (by omega), Nat.add_sub_cancel_left]

/-- The three parts are packed in the same order. -/
theorem packParts_eq :
    packParts p.batch p.mixtures
        (cube p.batch 1 p.mixtures fun b _ => c.dStepLogit p g b)
        (cube p.batch 1 p.mixtures fun b _ => c.dScaleLogit p g b)
        (cube p.batch 1 p.mixtures fun b _ => c.dShareLogit p g b)
      = .ok (cube p.batch 1 (3 * p.mixtures) fun b _ => c.dLogit p g b) := by
  unfold packParts Segment.write Segment.offset
  dsimp only
  rw [zeros_cube, setColumns_cube (by omega), ok_bind,
    setColumns_cube (by omega), ok_bind, setColumns_cube (by omega)]
  refine congrArg _ (cube_congr fun b _ j _ _ hj => ?_)
  unfold dLogit
  by_cases hstep : j < p.mixtures
  · rw [if_neg (by omega), if_neg (by omega), if_pos (by omega),
      if_pos hstep, Nat.sub_zero]
  · by_cases hscale : j < 2 * p.mixtures
    · rw [if_neg (by omega), if_pos (by omega), if_neg hstep, if_pos hscale]
    · rw [if_pos (by omega), if_neg hstep, if_neg hscale]

-- =============================================== down to the packed row

/-- The score's derivative meets what arrives with the values of its position.
-/
theorem scoreDerivative_eq :
    scoreDerivative p.mixtures
        (cube p.batch 1 p.valueWidth fun b _ => g b)
        (cube p.batch p.positions p.valueWidth c.value)
      = .ok (cube p.batch p.positions p.mixtures fun b h _ =>
          c.dScore p g b h) := by
  have hbatch : (cube p.batch p.positions p.valueWidth c.value).extent 0
      = p.batch := rfl
  have hpositions : (cube p.batch p.positions p.valueWidth c.value).extent 2
      = p.positions := rfl
  unfold scoreDerivative
  rw [hbatch, hpositions, matmulGradLeft_batch, ok_bind, reshape_column,
    ok_bind, broadcastTo_cube]
  rfl

/-- A negated sum over the positions, entry by entry. -/
theorem negSumPositions_cube {b l k : Nat} {f : Nat → Nat → Nat → α} :
    negSumPositions (cube b l k f)
      = .ok (cube b 1 k fun x _ z => 0 - sumTo l fun y => f x y z) := by
  unfold negSumPositions
  rw [sumAxes_single, sumRows_cube, ok_bind, neg_cube]
  rfl

/-- The derivative of a share sums over the positions. -/
theorem dShare_eq :
    ∃ dshared,
      (cube p.batch p.positions p.mixtures fun b h _ => c.dScore p g b h).mul
          (c.values p).mass = .ok dshared
        ∧ dshared.sumAxes [2]
          = .ok (cube p.batch 1 p.mixtures fun b _ => c.dShare p g b) :=
  ⟨_, combine_same _, (sumAxes_single ..).trans sumRows_cube⟩

/-- The derivative of a mass is the score's, scaled by the share. -/
theorem dMass_eq :
    (cube p.batch p.positions p.mixtures fun b h _ => c.dScore p g b h).mul
        (cube p.batch 1 p.mixtures fun b _ => c.share p b)
      = .ok (cube p.batch p.positions p.mixtures (c.dMass p g)) :=
  combine_row _

/-- Through the upper sigmoid. -/
theorem dUpper_eq :
    Activation.sigmoid.backward (c.values p).upper
        (cube p.batch p.positions p.mixtures (c.dMass p g))
      = .ok (cube p.batch p.positions p.mixtures (c.dDistance p g false)) :=
  Activation.sigmoidBackward_cube

/-- Through the lower one, which enters with a minus sign. -/
theorem dLower_eq :
    Activation.sigmoid.backward (c.values p).lower
        (cube p.batch p.positions p.mixtures (c.dMass p g)).neg
      = .ok (cube p.batch p.positions p.mixtures (c.dDistance p g true)) := by
  rw [neg_cube]
  exact Activation.sigmoidBackward_cube

/-- Through the division by the scale. -/
theorem dEdge_eq (below : Bool) :
    (cube p.batch p.positions p.mixtures (c.dDistance p g below)).div
        (divisors (cube p.batch 1 p.mixtures fun b _ => c.scale p b))
      = .ok (cube p.batch p.positions p.mixtures (c.dEdge p g below)) := by
  rw [divisors, map_cube]
  exact combine_row _

/-- The derivative of a centre sums both edges over the positions. -/
theorem dCentre_eq :
    ∃ upper lower,
      negSumPositions
          (cube p.batch p.positions p.mixtures (c.dEdge p g false)) = .ok upper
        ∧ negSumPositions
          (cube p.batch p.positions p.mixtures (c.dEdge p g true)) = .ok lower
        ∧ upper.add lower
          = .ok (cube p.batch 1 p.mixtures fun b _ => c.dCentre p g b) :=
  ⟨_, _, negSumPositions_cube, negSumPositions_cube, combine_same _⟩

/-- The derivative of a scale sums both edges over the positions, with their
distances as factors. -/
theorem dScale_eq :
    ∃ upperStretch upper lowerStretch lower,
      (cube p.batch p.positions p.mixtures (c.dEdge p g false)).mul
          (c.values p).upperEdge = .ok upperStretch
        ∧ negSumPositions upperStretch = .ok upper
        ∧ (cube p.batch p.positions p.mixtures (c.dEdge p g true)).mul
          (c.values p).lowerEdge = .ok lowerStretch
        ∧ negSumPositions lowerStretch = .ok lower
        ∧ upper.add lower
          = .ok (cube p.batch 1 p.mixtures fun b _ => c.dScale p g b) :=
  ⟨_, _, _, _, combine_same _, negSumPositions_cube, combine_same _,
    negSumPositions_cube, combine_same _⟩

/-- Through the exponential of the step. -/
theorem dStepLogit_eq :
    (cube p.batch 1 p.mixtures fun b _ => c.dCentre p g b).mul
        (cube p.batch 1 p.mixtures fun b _ => c.step p b)
      = .ok (cube p.batch 1 p.mixtures fun b _ => c.dStepLogit p g b) :=
  combine_same _

/-- Through the exponential of the scale. -/
theorem dScaleLogit_eq :
    (cube p.batch 1 p.mixtures fun b _ => c.dScale p g b).mul
        (cube p.batch 1 p.mixtures fun b _ => c.scale p b)
      = .ok (cube p.batch 1 p.mixtures fun b _ => c.dScaleLogit p g b) :=
  combine_same _

/-- Through the softmax of the shares. -/
theorem dShareLogit_eq :
    Activation.softmax.backward
        (cube p.batch 1 p.mixtures fun b _ => c.share p b)
        (cube p.batch 1 p.mixtures fun b _ => c.dShare p g b)
      = .ok (cube p.batch 1 p.mixtures fun b _ => c.dShareLogit p g b) :=
  Activation.softmaxBackward_cube

/-- The derivative with respect to the packed row. -/
theorem packedDerivative_eq (hfilled : Filled c p s w)
    (hdout : w.incomingAt 0
      = .ok (cube p.batch 1 p.valueWidth fun b _ => g b)) :
    packedDerivative s p.mixtures w
      = .ok {
          packed := cube p.batch 1 (3 * p.mixtures) fun b _ => c.dLogit p g b
          state := cube p.batch 1 p.mixtures fun b _ => c.dCentre p g b
        } := by
  have hbatch : (cube p.batch p.positions p.valueWidth c.value).extent 0
      = p.batch := rfl
  obtain ⟨dshared, hshared, hshare⟩ := dShare_eq (c := c) (p := p) (g := g)
  obtain ⟨cupper, clower, hcupper, hclower, hcentre⟩ :=
    dCentre_eq (c := c) (p := p) (g := g)
  obtain ⟨ustretch, supper, lstretch, slower, hustretch, hsupper, hlstretch,
    hslower, hscale⟩ := dScale_eq (c := c) (p := p) (g := g)
  unfold packedDerivative
  rw [hdout, ok_bind, hfilled.held.value, ok_bind, scoreDerivative_eq,
    lift_ok, ok_bind, hfilled.packed, ok_bind, read_step, lift_ok, ok_bind,
    read_scale, lift_ok, ok_bind, read_share, lift_ok, ok_bind, hfilled.mass,
    ok_bind, hshared, lift_ok, ok_bind, hshare, lift_ok, ok_bind, dMass_eq,
    lift_ok, ok_bind, hfilled.upper, ok_bind, dUpper_eq, lift_ok, ok_bind,
    hfilled.lower, ok_bind, dLower_eq, lift_ok, ok_bind]
  dsimp only
  rw [dEdge_eq, lift_ok, ok_bind, dEdge_eq, lift_ok, ok_bind, hcupper,
    lift_ok, ok_bind, hclower, lift_ok, ok_bind, hfilled.upperEdge, ok_bind,
    hustretch, lift_ok, ok_bind, hsupper, lift_ok, ok_bind,
    hfilled.lowerEdge, ok_bind, hlstretch, lift_ok, ok_bind, hslower, lift_ok,
    ok_bind, hscale, lift_ok, ok_bind, hcentre, lift_ok, ok_bind,
    dStepLogit_eq, lift_ok, ok_bind, dScaleLogit_eq, lift_ok, ok_bind,
    dShareLogit_eq, lift_ok, ok_bind, hbatch, packParts_eq, lift_ok, ok_bind]
  rfl

-- ==================================================== on to the gradients

/-- The packed derivative, as it is stored. -/
def Packed (c : Given α) (p : SetupPlan) (g : Nat → Nat → α) (s : Slots)
    (w : Workspace α) : Prop :=
  w.scratchGrad s.packed
    = .ok (cube p.batch 1 (3 * p.mixtures) fun b _ => c.dLogit p g b)

/-- The derivative of the hidden row, from the packed derivative and the second
weight. -/
theorem hiddenDerivative_eq (hfilled : Filled c p s w)
    (hpacked : c.Packed p g s w) :
    hiddenDerivative s w
      = .ok (cube p.batch 1 p.unit fun b _ => c.dHiddenSum p g b) := by
  unfold hiddenDerivative
  rw [hpacked, ok_bind, hfilled.held.packedWeight, ok_bind,
    matmulGradLeft_shared, lift_ok, ok_bind, hfilled.hidden, ok_bind]
  refine (congrArg liftM Activation.tanhBackward_cube).trans ?_
  rfl

/-- The derivative of the query, from that of the hidden row and the first
weight. -/
theorem queryDerivative_eq (hfilled : Filled c p s w)
    (hpacked : c.Packed p g s w) :
    queryDerivative s w
      = .ok (cube p.batch 1 p.queryWidth fun b _ =>
          (c.gradient p g).query b) := by
  unfold queryDerivative
  rw [hiddenDerivative_eq hfilled hpacked, ok_bind,
    hfilled.held.hiddenWeight, ok_bind, matmulGradLeft_shared]
  rfl

/-- The derivative of the values, from the scores and what arrives. -/
theorem valueDerivative_eq (hfilled : Filled c p s w)
    (hdout : w.incomingAt 0
      = .ok (cube p.batch 1 p.valueWidth fun b _ => g b)) :
    valueDerivative .release s w
      = .ok (cube p.batch p.positions p.valueWidth
          (c.gradient p g).value) := by
  unfold valueDerivative
  rw [hfilled.scores, ok_bind, hdout, ok_bind, hfilled.held.value, ok_bind]
  exact congrArg liftM matmulGradRight_batch

/-- The gradients of the three weights, summed over the batch. -/
theorem weightDerivatives_eq (hfilled : Filled c p s w)
    (hpacked : c.Packed p g s w) :
    weightDerivatives .release s w
      = .ok {
          hiddenWeight := cube 1 p.queryWidth p.unit fun _ =>
            (c.gradient p g).hiddenWeight
          hiddenBias := cube 1 1 p.unit fun _ _ => (c.gradient p g).hiddenBias
          packedWeight := cube 1 p.unit (3 * p.mixtures) fun _ =>
            (c.gradient p g).packedWeight } := by
  have hweight : (c.values p).hidden.matmulGradRight .release
      (cube p.batch 1 (3 * p.mixtures) fun b _ => c.dLogit p g b)
      (cube 1 p.unit (3 * p.mixtures) fun _ => c.packedWeight).shape
      = .ok (cube 1 p.unit (3 * p.mixtures) fun _ =>
          (c.gradient p g).packedWeight) := matmulGradRight_shared
  have hquery : (cube p.batch 1 p.queryWidth fun b _ i =>
        c.query b i).matmulGradRight .release
      (cube p.batch 1 p.unit fun b _ => c.dHiddenSum p g b)
      (cube 1 p.queryWidth p.unit fun _ => c.hiddenWeight).shape
      = .ok (cube 1 p.queryWidth p.unit fun _ =>
          (c.gradient p g).hiddenWeight) := matmulGradRight_shared
  have hbias : (cube p.batch 1 p.unit fun b _ =>
        c.dHiddenSum p g b).sumAxes [0, 1, 2]
      = .ok (cube 1 1 p.unit fun _ _ => (c.gradient p g).hiddenBias) := by
    unfold sumAxes
    rw [List.foldlM_cons, sumBatch_cube, ok_bind, List.foldlM_cons,
      sumUnit_cube, ok_bind]
    exact (sumAxes_single ..).trans sumRows_cube
  unfold weightDerivatives
  rw [hfilled.hidden, ok_bind, hpacked, ok_bind, hfilled.held.packedWeight,
    ok_bind, hweight, lift_ok, ok_bind, hiddenDerivative_eq hfilled hpacked,
    ok_bind, hfilled.held.query, ok_bind, hfilled.held.hiddenWeight, ok_bind,
    hquery, lift_ok, ok_bind, hbias, lift_ok, ok_bind]
  rfl

end Given
end MixtureAttention
