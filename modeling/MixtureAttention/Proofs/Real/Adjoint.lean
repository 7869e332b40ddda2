/-
The backward pass is the adjoint of the forward pass. The derivative with
respect to the output, paired with the velocity of the output, is carried
back through the forward pass one quantity at a time: each lemma trades a
pairing with the velocity of one quantity for pairings with the velocities
of the quantities it is computed from. At the end only what is given is
left, paired with the gradient (`adjoint`).
-/
import MixtureAttention.Proofs.Real.Tangent
import MixtureAttention.Proofs.Layer.BackwardFormula

namespace MixtureAttention.Given

open Finset

/-- The inner product of two sets of inputs and weights, over the extents of
a plan. -/
noncomputable def pair (p : SetupPlan) (r v : Given ℝ) : ℝ :=
  ∑ b ∈ range p.batch, ∑ i ∈ range p.queryWidth, r.query b i * v.query b i
    + ∑ b ∈ range p.batch, ∑ h ∈ range p.positions, ∑ d ∈ range p.valueWidth,
        r.value b h d * v.value b h d
    + ∑ b ∈ range p.batch, ∑ k ∈ range p.mixtures,
        r.state b k * v.state b k
    + ∑ i ∈ range p.queryWidth, ∑ u ∈ range p.unit,
        r.hiddenWeight i u * v.hiddenWeight i u
    + ∑ u ∈ range p.unit, r.hiddenBias u * v.hiddenBias u
    + ∑ u ∈ range p.unit, ∑ j ∈ range (3 * p.mixtures),
        r.packedWeight u j * v.packedWeight u j

variable (c v : Given ℝ) (p : SetupPlan) (g : Nat → Nat → ℝ) (b : Nat)

-- ============================================================ the formulas

theorem dScore_eq (h : Nat) :
    c.dScore p g b h = ∑ d ∈ range p.valueWidth, g b d * c.value b h d :=
  sumTo_eq_sum _ _

theorem dShare_eq_sum (k : Nat) :
    c.dShare p g b k
      = ∑ h ∈ range p.positions, c.dScore p g b h * c.mass p b h k :=
  sumTo_eq_sum _ _

theorem dHidden_eq (u : Nat) :
    c.dHidden p g b u
      = ∑ j ∈ range (3 * p.mixtures),
          c.dLogit p g b j * c.packedWeight u j :=
  sumTo_eq_sum _ _

-- ===================================================== output and scores

theorem output_adjoint :
    ∑ d ∈ range p.valueWidth, g b d * c.outputVelocity v p b d
      = ∑ h ∈ range p.positions, c.dScore p g b h * c.scoreVelocity v p b h
        + ∑ h ∈ range p.positions, ∑ d ∈ range p.valueWidth,
            c.score p b h * g b d * v.value b h d := by
  have hterm : ∀ d, g b d * c.outputVelocity v p b d
      = ∑ h ∈ range p.positions,
          (g b d * c.value b h d * c.scoreVelocity v p b h
            + c.score p b h * g b d * v.value b h d) := by
    intro d
    rw [outputVelocity, mul_sum]
    exact sum_congr rfl fun h _ => by ring
  simp only [hterm, dScore_eq, sum_mul]
  rw [sum_comm, ← sum_add_distrib]
  exact sum_congr rfl fun h _ => sum_add_distrib

/-- Pairing the score's derivative with its velocity splits it into the masses'
part and the shares'. -/
theorem score_adjoint :
    ∑ h ∈ range p.positions, c.dScore p g b h * c.scoreVelocity v p b h
      = ∑ k ∈ range p.mixtures, ∑ h ∈ range p.positions,
            c.dMass p g b h k * c.massVelocity v p b h k
        + ∑ k ∈ range p.mixtures,
            c.dShare p g b k * c.shareVelocity v p b k := by
  have hterm : ∀ h, c.dScore p g b h * c.scoreVelocity v p b h
      = ∑ k ∈ range p.mixtures,
          (c.dMass p g b h k * c.massVelocity v p b h k
            + c.dScore p g b h * c.mass p b h k
              * c.shareVelocity v p b k) := by
    intro h
    rw [scoreVelocity, mul_sum]
    refine sum_congr rfl fun k _ => ?_
    show _ = c.dScore p g b h * c.share p b k * _ + _
    ring
  simp only [hterm, dShare_eq_sum, sum_mul]
  rw [sum_comm, ← sum_add_distrib]
  exact sum_congr rfl fun k _ => sum_add_distrib

-- ======================================================= shares and masses

/-- The shares' part goes through the softmax. -/
theorem share_adjoint :
    ∑ k ∈ range p.mixtures, c.dShare p g b k * c.shareVelocity v p b k
      = ∑ k ∈ range p.mixtures,
          c.dShareLogit p g b k * c.logitVelocity v p b (2 * p.mixtures + k) :=
  softmax_symmetric p.mixtures (c.share p b) (c.dShare p g b)
    fun k => c.logitVelocity v p b (2 * p.mixtures + k)

/-- The two edges of a position together. -/
theorem edge_adjoint (h k : Nat) :
    c.dMass p g b h k * c.massVelocity v p b h k
      = -(c.dEdge p g false b h k
            * (c.centreVelocity v p b k
              + c.distance p false b h k * c.scaleVelocity v p b k))
        - c.dEdge p g true b h k
            * (c.centreVelocity v p b k
              + c.distance p true b h k * c.scaleVelocity v p b k) := by
  have hdivisor := (divisor_pos c p b k).ne'
  show _ = -(c.dMass p g b h k * c.massBelow p false b h k
        * (1 - c.massBelow p false b h k) / (c.scale p b k + scaleFloor) * _)
    - (0 - c.dMass p g b h k) * c.massBelow p true b h k
        * (1 - c.massBelow p true b h k) / (c.scale p b k + scaleFloor) * _
  unfold massVelocity belowVelocity distanceVelocity
  field_simp
  ring

/-- The derivative of a centre as one negated sum over both edges. -/
theorem dCentre_eq_sum (k : Nat) :
    c.dCentre p g b k
      = -∑ h ∈ range p.positions,
          (c.dEdge p g false b h k + c.dEdge p g true b h k) := by
  show (0 - sumTo _ _) + (0 - sumTo _ _) = _
  rw [sumTo_eq_sum, sumTo_eq_sum, sum_add_distrib]
  ring

/-- That of a scale, with the distances as factors. -/
theorem dScale_eq_sum (k : Nat) :
    c.dScale p g b k
      = -∑ h ∈ range p.positions,
          (c.dEdge p g false b h k * c.distance p false b h k
            + c.dEdge p g true b h k * c.distance p true b h k) := by
  show (0 - sumTo _ _) + (0 - sumTo _ _) = _
  rw [sumTo_eq_sum, sumTo_eq_sum, sum_add_distrib]
  ring

/-- The masses' part splits into the centres' and the scales'. -/
theorem mass_adjoint (k : Nat) :
    ∑ h ∈ range p.positions, c.dMass p g b h k * c.massVelocity v p b h k
      = c.dCentre p g b k * c.centreVelocity v p b k
        + c.dScale p g b k * c.scaleVelocity v p b k := by
  rw [dCentre_eq_sum, dScale_eq_sum, neg_mul, neg_mul, sum_mul, sum_mul,
    ← neg_add, ← sum_add_distrib, ← sum_neg_distrib]
  refine sum_congr rfl fun h _ => ?_
  rw [edge_adjoint]
  ring

-- ================================================================== logits

/-- The centres' part is the state's and the step logits'. -/
theorem centre_adjoint (k : Nat) :
    c.dCentre p g b k * c.centreVelocity v p b k
      = c.dCentre p g b k * v.state b k
        + c.dStepLogit p g b k * c.logitVelocity v p b k := by
  unfold centreVelocity stepVelocity dStepLogit
  ring

/-- The scales' part is the scale logits'. -/
theorem scale_adjoint (k : Nat) :
    c.dScale p g b k * c.scaleVelocity v p b k
      = c.dScaleLogit p g b k * c.logitVelocity v p b (p.mixtures + k) := by
  unfold scaleVelocity dScaleLogit
  ring

/-- The derivative of the packed row, by its three parts. -/
theorem sum_dLogit (x : Nat → ℝ) :
    ∑ j ∈ range (3 * p.mixtures), c.dLogit p g b j * x j
      = ∑ k ∈ range p.mixtures, c.dStepLogit p g b k * x k
        + ∑ k ∈ range p.mixtures,
            c.dScaleLogit p g b k * x (p.mixtures + k)
        + ∑ k ∈ range p.mixtures,
            c.dShareLogit p g b k * x (2 * p.mixtures + k) := by
  have hwidth : 3 * p.mixtures = p.mixtures + p.mixtures + p.mixtures := by
    omega
  have hstep : ∀ k, k < p.mixtures →
      c.dLogit p g b k = c.dStepLogit p g b k := fun k hk => if_pos hk
  have hscale : ∀ k, k < p.mixtures →
      c.dLogit p g b (p.mixtures + k) = c.dScaleLogit p g b k := by
    intro k hk
    rw [dLogit, if_neg (by omega), if_pos (by omega), Nat.add_sub_cancel_left]
  have hshare : ∀ k,
      c.dLogit p g b (2 * p.mixtures + k) = c.dShareLogit p g b k := by
    intro k
    rw [dLogit, if_neg (by omega), if_neg (by omega), Nat.add_sub_cancel_left]
  rw [hwidth, sum_range_add, sum_range_add, ← Nat.two_mul]
  refine congrArg₂ (· + ·) (congrArg₂ (· + ·) ?_ ?_) ?_
  · exact sum_congr rfl fun k hk => by rw [hstep k (mem_range.1 hk)]
  · exact sum_congr rfl fun k hk => by rw [hscale k (mem_range.1 hk)]
  · exact sum_congr rfl fun k _ => by rw [hshare k]

/-- From the scores to the state and the logits. -/
theorem mixture_adjoint :
    ∑ h ∈ range p.positions, c.dScore p g b h * c.scoreVelocity v p b h
      = ∑ k ∈ range p.mixtures, c.dCentre p g b k * v.state b k
        + ∑ j ∈ range (3 * p.mixtures),
            c.dLogit p g b j * c.logitVelocity v p b j := by
  rw [score_adjoint, share_adjoint, sum_dLogit]
  simp only [mass_adjoint, centre_adjoint, scale_adjoint, sum_add_distrib]
  ring

-- ============================================================== projections

/-- The logits' part splits into the hidden row's and the second weight's. -/
theorem logit_adjoint :
    ∑ j ∈ range (3 * p.mixtures),
        c.dLogit p g b j * c.logitVelocity v p b j
      = ∑ u ∈ range p.unit, c.dHidden p g b u * c.hiddenVelocity v p b u
        + ∑ u ∈ range p.unit, ∑ j ∈ range (3 * p.mixtures),
            c.hidden p b u * c.dLogit p g b j * v.packedWeight u j := by
  have hterm : ∀ j, c.dLogit p g b j * c.logitVelocity v p b j
      = ∑ u ∈ range p.unit,
          (c.dLogit p g b j * c.packedWeight u j * c.hiddenVelocity v p b u
            + c.hidden p b u * c.dLogit p g b j * v.packedWeight u j) := by
    intro j
    rw [logitVelocity, mul_sum]
    exact sum_congr rfl fun u _ => by ring
  simp only [hterm, dHidden_eq, sum_mul]
  rw [sum_comm, ← sum_add_distrib]
  exact sum_congr rfl fun u _ => sum_add_distrib

/-- The hidden row's part goes through the hyperbolic tangent. -/
theorem hidden_adjoint (u : Nat) :
    c.dHidden p g b u * c.hiddenVelocity v p b u
      = c.dHiddenSum p g b u * c.hiddenSumVelocity v p b u :=
  (mul_assoc _ _ _).symm

/-- What is left splits into the query's, the first weight's and the bias'. -/
theorem hiddenSum_adjoint :
    ∑ u ∈ range p.unit, c.dHiddenSum p g b u * c.hiddenSumVelocity v p b u
      = ∑ i ∈ range p.queryWidth,
            (∑ u ∈ range p.unit, c.dHiddenSum p g b u * c.hiddenWeight i u)
              * v.query b i
        + ∑ i ∈ range p.queryWidth, ∑ u ∈ range p.unit,
            c.query b i * c.dHiddenSum p g b u * v.hiddenWeight i u
        + ∑ u ∈ range p.unit, c.dHiddenSum p g b u * v.hiddenBias u := by
  have hterm : ∀ u, c.dHiddenSum p g b u * c.hiddenSumVelocity v p b u
      = ∑ i ∈ range p.queryWidth,
            (c.dHiddenSum p g b u * c.hiddenWeight i u * v.query b i
              + c.query b i * c.dHiddenSum p g b u * v.hiddenWeight i u)
          + c.dHiddenSum p g b u * v.hiddenBias u := by
    intro u
    rw [hiddenSumVelocity, mul_add, mul_sum]
    exact congrArg (· + _) (sum_congr rfl fun i _ => by ring)
  simp only [hterm, sum_mul]
  rw [sum_add_distrib, sum_comm, ← sum_add_distrib]
  exact congrArg (· + _) (sum_congr rfl fun i _ => sum_add_distrib)

-- ================================================================ all of it

/-- What one batch entry contributes. -/
theorem entry_adjoint :
    ∑ d ∈ range p.valueWidth, g b d * c.outputVelocity v p b d
      = ∑ i ∈ range p.queryWidth,
            (∑ u ∈ range p.unit, c.dHiddenSum p g b u * c.hiddenWeight i u)
              * v.query b i
        + ∑ h ∈ range p.positions, ∑ d ∈ range p.valueWidth,
            c.score p b h * g b d * v.value b h d
        + ∑ k ∈ range p.mixtures, c.dCentre p g b k * v.state b k
        + ∑ i ∈ range p.queryWidth, ∑ u ∈ range p.unit,
            c.query b i * c.dHiddenSum p g b u * v.hiddenWeight i u
        + ∑ u ∈ range p.unit, c.dHiddenSum p g b u * v.hiddenBias u
        + ∑ u ∈ range p.unit, ∑ j ∈ range (3 * p.mixtures),
            c.hidden p b u * c.dLogit p g b j * v.packedWeight u j := by
  rw [output_adjoint, mixture_adjoint, logit_adjoint]
  simp only [hidden_adjoint]
  rw [hiddenSum_adjoint]
  ring

/-- The weights are shared by the batch entries, so that their derivatives
are sums over the batch. -/
theorem sum_shared (n m : Nat) (r : Nat → Nat → Nat → ℝ)
    (x : Nat → Nat → ℝ) :
    ∑ b ∈ range p.batch, ∑ i ∈ range n, ∑ j ∈ range m, r b i j * x i j
      = ∑ i ∈ range n, ∑ j ∈ range m,
          (∑ b ∈ range p.batch, r b i j) * x i j := by
  rw [sum_comm]
  refine sum_congr rfl fun i _ => ?_
  rw [sum_comm]
  exact sum_congr rfl fun j _ => (sum_mul ..).symm

/-- The velocity of the output, paired with the derivative with respect to
it, is the direction in which everything moves, paired with the gradient. -/
theorem adjoint :
    ∑ b ∈ range p.batch, ∑ d ∈ range p.valueWidth,
        g b d * c.outputVelocity v p b d
      = pair p (c.gradient p g) v := by
  have hbias : ∑ b ∈ range p.batch, ∑ u ∈ range p.unit,
        c.dHiddenSum p g b u * v.hiddenBias u
      = ∑ u ∈ range p.unit,
          (∑ b ∈ range p.batch, c.dHiddenSum p g b u) * v.hiddenBias u := by
    rw [sum_comm]
    exact sum_congr rfl fun u _ => (sum_mul ..).symm
  unfold pair gradient
  -- entry by entry, and then what the batch shares is summed over it
  simp only [entry_adjoint, sum_add_distrib, sumTo_eq_sum, sum_range_one]
  rw [hbias, sum_shared, sum_shared]

end MixtureAttention.Given
