/-
How the output moves with what is given. A pass is given a path of inputs
and weights, each element moving with a velocity, and each quantity of the
forward pass moves with it: the definitions below are the velocities, in
the order of the forward pass, and the lemmas say that they are the
derivatives along the path.
-/
import MixtureAttention.Proofs.Real.Elements
import MixtureAttention.Proofs.Layer.Formula

namespace MixtureAttention.Given

open Finset

-- ============================================================= velocities

section

variable (c v : Given ℝ) (p : SetupPlan)

noncomputable def hiddenSumVelocity (b u : Nat) : ℝ :=
  ∑ i ∈ range p.queryWidth,
      (v.query b i * c.hiddenWeight i u + c.query b i * v.hiddenWeight i u)
    + v.hiddenBias u

noncomputable def hiddenVelocity (b u : Nat) : ℝ :=
  (1 - c.hidden p b u * c.hidden p b u) * c.hiddenSumVelocity v p b u

noncomputable def logitVelocity (b j : Nat) : ℝ :=
  ∑ u ∈ range p.unit,
    (c.hiddenVelocity v p b u * c.packedWeight u j
      + c.hidden p b u * v.packedWeight u j)

noncomputable def stepVelocity (b k : Nat) : ℝ :=
  c.step p b k * c.logitVelocity v p b k

noncomputable def scaleVelocity (b k : Nat) : ℝ :=
  c.scale p b k * c.logitVelocity v p b (p.mixtures + k)

/-- A share grows as far as its logit grows faster than the logits do on
average. -/
noncomputable def shareVelocity (b k : Nat) : ℝ :=
  c.share p b k
    * (c.logitVelocity v p b (2 * p.mixtures + k)
      - ∑ i ∈ range p.mixtures,
          c.share p b i * c.logitVelocity v p b (2 * p.mixtures + i))

noncomputable def centreVelocity (b k : Nat) : ℝ :=
  v.state b k + c.stepVelocity v p b k

/-- A distance shrinks as its centre moves up and as its scale grows. -/
noncomputable def distanceVelocity (below : Bool) (b h k : Nat) : ℝ :=
  -(c.centreVelocity v p b k
      + c.distance p below b h k * c.scaleVelocity v p b k)
    / (c.scale p b k + scaleFloor)

noncomputable def belowVelocity (below : Bool) (b h k : Nat) : ℝ :=
  c.massBelow p below b h k * (1 - c.massBelow p below b h k)
    * c.distanceVelocity v p below b h k

noncomputable def massVelocity (b h k : Nat) : ℝ :=
  c.belowVelocity v p false b h k - c.belowVelocity v p true b h k

noncomputable def scoreVelocity (b h : Nat) : ℝ :=
  ∑ k ∈ range p.mixtures,
    (c.massVelocity v p b h k * c.share p b k
      + c.mass p b h k * c.shareVelocity v p b k)

noncomputable def outputVelocity (b d : Nat) : ℝ :=
  ∑ h ∈ range p.positions,
    (c.scoreVelocity v p b h * c.value b h d
      + c.score p b h * v.value b h d)

end

/-- The divisor is positive even before the floor is added. -/
theorem divisor_pos (c : Given ℝ) (p : SetupPlan) (b k : Nat) :
    0 < c.scale p b k + scaleFloor :=
  add_pos (Real.exp_pos _) scaleFloor_pos

/-- An edge of a position's interval. -/
noncomputable def edge (below : Bool) (h : Nat) : ℝ :=
  if below then ((h + 1 : Nat) : ℝ) - 0.5 else ((h + 1 : Nat) : ℝ) + 0.5

-- ============================================================= derivatives

/-- Everything that is given moves along a path with these velocities. -/
structure Moves (c : ℝ → Given ℝ) (v : Given ℝ) (t : ℝ) : Prop where
  query : ∀ b i, HasDerivAt (fun x => (c x).query b i) (v.query b i) t
  value : ∀ b h d, HasDerivAt (fun x => (c x).value b h d) (v.value b h d) t
  state : ∀ b k, HasDerivAt (fun x => (c x).state b k) (v.state b k) t
  hiddenWeight : ∀ i u,
    HasDerivAt (fun x => (c x).hiddenWeight i u) (v.hiddenWeight i u) t
  hiddenBias : ∀ u,
    HasDerivAt (fun x => (c x).hiddenBias u) (v.hiddenBias u) t
  packedWeight : ∀ u j,
    HasDerivAt (fun x => (c x).packedWeight u j) (v.packedWeight u j) t

variable {c : ℝ → Given ℝ} {v : Given ℝ} {t : ℝ} (p : SetupPlan)

namespace Moves

variable (hc : Moves c v t)

include hc

/-- The hidden sum moves with query, first weight and bias. -/
theorem hiddenSum (b u : Nat) :
    HasDerivAt (fun x => (c x).hiddenSum p b u)
      ((c t).hiddenSumVelocity v p b u) t := by
  have hterm : ∀ i, i < p.queryWidth → HasDerivAt
      (fun x => (c x).query b i * (c x).hiddenWeight i u)
      (v.query b i * (c t).hiddenWeight i u
        + (c t).query b i * v.hiddenWeight i u) t :=
    fun i _ => (hc.query b i).fun_mul (hc.hiddenWeight i u)
  exact (hasDerivAt_sumTo hterm).fun_add (hc.hiddenBias u)

/-- The hidden row moves with it through the hyperbolic tangent. -/
theorem hidden (b u : Nat) :
    HasDerivAt (fun x => (c x).hidden p b u)
      ((c t).hiddenVelocity v p b u) t :=
  hasDerivAt_tanh (hc.hiddenSum p b u)

/-- The logits move with the hidden row and the second weight. -/
theorem logit (b j : Nat) :
    HasDerivAt (fun x => (c x).logit p b j)
      ((c t).logitVelocity v p b j) t :=
  hasDerivAt_sumTo fun u _ =>
    (hc.hidden p b u).fun_mul (hc.packedWeight u j)

/-- The steps move with their logits. -/
theorem step (b k : Nat) :
    HasDerivAt (fun x => (c x).step p b k)
      ((c t).stepVelocity v p b k) t :=
  hasDerivAt_exp (hc.logit p b k)

/-- The scales move with theirs. -/
theorem scale (b k : Nat) :
    HasDerivAt (fun x => (c x).scale p b k)
      ((c t).scaleVelocity v p b k) t :=
  hasDerivAt_exp (hc.logit p b (p.mixtures + k))

/-- The shares move with all logits of their row. -/
theorem share (b : Nat) {k : Nat} (hk : k < p.mixtures) :
    HasDerivAt (fun x => (c x).share p b k)
      ((c t).shareVelocity v p b k) t :=
  hasDerivAt_softmaxAt (fun i => hc.logit p b (2 * p.mixtures + i)) hk

/-- The centres move with the state and the steps. -/
theorem centre (b k : Nat) :
    HasDerivAt (fun x => (c x).centre p b k)
      ((c t).centreVelocity v p b k) t :=
  (hc.state b k).fun_add (hc.step p b k)

/-- The distances move with centres and scales. -/
theorem distance (below : Bool) (b h k : Nat) :
    HasDerivAt (fun x => (c x).distance p below b h k)
      ((c t).distanceVelocity v p below b h k) t := by
  have hdivisor := divisor_pos (c t) p b k
  have hquot := ((hc.centre p b k).const_sub (edge below h)).fun_div
    ((hc.scale p b k).add_const scaleFloor) hdivisor.ne'
  refine hquot.congr_deriv ?_
  show _ = -((c t).centreVelocity v p b k
    + (edge below h - (c t).centre p b k)
        / ((c t).scale p b k + scaleFloor) * (c t).scaleVelocity v p b k)
    / ((c t).scale p b k + scaleFloor)
  generalize (c t).scale p b k + scaleFloor = δ at hdivisor
  have hne := hdivisor.ne'
  field_simp
  ring

/-- What is below an edge moves with its distance. -/
theorem massBelow (below : Bool) (b h k : Nat) :
    HasDerivAt (fun x => (c x).massBelow p below b h k)
      ((c t).belowVelocity v p below b h k) t :=
  hasDerivAt_sigmoid (hc.distance p below b h k)

/-- The masses move with both edges. -/
theorem mass (b h k : Nat) :
    HasDerivAt (fun x => (c x).mass p b h k)
      ((c t).massVelocity v p b h k) t :=
  (hc.massBelow p false b h k).fun_sub (hc.massBelow p true b h k)

/-- The scores move with shares and masses. -/
theorem score (b h : Nat) :
    HasDerivAt (fun x => (c x).score p b h)
      ((c t).scoreVelocity v p b h) t :=
  hasDerivAt_sumTo fun k hk => (hc.mass p b h k).fun_mul (hc.share p b hk)

/-- The output moves with the scores and the values. -/
theorem output (b d : Nat) :
    HasDerivAt (fun x => (c x).output p b d)
      ((c t).outputVelocity v p b d) t :=
  hasDerivAt_sumTo fun h _ => (hc.score p b h).fun_mul (hc.value b h d)

end Moves

end MixtureAttention.Given
