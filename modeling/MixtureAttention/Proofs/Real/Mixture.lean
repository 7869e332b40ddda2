/-
The mixture in exact numbers. Every component puts some mass on every
position, however far away, and every share is above zero, so every position
is scored. How a score moves with a centre is decided at the edges of the
position, by the slopes of the logistic function there.
-/
import MixtureAttention.Proofs.Real.Adjoint

namespace MixtureAttention.Given

open Finset

variable {c : Given ℝ} {p : SetupPlan} {g : Nat → Nat → ℝ} {b h k : Nat}

-- ================================================================== signs

theorem share_pos (hk : 0 < p.mixtures) : 0 < c.share p b k :=
  softmaxAt_pos hk _ k

/-- A component puts some mass on every position. -/
theorem mass_pos : 0 < c.mass p b h k := by
  have hedges : c.distance p true b h k < c.distance p false b h k := by
    unfold distance
    rw [if_pos rfl, if_neg Bool.false_ne_true]
    refine div_lt_div_of_pos_right ?_ (divisor_pos c p b k)
    linarith
  unfold mass massBelow
  rw [sigmoid_eq, sigmoid_eq]
  exact sub_pos.2 (Real.sigmoid_lt hedges)

/-- Every position is scored. -/
theorem score_pos (hk : 0 < p.mixtures) : 0 < c.score p b h := by
  unfold score
  rw [sumTo_eq_sum]
  exact sum_pos (fun _ _ => mul_pos mass_pos (share_pos hk))
    ⟨0, mem_range.2 hk⟩

-- ============================================================ derivatives

/-- Without weights of the packed projection its logits are zero. -/
theorem logit_eq_zero (hnone : ∀ u j, c.packedWeight u j = 0) (j : Nat) :
    c.logit p b j = 0 := by
  unfold logit
  rw [sumTo_eq_sum]
  exact sum_eq_zero fun u _ => by rw [hnone, mul_zero]

/-- The derivative with respect to a centre compares the slopes of the
logistic function at the two edges of each position. -/
theorem dCentre_eq_slopes :
    c.dCentre p g b k = ∑ h ∈ range p.positions,
      c.dMass p g b h k / (c.scale p b k + scaleFloor)
        * (c.massBelow p true b h k * (1 - c.massBelow p true b h k)
          - c.massBelow p false b h k * (1 - c.massBelow p false b h k)) := by
  rw [dCentre_eq_sum, ← sum_neg_distrib]
  refine sum_congr rfl fun h _ => ?_
  unfold dEdge dDistance
  rw [if_pos rfl, if_neg Bool.false_ne_true]
  ring

/-- The slope is largest where the logistic function is one half. -/
theorem slope_lt {x : ℝ} (hx : x ≠ 1 / 2) : x * (1 - x) < 1 / 4 := by
  have hsq : 0 < (x - 1 / 2) ^ 2 := by
    have hne : x - 1 / 2 ≠ 0 := sub_ne_zero.2 hx
    positivity
  linarith [show (x - 1 / 2) ^ 2 = 1 / 4 - x * (1 - x) by ring]

end MixtureAttention.Given
