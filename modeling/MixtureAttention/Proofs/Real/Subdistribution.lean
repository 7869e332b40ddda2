/-
What a forward pass spreads over the positions, in exact numbers, is a part
of a distribution. The upper edge of a position is the lower edge of the
next one, so the masses of a component telescope (`sum_mass`): what is left
of them is the difference of the logistic distribution function at the two
outer edges, which is below one. The scores mix these masses by shares that
add up to one.
-/
import Mathlib.Algebra.BigOperators.Intervals
import MixtureAttention.Proofs.Real.Mixture
import MixtureAttention.Proofs.Layer.ForwardPass

namespace MixtureAttention

open Finset Tensor

namespace Given

variable (c : Given ℝ) (p : SetupPlan) (b : Nat)

-- ========================================================= the components

/-- Steps are exponentials. -/
theorem step_pos (k : Nat) : 0 < c.step p b k := Real.exp_pos _

/-- Scales are exponentials. -/
theorem scale_pos (k : Nat) : 0 < c.scale p b k := Real.exp_pos _

/-- The shares of a row sum to 1. -/
theorem sum_share (hk : 0 < p.mixtures) :
    ∑ k ∈ range p.mixtures, c.share p b k = 1 := sum_softmaxAt hk _

/-- The distribution function of a component. -/
noncomputable def distribution (k : Nat) (x : ℝ) : ℝ :=
  Real.sigmoid ((x - c.centre p b k) / (c.scale p b k + scaleFloor))

/-- The mass below a position's lower edge is its mixture's distribution
function there. -/
theorem lower_eq (h k : Nat) :
    c.massBelow p true b h k = c.distribution p b k (h + 1 / 2) := by
  have hedge : ((h + 1 : Nat) : ℝ) - 0.5 = h + 1 / 2 := by
    push_cast
    norm_num
    ring
  unfold massBelow distance distribution
  rw [sigmoid_eq, if_pos rfl]
  exact congrArg (fun x => Real.sigmoid ((x - _) / _)) hedge

/-- Its upper edge is the lower edge of the next, so that the masses telescope.
-/
theorem upper_eq (h k : Nat) :
    c.massBelow p false b h k
      = c.distribution p b k ((h + 1 : Nat) + 1 / 2) := by
  have hedge : ((h + 1 : Nat) : ℝ) + 0.5 = (h + 1 : Nat) + 1 / 2 := by
    norm_num
  unfold massBelow distance distribution
  rw [sigmoid_eq, if_neg Bool.false_ne_true]
  exact congrArg (fun x => Real.sigmoid ((x - _) / _)) hedge

/-- The upper edge has more below it. -/
theorem lower_lt_upper (h k : Nat) :
    c.massBelow p true b h k < c.massBelow p false b h k :=
  sub_pos.1 (mass_pos (c := c) (p := p) (b := b) (h := h) (k := k))

/-- A logistic distribution gives every edge something below it. -/
theorem lower_pos (h k : Nat) : 0 < c.massBelow p true b h k := by
  rw [lower_eq]
  exact Real.sigmoid_pos _

/-- A logistic distribution leaves something above every edge. -/
theorem upper_lt_one (h k : Nat) : c.massBelow p false b h k < 1 := by
  rw [upper_eq]
  exact Real.sigmoid_lt_one _

/-- So no position has all of the mass. -/
theorem mass_lt_one (h k : Nat) : c.mass p b h k < 1 := by
  have hlower := c.lower_pos p b h k
  have hupper := c.upper_lt_one p b h k
  unfold mass
  linarith

-- ========================================================== all positions

/-- The masses of a component telescope: what leaves a position enters the
next one. -/
theorem sum_mass (n k : Nat) :
    ∑ h ∈ range n, c.mass p b h k
      = c.distribution p b k (n + 1 / 2) - c.distribution p b k (1 / 2) := by
  have hstep : ∀ h : Nat, c.mass p b h k
      = c.distribution p b k ((h + 1 : Nat) + 1 / 2)
        - c.distribution p b k (h + 1 / 2) := by
    intro h
    rw [mass, upper_eq, lower_eq]
  calc
    _ = ∑ h ∈ range n, (c.distribution p b k ((h + 1 : Nat) + 1 / 2)
          - c.distribution p b k (h + 1 / 2)) :=
        sum_congr rfl fun h _ => hstep h
    _ = c.distribution p b k (n + 1 / 2)
          - c.distribution p b k ((0 : Nat) + 1 / 2) :=
        sum_range_sub (fun h : Nat => c.distribution p b k (h + 1 / 2)) n
    _ = _ := by rw [Nat.cast_zero, zero_add]

/-- Any number of positions together have less than all of the mass. -/
theorem sum_mass_lt_one (n k : Nat) :
    ∑ h ∈ range n, c.mass p b h k < 1 := by
  have hupper : c.distribution p b k (n + 1 / 2) < 1 := Real.sigmoid_lt_one _
  have hlower : 0 < c.distribution p b k (1 / 2) := Real.sigmoid_pos _
  rw [sum_mass]
  linarith

-- ================================================================= scores

/-- A mixture of numbers below one, by the shares, is below one. -/
theorem mixed_lt_one (hk : 0 < p.mixtures) {x : Nat → ℝ}
    (hx : ∀ k, x k < 1) :
    ∑ k ∈ range p.mixtures, x k * c.share p b k < 1 := by
  calc
    _ < ∑ k ∈ range p.mixtures, c.share p b k := by
        apply sum_lt_sum_of_nonempty ⟨0, mem_range.2 hk⟩
        intro k _
        exact mul_lt_of_lt_one_left (share_pos hk) (hx k)
    _ = 1 := c.sum_share p b hk

/-- A score averages masses, so it stays below 1. -/
theorem score_lt_one (hk : 0 < p.mixtures) (h : Nat) :
    c.score p b h < 1 := by
  unfold score
  rw [sumTo_eq_sum]
  exact c.mixed_lt_one p b hk fun k => c.mass_lt_one p b h k

/-- The scores of any number of positions sum to less than 1. -/
theorem sum_score_lt_one (hk : 0 < p.mixtures) (n : Nat) :
    ∑ h ∈ range n, c.score p b h < 1 := by
  have hexchange : ∑ h ∈ range n, c.score p b h
      = ∑ k ∈ range p.mixtures,
          (∑ h ∈ range n, c.mass p b h k) * c.share p b k := by
    unfold score
    simp only [sumTo_eq_sum, sum_mul]
    exact sum_comm
  rw [hexchange]
  exact c.mixed_lt_one p b hk fun k => c.sum_mass_lt_one p b n k

end Given

namespace Layer

variable {st st' : Session ℝ} {i j : Nat} {p : SetupPlan} {c : Given ℝ}

/-- The parts of the packed row after a forward pass. -/
theorem packedSegments_of_filled
    (hslots : st.layer.slots = some (.startingAt i j))
    (hmixtures : st.layer.settings.mixtures = some p.mixtures)
    (hfilled : Filled c p (.startingAt i j) st.workspace) :
    st.layer.packedSegment st.workspace .step
        = .ok (cube p.batch 1 p.mixtures fun b _ => c.step p b)
      ∧ st.layer.packedSegment st.workspace .scale
        = .ok (cube p.batch 1 p.mixtures fun b _ => c.scale p b)
      ∧ st.layer.packedSegment st.workspace .share
        = .ok (cube p.batch 1 p.mixtures fun b _ => c.share p b) := by
  have hread := packedSegment_eq hslots hmixtures hfilled.packed
  rw [hread, hread, hread, Given.read_step, Given.read_scale,
    Given.read_share]
  exact ⟨rfl, rfl, rfl⟩

/-- After a successful forward pass, in exact numbers: steps, scales and
shares are above zero and the shares of a batch entry add up to one; the
distribution function of a component rises from one edge of a position to
the other, strictly between zero and one; the masses of a component over all
positions are what the distribution function gains between the two outer
edges; and the scores are above zero and add up to less than one. -/
theorem forward_spreads_subdistribution
    (hslots : st.layer.slots = some (.startingAt i j))
    (hmixtures : st.layer.settings.mixtures = some p.mixtures)
    (hheld : c.Held p (.startingAt i j) st.workspace)
    (hk : 0 < p.mixtures) (hrun : forward st = .ok () st') :
    ∃ (step scale share scores : Nat → Nat → ℝ)
      (upper lower mass : Nat → Nat → Nat → ℝ),
      st'.layer.packedSegment st'.workspace .step
          = .ok (cube p.batch 1 p.mixtures fun b _ => step b)
      ∧ st'.layer.packedSegment st'.workspace .scale
          = .ok (cube p.batch 1 p.mixtures fun b _ => scale b)
      ∧ st'.layer.packedSegment st'.workspace .share
          = .ok (cube p.batch 1 p.mixtures fun b _ => share b)
      ∧ st'.workspace.scratchValue (Slots.startingAt i j).upper
          = .ok (cube p.batch p.positions p.mixtures upper)
      ∧ st'.workspace.scratchValue (Slots.startingAt i j).lower
          = .ok (cube p.batch p.positions p.mixtures lower)
      ∧ st'.workspace.scratchValue (Slots.startingAt i j).mass
          = .ok (cube p.batch p.positions p.mixtures mass)
      ∧ st'.workspace.scratchValue (Slots.startingAt i j).scores
          = .ok (cube p.batch 1 p.positions fun b _ => scores b)
      ∧ ∀ b < p.batch,
          (∀ k < p.mixtures, 0 < step b k ∧ 0 < scale b k ∧ 0 < share b k)
          ∧ ∑ k ∈ range p.mixtures, share b k = 1
          ∧ (∀ h < p.positions, ∀ k < p.mixtures,
              0 < lower b h k ∧ lower b h k < upper b h k ∧ upper b h k < 1
              ∧ 0 < mass b h k ∧ mass b h k < 1)
          ∧ (∀ k < p.mixtures,
              let centre := c.state b k + step b k
              ∑ h ∈ range p.positions, mass b h k
                = sigmoid ((p.positions + 0.5 - centre) / (scale b k + 1e-8))
                  - sigmoid ((0.5 - centre) / (scale b k + 1e-8)))
          ∧ (∀ h < p.positions, 0 < scores b h ∧ scores b h < 1)
          ∧ 0 ≤ ∑ h ∈ range p.positions, scores b h
          ∧ ∑ h ∈ range p.positions, scores b h < 1 := by
  obtain ⟨hfilled, hlayer⟩ := forward_filled hslots hmixtures hheld hrun
  have hslots' : st'.layer.slots = some (.startingAt i j) := by
    rw [hlayer]
    exact hslots
  have hmixtures' : st'.layer.settings.mixtures = some p.mixtures := by
    rw [hlayer]
    exact hmixtures
  obtain ⟨hstep, hscale, hshare⟩ :=
    packedSegments_of_filled hslots' hmixtures' hfilled
  refine ⟨_, _, _, c.score p, c.massBelow p false, c.massBelow p true, c.mass p,
    hstep, hscale, hshare, hfilled.upper, hfilled.lower, hfilled.mass,
    hfilled.scores, ?_⟩
  intro b _
  refine ⟨?_, c.sum_share p b hk, ?_, ?_, ?_, ?_, c.sum_score_lt_one p b hk _⟩
  · intro k _
    exact ⟨c.step_pos p b k, c.scale_pos p b k, Given.share_pos hk⟩
  · intro h _ k _
    exact ⟨c.lower_pos p b h k, c.lower_lt_upper p b h k,
      c.upper_lt_one p b h k, Given.mass_pos, c.mass_lt_one p b h k⟩
  · intro k _ centre
    have hhalf : (1 / 2 : ℝ) = 0.5 := by norm_num
    rw [c.sum_mass p b, sigmoid_eq, sigmoid_eq, hhalf]
    rfl
  · intro h _
    exact ⟨Given.score_pos hk, c.score_lt_one p b hk h⟩
  · exact sum_nonneg fun h _ => (Given.score_pos hk).le

/-- The theorem at a batch of two entries, three positions and two
components. -/
theorem forward_spreads_subdistribution_small :
    let p : SetupPlan := ⟨2, 3, 3, 1, 2, 2⟩
    let c : Given ℝ := {
      query := fun b i => b + i + 1
      value := fun b h _ => b + h + 1
      state := fun b k => b + k + 1
      hiddenWeight := fun i u => i + u + 1
      hiddenBias := fun u => u + 1
      packedWeight := fun u j => (u + 1) * (j + 1) }
    ∃ (st' : Session ℝ) (scores : Nat → Nat → ℝ),
      forward (Session.stocked p c fun _ _ => 1) = .ok () st'
      ∧ st'.workspace.scratchValue (Slots.startingAt 0 0).scores
          = .ok (cube 2 1 3 fun b _ => scores b)
      ∧ ∀ b < 2, (∀ h < 3, 0 < scores b h)
          ∧ ∑ h ∈ range 3, scores b h < 1 := by
  intro p c
  let st := Session.stocked p c fun _ _ => 1
  have hslots : st.layer.slots = some (.startingAt 0 0) := rfl
  have hheld : c.Held p (.startingAt 0 0) st.workspace :=
    Session.stocked_held p (by decide) (by decide) c _
  have hrun := forward_succeeds hslots rfl
    (Session.stocked_wired p (by decide) (by decide) c _) hheld
  obtain ⟨_, _, _, scores, _, _, _, -, -, -, -, -, -, hscores, hbounds⟩ :=
    forward_spreads_subdistribution hslots rfl hheld (by decide) hrun
  refine ⟨_, scores, hrun, hscores, fun b hb => ?_⟩
  obtain ⟨-, -, -, -, hscore, -, hsum⟩ := hbounds b hb
  exact ⟨fun h hh => (hscore h hh).1, hsum⟩

end Layer
end MixtureAttention
