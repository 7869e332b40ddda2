/-
The gradient of the layer. Its loss is the output, paired with the
derivative with respect to the output that the workspace holds. A forward
pass and the two gradient procedures leave the gradient of that loss in the
six gradient buffers: its derivative in any direction is the direction
paired with them, and its derivative in one element is the element that
they hold (`gradients_are_derivatives`).

The inputs and the weights vary by being given to the session again
(`Session.give`), so that the loss is what the forward pass itself computes
and not a formula for it.
-/
import MixtureAttention.Proofs.Real.Adjoint
import MixtureAttention.Proofs.Layer.BackwardPass

namespace MixtureAttention

open Finset Tensor Workspace

-- ============================================================== elements

/-- The place of one element of what is given. -/
inductive Coordinate
  | query (b i : Nat)
  | value (b h d : Nat)
  | state (b k : Nat)
  | hiddenWeight (i u : Nat)
  | hiddenBias (u : Nat)
  | packedWeight (u j : Nat)
deriving DecidableEq, Repr

namespace Coordinate

/-- Whether the place is within the extents of a plan. -/
def Within (p : SetupPlan) : Coordinate → Prop
  | query b i => b < p.batch ∧ i < p.queryWidth
  | value b h d => b < p.batch ∧ h < p.positions ∧ d < p.valueWidth
  | state b k => b < p.batch ∧ k < p.mixtures
  | hiddenWeight i u => i < p.queryWidth ∧ u < p.unit
  | hiddenBias u => u < p.unit
  | packedWeight u j => u < p.unit ∧ j < 3 * p.mixtures

/-- The element at a place. -/
def read {α : Type} (c : Given α) : Coordinate → α
  | query b i => c.query b i
  | value b h d => c.value b h d
  | state b k => c.state b k
  | hiddenWeight i u => c.hiddenWeight i u
  | hiddenBias u => c.hiddenBias u
  | packedWeight u j => c.packedWeight u j

/-- The direction in which one element alone moves. -/
def direction (e : Coordinate) : Given ℝ where
  query b i := if e = query b i then 1 else 0
  value b h d := if e = value b h d then 1 else 0
  state b k := if e = state b k then 1 else 0
  hiddenWeight i u := if e = hiddenWeight i u then 1 else 0
  hiddenBias u := if e = hiddenBias u then 1 else 0
  packedWeight u j := if e = packedWeight u j then 1 else 0

/-- A pairing with one element's direction reads the element. -/
theorem pair_direction {p : SetupPlan} {e : Coordinate} (h : e.Within p)
    (r : Given ℝ) : Given.pair p r e.direction = e.read r := by
  cases e with
  | query b i =>
      obtain ⟨hb, hi⟩ := h
      simp [Given.pair, direction, read, ite_and, hb, hi]
  | value b h' d =>
      obtain ⟨hb, hh, hd⟩ := h
      simp [Given.pair, direction, read, ite_and, hb, hh, hd]
  | state b k =>
      obtain ⟨hb, hk⟩ := h
      simp [Given.pair, direction, read, ite_and, hb, hk]
  | hiddenWeight i u =>
      obtain ⟨hi, hu⟩ := h
      simp [Given.pair, direction, read, ite_and, hi, hu]
  | hiddenBias u =>
      have hu : u < p.unit := h
      simp [Given.pair, direction, read, hu]
  | packedWeight u j =>
      obtain ⟨hu, hj⟩ := h
      simp [Given.pair, direction, read, ite_and, hu, hj]

end Coordinate

-- ================================================================= paths

namespace Given

/-- What is given, moved some way in a direction. -/
noncomputable def along (c v : Given ℝ) (x : ℝ) : Given ℝ where
  query b i := c.query b i + x * v.query b i
  value b h d := c.value b h d + x * v.value b h d
  state b k := c.state b k + x * v.state b k
  hiddenWeight i u := c.hiddenWeight i u + x * v.hiddenWeight i u
  hiddenBias u := c.hiddenBias u + x * v.hiddenBias u
  packedWeight u j := c.packedWeight u j + x * v.packedWeight u j

theorem along_zero (c v : Given ℝ) : c.along v 0 = c := by
  simp [along]

theorem moves_along (c v : Given ℝ) (t : ℝ) : Moves (c.along v) v t := by
  have hline : ∀ a y : ℝ, HasDerivAt (fun x => a + x * y) y t :=
    fun a y => (hasDerivAt_mul_const y).const_add a
  exact ⟨fun _ _ => hline _ _, fun _ _ _ => hline _ _, fun _ _ => hline _ _,
    fun _ _ => hline _ _, fun _ => hline _ _, fun _ _ => hline _ _⟩

end Given

-- ============================================================== the loss

namespace Session

/-- The session with other inputs and weights. -/
def give {α : Type} (p : SetupPlan) (s : Slots) (c : Given α)
    (st : Session α) : Session α :=
  { st with workspace := st.workspace.give p s c }

/-- The output of a forward pass, paired with the derivative with respect
to the output that is stored. -/
noncomputable def loss (st : Session ℝ) : ℝ :=
  match Layer.forward st with
  | .ok _ st' =>
      match st'.workspace.output 0, st.workspace.incomingAt 0 with
      | .ok out, .ok dout =>
          ∑ b ∈ range (out.extent 0), ∑ d ∈ range (out.extent 3),
            out.elem b 0 d * dout.elem b 0 d
      | _, _ => 0
  | .error _ _ => 0

variable {p : SetupPlan} {s : Slots} {st : Session ℝ} {g : Nat → Nat → ℝ}

/-- The forward pass succeeds whatever is given, so the loss is never the
one of a refused pass. -/
theorem loss_give (hs : st.layer.slots = some s)
    (hk : st.layer.settings.mixtures = some p.mixtures)
    (hwired : Wired p s st.workspace)
    (hdout : st.workspace.incomingAt 0
      = .ok (cube p.batch 1 p.valueWidth fun b _ => g b)) (c : Given ℝ) :
    (st.give p s c).loss
      = ∑ b ∈ range p.batch, ∑ d ∈ range p.valueWidth,
          c.output p b d * g b d := by
  have hwired' : Wired p s (st.give p s c).workspace := hwired.give c
  have hrun : Layer.forward (st.give p s c) = _ :=
    Layer.forward_succeeds hs hk hwired' (hwired.held_give c)
  have hout := ForwardValues.output_put s (c.values p) hwired'.outputs
  have hdout' : (st.give p s c).workspace.incomingAt 0 = _ := hdout
  unfold loss
  rw [hrun]
  dsimp only [withWorkspace]
  rw [hout, hdout']
  show ∑ b ∈ range p.batch, ∑ d ∈ range p.valueWidth,
    (cube p.batch 1 p.valueWidth fun b _ => c.output p b).elem b 0 d
      * (cube p.batch 1 p.valueWidth fun b _ => g b).elem b 0 d = _
  refine sum_congr rfl fun b hb => sum_congr rfl fun d hd => ?_
  rw [elem_cube (mem_range.1 hb) Nat.zero_lt_one (mem_range.1 hd),
    elem_cube (mem_range.1 hb) Nat.zero_lt_one (mem_range.1 hd)]

/-- The derivative of the loss in a direction. -/
theorem hasDerivAt_loss (hs : st.layer.slots = some s)
    (hk : st.layer.settings.mixtures = some p.mixtures)
    (hwired : Wired p s st.workspace)
    (hdout : st.workspace.incomingAt 0
      = .ok (cube p.batch 1 p.valueWidth fun b _ => g b)) (c v : Given ℝ) :
    HasDerivAt (fun x => (st.give p s (c.along v x)).loss)
      (Given.pair p (c.gradient p g) v) 0 := by
  simp only [loss_give hs hk hwired hdout]
  -- each output moves by its velocity, which the adjoint turns around
  have hterm : ∀ b d, HasDerivAt
      (fun x => (c.along v x).output p b d * g b d)
      (g b d * c.outputVelocity v p b d) 0 := by
    intro b d
    have hout := (c.moves_along v 0).output p b d
    rw [c.along_zero v] at hout
    exact (hout.mul_const (g b d)).congr_deriv (mul_comm _ _)
  rw [← c.adjoint v p g]
  exact HasDerivAt.fun_sum fun b _ => HasDerivAt.fun_sum fun d _ => hterm b d

end Session

-- ========================================================== the gradient

namespace Layer

/-- In exact arithmetic the backward pass is the gradient of the forward
pass. After a forward pass and both gradient procedures the gradient buffers
hold derivatives `r`: in every direction the loss changes by what the
direction and `r` pair to, and in every element by what `r` holds there. -/
theorem gradients_are_derivatives {st : Session ℝ} {p : SetupPlan}
    {s : Slots} {c : Given ℝ} {g : Nat → Nat → ℝ}
    (hslots : st.layer.slots = some s)
    (hmixtures : st.layer.settings.mixtures = some p.mixtures)
    (hwired : Wired p s st.workspace) (hheld : c.Held p s st.workspace)
    (hincoming : st.workspace.incomingAt 0
      = .ok (cube p.batch 1 p.valueWidth fun b _ => g b)) :
    ∃ st₁ st₂ st₃ r, forward st = .ok () st₁
      ∧ weightGradients .release st₁ = .ok () st₂
      ∧ inputGradients .release st₂ = .ok () st₃
      ∧ r.Stored p s st₃.workspace
      ∧ (∀ v, st.give p s (c.along v 0) = st
        ∧ HasDerivAt (fun x => (st.give p s (c.along v x)).loss)
            (Given.pair p r v) 0)
      ∧ ∀ e : Coordinate, e.Within p →
          HasDerivAt (fun x => (st.give p s (c.along e.direction x)).loss)
            (e.read r) 0 := by
  obtain ⟨st₁, st₂, st₃, hforward, hweights, hinputs, hstored⟩ :=
    gradients_stored hslots hmixtures hwired hheld hincoming
  have hderiv := Session.hasDerivAt_loss hslots hmixtures hwired hincoming c
  refine ⟨st₁, st₂, st₃, c.gradient p g, hforward, hweights, hinputs,
    hstored, fun v => ⟨?_, hderiv v⟩, fun e he => ?_⟩
  · unfold Session.give
    rw [c.along_zero v, hheld.give]
  · rw [← Coordinate.pair_direction he]
    exact hderiv e.direction

/-- The theorem at a batch of two entries, three positions and two
components: what the query gradient holds last is the derivative in the last
element of the query. -/
theorem gradients_are_derivatives_small :
    let p : SetupPlan := ⟨2, 3, 3, 1, 2, 2⟩
    let c : Given ℝ := {
      query := fun b i => b - i
      value := fun b h _ => 1 + b * h
      state := fun b k => b + k
      hiddenWeight := fun i u => i + u
      hiddenBias := fun u => u
      packedWeight := fun u j => u - j }
    let blank : Session ℝ := .blank p
    let incoming : List (Tensor ℝ) := [cube 2 1 1 fun b _ _ => 1 + b]
    let st := Session.give p (.startingAt 0 0) c
      { blank with workspace := { blank.workspace with incoming } }
    ∃ st₁ st₂ st₃ r, forward st = .ok () st₁
      ∧ weightGradients .release st₁ = .ok () st₂
      ∧ inputGradients .release st₂ = .ok () st₃
      ∧ Given.Stored r p (.startingAt 0 0) st₃.workspace
      ∧ HasDerivAt (fun x => (st.give p (.startingAt 0 0)
          (c.along (Coordinate.query 1 2).direction x)).loss)
        (r.query 1 2) 0 := by
  intro p c blank incoming st
  have hblank : Wired p (.startingAt 0 0) blank.workspace :=
    Session.blank_wired p (by decide) (by decide)
  have hwired : Wired p (.startingAt 0 0)
      { blank.workspace with incoming } :=
    ⟨hblank.slots, hblank.weights, hblank.scratch, hblank.packedGrad,
      hblank.outputDims, hblank.outputs, hblank.inputs, hblank.outgoing⟩
  have hslots : st.layer.slots = some (.startingAt 0 0) := rfl
  have hincoming : st.workspace.incomingAt 0
      = .ok (cube p.batch 1 p.valueWidth fun b _ _ => 1 + b) := rfl
  obtain ⟨st₁, st₂, st₃, r, hforward, hweights, hinputs, hstored, -,
      hpartial⟩ :=
    gradients_are_derivatives hslots rfl (hwired.give c) (hwired.held_give c)
      hincoming
  exact ⟨st₁, st₂, st₃, r, hforward, hweights, hinputs, hstored,
    hpartial (.query 1 2) ⟨by decide, by decide⟩⟩

end Layer
end MixtureAttention
