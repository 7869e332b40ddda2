/-
Translation. In exact numbers the attention knows distances only: raise
every element of the state by a whole number of positions, and the layer
scores the positions as before, that many positions further on.

The state enters the centres and nothing else, so everything up to the
packed row is computed without it. The edges of the positions are a unit
apart, so an edge keeps its distance from a centre when both move by the same
number of units (`distance_raised`), and what follows is computed from the
distances, position by position.
-/
import Mathlib.Tactic.Ring
import MixtureAttention.Proofs.Exact.Elements
import MixtureAttention.Proofs.Layer.BackwardPass

namespace MixtureAttention

open Tensor Workspace Procedure

-- ================================================================ formulas

namespace Given

variable {α : Type} [Field α] [Transcendental α]

/-- What is given, with every element of the state raised by `n`. -/
def raised (c : Given α) (n : Nat) : Given α :=
  { c with state := fun b k => c.state b k + n }

variable (c : Given α) (n : Nat) (p : SetupPlan)

theorem centre_raised (b k : Nat) :
    (c.raised n).centre p b k = c.centre p b k + n := by
  show c.state b k + n + c.step p b k = c.state b k + c.step p b k + n
  ring

/-- An edge keeps its distance from a centre when both move on. -/
theorem distance_raised (below : Bool) (b h k : Nat) :
    (c.raised n).distance p below b (h + n) k = c.distance p below b h k := by
  have hposition : ((h + n + 1 : Nat) : α) = ((h + 1 : Nat) : α) + n := by
    push_cast
    ring
  have hedge : ∀ half : α,
      ((h + n + 1 : Nat) : α) + half - (c.raised n).centre p b k
        = ((h + 1 : Nat) : α) + half - c.centre p b k := by
    intro half
    rw [centre_raised, hposition]
    ring
  unfold distance
  refine congrArg (· / (c.scale p b k + scaleFloor)) ?_
  cases below with
  | false => exact hedge 0.5
  | true =>
      have hlower := hedge (-0.5)
      rw [← sub_eq_add_neg, ← sub_eq_add_neg] at hlower
      exact hlower

theorem massBelow_raised (below : Bool) (b h k : Nat) :
    (c.raised n).massBelow p below b (h + n) k = c.massBelow p below b h k :=
  congrArg sigmoid (c.distance_raised n p below b h k)

theorem mass_raised (b h k : Nat) :
    (c.raised n).mass p b (h + n) k = c.mass p b h k := by
  unfold mass
  rw [massBelow_raised, massBelow_raised]

/-- The shares do not depend on the state. -/
theorem score_raised (b h : Nat) :
    (c.raised n).score p b (h + n) = c.score p b h := by
  refine sumTo_congr fun k _ => ?_
  rw [mass_raised]
  rfl

end Given

-- ================================================================ sessions

namespace Layer

section

variable {α : Type} [Scalar α] {c : Given α} {p : SetupPlan} {s : Slots}
  {st : Session α}

/-- A session in which a forward pass finds everything it needs: the layer
is set up on a wired workspace, which holds what is given. -/
structure Furnished (c : Given α) (p : SetupPlan) (s : Slots)
    (st : Session α) : Prop where
  slots : st.layer.slots = some s
  mixtures : st.layer.settings.mixtures = some p.mixtures
  wired : Wired p s st.workspace
  held : c.Held p s st.workspace

theorem Furnished.forward (h : Furnished c p s st) :
    ∃ st', Layer.forward st = .ok () st' ∧ Filled c p s st'.workspace := by
  have hrun := forward_succeeds h.slots h.mixtures h.wired h.held
  obtain ⟨i, j, rfl⟩ := h.wired.slots
  exact ⟨_, hrun, (forward_filled h.slots h.mixtures h.held hrun).1⟩

end

variable {α : Type} [Field α] [Transcendental α] {c : Given α}
  {p : SetupPlan} {s s' : Slots} {st st' : Session α}

/-- The buffers that hold a number for every position and component. -/
def positionBuffers : List (Slots → ScratchHandle) :=
  [Slots.mass, Slots.upper, Slots.lower, Slots.upperEdge, Slots.lowerEdge]

/-- The attention moves along with the state. Two sessions hold the same
queries, values and weights, and in the second every element of the state is
larger by `n`. A forward pass succeeds in both. The hidden layer and the
packed row come out the same, and what the second pass leaves at position
`h + n`, in the scores and in the buffers with a number for every position
and component, is what the first one leaves at position `h`. -/
theorem forward_translates (n : Nat) (hst : Furnished c p s st)
    (hst' : Furnished (c.raised n) p s' st') :
    ∃ st₁ st₂ : Session α,
      forward st = .ok () st₁ ∧ forward st' = .ok () st₂
      ∧ st₂.workspace.scratchValue s'.hiddenSum
        = st₁.workspace.scratchValue s.hiddenSum
      ∧ st₂.workspace.scratchValue s'.hidden
        = st₁.workspace.scratchValue s.hidden
      ∧ st₂.workspace.scratchValue s'.packed
        = st₁.workspace.scratchValue s.packed
      ∧ (∃ score score' : Nat → Nat → α,
          st₁.workspace.scratchValue s.scores
              = .ok (cube p.batch 1 p.positions fun b _ => score b)
            ∧ st₂.workspace.scratchValue s'.scores
              = .ok (cube p.batch 1 p.positions fun b _ => score' b)
            ∧ ∀ b < p.batch, ∀ h, h + n < p.positions →
                score' b (h + n) = score b h)
      ∧ ∀ buffer ∈ positionBuffers, ∃ f f' : Nat → Nat → Nat → α,
          st₁.workspace.scratchValue (buffer s)
              = .ok (cube p.batch p.positions p.mixtures f)
            ∧ st₂.workspace.scratchValue (buffer s')
              = .ok (cube p.batch p.positions p.mixtures f')
            ∧ ∀ b < p.batch, ∀ h, h + n < p.positions →
                ∀ k < p.mixtures, f' b (h + n) k = f b h k := by
  obtain ⟨st₁, hrun₁, hfilled₁⟩ := hst.forward
  obtain ⟨st₂, hrun₂, hfilled₂⟩ := hst'.forward
  refine ⟨st₁, st₂, hrun₁, hrun₂,
    hfilled₂.hiddenSum.trans hfilled₁.hiddenSum.symm,
    hfilled₂.hidden.trans hfilled₁.hidden.symm,
    hfilled₂.packed.trans hfilled₁.packed.symm,
    ⟨_, _, hfilled₁.scores, hfilled₂.scores, fun b _ h _ =>
      c.score_raised n p b h⟩, ?_⟩
  simp only [positionBuffers, List.forall_mem_cons]
  exact ⟨⟨_, _, hfilled₁.mass, hfilled₂.mass, fun b _ h _ k _ =>
      c.mass_raised n p b h k⟩,
    ⟨_, _, hfilled₁.upper, hfilled₂.upper, fun b _ h _ k _ =>
      c.massBelow_raised n p false b h k⟩,
    ⟨_, _, hfilled₁.lower, hfilled₂.lower, fun b _ h _ k _ =>
      c.massBelow_raised n p true b h k⟩,
    ⟨_, _, hfilled₁.upperEdge, hfilled₂.upperEdge, fun b _ h _ k _ =>
      c.distance_raised n p false b h k⟩,
    ⟨_, _, hfilled₁.lowerEdge, hfilled₂.lowerEdge, fun b _ h _ k _ =>
      c.distance_raised n p true b h k⟩, nofun⟩

/-- The theorem in rational numbers, for two batch entries, four positions
and two components: a state that is larger by two is scored two positions
further on. -/
theorem forward_translates_by_two :
    let p : SetupPlan := ⟨2, 3, 4, 1, 2, 2⟩
    let c : Given ℚ := {
      query := fun b i => b + i
      value := fun b h _ => b * h
      state := fun b k => b + k / 2
      hiddenWeight := fun i u => i - u
      hiddenBias := fun u => u
      packedWeight := fun u j => u * j }
    ∃ (st₁ st₂ : Session ℚ) (score score' : Nat → Nat → ℚ),
      forward (Session.stocked p c fun _ _ => 0) = .ok () st₁
        ∧ forward (Session.stocked p (c.raised 2) fun _ _ => 0) = .ok () st₂
        ∧ st₁.workspace.scratchValue (Slots.startingAt 0 0).scores
          = .ok (cube 2 1 4 fun b _ => score b)
        ∧ st₂.workspace.scratchValue (Slots.startingAt 0 0).scores
          = .ok (cube 2 1 4 fun b _ => score' b)
        ∧ score' 1 3 = score 1 1 := by
  intro p c
  have hst : ∀ c : Given ℚ, Furnished c p (.startingAt 0 0)
      (Session.stocked p c fun _ _ => 0) := by
    intro c
    have hsupplied := Session.stocked_supplied (p := p) (by decide)
      (by decide) c fun _ _ => 0
    exact ⟨hsupplied.slots, hsupplied.mixtures, hsupplied.wired,
      hsupplied.held⟩
  obtain ⟨st₁, st₂, hrun₁, hrun₂, -, -, -,
      ⟨score, score', hscores₁, hscores₂, hahead⟩, -⟩ :=
    forward_translates 2 (hst c) (hst (c.raised 2))
  exact ⟨st₁, st₂, score, score', hrun₁, hrun₂, hscores₁, hscores₂,
    hahead 1 (by decide) 1 (by decide)⟩

end Layer
end MixtureAttention
