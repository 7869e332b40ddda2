/-
The mixture in formulas, and the forward pass that computes it. `Given`
holds what a pass is given, each tensor as a function of its coordinates,
and the definitions below it are the layer on paper: one for each quantity,
by batch entry, position and component, with every sum added up left to
right from zero. The operations on elements stay uninterpreted, so this is
also what the layer computes in binary32, bit by bit.

`forwardValues_eq` says that the forward pass computes these formulas from
every workspace that holds what is given. To hold something asks for shapes
only (`exists_held_iff`), so no values are left out.
-/
import MixtureAttention.Layer.Forward
import MixtureAttention.Proofs.Tensor.Products
import MixtureAttention.Proofs.Tensor.Segments

namespace MixtureAttention

open Tensor

variable {α : Type}

/-- The activations on rows that are long enough for `k` components: steps,
scales and shares, and columns beyond them as they were. -/
theorem Mixture.of_rows [Scalar α] {b w k : Nat} (hk : 3 * k ≤ w)
    (f : Nat → Nat → α) :
    Mixture.of k (cube b 1 w fun x _ => f x)
      = .ok {
          step := cube b 1 k fun x _ j => Scalar.exp (f x j)
          scale := cube b 1 k fun x _ j => Scalar.exp (f x (k + j))
          share := cube b 1 k fun x _ =>
            softmaxAt k fun j => f x (2 * k + j)
          packed := cube b 1 w fun x _ j =>
            if j < k then Scalar.exp (f x j)
            else if j < 2 * k then Scalar.exp (f x (k + (j - k)))
            else if j < 3 * k then
              softmaxAt k (fun j => f x (2 * k + j)) (j - 2 * k)
            else f x j } := by
  unfold Mixture.of Segment.read Segment.write Segment.offset
  dsimp only
  rw [columns_cube (by omega), ok_bind, columns_cube (by omega), ok_bind,
    columns_cube (by omega), ok_bind, map_cube, map_cube,
    Activation.softmax_cube, setColumns_cube (by omega), ok_bind,
    setColumns_cube (by omega), ok_bind, setColumns_cube (by omega), ok_bind]
  simp only [Nat.zero_add]
  refine congrArg Except.ok (congrArg (Mixture.mk _ _ _) (cube_congr ?_))
  intro x _ j _ _ _
  by_cases hstep : j < k
  · rw [if_neg (by omega), if_neg (by omega), if_pos (by omega),
      if_pos hstep, Nat.sub_zero]
  · by_cases hscale : j < 2 * k
    · rw [if_neg (by omega), if_pos (by omega), if_neg hstep, if_pos hscale]
    · rw [if_neg hstep, if_neg hscale]
      by_cases hshare : j < 3 * k
      · rw [if_pos (by omega), if_pos hshare]
      · rw [if_neg (by omega), if_neg (by omega), if_neg (by omega),
          if_neg hshare]

/-- The inputs and the weights of a pass, by their coordinates. -/
structure Given (α : Type) where
  /-- By batch entry and column. -/
  query : Nat → Nat → α
  /-- By batch entry, position and column. -/
  value : Nat → Nat → Nat → α
  /-- By batch entry and component. -/
  state : Nat → Nat → α
  /-- By row and column, as the other weights. -/
  hiddenWeight : Nat → Nat → α
  hiddenBias : Nat → α
  packedWeight : Nat → Nat → α

namespace Given

-- ============================================================== formulas

section

variable [Scalar α] (c : Given α) (p : SetupPlan)

/-- The hidden projection before its activation. -/
def hiddenSum (b u : Nat) : α :=
  (sumTo p.queryWidth fun i => c.query b i * c.hiddenWeight i u)
    + c.hiddenBias u

def hidden (b u : Nat) : α := Scalar.tanh (c.hiddenSum p b u)

/-- The mixture parameters before their activations. -/
def logit (b j : Nat) : α :=
  sumTo p.unit fun u => c.hidden p b u * c.packedWeight u j

/-- How far a centre moves ahead. -/
def step (b k : Nat) : α := Scalar.exp (c.logit p b k)

/-- The scale of a component. -/
def scale (b k : Nat) : α := Scalar.exp (c.logit p b (p.mixtures + k))

/-- The shares of the components, by softmax. -/
def share (b : Nat) : Nat → α :=
  softmaxAt p.mixtures fun k => c.logit p b (2 * p.mixtures + k)

/-- The packed row: steps, then scales, then shares. -/
def packed (b j : Nat) : α :=
  if j < p.mixtures then c.step p b j
  else if j < 2 * p.mixtures then c.scale p b (j - p.mixtures)
  else c.share p b (j - 2 * p.mixtures)

/-- Where a component stands. -/
def centre (b k : Nat) : α := c.state b k + c.step p b k

/-- The distance of an edge of a position's interval from a centre, in
scales: of the lower edge for `below`, of the upper one otherwise. -/
def distance (below : Bool) (b h k : Nat) : α :=
  ((if below then ((h + 1 : Nat) : α) - 0.5 else ((h + 1 : Nat) : α) + 0.5)
      - c.centre p b k)
    / (c.scale p b k + scaleFloor)

/-- The distribution function of a component at an edge. -/
def massBelow (below : Bool) (b h k : Nat) : α :=
  sigmoid (c.distance p below b h k)

/-- The mass that a component puts on a position. -/
def mass (b h k : Nat) : α := c.massBelow p false b h k - c.massBelow p true b h k

/-- The score of a position. -/
def score (b h : Nat) : α :=
  sumTo p.mixtures fun k => c.mass p b h k * c.share p b k

/-- The values weighted by the scores. -/
def output (b d : Nat) : α :=
  sumTo p.positions fun h => c.score p b h * c.value b h d

end

-- ================================================================= tensors

variable (c : Given α) (p : SetupPlan) (s : Slots) (w : Workspace α)

/-- The workspace holds what is given, with the extents of the plan. -/
structure Held : Prop where
  query : w.input s.query
    = .ok (cube p.batch 1 p.queryWidth fun b _ i => c.query b i)
  value : w.input s.value
    = .ok (cube p.batch p.positions p.valueWidth c.value)
  state : w.input s.state
    = .ok (cube p.batch 1 p.mixtures fun b _ k => c.state b k)
  hiddenWeight : w.weight s.hiddenWeight
    = .ok (cube 1 p.queryWidth p.unit fun _ => c.hiddenWeight)
  hiddenBias : w.weight s.hiddenBias
    = .ok (cube 1 1 p.unit fun _ _ => c.hiddenBias)
  packedWeight : w.weight s.packedWeight
    = .ok (cube 1 p.unit (3 * p.mixtures) fun _ => c.packedWeight)

/-- A tensor of this shape is there. -/
def HasShape (r : Except LayerError (Tensor α)) (shape : Shape) : Prop :=
  ∃ t, r = .ok t ∧ t.shape = shape

section

variable [Zero α] {r : Except LayerError (Tensor α)} {b l k : Nat}

/-- A buffer of four such axes is a cube of its entries. -/
theorem HasShape.exists_cube (h : HasShape r [b, 1, l, k]) :
    ∃ f, r = .ok (cube b l k f) := by
  obtain ⟨t, rfl, ht⟩ := h
  exact ⟨t.elem, congrArg Except.ok (eq_cube ht)⟩

/-- With one position it is a row for each batch entry. -/
theorem HasShape.exists_row (h : HasShape r [b, 1, 1, k]) :
    ∃ f : Nat → Nat → α, r = .ok (cube b 1 k fun x _ => f x) := by
  obtain ⟨f, rfl⟩ := h.exists_cube
  refine ⟨fun x => f x 0, congrArg Except.ok (cube_congr ?_)⟩
  intro x y z _ hy _
  rw [Nat.lt_one_iff.1 hy]

/-- With one batch entry it is a matrix. -/
theorem HasShape.exists_matrix (h : HasShape r [1, 1, l, k]) :
    ∃ f : Nat → Nat → α, r = .ok (cube 1 l k fun _ => f) := by
  obtain ⟨f, rfl⟩ := h.exists_cube
  refine ⟨f 0, congrArg Except.ok (cube_congr ?_)⟩
  intro x y z hx _ _
  rw [Nat.lt_one_iff.1 hx]

/-- To hold something is to have six tensors of the right shapes: whatever
their elements are, they are what is given. -/
theorem exists_held_iff :
    (∃ c : Given α, c.Held p s w)
      ↔ HasShape (w.input s.query) [p.batch, 1, 1, p.queryWidth]
        ∧ HasShape (w.input s.value) [p.batch, 1, p.positions, p.valueWidth]
        ∧ HasShape (w.input s.state) [p.batch, 1, 1, p.mixtures]
        ∧ HasShape (w.weight s.hiddenWeight) [1, 1, p.queryWidth, p.unit]
        ∧ HasShape (w.weight s.hiddenBias) [1, 1, 1, p.unit]
        ∧ HasShape (w.weight s.packedWeight)
            [1, 1, p.unit, 3 * p.mixtures] := by
  constructor
  · rintro ⟨c, h⟩
    exact ⟨⟨_, h.query, rfl⟩, ⟨_, h.value, rfl⟩, ⟨_, h.state, rfl⟩,
      ⟨_, h.hiddenWeight, rfl⟩, ⟨_, h.hiddenBias, rfl⟩,
      ⟨_, h.packedWeight, rfl⟩⟩
  · rintro ⟨hquery, hvalue, hstate, hhidden, hbias, hpacked⟩
    obtain ⟨query, hquery⟩ := hquery.exists_row
    obtain ⟨value, hvalue⟩ := hvalue.exists_cube
    obtain ⟨state, hstate⟩ := hstate.exists_row
    obtain ⟨hiddenWeight, hhidden⟩ := hhidden.exists_matrix
    obtain ⟨bias, hbias⟩ := hbias.exists_matrix
    obtain ⟨packedWeight, hpacked⟩ := hpacked.exists_matrix
    -- a bias has one row, so its row coordinate is always zero
    have hbias' : w.weight s.hiddenBias
        = .ok (cube 1 1 p.unit fun _ _ => bias 0) := by
      refine hbias.trans (congrArg Except.ok (cube_congr ?_))
      intro x y z _ hy _
      rw [Nat.lt_one_iff.1 hy]
    exact ⟨⟨query, value, state, hiddenWeight, bias 0, packedWeight⟩,
      hquery, hvalue, hstate, hhidden, hbias', hpacked⟩

end

variable [Scalar α]

/-- What a forward pass stores, as cubes of the formulas. -/
def values : ForwardValues α where
  hiddenSum := cube p.batch 1 p.unit fun b _ => c.hiddenSum p b
  hidden := cube p.batch 1 p.unit fun b _ => c.hidden p b
  packed := cube p.batch 1 (3 * p.mixtures) fun b _ => c.packed p b
  scores := cube p.batch 1 p.positions fun b _ => c.score p b
  mass := cube p.batch p.positions p.mixtures (c.mass p)
  upper := cube p.batch p.positions p.mixtures (c.massBelow p false)
  lower := cube p.batch p.positions p.mixtures (c.massBelow p true)
  lowerEdge := cube p.batch p.positions p.mixtures (c.distance p true)
  upperEdge := cube p.batch p.positions p.mixtures (c.distance p false)
  output := cube p.batch 1 p.valueWidth fun b _ => c.output p b

/-- The parts of the packed row when it is cut for `k` components, whatever
number it was made for; the steps are the same for every `k`. -/
def scaleCut (k b j : Nat) : α := Scalar.exp (c.logit p b (k + j))

def shareCut (k b : Nat) : Nat → α :=
  softmaxAt k fun j => c.logit p b (2 * k + j)

/-- The packed row with the first `3 * k` columns activated. -/
def packedCut (k b j : Nat) : α :=
  if j < k then c.step p b j
  else if j < 2 * k then c.scaleCut p k b (j - k)
  else if j < 3 * k then c.shareCut p k b (j - 2 * k)
  else c.logit p b j

/-- The packed row with its activations applied, and its three parts, when
it is cut for `k` components and is long enough. -/
theorem mixture_cut {k : Nat} (hk : k ≤ p.mixtures) :
    Mixture.of k (cube p.batch 1 (3 * p.mixtures) fun b _ => c.logit p b)
      = .ok {
          step := cube p.batch 1 k fun b _ => c.step p b
          scale := cube p.batch 1 k fun b _ => c.scaleCut p k b
          share := cube p.batch 1 k fun b _ => c.shareCut p k b
          packed := cube p.batch 1 (3 * p.mixtures) fun b _ =>
            c.packedCut p k b } :=
  Mixture.of_rows (by omega) fun b => c.logit p b

/-- Cut for the components that it was made for, the row has no logit
left. -/
theorem mixture_eq :
    Mixture.of p.mixtures
        (cube p.batch 1 (3 * p.mixtures) fun b _ => c.logit p b)
      = .ok {
          step := cube p.batch 1 p.mixtures fun b _ => c.step p b
          scale := cube p.batch 1 p.mixtures fun b _ => c.scale p b
          share := cube p.batch 1 p.mixtures fun b _ => c.share p b
          packed := cube p.batch 1 (3 * p.mixtures) fun b _ => c.packed p b
        } := by
  rw [mixture_cut c p (Nat.le_refl _)]
  refine congrArg Except.ok (congrArg (Mixture.mk _ _ _) (cube_congr ?_))
  intro b _ j _ _ hj
  unfold packedCut
  rw [if_pos hj]
  rfl

/-- The distances of the edges of one kind. -/
theorem edgeDistance_eq (below : Bool) :
    edgeDistance (edges below p.positions p.mixtures)
        (cube p.batch 1 p.mixtures fun b _ => c.centre p b)
        (divisors (cube p.batch 1 p.mixtures fun b _ => c.scale p b))
      = .ok (cube p.batch p.positions p.mixtures (c.distance p below)) := by
  rw [edgeDistance, edges, rowGrid_cube, sub, combine_cross, ok_bind,
    divisors, map_cube, div, combine_row]
  rfl

section

variable {c p}

/-- The bias is added to each row. -/
theorem hiddenSum_eq :
    (cube p.batch 1 p.unit fun b _ u =>
        sumTo p.queryWidth fun i => c.query b i * c.hiddenWeight i u).add
        (cube 1 1 p.unit fun _ _ => c.hiddenBias)
      = .ok (cube p.batch 1 p.unit fun b _ => c.hiddenSum p b) :=
  combine_shared _

/-- The hidden row is its hyperbolic tangent. -/
theorem hidden_eq :
    Activation.tanh.apply (cube p.batch 1 p.unit fun b _ => c.hiddenSum p b)
      = cube p.batch 1 p.unit fun b _ => c.hidden p b :=
  Activation.tanh_cube

/-- The logits are its product with the second weight. -/
theorem logit_eq :
    (cube p.batch 1 p.unit fun b _ => c.hidden p b).matmul
        (cube 1 p.unit (3 * p.mixtures) fun _ => c.packedWeight)
      = .ok (cube p.batch 1 (3 * p.mixtures) fun b _ => c.logit p b) :=
  matmul_shared

/-- The centres are the state moved by the steps. -/
theorem centre_eq :
    (cube p.batch 1 p.mixtures fun b _ k => c.state b k).add
        (cube p.batch 1 p.mixtures fun b _ => c.step p b)
      = .ok (cube p.batch 1 p.mixtures fun b _ => c.centre p b) :=
  combine_same _

/-- The mass below an edge is the logistic function of its distance. -/
theorem massBelow_eq (below : Bool) :
    Activation.sigmoid.apply
        (cube p.batch p.positions p.mixtures (c.distance p below))
      = cube p.batch p.positions p.mixtures (c.massBelow p below) :=
  Activation.sigmoid_cube

/-- The mass of a position is what lies between its edges. -/
theorem mass_eq :
    (cube p.batch p.positions p.mixtures (c.massBelow p false)).sub
        (cube p.batch p.positions p.mixtures (c.massBelow p true))
      = .ok (cube p.batch p.positions p.mixtures (c.mass p)) :=
  combine_same _

/-- The scores are sums over the components, laid out as a row. -/
theorem score_eq :
    ∃ weighted summed,
      (cube p.batch p.positions p.mixtures (c.mass p)).mul
          (cube p.batch 1 p.mixtures fun b _ => c.share p b) = .ok weighted
        ∧ weighted.sumAxes [3] = .ok summed
        ∧ summed.reshape [p.batch, 1, 1, p.positions]
          = .ok (cube p.batch 1 p.positions fun b _ => c.score p b) :=
  ⟨_, _, combine_row _, (sumAxes_single ..).trans sumColumns_cube,
    reshape_row⟩

/-- The output averages the values by the scores. -/
theorem output_eq :
    (cube p.batch 1 p.positions fun b _ => c.score p b).matmul
        (cube p.batch p.positions p.valueWidth c.value)
      = .ok (cube p.batch 1 p.valueWidth fun b _ => c.output p b) :=
  matmul_batch

end

/-- A forward pass with `k` components, from the logits on. -/
def fromLogits (k : Nat) : Except LayerError (ForwardValues α) := do
  let mix ← Mixture.of k
    (cube p.batch 1 (3 * p.mixtures) fun b _ => c.logit p b)
  let centres ← (cube p.batch 1 p.mixtures fun b _ k => c.state b k).add
    mix.step
  let divisor := divisors mix.scale
  let upperEdge ← edgeDistance (edges false p.positions k) centres divisor
  let upper := Activation.sigmoid.apply upperEdge
  let lowerEdge ← edgeDistance (edges true p.positions k) centres divisor
  let lower := Activation.sigmoid.apply lowerEdge
  let mass ← upper.sub lower
  let weighted ← mass.mul mix.share
  let summed ← weighted.sumAxes [3]
  let scores ← summed.reshape [p.batch, 1, 1, p.positions]
  let output ← scores.matmul (cube p.batch p.positions p.valueWidth c.value)
  return {
    hiddenSum := cube p.batch 1 p.unit fun b _ => c.hiddenSum p b
    hidden := cube p.batch 1 p.unit fun b _ => c.hidden p b
    packed := mix.packed, scores, mass, upper, lower, lowerEdge, upperEdge
    output }

/-- Up to the logits the number of components does not matter. -/
theorem forwardValues_fromLogits (hheld : c.Held p s w) (k : Nat) :
    forwardValues s k w = c.fromLogits p k := by
  have hbatch : (cube p.batch 1 p.queryWidth fun b _ i =>
      c.query b i).extent 0 = p.batch := rfl
  have hpositions : (cube p.batch p.positions p.valueWidth c.value).extent 2
      = p.positions := rfl
  have hvalue : checkBatch p.batch
      (cube p.batch p.positions p.valueWidth c.value).shape = .ok () :=
    if_pos rfl
  have hstate : checkBatch p.batch
      (cube p.batch 1 p.mixtures fun b _ k => c.state b k).shape = .ok () :=
    if_pos rfl
  unfold forwardValues fromLogits
  rw [hheld.query, ok_bind, hheld.value, ok_bind, hheld.state, ok_bind]
  dsimp only
  rw [hbatch, hpositions, hvalue, ok_bind, hstate, ok_bind,
    hheld.hiddenWeight, ok_bind, matmul_shared, lift_ok, ok_bind,
    hheld.hiddenBias, ok_bind, hiddenSum_eq, lift_ok, ok_bind,
    hheld.packedWeight, ok_bind, hidden_eq, logit_eq, lift_ok, ok_bind]

/-- The forward pass computes the formulas. -/
theorem forwardValues_eq (hheld : c.Held p s w) :
    forwardValues s p.mixtures w = .ok (c.values p) := by
  obtain ⟨weighted, summed, hweighted, hsummed, hscore⟩ :=
    score_eq (c := c) (p := p)
  rw [forwardValues_fromLogits c p s w hheld]
  unfold fromLogits
  rw [mixture_eq, lift_ok, ok_bind]
  dsimp only
  rw [centre_eq, lift_ok, ok_bind, edgeDistance_eq, lift_ok, ok_bind,
    edgeDistance_eq, lift_ok, ok_bind, massBelow_eq, massBelow_eq, mass_eq, lift_ok,
    ok_bind, hweighted, lift_ok, ok_bind, hsummed, lift_ok, ok_bind, hscore,
    lift_ok, ok_bind, output_eq, lift_ok, ok_bind]
  rfl

end Given
end MixtureAttention
