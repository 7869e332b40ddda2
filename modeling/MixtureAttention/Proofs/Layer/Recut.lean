/-
A forward pass that cuts the packed rows for another number of components
than the buffers were made for. The rows have three columns for each of the
`p.mixtures` components; cut for `k` of them, the parts lie elsewhere. What
happens is decided by the shapes. With `k` above the number the last part
ends beyond the row, and with `k` below it but above one the centres cannot
be computed from the state: both are refused. With `k` equal to one the
single step, scale and share are stretched over all components of the state,
no shape disagrees anywhere, and the pass succeeds with other scores.
-/
import MixtureAttention.Proofs.Real.Mixture
import MixtureAttention.Proofs.Layer.ForwardPass

namespace MixtureAttention

open Tensor Workspace Finset

variable {α : Type}

namespace Tensor

variable {b l k w : Nat} {f g : Nat → Nat → Nat → α}

/-- A segment that ends beyond the last column is refused. -/
theorem columns_beyond {offset len : Nat} (h : w < offset + len) :
    (cube b l w f).columns offset len
      = .error (.indexOutOfBounds [offset, offset + len] [b, 1, l, w]) := by
  have hcheck : checkSegment [b, 1, l, w] offset len
      = .error (.indexOutOfBounds [offset, offset + len] [b, 1, l, w]) :=
    if_pos h
  rw [columns, shape_cube, hcheck]
  rfl

/-- Two extents that differ join only if one of them is 1. -/
theorem joinAxis_apart {a b : Nat} (hne : a ≠ b) (ha : a ≠ 1) (hb : b ≠ 1) :
    Shape.joinAxis a b = none := by
  rw [Shape.joinAxis, if_neg hne, if_neg ha, if_neg hb]

/-- Rows whose lengths differ, neither of them one, are not combined. -/
theorem combine_apart [Zero α] (op : α → α → α) {k' : Nat} (hne : k ≠ k')
    (hk : k ≠ 1) (hk' : k' ≠ 1) :
    (cube b l k f).combine op (cube b l k' g)
      = .error (.incompatible [b, 1, l, k] [b, 1, l, k']) := by
  have hjoin : Flat.joinShapes [b, 1, l, k] [b, 1, l, k']
      = .error (.broadcastMismatch [b, 1, l, k] [b, 1, l, k']) := by
    simp [Flat.joinShapes, Shape.join, joinAxis_apart hne hk hk']
  rw [combine, Flat.combine, shape_cube, shape_cube, hjoin]
  rfl

/-- A cube and one column for each row. -/
theorem combine_column [Zero α] (op : α → α → α) :
    (cube b l k f).combine op (cube b l 1 g)
      = .ok (cube b l k fun x y z => op (f x y z) (g x y 0)) := by
  rw [combine_cube op (joinAxis_self b) (joinAxis_self l)
    (joinAxis_one_right k)]
  refine congrArg _ (cube_congr fun x y z hx hy hz => ?_)
  rw [pick_of_lt hx, pick_of_lt hy, pick_of_lt hz, pick_one]

/-- A cube and one element for each batch entry. -/
theorem combine_single [Zero α] (op : α → α → α) :
    (cube b l k f).combine op (cube b 1 1 g)
      = .ok (cube b l k fun x y z => op (f x y z) (g x 0 0)) := by
  rw [combine_cube op (joinAxis_self b) (joinAxis_one_right l)
    (joinAxis_one_right k)]
  refine congrArg _ (cube_congr fun x y z hx hy hz => ?_)
  rw [pick_of_lt hx, pick_of_lt hy, pick_of_lt hz, pick_one, pick_one]

/-- One column for the whole batch, and one row for each batch entry. -/
theorem combine_outer [Zero α] (op : α → α → α) :
    (cube 1 l 1 f).combine op (cube b 1 k g)
      = .ok (cube b l k fun x y z => op (f 0 y 0) (g x 0 z)) := by
  rw [combine_cube op (joinAxis_one_left b) (joinAxis_one_right l)
    (joinAxis_one_left k)]
  refine congrArg _ (cube_congr fun x y z hx hy hz => ?_)
  rw [pick_of_lt hx, pick_of_lt hy, pick_of_lt hz, pick_one, pick_one,
    pick_one]

end Tensor

namespace Given

variable [Scalar α] (c : Given α) (p : SetupPlan)

-- ============================================================== formulas

/-- What one component for all makes of the mixture: the distances of the
edges from the centres, the distribution functions there, the masses and the
scores. Every centre moves by the same step, and the masses are divided by
the same scale and weighted by the same share. -/
def mergedDistance (below : Bool) (b h j : Nat) : α :=
  ((if below then ((h + 1 : Nat) : α) - 0.5 else ((h + 1 : Nat) : α) + 0.5)
      - (c.state b j + c.step p b 0))
    / (c.scaleCut p 1 b 0 + scaleFloor)

def mergedBelow (below : Bool) (b h j : Nat) : α :=
  sigmoid (c.mergedDistance p below b h j)

def mergedMass (b h j : Nat) : α :=
  c.mergedBelow p false b h j - c.mergedBelow p true b h j

def mergedScore (b h : Nat) : α :=
  sumTo p.mixtures fun j => c.mergedMass p b h j * c.shareCut p 1 b 0

/-- What a forward pass with one component for all stores. -/
def mergedValues : ForwardValues α where
  hiddenSum := cube p.batch 1 p.unit fun b _ => c.hiddenSum p b
  hidden := cube p.batch 1 p.unit fun b _ => c.hidden p b
  packed := cube p.batch 1 (3 * p.mixtures) fun b _ => c.packedCut p 1 b
  scores := cube p.batch 1 p.positions fun b _ => c.mergedScore p b
  mass := cube p.batch p.positions p.mixtures (c.mergedMass p)
  upper := cube p.batch p.positions p.mixtures (c.mergedBelow p false)
  lower := cube p.batch p.positions p.mixtures (c.mergedBelow p true)
  lowerEdge := cube p.batch p.positions p.mixtures (c.mergedDistance p true)
  upperEdge := cube p.batch p.positions p.mixtures (c.mergedDistance p false)
  output := cube p.batch 1 p.valueWidth fun b _ d =>
    sumTo p.positions fun h => c.mergedScore p b h * c.value b h d

-- ============================================================ the parts

/-- Cut for more components, the last part ends beyond the row. -/
theorem mixture_beyond {k : Nat} (hk : p.mixtures < k) :
    ∃ e, Mixture.of k
      (cube p.batch 1 (3 * p.mixtures) fun b _ => c.logit p b) = .error e := by
  unfold Mixture.of Segment.read Segment.offset
  dsimp only
  by_cases hstep : 3 * p.mixtures < 0 + k
  · rw [columns_beyond hstep]
    exact ⟨_, rfl⟩
  rw [columns_cube (by omega), ok_bind]
  by_cases hscale : 3 * p.mixtures < k + k
  · rw [columns_beyond hscale]
    exact ⟨_, rfl⟩
  rw [columns_cube (by omega), ok_bind, columns_beyond (by omega)]
  exact ⟨_, rfl⟩

-- ========================================================== the pass

variable {c p}

/-- The distances if all mixtures are given the first scale. -/
theorem mergedDistance_eq (below : Bool) :
    edgeDistance (edges below p.positions 1)
        (cube p.batch 1 p.mixtures fun b _ j => c.state b j + c.step p b 0)
        (divisors (cube p.batch 1 1 fun b _ => c.scaleCut p 1 b))
      = .ok (cube p.batch p.positions p.mixtures
          (c.mergedDistance p below)) := by
  rw [edgeDistance, edges, rowGrid_cube, sub, combine_outer, ok_bind,
    divisors, map_cube, div, combine_single]
  rfl

/-- The scores if they are all given one share. -/
theorem mergedScore_eq :
    ∃ weighted summed,
      (cube p.batch p.positions p.mixtures (c.mergedMass p)).mul
          (cube p.batch 1 1 fun b _ => c.shareCut p 1 b) = .ok weighted
        ∧ weighted.sumAxes [3] = .ok summed
        ∧ summed.reshape [p.batch, 1, 1, p.positions]
          = .ok (cube p.batch 1 p.positions fun b _ => c.mergedScore p b) :=
  ⟨_, _, combine_single _, (sumAxes_single ..).trans sumColumns_cube,
    reshape_row⟩

/-- Cut for one component the row serves all of them. -/
theorem fromLogits_one (hk : 0 < p.mixtures) :
    c.fromLogits p 1 = .ok (c.mergedValues p) := by
  have hcentre : (cube p.batch 1 p.mixtures fun b _ k => c.state b k).add
      (cube p.batch 1 1 fun b _ => c.step p b)
      = .ok (cube p.batch 1 p.mixtures fun b _ j =>
          c.state b j + c.step p b 0) := combine_column _
  have hbelow : ∀ below, Activation.sigmoid.apply
      (cube p.batch p.positions p.mixtures (c.mergedDistance p below))
      = cube p.batch p.positions p.mixtures (c.mergedBelow p below) :=
    fun _ => Activation.sigmoid_cube
  have hmass : (cube p.batch p.positions p.mixtures
        (c.mergedBelow p false)).sub
      (cube p.batch p.positions p.mixtures (c.mergedBelow p true))
      = .ok (cube p.batch p.positions p.mixtures (c.mergedMass p)) :=
    combine_same _
  obtain ⟨weighted, summed, hweighted, hsummed, hscore⟩ :=
    mergedScore_eq (c := c) (p := p)
  unfold fromLogits
  rw [mixture_cut c p hk, lift_ok, ok_bind]
  dsimp only
  rw [hcentre, lift_ok, ok_bind, mergedDistance_eq, lift_ok, ok_bind,
    mergedDistance_eq, lift_ok, ok_bind, hbelow, hbelow, hmass, lift_ok,
    ok_bind, hweighted, lift_ok, ok_bind, hsummed, lift_ok, ok_bind, hscore,
    lift_ok, ok_bind, matmul_batch, lift_ok, ok_bind]
  rfl

/-- Cut for any other number but its own the row is refused. -/
theorem fromLogits_refused {k : Nat} (hpos : 0 < k) (hk : k ≠ p.mixtures)
    (hone : k ≠ 1) : ∃ e, c.fromLogits p k = .error (.tensor e) := by
  unfold fromLogits
  rcases Nat.lt_or_gt_of_ne hk with hlt | hgt
  · rw [mixture_cut c p (Nat.le_of_lt hlt), lift_ok, ok_bind]
    dsimp only
    rw [add, combine_apart _ hk.symm (by omega) hone]
    exact ⟨_, rfl⟩
  · obtain ⟨e, he⟩ := c.mixture_beyond p hgt
    rw [he]
    exact ⟨e, rfl⟩

end Given

namespace Layer

variable [Scalar α] {c : Given α} {p : SetupPlan} {s : Slots}
  {st : Session α} {k : Nat}

/-- What a forward pass does when the number of components is not the one
that the buffers were made for. With one component it succeeds and stores
other values; with any other number it is refused, and nothing but the memo
is lost. -/
theorem forward_recut (hs : st.layer.slots = some s)
    (hk : st.layer.settings.mixtures = some k) (hpos : 0 < k)
    (hne : k ≠ p.mixtures) (hplan : 0 < p.mixtures)
    (hwired : Wired p s st.workspace) (hheld : c.Held p s st.workspace) :
    (k = 1 ∧ forward st = .ok () ((st.withMemo .forwarded).withWorkspace
        ((c.mergedValues p).put s st.workspace)))
      ∨ (k ≠ 1 ∧ ∃ e, forward st = .error (.tensor e)
          (st.withMemo .stale)) := by
  have hvalues := c.forwardValues_fromLogits p s st.workspace hheld k
  by_cases hone : k = 1
  · rw [hone, Given.fromLogits_one hplan] at hvalues
    obtain ⟨hfits, houtput⟩ :=
      hwired.fits (v := c.mergedValues p) rfl rfl
    exact .inl ⟨hone, (forward_ok_iff hs hk).2
      ⟨_, hone ▸ hvalues, hfits, houtput, rfl⟩⟩
  · obtain ⟨e, he⟩ := Given.fromLogits_refused (c := c) hpos hne hone
    refine .inr ⟨hone, e, ?_⟩
    rw [forward_eq hs hk, hvalues, he]

end Layer

-- ======================================================== in exact numbers

namespace Given

variable (c : Given ℝ) (p : SetupPlan)

/-- One component for all has the whole share, so the merged scores are sums
of masses and no longer means. -/
theorem mergedScore_eq_sum (b h : Nat) :
    c.mergedScore p b h = ∑ j ∈ range p.mixtures, c.mergedMass p b h j := by
  have hshare : c.shareCut p 1 b 0 = 1 := by
    unfold shareCut
    rw [softmaxAt_eq, sum_range_one, div_self (Real.exp_ne_zero _)]
  unfold mergedScore
  rw [sumTo_eq_sum, hshare]
  simp only [mul_one]

/-- With zero weights every logit is 0. -/
theorem blank_logit (b j : Nat) : (blank : Given ℝ).logit p b j = 0 :=
  logit_eq_zero (fun _ _ => rfl) j

/-- Where nothing is given every component puts the same mass on a
position. -/
theorem blank_mergedMass (b h j : Nat) :
    (blank : Given ℝ).mergedMass p b h j = (blank : Given ℝ).mass p b h 0 := by
  have hdistance : ∀ below, (blank : Given ℝ).mergedDistance p below b h j
      = (blank : Given ℝ).distance p below b h 0 := by
    intro below
    unfold mergedDistance distance centre scaleCut scale step
    simp only [blank_logit]
    rfl
  unfold mergedMass mergedBelow mass massBelow
  rw [hdistance, hdistance]

/-- So all mixtures have the same mass. -/
theorem blank_mass (b h k : Nat) :
    (blank : Given ℝ).mass p b h k = (blank : Given ℝ).mass p b h 0 := by
  have hdistance : ∀ below, (blank : Given ℝ).distance p below b h k
      = (blank : Given ℝ).distance p below b h 0 := by
    intro below
    unfold distance centre scale step
    simp only [blank_logit]
    rfl
  unfold mass massBelow
  rw [hdistance, hdistance]

/-- There the score is the mass of one component, since the shares add up
to one. -/
theorem blank_score (hk : 0 < p.mixtures) (b h : Nat) :
    (blank : Given ℝ).score p b h = (blank : Given ℝ).mass p b h 0 := by
  have hshare : ∀ k, (blank : Given ℝ).share p b k = 1 / p.mixtures := by
    intro k
    unfold share
    rw [softmaxAt_eq]
    simp only [blank_logit, Real.exp_zero, sum_const, card_range,
      nsmul_eq_mul, mul_one]
  have hcount : (p.mixtures : ℝ) ≠ 0 := Nat.cast_ne_zero.2 hk.ne'
  unfold score
  rw [sumTo_eq_sum]
  simp only [blank_mass p b h, hshare, sum_const, card_range, nsmul_eq_mul]
  field_simp

end Given

/-- Setting the number of components to one, after a setup for two, is
accepted and doubles the scores of the next forward pass. -/
theorem Layer.scores_doubled_by_setting :
    let p : SetupPlan := ⟨1, 1, 1, 1, 1, 2⟩
    let s := Slots.startingAt 0 0
    let st : Session ℝ := .blank p
    ∃ (layer : Layer ℝ) (st₁ st₂ : Session ℝ) (t₁ t₂ : Tensor ℝ),
      configure ["mol_k=1"] st.layer = .ok () layer
        ∧ forward st = .ok () st₁
        ∧ st₁.workspace.scratchValue s.scores = .ok t₁
        ∧ forward { st with layer } = .ok () st₂
        ∧ st₂.workspace.scratchValue s.scores = .ok t₂
        ∧ t₂.elem 0 0 0 = 2 * t₁.elem 0 0 0 ∧ t₂ ≠ t₁ := by
  intro p s st
  have hwired : Wired p s st.workspace :=
    Session.blank_wired p (by decide) (by decide)
  have hheld : Given.blank.Held p s st.workspace := Session.blank_held p
  let settings := (Session.blankSettings p).withMixtures 1
  let st' : Session ℝ := { st with layer := { st.layer with settings } }
  have hscores : ∀ v : ForwardValues ℝ,
      (∀ q ∈ v.scratchStores s, st.workspace.fitsScratch q.1 q.2 = .ok ()) →
        (v.put s st.workspace).scratchValue s.scores = .ok v.scores :=
    fun v hfits => ForwardValues.read_put hfits (s.scores, v.scores)
      (by simp [ForwardValues.scratchStores, s])
  have hrun : forward st = _ := forward_succeeds rfl rfl hwired hheld
  have hslots : st'.layer.slots = some s := rfl
  have hone : st'.layer.settings.mixtures = some 1 := rfl
  have hrun' : forward st' = _ :=
    ((forward_recut hslots hone (by decide) (by decide) (by decide) hwired
      hheld).resolve_right fun h => h.1 rfl).2
  have hscore : ((Given.blank : Given ℝ).mergedValues p).scores.elem 0 0 0
      = 2 * ((Given.blank : Given ℝ).values p).scores.elem 0 0 0 := by
    unfold Given.mergedValues Given.values
    rw [elem_cube (by decide) (by decide) (by decide),
      elem_cube (by decide) (by decide) (by decide),
      Given.blank_score p (by decide), Given.mergedScore_eq_sum]
    simp only [Given.blank_mergedMass, sum_const, card_range, nsmul_eq_mul]
    rfl
  refine ⟨st'.layer, _, _, _, _, rfl, hrun, hscores _
    (hwired.fits_values _).1, hrun', hscores _ (hwired.fits rfl rfl).1,
    hscore, fun hsame => ?_⟩
  have hpos : 0 < ((Given.blank : Given ℝ).values p).scores.elem 0 0 0 := by
    unfold Given.values
    rw [elem_cube (by decide) (by decide) (by decide),
      Given.blank_score p (by decide)]
    exact Given.mass_pos
  rw [hsame] at hscore
  linarith

end MixtureAttention
