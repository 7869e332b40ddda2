/-
The backward pass by shapes. Whether a gradient can be computed depends on
the extents of the buffers and not on what they hold, so the weights may
have changed since the forward pass that filled the scratch buffers. Each
function of the backward pass is followed line by line: what a line finds in
its operands' shapes is what it needs (`Returns.bind`).
-/
import MixtureAttention.Proofs.Layer.Wiring
import MixtureAttention.Proofs.Tensor.Shapes

namespace MixtureAttention

open Tensor Workspace
open Given (HasShape)

variable {α : Type}

-- ======================================================= buffers by shape

/-- What two lists of the same things say of each other. -/
theorem forall_mem_zip_of_map_eq {β γ δ : Type} {f : β → δ} {g : γ → δ} :
    ∀ {bs : List β} {cs : List γ}, bs.map f = cs.map g →
      ∀ q ∈ bs.zip cs, f q.1 = g q.2
  | [], _, _ => by simp
  | _ :: _, [], h => by cases h
  | b :: bs, c :: cs, h => by
      injection h with hhead htail
      intro q hq
      rcases List.mem_cons.1 hq with rfl | hq
      · exact hhead
      · exact forall_mem_zip_of_map_eq htail q hq

section

variable {p : SetupPlan} {s : Slots} {w : Workspace α}

/-- What fits a scratch buffer has its extents. -/
theorem Wired.shape_of_fits (hwired : Wired p s w) {h : ScratchHandle}
    {d : Dims} (hmem : (h, d) ∈ s.scratch.zip p.scratchDims) {t : Tensor α}
    (hfit : w.fitsScratch h t = .ok ()) : t.shape = d.toShape := by
  have hd := forall_mem_zip_of_map_eq hwired.scratch (h, d) hmem
  obtain ⟨e, he, hdecl⟩ := Option.map_eq_some_iff.1 hd
  obtain ⟨e', he', hexact⟩ := lookup_bind_eq_ok.1 hfit
  rw [he] at he'
  cases he'
  rw [← (of_ite_eq_ok hexact).1, hdecl]

/-- The nine scratch buffers have the extents of the plan. -/
theorem Wired.scratch_shapes (hwired : Wired p s w) (hsound : w.Sound) :
    ∀ q ∈ s.scratch.zip p.scratchDims,
      HasShape (w.scratchValue q.1) q.2.toShape := by
  intro q hq
  have hdims := forall_mem_zip_of_map_eq hwired.scratch q hq
  obtain ⟨e, he, hdecl⟩ := Option.map_eq_some_iff.1 hdims
  refine ⟨e.value, lookup_bind_eq_ok.2 ⟨e, he, rfl⟩, ?_⟩
  rw [(hsound.scratch e (List.mem_of_getElem? he)).value, hdecl]

/-- The gradient of the packed buffer has the extents of the plan. -/
theorem Wired.packedGrad_shape (hwired : Wired p s w) (hsound : w.Sound) :
    HasShape (w.scratchGrad s.packed) p.packedDims.toShape := by
  have hmem : (s.packed, p.packedDims) ∈ s.scratch.zip p.scratchDims := by
    simp [Slots.scratch, SetupPlan.scratchDims]
  have hdims := forall_mem_zip_of_map_eq hwired.scratch _ hmem
  obtain ⟨e, he, hdecl⟩ := Option.map_eq_some_iff.1 hdims
  obtain ⟨t, ht⟩ := hwired.packedGrad
  obtain ⟨e', he', hgrad⟩ := scratchGrad_eq_ok.1 ht
  rw [he] at he'
  cases he'
  refine ⟨t, ht, ?_⟩
  rw [(hsound.scratch e (List.mem_of_getElem? he)).grad hgrad, hdecl]

/-- The three weights have the extents of the plan. -/
theorem Wired.weight_shapes (hwired : Wired p s w)
    (hsized : w.WeightsSized) :
    ∀ q ∈ s.weights.zip p.weightDims,
      HasShape (w.weight q.1) q.2.toShape := by
  intro q hq
  have hdims := forall_mem_zip_of_map_eq hwired.weights q hq
  obtain ⟨e, he, hdecl⟩ := Option.map_eq_some_iff.1 hdims
  refine ⟨e.value, lookup_bind_eq_ok.2 ⟨e, he, rfl⟩, ?_⟩
  rw [hsized e (List.mem_of_getElem? he), hdecl]

end

/-- The scratch buffers, the packed derivative and the weights, by shape. -/
structure Laid (p : SetupPlan) (s : Slots) (w : Workspace α) : Prop where
  hidden : HasShape (w.scratchValue s.hidden) [p.batch, 1, 1, p.unit]
  packed : HasShape (w.scratchValue s.packed)
    [p.batch, 1, 1, 3 * p.mixtures]
  scores : HasShape (w.scratchValue s.scores) [p.batch, 1, 1, p.positions]
  mass : HasShape (w.scratchValue s.mass)
    [p.batch, 1, p.positions, p.mixtures]
  upper : HasShape (w.scratchValue s.upper)
    [p.batch, 1, p.positions, p.mixtures]
  lower : HasShape (w.scratchValue s.lower)
    [p.batch, 1, p.positions, p.mixtures]
  lowerEdge : HasShape (w.scratchValue s.lowerEdge)
    [p.batch, 1, p.positions, p.mixtures]
  upperEdge : HasShape (w.scratchValue s.upperEdge)
    [p.batch, 1, p.positions, p.mixtures]
  packedGrad : HasShape (w.scratchGrad s.packed)
    [p.batch, 1, 1, 3 * p.mixtures]

/-- A wired workspace has its buffers laid out by the plan. -/
theorem Wired.laid {p : SetupPlan} {s : Slots} {w : Workspace α}
    (hwired : Wired p s w) (hsound : w.Sound) : Laid p s w := by
  have hshapes := hwired.scratch_shapes hsound
  simp only [Slots.scratch, SetupPlan.scratchDims, List.zip_cons_cons,
    List.zip_nil_left, List.forall_mem_cons] at hshapes
  obtain ⟨-, hhidden, hpacked, hscores, hmass, hupper, hlower, hlowerEdge,
    hupperEdge, -⟩ := hshapes
  exact ⟨hhidden, hpacked, hscores, hmass, hupper, hlower, hlowerEdge,
    hupperEdge, hwired.packedGrad_shape hsound⟩

-- =================================================== the packed derivative

variable [Scalar α] {p : SetupPlan} {s : Slots} {w : Workspace α}
  {b l k m : Nat} {t u : Tensor α}

/-- There is one score derivative for each position and mixture. -/
theorem scoreDerivative_shape (ht : t.shape = [b, 1, 1, m])
    (hu : u.shape = [b, 1, l, m]) :
    Returns (fun v => v.shape = [b, 1, l, k]) (scoreDerivative k t u) := by
  have hbatch : u.extent 0 = b := by rw [extent, hu]; rfl
  have hrows : u.extent 2 = l := by rw [extent, hu]; rfl
  unfold scoreDerivative
  rw [hbatch, hrows]
  refine .bind (shape_gradLeft_batch ht hu) fun v hv => ?_
  refine .bind (shape_reshape (by rw [hv]; simp)) fun v hv => ?_
  exact shape_stretchColumns hv

/-- A sum over the positions leaves one entry for each mixture. -/
theorem negSumPositions_shape (ht : t.shape = [b, 1, l, k]) :
    Returns (fun v => v.shape = [b, 1, 1, k]) (negSumPositions t) :=
  .bind (shape_sumRows ht) fun _ hv => .of_ok hv

/-- A segment has a third of the packed columns. -/
theorem read_shape (seg : Segment) (ht : t.shape = [b, 1, 1, 3 * k]) :
    Returns (fun v => v.shape = [b, 1, 1, k]) (seg.read k t) := by
  refine shape_columns ?_ ht
  cases seg <;> simp only [Segment.offset] <;> omega

/-- Writing one keeps them all. -/
theorem write_shape (seg : Segment) (ht : t.shape = [b, 1, 1, 3 * k])
    (hu : u.shape = [b, 1, 1, k]) :
    Returns (fun v => v.shape = [b, 1, 1, 3 * k]) (seg.write k t u) := by
  refine shape_setColumns ?_ ht hu
  cases seg <;> simp only [Segment.offset] <;> omega

/-- Packing the three gives them back. -/
theorem packParts_shape {step scale share : Tensor α}
    (hstep : step.shape = [b, 1, 1, k]) (hscale : scale.shape = [b, 1, 1, k])
    (hshare : share.shape = [b, 1, 1, k]) :
    Returns (fun v => v.shape = [b, 1, 1, 3 * k])
      (packParts b k step scale share) :=
  .bind (write_shape .step rfl hstep) fun _ hv =>
    .bind (write_shape .scale hv hscale) fun _ hv =>
      write_shape .share hv hshare

/-- On buffers of the right shapes the packed derivative is computed. -/
theorem packedDerivative_shape (hlaid : Laid p s w)
    (hdout : HasShape (w.incomingAt 0) [p.batch, 1, 1, p.valueWidth])
    (hvalue : HasShape (w.input s.value)
      [p.batch, 1, p.positions, p.valueWidth]) :
    Returns (fun d => d.packed.shape = [p.batch, 1, 1, 3 * p.mixtures]
        ∧ d.state.shape = [p.batch, 1, 1, p.mixtures])
      (packedDerivative s p.mixtures w) := by
  unfold packedDerivative
  refine .bind hdout fun dout hdout => .bind hvalue fun value hvalue => ?_
  refine .bind (scoreDerivative_shape hdout hvalue).lift
    fun dweighted hdweighted => ?_
  refine .bind hlaid.packed fun packed hpacked => ?_
  refine .bind (read_shape .step hpacked).lift fun step hstep => ?_
  refine .bind (read_shape .scale hpacked).lift fun scale hscale => ?_
  refine .bind (read_shape .share hpacked).lift fun share hshare => ?_
  refine .bind hlaid.mass fun mass hmass => ?_
  refine .bind (shape_combine_same _ hdweighted hmass).lift
    fun dshared hdshared => ?_
  refine .bind (shape_sumRows hdshared).lift fun dshare hdshare => ?_
  refine .bind (shape_combine_row _ hdweighted hshare).lift
    fun dmass hdmass => ?_
  -- down to the two edges of each position
  refine .bind hlaid.upper fun upper hupper => ?_
  refine .bind (shape_backward _ (hupper.trans hdmass.symm)).lift
    fun dupper hdupper => ?_
  refine .bind hlaid.lower fun lower hlower => ?_
  have hnegated : dmass.neg.shape = dmass.shape := rfl
  refine .bind (shape_backward _ (hlower.trans
    (hnegated.trans hdmass).symm)).lift fun dlower hdlower => ?_
  have hdivisor : (divisors scale).shape = [p.batch, 1, 1, p.mixtures] :=
    hscale
  refine .bind (shape_combine_row _ (hdupper.trans hupper) hdivisor).lift
    fun upperShift hupperShift => ?_
  refine .bind (shape_combine_row _ (hdlower.trans hlower) hdivisor).lift
    fun lowerShift hlowerShift => ?_
  -- summed over the positions, for the centres and for the scales
  refine .bind (negSumPositions_shape hupperShift).lift
    fun dcentreUpper hdcentreUpper => ?_
  refine .bind (negSumPositions_shape hlowerShift).lift
    fun dcentreLower hdcentreLower => ?_
  refine .bind hlaid.upperEdge fun upperEdge hupperEdge => ?_
  refine .bind (shape_combine_same _ hupperShift hupperEdge).lift
    fun upperStretch hupperStretch => ?_
  refine .bind (negSumPositions_shape hupperStretch).lift
    fun dscaleUpper hdscaleUpper => ?_
  refine .bind hlaid.lowerEdge fun lowerEdge hlowerEdge => ?_
  refine .bind (shape_combine_same _ hlowerShift hlowerEdge).lift
    fun lowerStretch hlowerStretch => ?_
  refine .bind (negSumPositions_shape hlowerStretch).lift
    fun dscaleLower hdscaleLower => ?_
  refine .bind (shape_combine_same _ hdscaleUpper hdscaleLower).lift
    fun dscale hdscale => ?_
  refine .bind (shape_combine_same _ hdcentreUpper hdcentreLower).lift
    fun dcentre hdcentre => ?_
  -- through the activations of the three segments
  refine .bind (shape_combine_same _ hdcentre hstep).lift
    fun dstepLogit hdstepLogit => ?_
  refine .bind (shape_combine_same _ hdscale hscale).lift
    fun dscaleLogit hdscaleLogit => ?_
  refine .bind (shape_backward _ (hshare.trans hdshare.symm)).lift
    fun dshareLogit hdshareLogit => ?_
  have hbatch : value.extent 0 = p.batch := by rw [extent, hvalue]; rfl
  rw [hbatch]
  refine .bind (packParts_shape hdstepLogit hdscaleLogit
    (hdshareLogit.trans hshare)).lift fun packed hpacked => ?_
  exact .of_ok ⟨hpacked, hdcentre⟩

/-- Whatever the inputs and the derivative with respect to the output are,
the derivative with respect to the state, if it is computed, has the batch
of the scratch buffers. -/
theorem packedDerivative_state (hlaid : Laid p s w) :
    Ensures (fun d => d.state.shape = [p.batch, 1, 1, p.mixtures])
      (packedDerivative s p.mixtures w) := by
  unfold packedDerivative
  refine .skip fun dout => .skip fun value => .skip fun dweighted => ?_
  refine .bind (Returns.ensures hlaid.packed) fun packed hpacked => ?_
  refine .skip fun step => ?_
  refine .bind (read_shape .scale hpacked).lift.ensures fun scale hscale => ?_
  refine .skip fun share => .skip fun mass => .skip fun dshared => ?_
  refine .skip fun dshare => .skip fun dmass => ?_
  refine .bind (Returns.ensures hlaid.upper) fun upper hupper => ?_
  refine .bind (ensures_backward _).lift fun dupper hdupper => ?_
  refine .bind (Returns.ensures hlaid.lower) fun lower hlower => ?_
  refine .bind (ensures_backward _).lift fun dlower hdlower => ?_
  have hdivisor : (divisors scale).shape = [p.batch, 1, 1, p.mixtures] :=
    hscale
  refine .bind (shape_combine_row _ (hdupper.trans hupper)
    hdivisor).lift.ensures fun upperShift hupperShift => ?_
  refine .bind (shape_combine_row _ (hdlower.trans hlower)
    hdivisor).lift.ensures fun lowerShift hlowerShift => ?_
  refine .bind (negSumPositions_shape hupperShift).lift.ensures
    fun dcentreUpper hdcentreUpper => ?_
  refine .bind (negSumPositions_shape hlowerShift).lift.ensures
    fun dcentreLower hdcentreLower => ?_
  refine .skip fun upperEdge => .skip fun upperStretch => ?_
  refine .skip fun dscaleUpper => .skip fun lowerEdge => ?_
  refine .skip fun lowerStretch => .skip fun dscaleLower => ?_
  refine .skip fun dscale => ?_
  refine .bind (shape_combine_same _ hdcentreUpper
    hdcentreLower).lift.ensures fun dcentre hdcentre => ?_
  refine .skip fun dstepLogit => .skip fun dscaleLogit => ?_
  refine .skip fun dshareLogit => .skip fun packed => ?_
  rintro d ⟨⟩
  exact hdcentre

-- ================================================ on to the gradients

/-- The hidden row's derivative has the hidden width. -/
theorem hiddenDerivative_shape (hlaid : Laid p s w)
    (hweight : HasShape (w.weight s.packedWeight)
      [1, 1, p.unit, 3 * p.mixtures]) :
    Returns (fun v => v.shape = [p.batch, 1, 1, p.unit])
      (hiddenDerivative s w) := by
  unfold hiddenDerivative
  refine .bind hlaid.packedGrad fun dpacked hdpacked => ?_
  refine .bind hweight fun weight hweight => ?_
  refine .bind (shape_gradLeft_shared hdpacked hweight).lift
    fun dhidden hdhidden => ?_
  refine .bind hlaid.hidden fun hidden hhidden => ?_
  refine ((shape_backward _ (hhidden.trans hdhidden.symm)).lift).mono ?_
  exact fun v hv => hv.trans hhidden

/-- The query's has the query's. -/
theorem queryDerivative_shape (hlaid : Laid p s w)
    (hpackedWeight : HasShape (w.weight s.packedWeight)
      [1, 1, p.unit, 3 * p.mixtures])
    (hhiddenWeight : HasShape (w.weight s.hiddenWeight)
      [1, 1, p.queryWidth, p.unit]) :
    Returns (fun v => v.shape = [p.batch, 1, 1, p.queryWidth])
      (queryDerivative s w) :=
  .bind (hiddenDerivative_shape hlaid hpackedWeight) fun _ hdsum =>
    .bind hhiddenWeight fun _ hweight =>
      (shape_gradLeft_shared hdsum hweight).lift

/-- The values' has their positions and width. -/
theorem valueDerivative_shape (hlaid : Laid p s w)
    (hdout : HasShape (w.incomingAt 0) [p.batch, 1, 1, p.valueWidth])
    (hvalue : HasShape (w.input s.value)
      [p.batch, 1, p.positions, p.valueWidth]) :
    Returns (fun v => v.shape = [p.batch, 1, p.positions, p.valueWidth])
      (valueDerivative .release s w) := by
  unfold valueDerivative
  refine .bind hlaid.scores fun scores hscores => ?_
  refine .bind hdout fun dout hdout => .bind hvalue fun value hvalue => ?_
  rw [hvalue]
  exact (shape_gradRight_batch hscores hdout).lift

/-- Each weight gradient has the extents of its weight. -/
theorem weightDerivatives_shape (hlaid : Laid p s w)
    (hquery : HasShape (w.input s.query) [p.batch, 1, 1, p.queryWidth])
    (hpackedWeight : HasShape (w.weight s.packedWeight)
      [1, 1, p.unit, 3 * p.mixtures])
    (hhiddenWeight : HasShape (w.weight s.hiddenWeight)
      [1, 1, p.queryWidth, p.unit]) :
    Returns (fun d => d.hiddenWeight.shape = [1, 1, p.queryWidth, p.unit]
        ∧ d.hiddenBias.shape = [1, 1, 1, p.unit]
        ∧ d.packedWeight.shape = [1, 1, p.unit, 3 * p.mixtures])
      (weightDerivatives .release s w) := by
  unfold weightDerivatives
  refine .bind hlaid.hidden fun hidden hhidden => ?_
  refine .bind hlaid.packedGrad fun dpacked hdpacked => ?_
  refine .bind hpackedWeight fun weight hweight => ?_
  rw [hweight]
  refine .bind (shape_gradRight_shared hhidden hdpacked).lift
    fun packedWeight hpacked => ?_
  refine .bind (hiddenDerivative_shape hlaid hpackedWeight)
    fun dsum hdsum => ?_
  refine .bind hquery fun query hquery => ?_
  refine .bind hhiddenWeight fun weight hweight => ?_
  rw [hweight]
  refine .bind (shape_gradRight_shared hquery hdsum).lift
    fun hiddenWeight hhidden => ?_
  refine .bind (shape_sumToRow hdsum).lift fun hiddenBias hbias => ?_
  exact .of_ok ⟨hhidden, hbias, hpacked⟩

end MixtureAttention
