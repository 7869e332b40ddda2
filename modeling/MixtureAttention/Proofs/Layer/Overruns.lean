/-
No call for the gradients of the weights asks for an element that is not
there. Every tensor that such a call meets has four axes (`FourAxes`), and an
operation on tensors of some rank is decided by their shapes: it is refused
in words about shapes, or it finds every element that it looks for. So it is
enough to follow the number of axes along the code (`Contained.bind`), and
nothing is asked of the extents: any buffer may have been replaced by a
tensor of any four.
-/
import MixtureAttention.Proofs.Layer.GradientRefusals
import MixtureAttention.Proofs.Tensor.Expression

namespace MixtureAttention

open Tensor Workspace Procedure Expression

variable {α β γ : Type}

-- ============================================================= containment

/-- A value that the computation returns has the property, and a tensor
operation in it fails by a refusal alone. -/
structure Contained (P : β → Prop) (r : Except LayerError β) : Prop where
  ensures : Ensures P r
  refusal : ∀ e, r = .error (.tensor e) → e.IsRefusal

namespace Contained

variable {P : β → Prop} {Q : γ → Prop} {r : Except LayerError β}

/-- A value that has the property is contained. -/
theorem of_ok {x : β} (h : P x) : Contained P (.ok x) :=
  ⟨fun _ hx => Except.ok.inj hx ▸ h, nofun⟩

/-- Containment passes through sequencing. -/
theorem bind {f : β → Except LayerError γ} (hr : Contained P r)
    (hf : ∀ x, P x → Contained Q (f x)) : Contained Q (r >>= f) := by
  cases r with
  | error e =>
      refine ⟨nofun, fun e' h => hr.refusal e' ?_⟩
      injection h with h
      rw [h]
  | ok x => exact hf x (hr.ensures x rfl)

/-- A handle that names nothing is refused as a handle. -/
theorem lookup {kind : HandleKind} {es : List β} (i : Nat)
    (h : ∀ e ∈ es, P e) : Contained P (Workspace.lookup kind es i) := by
  unfold Workspace.lookup
  cases he : es[i]? with
  | none => exact ⟨nofun, nofun⟩
  | some e => exact of_ok (h e (List.mem_of_getElem? he))

/-- What a tensor operation is refused for, the layer is refused for. -/
theorem lift {P : Tensor α → Prop} {c : Except TensorError (Tensor α)}
    (h : Exact P False c) : Contained P (liftM c : Except LayerError _) := by
  cases c with
  | ok v => exact of_ok (h.ensures v rfl)
  | error e =>
      refine ⟨nofun, fun e' hc => ?_⟩
      injection hc with hc
      injection hc with hc
      exact ((h.refusal e' (by rw [hc]))).resolve_right id

/-- A tensor that does not fit is refused for its shape. -/
theorem checkExact (expected : Shape) (t : Tensor α) :
    Contained (fun _ => True) (Workspace.checkExact expected t) := by
  unfold Workspace.checkExact
  split
  · exact of_ok trivial
  · refine ⟨nofun, ?_⟩
    rintro _ ⟨⟩
    trivial

end Contained

-- ============================================================ by four axes

/-- The tensor has four axes. -/
def Tensor.FourAxes (t : Tensor α) : Prop := t.shape.length = 4

section

variable {t u : Tensor α} {shape : Shape}

/-- A reshape answers with the four axes asked for, or refuses. -/
theorem exact_reshape (h : shape.length = 4) :
    Exact FourAxes False (t.reshape shape) :=
  .decided (decided_reshape t shape) fun _ _ hv =>
    (congrArg List.length hv).trans h

/-- A broadcast answers with the four axes asked for, or refuses. -/
theorem exact_broadcastTo (h : shape.length = 4) :
    Exact FourAxes False (t.broadcastTo shape) :=
  .decided (decided_broadcastTo t shape) fun _ _ hv =>
    (congrArg List.length hv).trans h

/-- Columns have as many axes as the tensor that they are cut from. -/
theorem exact_columns (ht : t.FourAxes) (offset len : Nat) :
    Exact FourAxes False (t.columns offset len) := by
  obtain ⟨lead, w, hs⟩ := Shape.exists_concat ht
  refine .decided (decided_columns hs offset len) fun _ _ hv => ?_
  unfold FourAxes at ht ⊢
  rw [hs, List.length_append] at ht
  rw [hv, List.length_append]
  exact ht

/-- Overwriting columns keeps the axes. -/
theorem exact_setColumns (ht : t.FourAxes) (offset len : Nat) :
    Exact FourAxes False (t.setColumns offset len u) := by
  obtain ⟨lead, w, hs⟩ := Shape.exists_concat ht
  refine .decided (decided_setColumns hs offset len u) fun _ _ hv => ?_
  unfold FourAxes
  rw [hv, ← hs]
  exact ht

variable [Scalar α]

/-- Operands of four axes are combined to a result of four axes. -/
theorem exact_combine (op : α → α → α) (ht : t.FourAxes) :
    Exact FourAxes False (t.combine op u) :=
  .decided (decided_combine op t u) fun _ hjoin hv =>
    (congrArg List.length hv).trans (hjoin.length_joined.trans ht)

/-- A sum over axes keeps them with extent 1. -/
theorem exact_sumAxes (axes : List Nat) (ht : t.FourAxes) :
    Exact FourAxes False (t.sumAxes axes) :=
  .decided (decided_sumAxes axes t) fun _ _ hv =>
    (congrArg List.length hv).trans ((Shape.length_summed _ _).trans ht)

/-- The derivative of an activation has the axes of its output. -/
theorem exact_backward (act : Activation) (ht : t.FourAxes) :
    Exact FourAxes False (act.backward t u) :=
  .decided (decided_backward act t u) fun _ _ hv =>
    (congrArg List.length hv).trans ht

/-- The derivative of a left factor has four axes if both tensors have. -/
theorem exact_gradLeft (ht : t.FourAxes) (hu : u.FourAxes) :
    Exact FourAxes False (t.matmulGradLeft u) := by
  obtain ⟨lead, m, n, hs, hlead⟩ := Shape.exists_append_two (r := 2) ht
  obtain ⟨lead', k, k', hs', -⟩ := Shape.exists_append_two (r := 2) hu
  refine .decided (decided_matmulGradLeft hs hs') fun _ _ hv => ?_
  unfold FourAxes
  rw [hv, List.length_append, hlead]
  rfl

/-- That of a right factor has the axes of the shape asked for. -/
theorem exact_gradRight (ht : t.FourAxes) (hshape : shape.length = 4) :
    Exact FourAxes False (t.matmulGradRight .release u shape) := by
  obtain ⟨lead, m, k, hs, hlead⟩ := Shape.exists_append_two (r := 2) ht
  obtain ⟨lead', k', n, rfl, hlead'⟩ :=
    Shape.exists_append_two (r := 2) hshape
  refine .decided (decided_matmulGradRight hs (hlead'.trans hlead.symm) u)
    fun _ _ hv => ?_
  unfold FourAxes
  rw [hv]
  exact hshape

-- ===================================================== the parts of a pass

/-- The derivative of the scores has four axes. -/
theorem exact_scoreDerivative (k : Nat) {dout value : Tensor α}
    (hdout : dout.FourAxes) (hvalue : value.FourAxes) :
    Exact FourAxes False (scoreDerivative k dout value) :=
  .bind (exact_gradLeft hdout hvalue) fun _ _ =>
    .bind (exact_reshape rfl) fun _ _ => exact_broadcastTo rfl

/-- Negated sums over the positions keep the axes. -/
theorem exact_negSumPositions (ht : t.FourAxes) :
    Exact FourAxes False (negSumPositions t) :=
  .bind (exact_sumAxes [2] ht) fun _ hv => .ok hv

/-- The packed derivative has four axes, whatever its parts have. -/
theorem exact_packParts (batch k : Nat) {step scale share : Tensor α} :
    Exact FourAxes False (packParts batch k step scale share) :=
  have hzeros : (Tensor.zeros [batch, 1, 1, 3 * k] : Tensor α).FourAxes := rfl
  .bind (exact_setColumns hzeros _ _) fun _ hv =>
    .bind (exact_setColumns hv _ _) fun _ hv => exact_setColumns hv _ _

end

-- ============================================================== workspaces

/-- Every tensor that a call for the gradients of the weights may meet has
four axes. -/
structure Workspace.FourAxes (w : Workspace α) : Prop where
  inputs : ∀ t ∈ w.inputs, t.FourAxes
  incoming : ∀ t ∈ w.incoming, t.FourAxes
  weights : ∀ e ∈ w.weights, e.value.FourAxes
  scratch : ∀ e ∈ w.scratch, e.value.FourAxes
  scratchGrad : ∀ e ∈ w.scratch, ∀ t, e.grad = some t → t.FourAxes

/-- Tensors that match declared extents have four axes. -/
theorem Workspace.Match.fourAxes {dims : List Dims} {ts : List (Tensor α)}
    (h : Match dims ts) : ∀ t ∈ ts, t.FourAxes := by
  intro t ht
  obtain ⟨i, hi, rfl⟩ := List.getElem_of_mem ht
  have hd := List.getElem?_eq_getElem (h.length ▸ hi : i < dims.length)
  have htail := h.agrees hd (List.getElem?_eq_getElem hi)
  rw [Tensor.FourAxes, shape_of_tail htail]
  rfl

namespace Workspace

variable {w : Workspace α}

/-- The weights aside, four axes are a matter of conformance. -/
theorem Sound.fourAxes (h : w.Sound)
    (hweights : ∀ e ∈ w.weights, e.value.FourAxes) : w.FourAxes := by
  refine ⟨h.inputs.fourAxes, h.incoming.fourAxes, hweights, ?_, ?_⟩
  · intro e he
    rw [Tensor.FourAxes, (h.scratch e he).value]
    rfl
  · intro e he t ht
    rw [Tensor.FourAxes, (h.scratch e he).grad ht]
    rfl

/-- Weights of the extents that they were requested with have four axes. -/
theorem WeightsSized.fourAxes (h : w.WeightsSized) :
    ∀ e ∈ w.weights, e.value.FourAxes := by
  intro e he
  rw [Tensor.FourAxes, h e he]
  rfl

variable (h : w.FourAxes)

include h

/-- An input, once found, has four axes. -/
theorem FourAxes.input (i : InputHandle) :
    Contained Tensor.FourAxes (w.input i) :=
  .lookup _ h.inputs

/-- A derivative that arrives has four axes. -/
theorem FourAxes.incomingAt (i : Nat) :
    Contained Tensor.FourAxes (w.incomingAt i) :=
  .lookup _ h.incoming

/-- A weight, once found, has four axes. -/
theorem FourAxes.weight (i : WeightHandle) :
    Contained Tensor.FourAxes (w.weight i) :=
  .bind (.lookup _ h.weights) fun _ he => .of_ok he

/-- A scratch value, once found, has four axes. -/
theorem FourAxes.scratchValue (i : ScratchHandle) :
    Contained Tensor.FourAxes (w.scratchValue i) :=
  .bind (.lookup _ h.scratch) fun _ he => .of_ok he

/-- The gradient of a scratch buffer has four axes. -/
theorem FourAxes.scratchGradAt (i : ScratchHandle) :
    Contained Tensor.FourAxes (w.scratchGrad i) := by
  refine .bind (.lookup _ h.scratchGrad) fun e he => ?_
  cases hgrad : e.grad with
  | none => exact ⟨nofun, nofun⟩
  | some t => exact .of_ok (he t hgrad)

end Workspace

-- ============================================================= derivatives

variable [Scalar α] {w : Workspace α}

/-- The shared derivatives are computed without an overrun. -/
theorem contained_packedDerivative (h : w.FourAxes) (s : Slots) (k : Nat) :
    Contained (fun _ => True) (packedDerivative s k w) := by
  unfold packedDerivative
  refine .bind (h.incomingAt 0) fun dout hdout => ?_
  refine .bind (h.input s.value) fun value hvalue => ?_
  refine .bind (.lift (exact_scoreDerivative k hdout hvalue))
    fun dweighted hdweighted => ?_
  refine .bind (h.scratchValue s.packed) fun packed hpacked => ?_
  refine .bind (.lift (exact_columns hpacked _ _)) fun step hstep => ?_
  refine .bind (.lift (exact_columns hpacked _ _)) fun scale hscale => ?_
  refine .bind (.lift (exact_columns hpacked _ _)) fun share hshare => ?_
  refine .bind (h.scratchValue s.mass) fun mass _ => ?_
  refine .bind (.lift (exact_combine _ hdweighted)) fun dshared hdshared => ?_
  refine .bind (.lift (exact_sumAxes [2] hdshared)) fun dshare _ => ?_
  refine .bind (.lift (exact_combine _ hdweighted)) fun dmass _ => ?_
  refine .bind (h.scratchValue s.upper) fun upper hupper => ?_
  refine .bind (.lift (exact_backward _ hupper)) fun dupper hdupper => ?_
  refine .bind (h.scratchValue s.lower) fun lower hlower => ?_
  refine .bind (.lift (exact_backward _ hlower)) fun dlower hdlower => ?_
  refine .bind (.lift (exact_combine _ hdupper))
    fun upperShift hupperShift => ?_
  refine .bind (.lift (exact_combine _ hdlower))
    fun lowerShift hlowerShift => ?_
  refine .bind (.lift (exact_negSumPositions hupperShift))
    fun dcentreUpper hdcentreUpper => ?_
  refine .bind (.lift (exact_negSumPositions hlowerShift))
    fun dcentreLower _ => ?_
  refine .bind (h.scratchValue s.upperEdge) fun upperEdge _ => ?_
  refine .bind (.lift (exact_combine _ hupperShift))
    fun upperStretch hupperStretch => ?_
  refine .bind (.lift (exact_negSumPositions hupperStretch))
    fun dscaleUpper hdscaleUpper => ?_
  refine .bind (h.scratchValue s.lowerEdge) fun lowerEdge _ => ?_
  refine .bind (.lift (exact_combine _ hlowerShift))
    fun lowerStretch hlowerStretch => ?_
  refine .bind (.lift (exact_negSumPositions hlowerStretch))
    fun dscaleLower _ => ?_
  refine .bind (.lift (exact_combine _ hdscaleUpper)) fun dscale hdscale => ?_
  refine .bind (.lift (exact_combine _ hdcentreUpper))
    fun dcentre hdcentre => ?_
  refine .bind (.lift (exact_combine _ hdcentre)) fun dstepLogit _ => ?_
  refine .bind (.lift (exact_combine _ hdscale)) fun dscaleLogit _ => ?_
  refine .bind (.lift (exact_backward _ hshare)) fun dshareLogit _ => ?_
  exact .bind (.lift (exact_packParts _ _)) fun packed _ => .of_ok trivial

/-- The derivative of the hidden row is computed without an overrun. -/
theorem contained_hiddenDerivative (h : w.FourAxes) (s : Slots) :
    Contained Tensor.FourAxes (hiddenDerivative s w) := by
  unfold hiddenDerivative
  refine .bind (h.scratchGradAt s.packed) fun dpacked hdpacked => ?_
  refine .bind (h.weight s.packedWeight) fun weight hweight => ?_
  refine .bind (.lift (exact_gradLeft hdpacked hweight)) fun dhidden _ => ?_
  exact .bind (h.scratchValue s.hidden) fun hidden hhidden =>
    .lift (exact_backward _ hhidden)

/-- The weight gradients are computed without an overrun. -/
theorem contained_weightDerivatives (h : w.FourAxes) (s : Slots) :
    Contained (fun _ => True) (weightDerivatives .release s w) := by
  unfold weightDerivatives
  refine .bind (h.scratchValue s.hidden) fun hidden hhidden => ?_
  refine .bind (h.scratchGradAt s.packed) fun dpacked _ => ?_
  refine .bind (h.weight s.packedWeight) fun weight hweight => ?_
  refine .bind (.lift (exact_gradRight hhidden hweight))
    fun packedWeight _ => ?_
  refine .bind (contained_hiddenDerivative h s) fun dsum hdsum => ?_
  refine .bind (h.input s.query) fun query hquery => ?_
  refine .bind (h.weight s.hiddenWeight) fun weight hweight => ?_
  refine .bind (.lift (exact_gradRight hquery hweight))
    fun hiddenWeight _ => ?_
  exact .bind (.lift (exact_sumAxes _ hdsum)) fun _ _ => .of_ok trivial

-- ============================================================== procedures

variable {st st' : Session α} {s : Slots} {e : LayerError}

omit [Scalar α] in
/-- What is stored as a gradient of a scratch buffer has four axes. -/
theorem keeps_fourAxes (h : ScratchHandle) (t : Tensor α) :
    Workspace.Keeps Workspace.FourAxes (setScratchGrad h t) := by
  refine .stored (setScratchGrad_eq h t) fun w hw hcheck => ?_
  obtain ⟨_, hfits, -⟩ := exists_of_bind hcheck
  obtain ⟨e, -, hexact⟩ := lookup_bind_eq_ok.1 hfits
  have hshape : e.decl.dims.toShape = t.shape := (of_ite_eq_ok hexact).1
  have ht : t.FourAxes := by
    rw [Tensor.FourAxes, ← hshape]
    rfl
  refine ⟨hw.inputs, hw.incoming, hw.weights,
    forall_mem_modify hw.scratch fun _ _ hvalue => hvalue, ?_⟩
  refine forall_mem_modify hw.scratchGrad fun _ _ _ => ?_
  rintro _ ⟨⟩
  exact ht

/-- The shared derivatives leave tensors of four axes in the workspace. -/
theorem Workspace.FourAxes.ensureDifferentiated (h : st.workspace.FourAxes)
    (hrun : Layer.ensureDifferentiated st = .ok () st') :
    st'.workspace.FourAxes := by
  have hkept := Layer.keeps_ensureDifferentiated keeps_fourAxes st h
  rwa [final_of_ok hrun] at hkept

/-- What a tensor operation in a layer operation fails with is a refusal; a
handle that names nothing and an empty memo are none of its. -/
def LayerError.IsRefusal : LayerError → Prop
  | .tensor e => e.IsRefusal
  | _ => True

omit [Scalar α] in
/-- What fails in a contained computation is a refusal. -/
theorem Contained.isRefusal {P : β → Prop} {r : Except LayerError β}
    (h : Contained P r) (hr : r = .error e) : e.IsRefusal := by
  cases e with
  | tensor e => exact h.refusal e hr
  | _ => trivial

/-- So the shared derivatives fail by a refusal or not at all. -/
theorem ensureDifferentiated_refusal (h : st.workspace.FourAxes)
    (hrun : Layer.ensureDifferentiated st = .error e st') :
    e.IsRefusal := by
  cases hm : st.layer.memo with
  | stale =>
      rw [Layer.ensureDifferentiated_of_stale hm] at hrun
      cases hrun
      trivial
  | differentiated d =>
      rw [Layer.ensureDifferentiated_of_differentiated hm] at hrun
      cases hrun
  | forwarded =>
      rw [Layer.ensureDifferentiated_of_forwarded hm] at hrun
      cases hs : st.layer.slots with
      | none =>
          rw [Layer.differentiate_of_unset hs] at hrun
          cases hrun
          trivial
      | some s =>
          cases hk : st.layer.settings.mixtures with
          | none =>
              rw [Layer.differentiate_of_noMixtures hs hk] at hrun
              cases hrun
              trivial
          | some k =>
              rw [Layer.differentiate_eq hs hk] at hrun
              cases hd : packedDerivative s k st.workspace with
              | error e =>
                  rw [hd] at hrun
                  cases hrun
                  exact (contained_packedDerivative h s k).isRefusal hd
              | ok d =>
                  have hfits : Contained (fun _ => True)
                      (Layer.fitsPacked s st.workspace d) :=
                    .bind (.bind (.lookup (P := fun _ => True) _
                      fun _ _ => trivial) fun _ _ => .checkExact _ _)
                      fun _ _ => .bind (h.scratchGradAt s.packed)
                        fun _ _ => .of_ok trivial
                  cases hfit : Layer.fitsPacked s st.workspace d with
                  | error e =>
                      simp only [hd, hfit] at hrun
                      cases hrun
                      exact hfits.isRefusal hfit
                  | ok _ =>
                      simp only [hd, hfit] at hrun
                      cases hrun

/-- Storing is refused for a shape or for a handle. -/
theorem storeWeightGradients_refusal (h : st.workspace.FourAxes)
    (hrun : Layer.storeWeightGradients s st = .error e st') :
    e.IsRefusal := by
  cases hd : weightDerivatives .release s st.workspace with
  | error e =>
      unfold Layer.storeWeightGradients at hrun
      rw [bind_of_error (read_of_error hd)] at hrun
      cases hrun
      exact (contained_weightDerivatives h s).isRefusal hd
  | ok d =>
      rw [Layer.storeWeightGradients_eq hd] at hrun
      cases hstore : storeAll (fun q => setWeightGrad q.1 q.2)
          (Layer.weightStores s d) st.workspace with
      | ok _ w =>
          rw [onWorkspace_of_ok hstore] at hrun
          cases hrun
      | error e w =>
          rw [onWorkspace_of_error hstore] at hrun
          cases hrun
          obtain ⟨-, q, -, -, -, hrefused, -⟩ := storeAll_refused
            (fun (q : WeightHandle × Tensor α) => setWeightGrad_eq q.1 q.2)
            (fun q q' => fitsWeight_putWeightGrad q.1 q'.1 q.2 q'.2) hstore
          have hfits : Contained (fun _ => True)
              (st.workspace.fitsWeight q.1 q.2) :=
            .bind (.lookup (P := fun _ => True) _ fun _ _ => trivial)
              fun _ _ => .checkExact _ _
          exact hfits.isRefusal hrefused

/-- A call for the gradients of the weights that fails is refused: no element
that it looks for is missing. -/
theorem weightGradients_refusal (hs : st.layer.slots = some s)
    (h : st.workspace.FourAxes)
    (hrun : Layer.weightGradients .release st = .error e st') :
    e.IsRefusal := by
  rw [Layer.weightGradients_eq hs] at hrun
  cases hdiff : Layer.ensureDifferentiated st with
  | error e st₁ =>
      rw [hdiff] at hrun
      cases hrun
      exact ensureDifferentiated_refusal h hdiff
  | ok _ st₁ =>
      rw [hdiff] at hrun
      exact storeWeightGradients_refusal (h.ensureDifferentiated hdiff) hrun

end MixtureAttention
