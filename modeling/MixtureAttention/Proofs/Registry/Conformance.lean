/-
What holds of a workspace from its allocation on. The declarations and
requests that it was allocated for can be read off it again (`declared`), and
it conforms to them: there is a buffer for each, inputs and outputs and their
derivatives have the declared extents beyond the batch, gradients of weights
and scratch buffers have exactly the extents that are current, and a scratch
buffer has a gradient exactly if it was requested with one (`Conforms`).

Each command keeps that (`Keeps`), refused or not; a change of the batch
extent makes the workspace conform to what is declared then. The values of
the weights are apart (`WeightsSized`), since a weight can be replaced as a
whole.
-/
import MixtureAttention.Proofs.Registry.Stores

namespace MixtureAttention

variable {α β γ : Type}

/-- Writing an element keeps the extents. -/
theorem Tensor.shape_write {t t' : Tensor α} {i : Nat} {x : α}
    (h : t.write i x = .ok t') : t'.shape = t.shape := by
  unfold Tensor.write at h
  split at h
  · injection h with h
    rw [← h]
  · cases h

/-- Each weight is allocated for its request, in order. -/
theorem decl_allocateWeights [Scalar α] (g : Generator) :
    ∀ (ds : List WeightDecl) (state : g.State),
      (allocateWeights (α := α) g ds state).map Weight.decl = ds
  | [], _ => rfl
  | d :: ds, state => by
      rw [allocateWeights, List.map_cons, decl_allocateWeights g ds]

namespace Workspace

-- =============================================================== lists

/-- What holds of all entries survives a change of one that keeps it. -/
theorem forall_mem_modify {P : β → Prop} {es : List β} {i : Nat}
    {f : β → β} (hes : ∀ e ∈ es, P e)
    (hf : ∀ e, es[i]? = some e → P e → P (f e)) :
    ∀ e ∈ es.modify i f, P e := by
  intro e he
  obtain ⟨j, hj⟩ := List.getElem?_of_mem he
  rw [List.getElem?_modify] at hj
  obtain ⟨e', he', heq⟩ := Option.map_eq_some_iff.1 hj
  have hmem := hes e' (List.mem_of_getElem? he')
  by_cases hij : i = j
  · subst hij
    rw [if_pos rfl] at heq
    rw [← heq]
    exact hf e' he' hmem
  · rw [if_neg hij] at heq
    rw [← heq]
    exact hmem

/-- A change that a map does not see. -/
theorem map_modify_eq {f : β → γ} {g : β → β} (h : ∀ e, f (g e) = f e)
    (es : List β) (i : Nat) : (es.modify i g).map f = es.map f := by
  refine List.ext_getElem? fun j => ?_
  rw [List.getElem?_map, List.getElem?_map, map_modify h]

/-- There is a buffer for each of the declared extents, and it has these
beyond the batch. -/
structure Match (dims : List Dims) (ts : List (Tensor α)) : Prop where
  length : ts.length = dims.length
  agrees : ∀ {i : Nat} {d : Dims} {t : Tensor α},
    dims[i]? = some d → ts[i]? = some t → t.shape.tail = d.toShape.tail

variable {dims : List Dims} {ts : List (Tensor α)}

/-- Zeros of the declared extents match the declaration. -/
theorem Match.zeros [Zero α] :
    Match dims (dims.map fun d => (.zeros d.toShape : Tensor α)) := by
  refine ⟨List.length_map _, ?_⟩
  intro i d t hd ht
  rw [List.getElem?_map, hd] at ht
  cases ht
  rfl

/-- A tensor that agrees beyond the batch may take any place. -/
theorem Match.set (h : Match dims ts) {i : Nat} {t : Tensor α}
    (ht : ∀ d, dims[i]? = some d → t.shape.tail = d.toShape.tail) :
    Match dims (ts.set i t) := by
  refine ⟨by rw [List.length_set, h.length], ?_⟩
  intro j d t' hd ht'
  rw [List.getElem?_set] at ht'
  by_cases hij : i = j
  · subst hij
    rw [if_pos rfl] at ht'
    split at ht'
    · cases ht'
      exact ht d hd
    · cases ht'
  · rw [if_neg hij] at ht'
    exact h.agrees hd ht'

/-- What is declared is there. -/
theorem Match.allocated (h : Match dims ts) {i : Nat} {d : Dims}
    (hd : dims[i]? = some d) :
    ∃ t, ts[i]? = some t ∧ t.shape.tail = d.toShape.tail := by
  obtain ⟨hi, -⟩ := List.getElem?_eq_some_iff.1 hd
  rw [← h.length] at hi
  have ht := List.getElem?_eq_getElem hi
  exact ⟨ts[i], ht, h.agrees hd ht⟩

-- ========================================================= conformance

/-- The declarations and requests that a workspace serves, each request for
a scratch buffer with the batch extent that is current. -/
def declared (w : Workspace α) : Blueprint where
  name := w.name
  inputs := w.inputDims
  outputs := w.outputDims
  weights := w.weights.map (·.decl)
  scratch := w.scratch.map (·.decl)

end Workspace

/-- The buffer and its gradient have the extents that are current, and there
is a gradient exactly if one was requested. -/
structure Scratch.Sized (e : Scratch α) : Prop where
  value : e.value.shape = e.decl.dims.toShape
  grad : ∀ {t : Tensor α}, e.grad = some t → t.shape = e.decl.dims.toShape
  hasGrad : e.grad.isSome = e.decl.hasGrad

/-- Another batch extent is taken over by the buffer and its gradient. -/
theorem Scratch.Sized.resize [Zero α] {e : Scratch α} (h : e.Sized)
    (n : Nat) : (e.resize n).Sized := by
  unfold Scratch.resize
  refine ⟨rfl, ?_, ?_⟩
  · intro t ht
    obtain ⟨t', -, rfl⟩ := Option.map_eq_some_iff.1 ht
    rfl
  · rw [← h.hasGrad]
    exact Option.isSome_map

namespace Workspace

/-- The workspace serves the blueprint, with buffers of the extents that the
blueprint says. -/
structure Conforms (b : Blueprint) (w : Workspace α) : Prop where
  declared : w.declared = b
  inputs : Match w.inputDims w.inputs
  outgoing : Match w.inputDims w.outgoing
  outputs : Match w.outputDims w.outputs
  incoming : Match w.outputDims w.incoming
  weightGrads : ∀ e ∈ w.weights, e.grad.shape = e.decl.dims.toShape
  scratch : ∀ e ∈ w.scratch, e.Sized

/-- Every weight has the extents that it was requested with. -/
def WeightsSized (w : Workspace α) : Prop :=
  ∀ e ∈ w.weights, e.value.shape = e.decl.dims.toShape

/-- It is said of the weights alone. -/
theorem WeightsSized.congr {w w' : Workspace α} (h : w.WeightsSized)
    (hsame : w'.weights = w.weights) : w'.WeightsSized := by
  unfold WeightsSized
  rw [hsame]
  exact h

section

variable [Scalar α]

/-- However it is filled, a weight has the requested extents. -/
theorem shape_fill (g : Generator) (i : Initializer) (d : Dims)
    (state : g.State) :
    (i.fill (α := α) g d state).1.shape = d.toShape := by
  unfold Initializer.fill
  split
  · split <;> rfl
  · rfl

/-- So has every weight that is allocated, and its gradient. -/
theorem sized_allocateWeights (g : Generator) :
    ∀ (ds : List WeightDecl) (state : g.State),
      ∀ e ∈ allocateWeights (α := α) g ds state,
        e.value.shape = e.decl.dims.toShape
          ∧ e.grad.shape = e.decl.dims.toShape
  | [], _ => nofun
  | d :: ds, state => by
      intro e he
      rcases List.mem_cons.1 he with rfl | he
      · exact ⟨shape_fill g d.initializer d.dims state, rfl⟩
      · exact sized_allocateWeights g ds _ e he

/-- A scratch buffer is allocated with the extents of its request. -/
theorem sized_allocate (d : ScratchDecl) :
    (d.allocate : Scratch α).Sized := by
  unfold ScratchDecl.allocate
  cases h : d.hasGrad with
  | true =>
      refine ⟨rfl, ?_, h.symm⟩
      rintro t ⟨⟩
      rfl
  | false => exact ⟨rfl, nofun, h.symm⟩

/-- What is built from a blueprint serves it. -/
theorem conforms_build (b : Blueprint) (g : Generator) (seed : UInt64) :
    (b.build (α := α) g seed).Conforms b := by
  refine ⟨?_, .zeros, .zeros, .zeros, .zeros, ?_, ?_⟩
  · unfold declared Blueprint.build
    dsimp only
    rw [decl_allocateWeights, List.map_map]
    exact congrArg (Blueprint.mk _ _ _ _) (List.map_id _)
  · exact fun e he => (sized_allocateWeights g b.weights _ e he).2
  · intro e he
    obtain ⟨d, -, rfl⟩ := List.mem_map.1 he
    exact sized_allocate d

/-- After a build every weight has the extents of its request. -/
theorem weightsSized_build (b : Blueprint) (g : Generator) (seed : UInt64) :
    (b.build (α := α) g seed).WeightsSized :=
  fun e he => (sized_allocateWeights g b.weights _ e he).1

end

-- ============================================================ invariants

/-- The workspace that a command leaves, refused or not. -/
def left (c : Command α β) (w : Workspace α) : Workspace α :=
  match c w with
  | .ok _ w' => w'
  | .error _ w' => w'

/-- The command keeps the property, refused or not. -/
def Keeps (P : Workspace α → Prop) (c : Command α β) : Prop :=
  ∀ w, P w → P (left c w)

variable {P : Workspace α → Prop}

/-- Nothing is done to the workspace. -/
theorem Keeps.pure (x : β) : Keeps P (pure x : Command α β) :=
  fun _ h => h

/-- Looking at a workspace keeps whatever holds of it. -/
theorem Keeps.inspect (f : Workspace α → Except LayerError β) :
    Keeps P (inspect f) := by
  intro w h
  unfold left Workspace.inspect
  cases f w <;> exact h

/-- A command that goes on with what it looked up. -/
theorem Keeps.inspect_bind {f : Workspace α → Except LayerError β}
    {k : β → Command α γ}
    (h : ∀ w, P w → ∀ x, f w = .ok x → P (left (k x) w)) :
    Keeps P (Workspace.inspect f >>= k) := by
  intro w hw
  show P (match EStateM.bind (Workspace.inspect f) k w with
    | .ok _ w' => w' | .error _ w' => w')
  unfold EStateM.bind Workspace.inspect
  cases hx : f w with
  | error e => exact hw
  | ok x => exact h w hw x hx

/-- Two commands in a row keep what each of them keeps. -/
theorem Keeps.bind {c : Command α β} {f : β → Command α γ}
    (hc : Keeps P c) (hf : ∀ x, Keeps P (f x)) : Keeps P (c >>= f) := by
  intro w h
  have hleft := hc w h
  show P (match EStateM.bind c f w with | .ok _ w' => w' | .error _ w' => w')
  unfold left at hleft
  unfold EStateM.bind
  cases hw : c w with
  | error e w' =>
      rw [hw] at hleft
      exact hleft
  | ok x w' =>
      rw [hw] at hleft
      exact hf x w' hleft

/-- A store keeps what holds after it whenever its check passed. -/
theorem Keeps.stored {c : Command α Unit}
    {check : Workspace α → Except LayerError Unit}
    {next : Workspace α → Workspace α}
    (hform : ∀ w, c w = stored (check w) w (next w))
    (hnext : ∀ w, P w → check w = .ok () → P (next w)) : Keeps P c := by
  intro w h
  unfold left
  rw [hform]
  cases hw : check w with
  | error e => exact h
  | ok _ => exact hnext w h hw

-- ========================================================= each command

/-- Writes one element of a weight. -/
def writeWeight (h : WeightHandle) (i : Nat) (x : α) : Command α Unit := do
  let t ← inspect fun w => do (← w.weight h).write i x
  replaceWeight h t

/-- Whole weights are replaced without a look at their extents. -/
theorem replaceWeight_eq (h : WeightHandle) (t : Tensor α)
    (w : Workspace α) :
    replaceWeight h t w
      = stored (w.weightEntry h >>= fun _ => .ok ()) w
          { w with
            weights := w.weights.modify h.index fun e =>
              { e with value := t } } :=
  inspect_entry_modify ..

variable {b : Blueprint} {w : Workspace α}

/-- What passes the check of a store agrees with the declaration beyond the
batch. -/
theorem agrees_of_check {kind : HandleKind} {i : Nat} {t : Tensor α}
    (h : (do checkBeyondBatch (← lookup kind dims i) t :
      Except LayerError Unit) = .ok ()) :
    ∀ d, dims[i]? = some d → t.shape.tail = d.toShape.tail := by
  obtain ⟨d, hd, hcheck⟩ := lookup_bind_eq_ok.1 h
  intro d' hd'
  rw [hd] at hd'
  cases hd'
  exact (of_ite_eq_ok hcheck).1.symm

/-- Inputs are only replaced by what agrees beyond the batch. -/
theorem keeps_setInput (h : InputHandle) (t : Tensor α) :
    Keeps (Conforms b) (setInput h t) := by
  refine .stored (setInput_eq h t) fun w hw hcheck => ?_
  exact ⟨hw.declared, hw.inputs.set (agrees_of_check hcheck), hw.outgoing,
    hw.outputs, hw.incoming, hw.weightGrads, hw.scratch⟩

/-- A stored output leaves the workspace as declared. -/
theorem keeps_setOutput (i : Nat) (t : Tensor α) :
    Keeps (Conforms b) (setOutput i t) := by
  refine .stored (setOutput_eq i t) fun w hw hcheck => ?_
  exact ⟨hw.declared, hw.inputs, hw.outgoing,
    hw.outputs.set (agrees_of_check hcheck), hw.incoming, hw.weightGrads,
    hw.scratch⟩

/-- A stored derivative with respect to an output does too. -/
theorem keeps_setIncoming (i : Nat) (t : Tensor α) :
    Keeps (Conforms b) (setIncoming i t) := by
  refine .stored (setIncoming_eq i t) fun w hw hcheck => ?_
  exact ⟨hw.declared, hw.inputs, hw.outgoing, hw.outputs,
    hw.incoming.set (agrees_of_check hcheck), hw.weightGrads, hw.scratch⟩

/-- A derivative is checked against the input that is stored, which has the
declared extents itself. -/
theorem keeps_setOutgoing (h : InputHandle) (t : Tensor α) :
    Keeps (Conforms b) (setOutgoing h t) := by
  refine .stored (setOutgoing_eq h t) fun w hw hcheck => ?_
  obtain ⟨t', ht', hexact⟩ := lookup_bind_eq_ok.1 hcheck
  have hshape : t'.shape = t.shape := (of_ite_eq_ok hexact).1
  refine ⟨hw.declared, hw.inputs, hw.outgoing.set fun d hd => ?_,
    hw.outputs, hw.incoming, hw.weightGrads, hw.scratch⟩
  rw [← hshape]
  exact hw.inputs.agrees hd ht'

/-- A change of one weight that keeps its request and its gradient's
size. -/
theorem Conforms.modifyWeight (hw : Conforms b w) {i : Nat}
    {f : Weight α → Weight α} (hdecl : ∀ e, (f e).decl = e.decl)
    (hgrad : ∀ e, w.weights[i]? = some e →
      e.grad.shape = e.decl.dims.toShape →
        (f e).grad.shape = (f e).decl.dims.toShape) :
    Conforms b { w with weights := w.weights.modify i f } := by
  refine ⟨?_, hw.inputs, hw.outgoing, hw.outputs, hw.incoming,
    forall_mem_modify hw.weightGrads hgrad, hw.scratch⟩
  refine Eq.trans ?_ hw.declared
  unfold Workspace.declared
  dsimp only
  rw [map_modify_eq hdecl]

/-- The gradient of a weight keeps its extents. -/
theorem keeps_setWeightGrad (h : WeightHandle) (t : Tensor α) :
    Keeps (Conforms b) (setWeightGrad h t) := by
  refine .stored (setWeightGrad_eq h t) fun w hw hcheck => ?_
  obtain ⟨e, he, hexact⟩ := lookup_bind_eq_ok.1 hcheck
  have hshape : e.decl.dims.toShape = t.shape := (of_ite_eq_ok hexact).1
  refine hw.modifyWeight (fun _ => rfl) fun e' he' _ => ?_
  rw [he] at he'
  cases he'
  exact hshape.symm

/-- The value of a weight is not looked at. -/
theorem keeps_replaceWeight (h : WeightHandle) (t : Tensor α) :
    Keeps (Conforms b) (replaceWeight h t) := by
  refine .stored (replaceWeight_eq h t) fun w hw _ => ?_
  exact hw.modifyWeight (fun _ => rfl) fun _ _ hgrad => hgrad

/-- One element of a weight is written, and nothing else changes. -/
theorem keeps_writeWeight (h : WeightHandle) (i : Nat) (x : α) :
    Keeps (Conforms b) (writeWeight h i x) :=
  .bind (.inspect _) fun _ => keeps_replaceWeight h _

/-- A change of one scratch buffer that keeps its request and its size. -/
theorem Conforms.modifyScratch (hw : Conforms b w) {i : Nat}
    {f : Scratch α → Scratch α} (hdecl : ∀ e, (f e).decl = e.decl)
    (hsized : ∀ e, w.scratch[i]? = some e → e.Sized → (f e).Sized) :
    Conforms b { w with scratch := w.scratch.modify i f } := by
  refine ⟨?_, hw.inputs, hw.outgoing, hw.outputs, hw.incoming,
    hw.weightGrads, forall_mem_modify hw.scratch hsized⟩
  refine Eq.trans ?_ hw.declared
  unfold Workspace.declared
  dsimp only
  rw [map_modify_eq hdecl]

/-- A scratch buffer keeps its current extents. -/
theorem keeps_setScratch (h : ScratchHandle) (t : Tensor α) :
    Keeps (Conforms b) (setScratch h t) := by
  refine .stored (setScratch_eq h t) fun w hw hcheck => ?_
  obtain ⟨e, he, hexact⟩ := lookup_bind_eq_ok.1 hcheck
  have hshape : e.decl.dims.toShape = t.shape := (of_ite_eq_ok hexact).1
  refine hw.modifyScratch (fun _ => rfl) fun e' he' hsized => ?_
  rw [he] at he'
  cases he'
  exact ⟨hshape.symm, hsized.grad, hsized.hasGrad⟩

/-- Storing the gradient of a scratch buffer keeps the workspace as declared.
-/
theorem keeps_setScratchGrad (h : ScratchHandle) (t : Tensor α) :
    Keeps (Conforms b) (setScratchGrad h t) := by
  refine .stored (setScratchGrad_eq h t) fun w hw hcheck => ?_
  obtain ⟨_, hfits, hgrad⟩ := exists_of_bind hcheck
  obtain ⟨grad, hgrad, -⟩ := exists_of_bind hgrad
  obtain ⟨e, he, hexact⟩ := lookup_bind_eq_ok.1 hfits
  obtain ⟨e₁, he₁, hthere⟩ := scratchGrad_eq_ok.1 hgrad
  have hshape : e.decl.dims.toShape = t.shape := (of_ite_eq_ok hexact).1
  refine hw.modifyScratch (fun _ => rfl) fun e' he' hsized => ?_
  rw [he] at he' he₁
  cases he'
  cases he₁
  refine ⟨hsized.value, ?_, ?_⟩
  · rintro _ ⟨⟩
    exact hshape.symm
  · rw [← hsized.hasGrad, hthere]
    rfl

-- =================================================== the weights' values

/-- A command that does not touch the weights keeps what holds of them. -/
theorem keeps_weightsSized {c : Command α Unit}
    {check : Workspace α → Except LayerError Unit}
    {next : Workspace α → Workspace α}
    (hform : ∀ w, c w = Workspace.stored (check w) w (next w))
    (hsame : ∀ w, (next w).weights = w.weights) : Keeps WeightsSized c := by
  refine .stored hform fun w hw _ => ?_
  unfold WeightsSized
  rw [hsame]
  exact hw

/-- Storing a gradient does not touch the weight. -/
theorem weightsSized_setWeightGrad (h : WeightHandle) (t : Tensor α) :
    Keeps WeightsSized (setWeightGrad h t) := by
  refine .stored (setWeightGrad_eq h t) fun w hw _ => ?_
  exact forall_mem_modify hw fun e _ he => he

/-- An element is written in place, so the weight keeps its extents. -/
theorem weightsSized_writeWeight (h : WeightHandle) (i : Nat) (x : α) :
    Keeps WeightsSized (writeWeight h i x) := by
  refine .inspect_bind fun w hw t ht => ?_
  obtain ⟨t₀, ht₀, hwrite⟩ := exists_of_bind ht
  obtain ⟨e, he, hvalue⟩ := lookup_bind_eq_ok.1 ht₀
  have hshape : t.shape = e.value.shape := by
    injection hvalue with hvalue
    rw [hvalue]
    exact Tensor.shape_write (of_lift_ok hwrite)
  unfold left
  rw [replaceWeight_eq, weightEntry, lookup_eq_ok.2 he]
  refine forall_mem_modify hw fun e' he' hsized => ?_
  rw [he] at he'
  cases he'
  exact hshape.trans hsized

-- ==================================================== another batch extent

/-- The workspace conforms to whatever it is declared to serve now. -/
def Sound (w : Workspace α) : Prop := w.Conforms w.declared

/-- A workspace that conforms to a blueprint conforms to what it declares
itself. -/
theorem Conforms.sound (h : Conforms b w) : w.Sound := by
  unfold Sound
  rw [h.declared]
  exact h

/-- After a change of a batch extent the workspace declares what it holds. -/
theorem sound_resize [Zero α] (h : ScratchHandle) (n : Nat) :
    Keeps Sound (resize (α := α) h n) := by
  refine .stored (resize_eq h n) fun w hw _ => ?_
  exact ⟨rfl, hw.inputs, hw.outgoing, hw.outputs, hw.incoming,
    hw.weightGrads,
    forall_mem_modify hw.scratch fun e _ hsized => hsized.resize n⟩

/-- A change of a batch extent touches no weight. -/
theorem weightsSized_resize [Zero α] (h : ScratchHandle) (n : Nat) :
    Keeps WeightsSized (resize (α := α) h n) :=
  keeps_weightsSized (resize_eq h n) fun _ => rfl

end Workspace
end MixtureAttention
