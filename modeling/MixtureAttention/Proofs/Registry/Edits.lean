/-
Every workspace that edits lead to. An edit is a call that changes a
workspace without replacing a buffer as a whole: a store that is checked, a
change of a batch extent, the penalties added to the gradients, or a
rewriting of elements in place. From what a blueprint allocates, edits lead
only to workspaces that serve the blueprint (`Serves`), whatever handles and
tensors they are called with and however many of them are refused.

Each edit is a store in the sense of `stored`, so there is one equation for
all of them (`Edit.command_eq`), and a refused edit leaves everything as it
was. What can abort is no outcome at all in `Edit.attempt`. Four of the stores
look one list up and overwrite another, and an index past the end of the
second would be an abort; the invariant gives both lists one length. And a
change of a batch extent allocates, for which the machine must have room. That
is asked of the blueprint and of the extents that are called with
(`Edit.Fits`), and the workspaces that are led to have it.
-/
import Mathlib.Data.List.Forall2
import MixtureAttention.Proofs.Machine.Buffers
import MixtureAttention.Proofs.Registry.Conformance
import MixtureAttention.Registry.Penalty

namespace MixtureAttention

variable {α β γ : Type}

-- ============================================================== requests

/-- The same declarations and requests, but for the batch extents of the
scratch buffers. -/
structure Blueprint.Resized (b b' : Blueprint) : Prop where
  name : b'.name = b.name
  inputs : b'.inputs = b.inputs
  outputs : b'.outputs = b.outputs
  weights : b'.weights = b.weights
  scratch : List.Forall₂ (fun d d' => d' = d.atBatch d'.dims.batch)
    b.scratch b'.scratch

/-- A blueprint is one of its own variants. -/
theorem Blueprint.Resized.refl (b : Blueprint) : b.Resized b :=
  ⟨rfl, rfl, rfl, rfl, List.forall₂_same.2 fun _ _ => rfl⟩

/-- A request differs from the one in its place by its batch extent alone. -/
theorem Blueprint.Resized.getElem? {b b' : Blueprint} (h : b.Resized b')
    {i : Nat} {d' : ScratchDecl} (hd' : b'.scratch[i]? = some d') :
    ∃ d, b.scratch[i]? = some d ∧ ∀ n, d'.atBatch n = d.atBatch n := by
  obtain ⟨hi, rfl⟩ := List.getElem?_eq_some_iff.1 hd'
  have hi' : i < b.scratch.length := h.scratch.length_eq ▸ hi
  have hd := (List.forall₂_iff_get.1 h.scratch).2 i hi' hi
  refine ⟨b.scratch[i], List.getElem?_eq_getElem hi', fun n => ?_⟩
  rw [List.get_eq_getElem, List.get_eq_getElem] at hd
  rw [hd]
  rfl

/-- What holds of two lists entry by entry still does after a change of one
entry that keeps it. -/
theorem forall₂_modify {R : β → γ → Prop} {ds : List β} {es : List γ}
    (h : List.Forall₂ R ds es) {f : γ → γ} (hf : ∀ d e, R d e → R d (f e)) :
    ∀ i, List.Forall₂ R ds (es.modify i f) := by
  induction h with
  | nil =>
      intro i
      rw [List.modify_nil]
      exact .nil
  | @cons d e ds es hde hrest ih =>
      intro i
      cases i with
      | zero => exact .cons (hf d e hde) hrest
      | succ i => exact .cons hde (ih i)

/-- A change of one entry, seen through a map that takes it to another
change. -/
theorem map_modify_of_comm {f : β → β} {f' : γ → γ} {g : β → γ}
    (h : ∀ e, g (f e) = f' (g e)) (es : List β) (i : Nat) :
    (es.modify i f).map g = (es.map g).modify i f' := by
  refine List.ext_getElem? fun j => ?_
  rw [List.getElem?_map, List.getElem?_modify, List.getElem?_modify,
    List.getElem?_map]
  cases es[j]? with
  | none => rfl
  | some e => by_cases hij : i = j <;> simp [hij, h]

-- ================================================================= edits

/-- A rewriting of elements: the extents of a tensor stay. -/
structure Rewriting (α : Type) where
  apply : Tensor α → Tensor α
  shape_apply : ∀ t, (apply t).shape = t.shape

namespace Workspace

/-- The calls that change a workspace and replace no buffer unchecked. -/
inductive Edit (α : Type)
  | setInput (h : InputHandle) (t : Tensor α)
  | setOutgoing (h : InputHandle) (t : Tensor α)
  | setOutput (index : Nat) (t : Tensor α)
  | setIncoming (index : Nat) (t : Tensor α)
  | setWeightGrad (h : WeightHandle) (t : Tensor α)
  | setScratch (h : ScratchHandle) (t : Tensor α)
  | setScratchGrad (h : ScratchHandle) (t : Tensor α)
  | resize (h : ScratchHandle) (batch : Nat)
  | regularize
  | rewriteWeight (h : WeightHandle) (f : Rewriting α)
  | rewriteScratch (h : ScratchHandle) (f : Rewriting α)

/-- Rewrites the elements of a weight. -/
def rewriteWeight (h : WeightHandle) (f : Rewriting α) :
    Command α Unit := do
  let _ ← inspect (·.weightEntry h)
  modifyWeight h fun e => { e with value := f.apply e.value }

/-- Rewrites the elements of a scratch buffer. -/
def rewriteScratch (h : ScratchHandle) (f : Rewriting α) :
    Command α Unit := do
  let _ ← inspect (·.scratchEntry h)
  modifyScratch h fun e => { e with value := f.apply e.value }

namespace Edit

variable [Scalar α]

/-- The command that is called. -/
def command : Edit α → Command α Unit
  | setInput h t => Workspace.setInput h t
  | setOutgoing h t => Workspace.setOutgoing h t
  | setOutput i t => Workspace.setOutput i t
  | setIncoming i t => Workspace.setIncoming i t
  | setWeightGrad h t => Workspace.setWeightGrad h t
  | setScratch h t => Workspace.setScratch h t
  | setScratchGrad h t => Workspace.setScratchGrad h t
  | resize h n => Workspace.resize h n
  | regularize => modify applyRegularization
  | rewriteWeight h f => Workspace.rewriteWeight h f
  | rewriteScratch h f => Workspace.rewriteScratch h f

omit [Scalar α] in
/-- What an edit looks at before it changes anything. -/
def check : Edit α → Workspace α → Except LayerError Unit
  | setInput h t, w => do
      checkBeyondBatch (← lookup .input w.inputDims h.index) t
  | setOutgoing h t, w => w.fitsInput h t
  | setOutput i t, w => do
      checkBeyondBatch (← lookup .output w.outputDims i) t
  | setIncoming i t, w => do
      checkBeyondBatch (← lookup .output w.outputDims i) t
  | setWeightGrad h t, w => w.fitsWeight h t
  | setScratch h t, w => w.fitsScratch h t
  | setScratchGrad h t, w => do w.fitsScratch h t; let _ ← w.scratchGrad h
  | resize h _, w => w.scratchEntry h >>= fun _ => .ok ()
  | regularize, _ => .ok ()
  | rewriteWeight h _, w => w.weightEntry h >>= fun _ => .ok ()
  | rewriteScratch h _, w => w.scratchEntry h >>= fun _ => .ok ()

/-- The workspace after an edit that was not refused. -/
def next : Edit α → Workspace α → Workspace α
  | setInput h t, w => { w with inputs := w.inputs.set h.index t }
  | setOutgoing h t, w => w.putOutgoing h t
  | setOutput i t, w => { w with outputs := w.outputs.set i t }
  | setIncoming i t, w => { w with incoming := w.incoming.set i t }
  | setWeightGrad h t, w => w.putWeightGrad h t
  | setScratch h t, w => w.putScratch h t
  | setScratchGrad h t, w => w.putScratchGrad h t
  | resize h n, w =>
      { w with scratch := w.scratch.modify h.index (·.resize n) }
  | regularize, w => w.applyRegularization
  | rewriteWeight h f, w =>
      { w with
        weights := w.weights.modify h.index fun e =>
          { e with value := f.apply e.value } }
  | rewriteScratch h f, w =>
      { w with
        scratch := w.scratch.modify h.index fun e =>
          { e with value := f.apply e.value } }

/-- Every edit is a store. -/
theorem command_eq (e : Edit α) (w : Workspace α) :
    e.command w = stored (e.check w) w (e.next w) := by
  cases e with
  | setInput h t => exact setInput_eq h t w
  | setOutgoing h t => exact setOutgoing_eq h t w
  | setOutput i t => exact setOutput_eq i t w
  | setIncoming i t => exact setIncoming_eq i t w
  | setWeightGrad h t => exact setWeightGrad_eq h t w
  | setScratch h t => exact setScratch_eq h t w
  | setScratchGrad h t => exact setScratchGrad_eq h t w
  | resize h n => exact resize_eq h n w
  | regularize => rfl
  | rewriteWeight h f => exact inspect_entry_modify ..
  | rewriteScratch h f => exact inspect_entry_modify ..

/-- A refused edit leaves the workspace as it was. -/
theorem unchanged_of_error {e : Edit α} {w w' : Workspace α}
    {err : LayerError} (h : e.command w = .error err w') : w' = w := by
  rw [command_eq] at h
  unfold stored at h
  cases hcheck : e.check w with
  | error err' =>
      rw [hcheck] at h
      injection h with _ h
      exact h.symm
  | ok _ =>
      rw [hcheck] at h
      cases h

end Edit

/-- The workspace that a list of edits leaves, refused or not. -/
def edited [Scalar α] (edits : List (Edit α)) (w : Workspace α) :
    Workspace α :=
  edits.foldl (fun w e => left e.command w) w

-- ============================================================= no aborts

/-- A list with one entry overwritten. There is none for an index past the
end. -/
def overwrite? (l : List β) (i : Nat) (x : β) : Option (List β) :=
  if i < l.length then some (l.set i x) else none

/-- Within the list a write succeeds. -/
theorem overwrite?_of_lt {l : List β} {i : Nat} (h : i < l.length) (x : β) :
    overwrite? l i x = some (l.set i x) := if_pos h

/-- The outcome of a store whose write may abort, which is no outcome. -/
def attempted (check : Except LayerError Unit) (w : Workspace α)
    (next : Option (Workspace α)) :
    Option (EStateM.Result LayerError (Workspace α) Unit) :=
  match check with
  | .ok _ => next.map (.ok ())
  | .error e => some (.error e w)

/-- A write that succeeds whenever the check passes never aborts. -/
theorem attempted_eq {check : Except LayerError Unit} {w w' : Workspace α}
    {next : Option (Workspace α)} (h : check = .ok () → next = some w') :
    attempted check w next = some (stored check w w') := by
  unfold attempted stored
  cases check with
  | error e => rfl
  | ok _ =>
      rw [h rfl]
      rfl

/-- An edit, where a write by index aborts past the end of the list, and so
does an allocation that the machine has no room for. The edits of weights and
scratch buffers change the entry that they looked up. -/
def Edit.attempt [Scalar α] (e : Edit α) (w : Workspace α) :
    Option (EStateM.Result LayerError (Workspace α) Unit) :=
  match e with
  | setInput h t =>
      attempted (e.check w) w
        ((overwrite? w.inputs h.index t).map fun inputs =>
          { w with inputs })
  | setOutgoing h t =>
      attempted (e.check w) w
        ((overwrite? w.outgoing h.index t).map fun outgoing =>
          { w with outgoing })
  | setOutput i t =>
      attempted (e.check w) w
        ((overwrite? w.outputs i t).map fun outputs => { w with outputs })
  | setIncoming i t =>
      attempted (e.check w) w
        ((overwrite? w.incoming i t).map fun incoming => { w with incoming })
  | resize h n => attempted (e.check w) w (w.resized? h n)
  | _ => some (e.command w)

/-- The machine has room for the buffer with the batch extent that is asked
for. No other edit allocates a buffer of extents that are new. -/
def Edit.Fits (b : Blueprint) : Edit α → Prop
  | resize h n => ∀ d, b.scratch[h.index]? = some d →
      (d.atBatch n).dims.toShape.Addressable
  | _ => True

-- ========================================================= the invariant

/-- What the workspace is declared to serve is what the blueprint says, but
for the batch extents of scratch buffers. The machine can hold it, and every
buffer has the extents that it is declared to have. -/
def Kept (b : Blueprint) (w : Workspace α) : Prop :=
  (∃ b', b.Resized b' ∧ b'.Addressable ∧ w.Conforms b') ∧ w.WeightsSized

/-- What a build allocates has the invariant, if there is room for it. -/
theorem kept_build [Scalar α] {b : Blueprint} (hb : b.Addressable)
    (g : Generator) (seed : UInt64) : Kept b (b.build (α := α) g seed) :=
  ⟨⟨b, .refl b, hb, conforms_build b g seed⟩, weightsSized_build b g seed⟩

variable {b : Blueprint} {w : Workspace α}

/-- A command that keeps to whatever the workspace is declared to serve. -/
theorem Keeps.kept {c : Command α Unit}
    (hconforms : ∀ b', Keeps (Conforms b') c) (hsized : Keeps WeightsSized c) :
    Keeps (Kept b) c := by
  rintro w ⟨⟨b', hresized, hb', hw⟩, hweights⟩
  exact ⟨⟨b', hresized, hb', hconforms b' w hw⟩, hsized w hweights⟩

/-- The one change of what is declared. -/
theorem declared_resized [Zero α] (w : Workspace α) (i n : Nat) :
    ({ w with scratch := w.scratch.modify i (·.resize n) }).declared
      = { w.declared with
          scratch := w.declared.scratch.modify i (·.atBatch n) } := by
  have hmap : (w.scratch.modify i (·.resize n)).map (·.decl)
      = (w.scratch.map (·.decl)).modify i (·.atBatch n) := by
    refine map_modify_of_comm ?_ _ _
    exact fun _ => rfl
  unfold declared
  dsimp only
  rw [hmap]

/-- Another batch extent of one buffer, if the machine has room for it. -/
theorem kept_resize [Zero α] {h : ScratchHandle} {n : Nat}
    (hfits : (Edit.resize h n : Edit α).Fits b) :
    Keeps (Kept b) (resize (α := α) h n) := by
  rintro w ⟨⟨b', hresized, hb', hw⟩, hweights⟩
  have hsound := sound_resize h n w hw.sound
  refine ⟨⟨_, ?_, ?_, hsound⟩, weightsSized_resize h n w hweights⟩ <;>
    (have hdeclared := hw.declared
     subst hdeclared
     unfold left
     rw [resize_eq])
  · cases w.scratchEntry h with
    | error e => exact hresized
    | ok _ =>
        show b.Resized (declared { w with
          scratch := w.scratch.modify h.index (·.resize n) })
        rw [declared_resized]
        refine ⟨hresized.name, hresized.inputs, hresized.outputs,
          hresized.weights, forall₂_modify hresized.scratch ?_ h.index⟩
        rintro d _ hd
        rw [hd]
        rfl
  · cases w.scratchEntry h with
    | error e => exact hb'
    | ok _ =>
        show (declared { w with
          scratch := w.scratch.modify h.index (·.resize n) }).Addressable
        rw [declared_resized]
        rw [Blueprint.addressable_iff] at hb' ⊢
        refine ⟨hb'.1, hb'.2.1, hb'.2.2.1, ?_⟩
        refine forall_mem_modify hb'.2.2.2 fun d' hd' _ => ?_
        obtain ⟨d, hd, hsame⟩ := hresized.getElem? hd'
        rw [hsame]
        exact hfits d hd

/-- A penalty changes elements of gradients and nothing else. -/
theorem regularized_entry [Scalar α] (e : Weight α) :
    let e' := if e.decl.trainable && e.isPenalised then
      { e with grad := e.penalisedGrad } else e
    e'.decl = e.decl ∧ e'.value = e.value
      ∧ e'.grad.shape = e.grad.shape := by
  dsimp only
  split <;> exact ⟨rfl, rfl, rfl⟩

/-- Adding the penalties changes no extents. -/
theorem conforms_regularize [Scalar α] (hw : Conforms b w) :
    Conforms b w.applyRegularization := by
  refine ⟨?_, hw.inputs, hw.outgoing, hw.outputs, hw.incoming, ?_,
    hw.scratch⟩
  · refine Eq.trans ?_ hw.declared
    unfold declared applyRegularization
    dsimp only
    rw [List.map_map]
    congr 1
    exact List.map_congr_left fun e _ => (regularized_entry e).1
  · intro e' he'
    obtain ⟨e, he, rfl⟩ := List.mem_map.1 he'
    obtain ⟨hdecl, -, hgrad⟩ := regularized_entry e
    rw [hdecl, hgrad]
    exact hw.weightGrads e he

/-- Adding the penalties changes the extents of no weight. -/
theorem weightsSized_regularize [Scalar α] (hw : w.WeightsSized) :
    w.applyRegularization.WeightsSized := by
  intro e' he'
  obtain ⟨e, he, rfl⟩ := List.mem_map.1 he'
  obtain ⟨hdecl, hvalue, -⟩ := regularized_entry e
  rw [hdecl, hvalue]
  exact hw e he

/-- Rewritten in place, a weight keeps its extents. -/
theorem keeps_rewriteWeight (h : WeightHandle) (f : Rewriting α) :
    Keeps (Conforms b) (rewriteWeight h f) :=
  .stored (fun _ => inspect_entry_modify ..) fun _ hw _ =>
    hw.modifyWeight (fun _ => rfl) fun _ _ hgrad => hgrad

/-- A weight that is rewritten keeps the requested extents. -/
theorem weightsSized_rewriteWeight (h : WeightHandle) (f : Rewriting α) :
    Keeps WeightsSized (rewriteWeight h f) :=
  .stored (fun _ => inspect_entry_modify ..) fun _ hw _ =>
    forall_mem_modify hw fun e _ he => (f.shape_apply e.value).trans he

/-- Rewritten in place, a scratch buffer keeps its extents. -/
theorem keeps_rewriteScratch (h : ScratchHandle) (f : Rewriting α) :
    Keeps (Conforms b) (rewriteScratch h f) := by
  refine .stored (fun _ => inspect_entry_modify ..) fun w hw _ => ?_
  refine hw.modifyScratch (fun _ => rfl) fun e _ he => ?_
  exact ⟨(f.shape_apply e.value).trans he.value, he.grad, he.hasGrad⟩

namespace Edit

/-- Whether the edit changes a batch extent. -/
def isResize : Edit α → Bool
  | resize _ _ => true
  | _ => false

/-- An edit that changes no batch extent keeps to whatever the workspace is
declared to serve, refused or not. -/
theorem keeps_conforms [Scalar α] {e : Edit α} (he : e.isResize = false) :
    Keeps (Conforms b) e.command := by
  cases e with
  | setInput h t => exact keeps_setInput h t
  | setOutgoing h t => exact keeps_setOutgoing h t
  | setOutput i t => exact keeps_setOutput i t
  | setIncoming i t => exact keeps_setIncoming i t
  | setWeightGrad h t => exact keeps_setWeightGrad h t
  | setScratch h t => exact keeps_setScratch h t
  | setScratchGrad h t => exact keeps_setScratchGrad h t
  | resize h n => cases he
  | regularize => exact fun _ => conforms_regularize
  | rewriteWeight h f => exact keeps_rewriteWeight h f
  | rewriteScratch h f => exact keeps_rewriteScratch h f

/-- No edit changes the extents of a weight. -/
theorem keeps_sized [Scalar α] (e : Edit α) :
    Keeps WeightsSized e.command := by
  cases e with
  | setInput h t => exact keeps_weightsSized (setInput_eq h t) fun _ => rfl
  | setOutgoing h t =>
      exact keeps_weightsSized (setOutgoing_eq h t) fun _ => rfl
  | setOutput i t => exact keeps_weightsSized (setOutput_eq i t) fun _ => rfl
  | setIncoming i t =>
      exact keeps_weightsSized (setIncoming_eq i t) fun _ => rfl
  | setWeightGrad h t => exact weightsSized_setWeightGrad h t
  | setScratch h t =>
      exact keeps_weightsSized (setScratch_eq h t) fun _ => rfl
  | setScratchGrad h t =>
      exact keeps_weightsSized (setScratchGrad_eq h t) fun _ => rfl
  | resize h n => exact weightsSized_resize h n
  | regularize => exact fun _ => weightsSized_regularize
  | rewriteWeight h f => exact weightsSized_rewriteWeight h f
  | rewriteScratch h f =>
      exact keeps_weightsSized (fun _ => inspect_entry_modify ..)
        fun _ => rfl

end Edit

/-- One edit keeps the invariant, refused or not. -/
theorem kept_edit [Scalar α] {e : Edit α} (hfits : e.Fits b) :
    Keeps (Kept b) e.command := by
  cases he : e.isResize with
  | false => exact .kept (fun _ => e.keeps_conforms he) e.keeps_sized
  | true =>
      cases e with
      | resize h n => exact kept_resize hfits
      | _ => cases he

/-- Edits keep the invariant, by induction on their list. -/
theorem kept_edited [Scalar α] (edits : List (Edit α)) :
    (∀ e ∈ edits, e.Fits b) → ∀ {w : Workspace α}, Kept b w →
      Kept b (w.edited edits) := by
  induction edits with
  | nil => exact fun _ _ hw => hw
  | cons e edits ih =>
      intro hfits w hw
      rw [List.forall_mem_cons] at hfits
      exact ih hfits.2 (kept_edit hfits.1 _ hw)

/-- With lists of equal lengths no write goes past the end of one, and what
is allocated is a request with the batch extent that is asked for. -/
theorem Kept.attempt [Scalar α] (hw : Kept b w) {e : Edit α}
    (hfits : e.Fits b) : e.attempt w = some (e.command w) := by
  obtain ⟨⟨b', hresized, -, hconforms⟩, -⟩ := hw
  -- a check that passes has found an entry at the index
  have hbelow : ∀ {kind : HandleKind} {γ : Type} {ds : List γ} {i : Nat}
      {f : γ → Except LayerError Unit},
      (lookup kind ds i >>= f) = .ok () → i < ds.length := by
    intro kind γ ds i f h
    obtain ⟨d, hd, -⟩ := lookup_bind_eq_ok.1 h
    exact (List.getElem?_eq_some_iff.1 hd).1
  rw [Edit.command_eq]
  cases e with
  | setInput h t =>
      refine attempted_eq fun hcheck => ?_
      have hlt := hbelow hcheck
      rw [← hconforms.inputs.length] at hlt
      rw [overwrite?_of_lt hlt]
      rfl
  | setOutgoing h t =>
      refine attempted_eq fun hcheck => ?_
      have hlt := hbelow hcheck
      rw [hconforms.inputs.length, ← hconforms.outgoing.length] at hlt
      rw [overwrite?_of_lt hlt]
      rfl
  | setOutput i t =>
      refine attempted_eq fun hcheck => ?_
      have hlt := hbelow hcheck
      rw [← hconforms.outputs.length] at hlt
      rw [overwrite?_of_lt hlt]
      rfl
  | setIncoming i t =>
      refine attempted_eq fun hcheck => ?_
      have hlt := hbelow hcheck
      rw [← hconforms.incoming.length] at hlt
      rw [overwrite?_of_lt hlt]
      rfl
  | resize h n =>
      refine attempted_eq fun hcheck => ?_
      obtain ⟨e, he, -⟩ := lookup_bind_eq_ok.1 hcheck
      have hdecl : b'.scratch[h.index]? = some e.decl := by
        rw [← hconforms.declared]
        show (w.scratch.map (·.decl))[h.index]? = _
        rw [List.getElem?_map, he]
        rfl
      obtain ⟨d, hd, hsame⟩ := hresized.getElem? hdecl
      exact resized?_of_addressable he (hsame n ▸ hfits d hd)
  | _ => exact congrArg some (Edit.command_eq _ w)

end Workspace

-- ============================================== what the invariant says

/-- The weight that was requested, with value and gradient of exactly the
extents of the request. -/
structure Weight.Serves (d : WeightDecl) (e : Weight α) : Prop where
  decl : e.decl = d
  value : e.value.shape = d.dims.toShape
  grad : e.grad.shape = d.dims.toShape

/-- The scratch buffer that was requested, but for the batch extent. Buffer
and gradient have exactly the extents that are current, and there is a
gradient exactly if one was requested. -/
structure Scratch.Serves (d : ScratchDecl) (e : Scratch α) : Prop where
  decl : e.decl = d.atBatch e.decl.dims.batch
  value : e.value.shape = e.decl.dims.toShape
  grad : ∀ {t : Tensor α}, e.grad = some t → t.shape = e.decl.dims.toShape
  hasGrad : e.grad.isSome = d.hasGrad

namespace Workspace

/-- The workspace has the buffers that the blueprint declares and requests.
Inputs, outputs and their derivatives have the declared extents beyond the
batch. The machine can hold every buffer with the extents that are
current. -/
structure Serves (b : Blueprint) (w : Workspace α) : Prop where
  name : w.name = b.name
  inputDims : w.inputDims = b.inputs
  outputDims : w.outputDims = b.outputs
  inputs : Match b.inputs w.inputs
  outgoing : Match b.inputs w.outgoing
  outputs : Match b.outputs w.outputs
  incoming : Match b.outputs w.incoming
  weights : List.Forall₂ Weight.Serves b.weights w.weights
  scratch : List.Forall₂ Scratch.Serves b.scratch w.scratch
  addressable : w.declared.Addressable

variable {b : Blueprint} {w : Workspace α}

/-- The invariant, spelled out for each kind of buffer. -/
theorem Kept.serves (hw : Kept b w) : w.Serves b := by
  obtain ⟨⟨b', hresized, hb', hconforms⟩, hweights⟩ := hw
  have hdeclared := hconforms.declared
  subst hdeclared
  have hinputs : w.inputDims = b.inputs := hresized.inputs
  have houtputs : w.outputDims = b.outputs := hresized.outputs
  refine ⟨hresized.name, hinputs, houtputs, hinputs ▸ hconforms.inputs,
    hinputs ▸ hconforms.outgoing, houtputs ▸ hconforms.outputs,
    houtputs ▸ hconforms.incoming, ?_, ?_, hb'⟩
  · have hdecls : w.weights.map (·.decl) = b.weights := hresized.weights
    rw [← hdecls, List.forall₂_map_left_iff, List.forall₂_same]
    exact fun e he => ⟨rfl, hweights e he, hconforms.weightGrads e he⟩
  · have hpairs : List.Forall₂
        (fun d (e : Scratch α) => e.decl = d.atBatch e.decl.dims.batch)
        b.scratch w.scratch := List.forall₂_map_right_iff.1 hresized.scratch
    have hsized := hconforms.scratch
    -- entry by entry along the requests
    clear hconforms hresized hb'
    generalize b.scratch = ds, w.scratch = es at hpairs hsized ⊢
    induction hpairs with
    | nil => exact .nil
    | @cons d e ds es hdecl hrest ih =>
        rw [List.forall_mem_cons] at hsized
        refine .cons ⟨hdecl, hsized.1.value, hsized.1.grad, ?_⟩ (ih hsized.2)
        rw [hsized.1.hasGrad, hdecl]
        rfl

/-- Whatever edits are called on what a blueprint allocates, the workspace
serves the blueprint; no edit called next aborts, and one that is refused
leaves the workspace as it is. The machine must have room for what the
blueprint requests, and for the buffers with the batch extents that are called
with; then the blueprint is allocated, and the workspace never needs more than
there is room for. -/
theorem serves_after_edits [Scalar α] {b : Blueprint} (hb : b.Addressable)
    (g : Generator) (seed : UInt64) {edits : List (Edit α)}
    (hedits : ∀ e ∈ edits, e.Fits b) :
    Machine.Allocates α b.dims
      ∧ ((b.build g seed).edited edits).Serves b
      ∧ ∀ e : Edit α, e.Fits b →
          e.attempt ((b.build g seed).edited edits)
            = some (e.command ((b.build g seed).edited edits))
          ∧ ∀ err w, e.command ((b.build g seed).edited edits) = .error err w →
              w = (b.build g seed).edited edits := by
  have hkept := kept_edited edits hedits (kept_build hb g seed)
  exact ⟨Machine.HasRoom.allocates hb, hkept.serves, fun e he =>
    ⟨hkept.attempt he, fun _ _ => Edit.unchanged_of_error⟩⟩

/-- A buffer with a gradient, for a batch of two that becomes one of five. A
store that still has the old extent is refused, and changes nothing. -/
theorem serves_after_edits_enlarged :
    let b : Blueprint :=
      { name := "attention"
        inputs := [⟨2, 1, 1, 3⟩]
        outputs := [⟨2, 1, 1, 1⟩]
        weights := [⟨"attention:fc", ⟨1, 1, 3, 6⟩, .ones, .l2, 0.5, true⟩]
        scratch := [⟨"attention:packed", ⟨2, 1, 1, 6⟩, true, .iteration⟩] }
    let w : Workspace Float := (b.build .splitMix 0).edited
      [.resize ⟨0⟩ 5, .setInput ⟨0⟩ (.full [4, 1, 1, 3] 1), .regularize]
    let late : Edit Float := .setScratch ⟨0⟩ (.full [2, 1, 1, 6] 1)
    w.Serves b ∧ w.scratch.map (·.value.shape) = [[5, 1, 1, 6]]
      ∧ w.inputs.map (·.shape) = [[4, 1, 1, 3]]
      ∧ ∃ err, late.attempt w = some (.error err w) := by
  intro b w late
  have hedits : ∀ e ∈ ([.resize ⟨0⟩ 5, .setInput ⟨0⟩ (.full [4, 1, 1, 3] 1),
      .regularize] : List (Edit Float)), e.Fits b := by
    have hfits : Edit.Fits b (.resize ⟨0⟩ 5 : Edit Float) := by
      rintro _ ⟨⟩
      decide
    simp only [List.forall_mem_cons]
    exact ⟨hfits, trivial, trivial, List.forall_mem_nil _⟩
  obtain ⟨-, hserves, hnext⟩ := serves_after_edits (b := b) (by decide)
    .splitMix 0 hedits
  obtain ⟨err, w', hlate⟩ : ∃ err w', late.command w = .error err w' :=
    ⟨_, _, rfl⟩
  obtain ⟨hattempt, hsame⟩ := hnext late trivial
  refine ⟨hserves, rfl, rfl, err, ?_⟩
  obtain rfl : w' = w := hsame err w' hlate
  exact hattempt.trans (congrArg some hlate)

end Workspace
end MixtureAttention
