/-
Where a workspace is written. A workspace has places, the parts of buffers
that change by themselves (`Place`), and an outline, which no store changes.
A store that passes its check writes one value to one place (`Write`); a
change of the batch extent writes the three places of a scratch buffer.

Three facts about a write carry everything else: it changes no place but its
own (`Write.frame`), two workspaces that hold the same at a place do so after
it (`SameAt.write`), and at its own place they do whatever they held before
(`Write.settles`).
-/
import MixtureAttention.Proofs.Registry.Conformance

namespace MixtureAttention

variable {α β γ : Type}

/-- The parts of a workspace that stores change. -/
inductive Place
  | input (i : Nat)
  | outgoing (i : Nat)
  | output (i : Nat)
  | incoming (i : Nat)
  /-- The value of a weight. -/
  | weight (i : Nat)
  | weightGrad (i : Nat)
  /-- The request for a scratch buffer, with the current batch extent. -/
  | request (i : Nat)
  /-- The value of a scratch buffer. -/
  | scratch (i : Nat)
  | scratchGrad (i : Nat)
deriving DecidableEq, Repr

/-- The places of a scratch buffer. -/
def ScratchHandle.places (h : ScratchHandle) : List Place :=
  [.request h.index, .scratch h.index, .scratchGrad h.index]

-- ================================================= changes of list entries

/-- A write settles its entry, whatever both lists had there. -/
theorem getElem?_set_settled {l l' : List β} (hlen : l.length = l'.length)
    (i : Nat) (x : β) : (l.set i x)[i]? = (l'.set i x)[i]? := by
  rw [List.getElem?_set, List.getElem?_set, if_pos rfl, if_pos rfl, hlen]

section

variable {es es' : List β} {f : β → γ} {g : β → β} {i j : Nat}

/-- An entry that is not changed keeps all its parts. -/
theorem map_modify_of_ne (hne : i ≠ j) :
    (es.modify i g)[j]?.map f = es[j]?.map f := by
  rw [List.getElem?_modify]
  simp [hne]

/-- A change that overwrites a part makes it the same in two lists of one
length. -/
theorem map_modify_settled (hlen : es.length = es'.length)
    (hg : ∀ e e', es[i]? = some e → es'[i]? = some e' → f (g e) = f (g e')) :
    (es.modify i g)[i]?.map f = (es'.modify i g)[i]?.map f := by
  rw [List.getElem?_modify, List.getElem?_modify]
  by_cases hi : i < es.length
  · have he := List.getElem?_eq_getElem hi
    have he' := List.getElem?_eq_getElem (hlen ▸ hi)
    rw [he, he']
    simpa using hg _ _ he he'
  · rw [List.getElem?_eq_none (Nat.le_of_not_lt hi),
      List.getElem?_eq_none (hlen ▸ Nat.le_of_not_lt hi)]

/-- Changes that agree on an entry change the list alike there. -/
theorem modify_congr_at {g' : β → β} (h : ∀ e, es[i]? = some e → g e = g' e) :
    es.modify i g = es.modify i g' := by
  refine List.ext_getElem? fun j => ?_
  rw [List.getElem?_modify, List.getElem?_modify]
  by_cases hj : i = j
  · subst hj
    cases he : es[i]? with
    | none => rfl
    | some e => simp [h e he]
  · simp [hj]

end

namespace Workspace

-- ============================================================== sameness

/-- What no store changes: the declarations, the requests for weights, which
scratch buffers have a gradient, and the numbers of buffers. -/
structure Outline where
  name : String
  inputDims : List Dims
  outputDims : List Dims
  weights : List WeightDecl
  gradients : List Bool
  inputs : Nat
  outgoing : Nat
  outputs : Nat
  incoming : Nat

def outline (w : Workspace α) : Outline where
  name := w.name
  inputDims := w.inputDims
  outputDims := w.outputDims
  weights := w.weights.map (·.decl)
  gradients := w.scratch.map (·.grad.isSome)
  inputs := w.inputs.length
  outgoing := w.outgoing.length
  outputs := w.outputs.length
  incoming := w.incoming.length

/-- Two workspaces hold the same at a place. -/
def SameAt (w w' : Workspace α) : Place → Prop
  | .input i => w.inputs[i]? = w'.inputs[i]?
  | .outgoing i => w.outgoing[i]? = w'.outgoing[i]?
  | .output i => w.outputs[i]? = w'.outputs[i]?
  | .incoming i => w.incoming[i]? = w'.incoming[i]?
  | .weight i => w.weights[i]?.map (·.value) = w'.weights[i]?.map (·.value)
  | .weightGrad i => w.weights[i]?.map (·.grad) = w'.weights[i]?.map (·.grad)
  | .request i => w.scratch[i]?.map (·.decl) = w'.scratch[i]?.map (·.decl)
  | .scratch i => w.scratch[i]?.map (·.value) = w'.scratch[i]?.map (·.value)
  | .scratchGrad i =>
      w.scratch[i]?.map (·.grad) = w'.scratch[i]?.map (·.grad)

variable {w w' w'' : Workspace α} {X Y : List Place} {q : Place}

theorem SameAt.refl (w : Workspace α) (q : Place) : SameAt w w q := by
  cases q <;> rfl

/-- Agreement at a place goes through a third workspace. -/
theorem SameAt.trans (h : SameAt w w' q) (h' : SameAt w' w'' q) :
    SameAt w w'' q := by
  cases q <;> exact Eq.trans h h'

/-- Being the same at a place does not depend on the order. -/
theorem SameAt.symm (h : SameAt w w' q) : SameAt w' w q := by
  cases q <;> exact Eq.symm h

/-- Two workspaces differ at most at these places. -/
structure SameBut (X : List Place) (w w' : Workspace α) : Prop where
  outline : w.outline = w'.outline
  same : ∀ q, q ∉ X → SameAt w w' q

namespace SameBut

/-- A workspace agrees with itself everywhere. -/
theorem refl (X : List Place) (w : Workspace α) : SameBut X w w :=
  ⟨rfl, fun q _ => .refl w q⟩

/-- Agreement is mutual. -/
theorem symm (h : SameBut X w w') : SameBut X w' w :=
  ⟨h.outline.symm, fun q hq => (h.same q hq).symm⟩

/-- Two changes of the same places are one. -/
theorem trans (h : SameBut X w w') (h' : SameBut X w' w'') :
    SameBut X w w'' :=
  ⟨h.outline.trans h'.outline, fun q hq => (h.same q hq).trans (h'.same q hq)⟩

/-- More places may be left out. -/
theorem mono (h : SameBut X w w') (hsub : X ⊆ Y) : SameBut Y w w' :=
  ⟨h.outline, fun q hq => h.same q fun hmem => hq (hsub hmem)⟩

-- ---------------------------------------------------- what is then read

variable (h : SameBut X w w')

include h

/-- The declared extents of the inputs are no place, so they are the same. -/
theorem inputDims : w.inputDims = w'.inputDims :=
  congrArg Outline.inputDims h.outline

/-- The declared extents of the outputs are no place either. -/
theorem outputDims : w.outputDims = w'.outputDims :=
  congrArg Outline.outputDims h.outline

/-- An input that is left alone is read alike. -/
theorem input {i : InputHandle} (hq : .input i.index ∉ X) :
    w.input i = w'.input i := by
  have hsame : w.inputs[i.index]? = w'.inputs[i.index]? := h.same _ hq
  unfold Workspace.input lookup
  rw [hsame]

/-- A derivative with respect to an output is read alike if it is left alone.
-/
theorem incomingAt {i : Nat} (hq : .incoming i ∉ X) :
    w.incomingAt i = w'.incomingAt i := by
  have hsame : w.incoming[i]? = w'.incoming[i]? := h.same _ hq
  unfold Workspace.incomingAt lookup
  rw [hsame]

/-- A weight that is left alone is read alike. -/
theorem weight {i : WeightHandle} (hq : .weight i.index ∉ X) :
    w.weight i = w'.weight i :=
  lookup_bind_congr (h.same _ hq) .ok

/-- A weight's gradient is read alike if it is left alone. -/
theorem weightGrad {i : WeightHandle} (hq : .weightGrad i.index ∉ X) :
    w.weightGrad i = w'.weightGrad i :=
  lookup_bind_congr (h.same _ hq) .ok

/-- A scratch buffer that is left alone is read alike. -/
theorem scratchValue {i : ScratchHandle} (hq : .scratch i.index ∉ X) :
    w.scratchValue i = w'.scratchValue i :=
  lookup_bind_congr (h.same _ hq) .ok

/-- Its gradient too, if the request stays as well: it decides whether there is
one. -/
theorem scratchGrad {i : ScratchHandle} (hr : .request i.index ∉ X)
    (hq : .scratchGrad i.index ∉ X) : w.scratchGrad i = w'.scratchGrad i := by
  have hdecl : w.scratch[i.index]?.map (·.decl)
      = w'.scratch[i.index]?.map (·.decl) := h.same _ hr
  have hgrad : w.scratch[i.index]?.map (·.grad)
      = w'.scratch[i.index]?.map (·.grad) := h.same _ hq
  unfold Workspace.scratchGrad scratchEntry lookup
  cases he : w.scratch[i.index]? with
  | none =>
      rw [he] at hdecl
      rw [Option.map_eq_none_iff.1 hdecl.symm]
  | some e =>
      rw [he] at hdecl hgrad
      obtain ⟨e', he', hdecl⟩ := Option.map_eq_some_iff.1 hdecl.symm
      rw [he'] at hgrad ⊢
      -- the entries may differ in their values, which are not looked at
      obtain ⟨decl, value, grad⟩ := e
      obtain ⟨decl', value', grad'⟩ := e'
      obtain rfl : decl' = decl := hdecl
      obtain rfl : grad = grad' := Option.some.inj hgrad
      rfl

-- --------------------------------------------------- what is then checked

/-- What fits an input fits it afterwards. -/
theorem fitsInput {i : InputHandle} (hq : .input i.index ∉ X)
    (t : Tensor α) : w.fitsInput i t = w'.fitsInput i t := by
  rw [Workspace.fitsInput, h.input hq]
  rfl

/-- What fits a weight always fits it, since its request is no place. -/
theorem fitsWeight (i : WeightHandle) (t : Tensor α) :
    w.fitsWeight i t = w'.fitsWeight i t := by
  have hdecl : w.weights[i.index]?.map (·.decl)
      = w'.weights[i.index]?.map (·.decl) := by
    rw [← List.getElem?_map, ← List.getElem?_map]
    exact congrArg (·[i.index]?) (congrArg Outline.weights h.outline)
  exact lookup_bind_congr hdecl fun d => checkExact d.dims.toShape t

/-- What fits a scratch buffer fits it as long as its batch extent stays. -/
theorem fitsScratch {i : ScratchHandle} (hq : .request i.index ∉ X)
    (t : Tensor α) : w.fitsScratch i t = w'.fitsScratch i t :=
  lookup_bind_congr (h.same _ hq) fun d => checkExact d.dims.toShape t

end SameBut

-- ================================================================ writes

/-- A value for one place. -/
inductive Write (α : Type)
  | input (h : InputHandle) (t : Tensor α)
  | outgoing (h : InputHandle) (t : Tensor α)
  | output (i : Nat) (t : Tensor α)
  | incoming (i : Nat) (t : Tensor α)
  | weightGrad (h : WeightHandle) (t : Tensor α)
  | request (h : ScratchHandle) (d : ScratchDecl)
  | scratch (h : ScratchHandle) (t : Tensor α)
  /-- For the gradient of a scratch buffer, where it has one. -/
  | scratchGrad (h : ScratchHandle) (t : Tensor α)

namespace Write

/-- The place that is written. -/
def place : Write α → Place
  | input h _ => .input h.index
  | outgoing h _ => .outgoing h.index
  | output i _ => .output i
  | incoming i _ => .incoming i
  | weightGrad h _ => .weightGrad h.index
  | request h _ => .request h.index
  | scratch h _ => .scratch h.index
  | scratchGrad h _ => .scratchGrad h.index

/-- The workspace with the value written. -/
def apply : Write α → Workspace α → Workspace α
  | input h t, w => { w with inputs := w.inputs.set h.index t }
  | outgoing h t, w => w.putOutgoing h t
  | output i t, w => { w with outputs := w.outputs.set i t }
  | incoming i t, w => { w with incoming := w.incoming.set i t }
  | weightGrad h t, w => w.putWeightGrad h t
  | request h d, w =>
      { w with
        scratch := w.scratch.modify h.index fun e => { e with decl := d } }
  | scratch h t, w => w.putScratch h t
  | scratchGrad h t, w =>
      { w with
        scratch := w.scratch.modify h.index fun e =>
          { e with grad := e.grad.map fun _ => t } }

/-- A write does not change the outline. -/
theorem outline_apply (x : Write α) (w : Workspace α) :
    (x.apply w).outline = w.outline := by
  have hscratch : ∀ {f : Scratch α → Scratch α} (i : Nat),
      (∀ e, (f e).grad.isSome = e.grad.isSome) →
        ({ w with scratch := w.scratch.modify i f } : Workspace α).outline
          = w.outline := by
    intro f i hf
    unfold outline
    dsimp only
    rw [map_modify_eq hf]
  cases x with
  | weightGrad h t =>
      unfold apply putWeightGrad outline
      dsimp only
      rw [map_modify_eq (by intro; rfl)]
  | request h d => exact hscratch h.index fun _ => rfl
  | scratch h t => exact hscratch h.index fun _ => rfl
  | scratchGrad h t => exact hscratch h.index fun _ => Option.isSome_map
  | input h t => simp [apply, outline]
  | outgoing h t => simp [apply, putOutgoing, outline]
  | output i t => simp [apply, outline]
  | incoming i t => simp [apply, outline]

/-- A write changes no place but its own. -/
theorem sameAt_apply (x : Write α) (w : Workspace α) (hq : q ≠ x.place) :
    SameAt w (x.apply w) q := by
  have hset : ∀ {l : List (Tensor α)} {i j : Nat} {t : Tensor α}, j ≠ i →
      l[j]? = (l.set i t)[j]? :=
    fun hne => (List.getElem?_set_ne (Ne.symm hne)).symm
  -- a write goes to one list, and there to one index of one field
  cases x with
  | input h t =>
      cases q with
      | input j => exact hset fun hj => hq (congrArg Place.input hj)
      | _ => rfl
  | outgoing h t =>
      cases q with
      | outgoing j => exact hset fun hj => hq (congrArg Place.outgoing hj)
      | _ => rfl
  | output i t =>
      cases q with
      | output j => exact hset fun hj => hq (congrArg Place.output hj)
      | _ => rfl
  | incoming i t =>
      cases q with
      | incoming j => exact hset fun hj => hq (congrArg Place.incoming hj)
      | _ => rfl
  | weightGrad h t =>
      cases q with
      | weight j => exact (map_modify (by intro; rfl) _).symm
      | weightGrad j =>
          have hne : h.index ≠ j := fun hj => hq (congrArg _ hj.symm)
          exact (map_modify_of_ne hne).symm
      | _ => rfl
  | request h d =>
      cases q with
      | request j =>
          have hne : h.index ≠ j := fun hj => hq (congrArg _ hj.symm)
          exact (map_modify_of_ne hne).symm
      | scratch j => exact (map_modify (by intro; rfl) _).symm
      | scratchGrad j => exact (map_modify (by intro; rfl) _).symm
      | _ => rfl
  | scratch h t =>
      cases q with
      | request j => exact (map_modify (by intro; rfl) _).symm
      | scratch j =>
          have hne : h.index ≠ j := fun hj => hq (congrArg _ hj.symm)
          exact (map_modify_of_ne hne).symm
      | scratchGrad j => exact (map_modify (by intro; rfl) _).symm
      | _ => rfl
  | scratchGrad h t =>
      cases q with
      | request j => exact (map_modify (by intro; rfl) _).symm
      | scratch j => exact (map_modify (by intro; rfl) _).symm
      | scratchGrad j =>
          have hne : h.index ≠ j := fun hj => hq (congrArg _ hj.symm)
          exact (map_modify_of_ne hne).symm
      | _ => rfl

/-- A write changes its own place and no other. -/
theorem frame (x : Write α) (w : Workspace α) :
    SameBut [x.place] w (x.apply w) :=
  ⟨(x.outline_apply w).symm, fun _ hq =>
    x.sameAt_apply w fun hmem => hq (List.mem_singleton.2 hmem)⟩

/-- A write makes two workspaces of one outline the same at its place. -/
theorem settles (x : Write α) {w w' : Workspace α}
    (h : w.outline = w'.outline) :
    SameAt (x.apply w) (x.apply w') x.place := by
  have hweights : w.weights.length = w'.weights.length := by
    have hlen := congrArg (fun o => o.weights.length) h
    rwa [outline, outline, List.length_map, List.length_map] at hlen
  have hscratch : w.scratch.length = w'.scratch.length := by
    have hlen := congrArg (fun o => o.gradients.length) h
    rwa [outline, outline, List.length_map, List.length_map] at hlen
  cases x with
  | input i t => exact getElem?_set_settled (congrArg Outline.inputs h) ..
  | outgoing i t =>
      exact getElem?_set_settled (congrArg Outline.outgoing h) ..
  | output i t => exact getElem?_set_settled (congrArg Outline.outputs h) ..
  | incoming i t =>
      exact getElem?_set_settled (congrArg Outline.incoming h) ..
  | weightGrad i t => exact map_modify_settled hweights fun _ _ _ _ => rfl
  | request i d => exact map_modify_settled hscratch fun _ _ _ _ => rfl
  | scratch i t => exact map_modify_settled hscratch fun _ _ _ _ => rfl
  | scratchGrad i t =>
      refine map_modify_settled hscratch fun e e' he he' => ?_
      have hboth := congrArg (fun o => o.gradients[i.index]?) h
      simp only [outline, List.getElem?_map, he, he', Option.map_some,
        Option.some.injEq] at hboth
      cases hgrad : e.grad <;> cases hgrad' : e'.grad <;>
        simp_all

end Write

/-- Two workspaces of one outline that hold the same at a place do so after
any write. -/
theorem SameAt.write (h : SameAt w w' q) (houtline : w.outline = w'.outline)
    (x : Write α) : SameAt (x.apply w) (x.apply w') q := by
  by_cases hq : q = x.place
  · rw [hq]
    exact x.settles houtline
  · exact ((x.sameAt_apply w hq).symm.trans h).trans (x.sameAt_apply w' hq)

-- ====================================================== writes in sequence

/-- The workspace with values written one after the other. -/
def writeAll (xs : List (Write α)) (w : Workspace α) : Workspace α :=
  xs.foldl (fun w x => x.apply w) w

/-- Writes are made in order. -/
theorem writeAll_append (xs ys : List (Write α)) (w : Workspace α) :
    writeAll (xs ++ ys) w = writeAll ys (writeAll xs w) :=
  List.foldl_append ..

/-- Writes within some places change no others. -/
theorem sameBut_writeAll {may : List Place} :
    ∀ {xs : List (Write α)}, (∀ x ∈ xs, x.place ∈ may) →
      ∀ w, SameBut may w (writeAll xs w)
  | [], _, w => .refl may w
  | x :: xs, hxs, w => by
      rw [List.forall_mem_cons] at hxs
      have hfirst : SameBut may w (x.apply w) :=
        (x.frame w).mono (by simpa using hxs.1)
      exact hfirst.trans (sameBut_writeAll hxs.2 _)

/-- The same writes keep two workspaces as much the same as they were. -/
theorem SameBut.writeAll :
    ∀ {xs : List (Write α)} {w w' : Workspace α}, SameBut X w w' →
      SameBut X (writeAll xs w) (writeAll xs w')
  | [], _, _, h => h
  | x :: xs, w, w', h => by
      have hfirst : SameBut X (x.apply w) (x.apply w') :=
        ⟨by rw [x.outline_apply, x.outline_apply, h.outline],
          fun q hq => (h.same q hq).write h.outline x⟩
      exact hfirst.writeAll

/-- Wherever writes are made, they make two workspaces the same. -/
theorem sameAt_writeAll :
    ∀ {xs : List (Write α)} {w w' : Workspace α}, w.outline = w'.outline →
      (∃ x ∈ xs, x.place = q) → SameAt (writeAll xs w) (writeAll xs w') q
  | [], _, _, _, h => by
      obtain ⟨x, hx, -⟩ := h
      cases hx
  | x :: xs, w, w', houtline, h => by
      have hnext : (x.apply w).outline = (x.apply w').outline := by
        rw [x.outline_apply, x.outline_apply, houtline]
      by_cases hq : ∃ y ∈ xs, y.place = q
      · have hrest := sameAt_writeAll hnext hq
        exact hrest
      · obtain ⟨y, hy, hplace⟩ := h
        rcases List.mem_cons.1 hy with rfl | hy
        · -- the place is written first and then not again
          subst hplace
          have hothers : ∀ y ∈ xs, y.place ∈ (xs.map Write.place) :=
            fun y hy => List.mem_map_of_mem hy
          have hnot : y.place ∉ xs.map Write.place := by
            intro hmem
            obtain ⟨z, hz, hsame⟩ := List.mem_map.1 hmem
            exact hq ⟨z, hz, hsame⟩
          have hkeep := fun w : Workspace α =>
            (sameBut_writeAll hothers w).same y.place hnot
          exact ((hkeep _).symm.trans (y.settles houtline)).trans (hkeep _)
        · exact absurd ⟨y, hy, hplace⟩ hq

-- ============================================================ reallocation

/-- The writes that put another scratch buffer in the place of one. -/
def reallocation (h : ScratchHandle) (e : Scratch α) : List (Write α) :=
  [.request h e.decl, .scratch h e.value, .scratchGrad h e.value]

/-- A reallocation writes the request, the buffer and the gradient. -/
theorem place_reallocation (h : ScratchHandle) (e : Scratch α) :
    (reallocation h e).map Write.place = h.places := rfl

section

variable [Zero α] {h : ScratchHandle} (n : Nat)

/-- A handle of no buffer is refused. -/
theorem resize_of_none (hnone : w.scratch[h.index]? = none) :
    resize h n w
      = answered (.error (.invalidHandle .scratch h.index)) w := by
  rw [resize_eq, scratchEntry, lookup, hnone]
  rfl

/-- For another batch extent a buffer is reallocated by writes that are told
by its request. -/
theorem resize_eq_writes {e e' : Scratch α}
    (hsome : w.scratch[h.index]? = some e') (hdecl : e'.decl = e.decl) :
    resize h n w
      = answered (.ok ()) (writeAll (reallocation h (e.resize n)) w) := by
  rw [resize_eq, scratchEntry, lookup_eq_ok.2 hsome]
  unfold writeAll reallocation
  simp only [List.foldl_cons, List.foldl_nil, Write.apply, putScratch,
    List.modify_modify_eq]
  show EStateM.Result.ok () _ = .ok () _
  congr 2
  refine modify_congr_at fun e₀ he₀ => ?_
  rw [hsome] at he₀
  cases he₀
  unfold Scratch.resize
  simp only [Function.comp_apply, hdecl]

end

end Workspace
end MixtureAttention
