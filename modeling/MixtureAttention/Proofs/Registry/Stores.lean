/-
What the commands of a workspace do. Every store has one form, stated once
as `stored`: a check that reads the workspace, and the next workspace if
the check passes. `setInput_eq` and its siblings give each command in that
form, and no later proof unfolds a command.

The second half is about storing several buffers one after the other. A
position that is written twice keeps the last value, so a sequence of
writes that is run again changes nothing (`overlay_overlay`), whether or
not the positions are distinct.
-/
import MixtureAttention.Proofs.Sequencing
import MixtureAttention.Registry.Workspace

namespace MixtureAttention.Workspace

variable {α β γ δ : Type}

-- ============================================================== look-ups

section

variable {kind : HandleKind} {es es' : List β} {i : Nat}

/-- A lookup succeeds with the entry at the position. -/
theorem lookup_eq_ok {e : β} :
    lookup kind es i = .ok e ↔ es[i]? = some e := by
  unfold lookup
  cases es[i]? with
  | none => exact ⟨nofun, nofun⟩
  | some e' =>
      constructor
      · rintro ⟨⟩
        rfl
      · rintro ⟨⟩
        rfl

/-- What is read off an entry is read off one that is there. -/
theorem lookup_bind_eq_ok {g : β → Except LayerError γ} {x : γ} :
    (lookup kind es i >>= g) = .ok x ↔ ∃ e, es[i]? = some e ∧ g e = .ok x := by
  unfold lookup
  cases es[i]? with
  | none => exact ⟨nofun, fun ⟨_, he, _⟩ => nomatch he⟩
  | some e =>
      constructor
      · exact fun hx => ⟨e, rfl, hx⟩
      · rintro ⟨e', he, hx⟩
        cases he
        exact hx

/-- A reader that looks at one part of an entry reads the same from entries
that agree there. -/
theorem lookup_bind_congr {f : β → γ} (h : es[i]?.map f = es'[i]?.map f)
    (g : γ → Except LayerError δ) :
    (lookup kind es i >>= fun e => g (f e))
      = (lookup kind es' i >>= fun e => g (f e)) := by
  unfold lookup
  cases he : es[i]? with
  | none =>
      rw [he] at h
      cases he' : es'[i]? with
      | none => rfl
      | some e' =>
          rw [he'] at h
          cases h
  | some e =>
      rw [he] at h
      obtain ⟨e', he', hsame⟩ := Option.map_eq_some_iff.1 h.symm
      rw [he']
      show g (f e) = g (f e')
      rw [hsame]

/-- A change of one entry does not show in a part that it keeps. -/
theorem map_modify {f : β → γ} {g : β → β} (h : ∀ e, f (g e) = f e)
    (j : Nat) : (es.modify j g)[i]?.map f = es[i]?.map f := by
  rw [List.getElem?_modify]
  by_cases hj : j = i
  · simp [hj, Function.comp_def, h]
  · simp [hj]

end

-- ================================================== the form of a store

/-- The outcome of a store: the next workspace if the check passed, and
the workspace as it was otherwise. -/
def stored (check : Except LayerError Unit) (w next : Workspace α) :
    EStateM.Result LayerError (Workspace α) Unit :=
  match check with
  | .ok _ => .ok () next
  | .error e => .error e w

/-- A check followed by a change is a store. -/
theorem inspect_modify (check : Workspace α → Except LayerError Unit)
    (f : Workspace α → Workspace α) (w : Workspace α) :
    (do inspect check; modify f : Command α Unit) w
      = stored (check w) w (f w) := by
  show EStateM.bind (inspect check) (fun _ => modify f) w = _
  unfold EStateM.bind inspect stored
  cases check w <;> rfl

/-- A look-up followed by a change is a store. -/
theorem inspect_entry_modify (look : Workspace α → Except LayerError β)
    (f : Workspace α → Workspace α) (w : Workspace α) :
    (do let _ ← inspect look; modify f : Command α Unit) w
      = stored (look w >>= fun _ => .ok ()) w (f w) := by
  show EStateM.bind (inspect look) (fun _ => modify f) w = _
  unfold EStateM.bind inspect stored
  cases look w <;> rfl

/-- A check and a look-up followed by a change are a store. -/
theorem inspect_inspect_modify (check : Workspace α → Except LayerError Unit)
    (look : Workspace α → Except LayerError β)
    (f : Workspace α → Workspace α) (w : Workspace α) :
    (do inspect check; let _ ← inspect look; modify f : Command α Unit) w
      = stored (do check w; let _ ← look w) w (f w) := by
  show EStateM.bind (inspect check) (fun _ => EStateM.bind (inspect look)
    fun _ => modify f) w = _
  unfold EStateM.bind inspect stored
  cases check w with
  | error e => rfl
  | ok _ =>
      dsimp only
      rw [ok_bind]
      cases look w with
      | error e => rfl
      | ok x => rfl

-- ============================================================ each store

/-- Storing an input is a guarded store: of its extents only the batch axis is
left unchecked. -/
theorem setInput_eq (h : InputHandle) (t : Tensor α) (w : Workspace α) :
    setInput h t w
      = stored (do checkBeyondBatch (← lookup .input w.inputDims h.index) t)
          w { w with inputs := w.inputs.set h.index t } :=
  inspect_modify ..

/-- Whether a tensor has the extents of the input that is stored. -/
def fitsInput (w : Workspace α) (h : InputHandle) (t : Tensor α) :
    Except LayerError Unit := do
  checkExact (← w.input h).shape t

/-- The workspace with the derivative with respect to an input
overwritten. -/
def putOutgoing (h : InputHandle) (t : Tensor α) (w : Workspace α) :
    Workspace α :=
  { w with outgoing := w.outgoing.set h.index t }

/-- An outgoing derivative must have all extents of its input. -/
theorem setOutgoing_eq (h : InputHandle) (t : Tensor α) (w : Workspace α) :
    setOutgoing h t w = stored (w.fitsInput h t) w (w.putOutgoing h t) :=
  inspect_modify ..

/-- An output is checked like an input, by everything but its batch. -/
theorem setOutput_eq (i : Nat) (t : Tensor α) (w : Workspace α) :
    setOutput i t w
      = stored (do checkBeyondBatch (← lookup .output w.outputDims i) t)
          w { w with outputs := w.outputs.set i t } :=
  inspect_modify ..

/-- The derivative that arrives for an output is checked like the output. -/
theorem setIncoming_eq (i : Nat) (t : Tensor α) (w : Workspace α) :
    setIncoming i t w
      = stored (do checkBeyondBatch (← lookup .output w.outputDims i) t)
          w { w with incoming := w.incoming.set i t } :=
  inspect_modify ..

/-- Whether a tensor has the extents of a weight. -/
def fitsWeight (w : Workspace α) (h : WeightHandle) (t : Tensor α) :
    Except LayerError Unit := do
  checkExact (← w.weightEntry h).decl.dims.toShape t

/-- The workspace with a weight's gradient overwritten. -/
def putWeightGrad (h : WeightHandle) (t : Tensor α) (w : Workspace α) :
    Workspace α :=
  { w with weights := w.weights.modify h.index fun e => { e with grad := t } }

/-- A weight gradient must have the extents of its weight. -/
theorem setWeightGrad_eq (h : WeightHandle) (t : Tensor α)
    (w : Workspace α) :
    setWeightGrad h t w = stored (w.fitsWeight h t) w (w.putWeightGrad h t) :=
  inspect_modify ..

/-- Whether a tensor has the current extents of a scratch buffer. -/
def fitsScratch (w : Workspace α) (h : ScratchHandle) (t : Tensor α) :
    Except LayerError Unit := do
  checkExact (← w.scratchEntry h).decl.dims.toShape t

/-- The workspace with a scratch buffer overwritten. -/
def putScratch (h : ScratchHandle) (t : Tensor α) (w : Workspace α) :
    Workspace α :=
  { w with scratch := w.scratch.modify h.index fun e => { e with value := t } }

/-- A scratch value must have the extents of its request. -/
theorem setScratch_eq (h : ScratchHandle) (t : Tensor α)
    (w : Workspace α) :
    setScratch h t w = stored (w.fitsScratch h t) w (w.putScratch h t) :=
  inspect_modify ..

/-- The workspace with the gradient of a scratch buffer overwritten. -/
def putScratchGrad (h : ScratchHandle) (t : Tensor α) (w : Workspace α) :
    Workspace α :=
  { w with
    scratch := w.scratch.modify h.index fun e => { e with grad := some t } }

/-- The gradient of a scratch buffer has the extents of its value, and there
must be one. -/
theorem setScratchGrad_eq (h : ScratchHandle) (t : Tensor α)
    (w : Workspace α) :
    setScratchGrad h t w
      = stored (do w.fitsScratch h t; let _ ← w.scratchGrad h)
          w (w.putScratchGrad h t) :=
  inspect_inspect_modify ..

/-- Values and gradients of scratch buffers are stored apart. -/
theorem scratchValue_putScratchGrad (h h' : ScratchHandle) (t : Tensor α)
    (w : Workspace α) :
    (w.putScratchGrad h t).scratchValue h' = w.scratchValue h' := by
  have hsame : (w.putScratchGrad h t).scratch[h'.index]?.map (·.value)
      = w.scratch[h'.index]?.map (·.value) :=
    map_modify (by intro; rfl) _
  exact lookup_bind_congr hsame .ok

/-- A resize of a known buffer always happens. -/
theorem resize_eq [Zero α] (h : ScratchHandle) (batch : Nat)
    (w : Workspace α) :
    resize h batch w
      = stored (w.scratchEntry h >>= fun _ => .ok ()) w
          { w with
            scratch := w.scratch.modify h.index (·.resize batch) } :=
  inspect_entry_modify ..

/-- An input is looked up among the inputs alone. -/
theorem input_congr {w w' : Workspace α} (hsame : w'.inputs = w.inputs)
    (h : InputHandle) : w'.input h = w.input h := by
  unfold input
  rw [hsame]

/-- A gradient buffer is read when its entry has one. -/
theorem scratchGrad_eq_ok {w : Workspace α} {h : ScratchHandle}
    {t : Tensor α} :
    w.scratchGrad h = .ok t
      ↔ ∃ e, w.scratch[h.index]? = some e ∧ e.grad = some t := by
  refine lookup_bind_eq_ok.trans (exists_congr fun e => and_congr_right ?_)
  intro _
  cases e.grad with
  | none => exact ⟨nofun, nofun⟩
  | some grad =>
      constructor
      · rintro ⟨⟩
        rfl
      · rintro ⟨⟩
        rfl

-- ===================================================== writes in sequence

/-- The writes that fall on one entry, in order. -/
def writesAt (ps : List (Nat × β)) (i : Nat) : List β :=
  (ps.filter (·.1 = i)).map (·.2)

/-- A list with entries overwritten one after the other. -/
def overlay (put : β → γ → γ) (ps : List (Nat × β)) (l : List γ) : List γ :=
  ps.foldl (fun l p => l.modify p.1 (put p.2)) l

/-- Each position of an overlaid list takes the writes made to it, in order. -/
theorem getElem?_overlay (put : β → γ → γ) (i : Nat) :
    ∀ (ps : List (Nat × β)) (l : List γ),
      (overlay put ps l)[i]?
        = l[i]?.map fun e => (writesAt ps i).foldl (fun e b => put b e) e
  | [], l => by simp [overlay, writesAt]
  | (j, b) :: ps, l => by
      have ih := getElem?_overlay put i ps (l.modify j (put b))
      have hstep : overlay put ((j, b) :: ps) l
          = overlay put ps (l.modify j (put b)) := rfl
      rw [hstep, ih, List.getElem?_modify]
      by_cases hj : j = i <;> simp [hj, writesAt, Function.comp_def]

/-- A write hides the writes to the same entry before it. -/
theorem put_foldl {put : β → γ → γ}
    (hput : ∀ a b e, put a (put b e) = put a e) (a : β) :
    ∀ (bs : List β) (e : γ),
      put a (bs.foldl (fun e b => put b e) e) = put a e
  | [], _ => rfl
  | b :: bs, e => by rw [List.foldl_cons, put_foldl hput a bs, hput]

/-- Running a sequence of writes again changes nothing: at each entry the
last write stands. -/
theorem overlay_overlay {put : β → γ → γ}
    (hput : ∀ a b e, put a (put b e) = put a e) (ps : List (Nat × β))
    (l : List γ) : overlay put ps (overlay put ps l) = overlay put ps l := by
  refine List.ext_getElem? fun i => ?_
  rw [getElem?_overlay, getElem?_overlay, Option.map_map]
  congr 1
  funext e
  show (writesAt ps i).foldl _ ((writesAt ps i).foldl _ e) = _
  cases writesAt ps i with
  | nil => rfl
  | cons b bs =>
      rw [List.foldl_cons, put_foldl hput b (b :: bs) e, List.foldl_cons]

/-- Setting an element forgets what was there. -/
theorem set_eq_modify (l : List γ) (i : Nat) (a : γ) :
    l.set i a = l.modify i fun _ => a := by
  refine List.ext_getElem? fun j => ?_
  rw [List.getElem?_set, List.getElem?_modify]
  by_cases hij : i = j
  · subst hij
    cases h : l[i]? with
    | none => simp_all
    | some x => simp_all [(List.getElem?_eq_some_iff.1 h).1]
  · simp [hij]

/-- The workspace with derivatives with respect to inputs overwritten one
after the other. -/
def putOutgoings (ps : List (InputHandle × Tensor α)) (w : Workspace α) :
    Workspace α :=
  ps.foldl (fun w p => w.putOutgoing p.1 p.2) w

/-- Storing many outgoing derivatives overlays the list of them. -/
theorem putOutgoings_eq (ps : List (InputHandle × Tensor α)) :
    ∀ w : Workspace α,
      w.putOutgoings ps
        = { w with
            outgoing := overlay (fun t _ => t)
              (ps.map fun p => (p.1.index, p.2)) w.outgoing } := by
  induction ps with
  | nil => exact fun _ => rfl
  | cons p ps ih =>
      intro w
      show (w.putOutgoing p.1 p.2).putOutgoings ps = _
      rw [ih]
      unfold putOutgoing
      rw [set_eq_modify]
      rfl

/-- Storing the same derivatives twice is storing them once. -/
theorem putOutgoings_putOutgoings (ps : List (InputHandle × Tensor α))
    (w : Workspace α) :
    (w.putOutgoings ps).putOutgoings ps = w.putOutgoings ps := by
  rw [putOutgoings_eq, putOutgoings_eq]
  congr 1
  refine overlay_overlay ?_ _ _
  exact fun _ _ _ => rfl

/-- The workspace with gradients of weights overwritten one after the
other. -/
def putWeightGrads (ps : List (WeightHandle × Tensor α)) (w : Workspace α) :
    Workspace α :=
  ps.foldl (fun w p => w.putWeightGrad p.1 p.2) w

/-- Storing many weight gradients overlays the weights' gradients. -/
theorem putWeightGrads_eq (ps : List (WeightHandle × Tensor α)) :
    ∀ w : Workspace α,
      w.putWeightGrads ps
        = { w with
            weights := overlay (fun t e => { e with grad := t })
              (ps.map fun p => (p.1.index, p.2)) w.weights } := by
  induction ps with
  | nil => exact fun _ => rfl
  | cons p ps ih =>
      intro w
      show (w.putWeightGrad p.1 p.2).putWeightGrads ps = _
      rw [ih]
      rfl

/-- Storing the same gradients twice is storing them once. -/
theorem putWeightGrads_putWeightGrads (ps : List (WeightHandle × Tensor α))
    (w : Workspace α) :
    (w.putWeightGrads ps).putWeightGrads ps = w.putWeightGrads ps := by
  rw [putWeightGrads_eq, putWeightGrads_eq]
  congr 1
  refine overlay_overlay ?_ _ _
  exact fun _ _ _ => rfl

-- ===================================================== stores in sequence

/-- One store for each item of a list, up to the first that is refused. -/
def storeAll (store : β → Command α Unit) : List β → Command α Unit
  | [] => pure ()
  | b :: bs => do
      store b
      storeAll store bs

/-- An answer together with the workspace that is left. -/
def answered (r : Except LayerError β) (w : Workspace α) :
    EStateM.Result LayerError (Workspace α) β :=
  match r with
  | .ok x => .ok x w
  | .error e => .error e w

variable {store : β → Command α Unit}
  {check : β → Workspace α → Except LayerError Unit}
  {put : β → Workspace α → Workspace α}

/-- Where no store changes what the checks of the others see, a sequence
of stores is a sequence of writes: those before the first refusal, whose
number and whose answer the checks alone decide. -/
theorem storeAll_eq_writes
    (hstore : ∀ b w, store b w = stored (check b w) w (put b w))
    (hcheck : ∀ b b' w, check b (put b' w) = check b w) :
    ∀ (bs : List β) (w : Workspace α),
      ∃ (r : Except LayerError Unit) (n : Nat), ∀ w',
        (∀ b, check b w' = check b w) →
        storeAll store bs w'
          = answered r ((bs.take n).foldl (fun w b => put b w) w')
  | [], w => ⟨.ok (), 0, fun _ _ => rfl⟩
  | b :: bs, w => by
      have hbind : ∀ w', storeAll store (b :: bs) w'
          = match stored (check b w') w' (put b w') with
            | .ok _ w' => storeAll store bs w'
            | .error e w' => .error e w' := by
        intro w'
        rw [← hstore, storeAll]
        cases h : store b w' <;> simp [bind, EStateM.bind, h]
      cases hb : check b w with
      | error e =>
          refine ⟨.error e, 0, fun w' hw' => ?_⟩
          rw [hbind, hw', hb]
          rfl
      | ok _ =>
          obtain ⟨r, n, hrest⟩ := storeAll_eq_writes hstore hcheck bs w
          refine ⟨r, n + 1, fun w' hw' => ?_⟩
          rw [hbind, hw', hb]
          exact hrest _ fun b' => by rw [hcheck, hw']

/-- Run again, a sequence of stores finds the same refusal, if any, and
writes the same. -/
theorem storeAll_settles
    (hstore : ∀ b w, store b w = stored (check b w) w (put b w))
    (hcheck : ∀ b b' w, check b (put b' w) = check b w)
    (hput : ∀ (bs : List β) w, bs.foldl (fun w b => put b w)
      (bs.foldl (fun w b => put b w) w) = bs.foldl (fun w b => put b w) w)
    (bs : List β) (w : Workspace α) :
    ∃ (r : Except LayerError Unit) (qs : List β),
      storeAll store bs w
          = answered r (qs.foldl (fun w b => put b w) w)
        ∧ storeAll store bs (qs.foldl (fun w b => put b w) w)
          = storeAll store bs w := by
  obtain ⟨r, n, h⟩ := storeAll_eq_writes hstore hcheck bs w
  have hchecks : ∀ (qs : List β) w b,
      check b (qs.foldl (fun w b => put b w) w) = check b w := by
    intro qs
    induction qs with
    | nil => exact fun _ _ => rfl
    | cons q qs ih =>
        intro w b
        rw [List.foldl_cons, ih, hcheck]
  refine ⟨r, bs.take n, h w fun _ => rfl, ?_⟩
  rw [h _ fun b => hchecks _ w b, h w fun _ => rfl, hput]

/-- A sequence of stores succeeds exactly when each check passes, and then
every write is made. -/
theorem storeAll_ok_iff
    (hstore : ∀ b w, store b w = stored (check b w) w (put b w))
    (hcheck : ∀ b b' w, check b (put b' w) = check b w) :
    ∀ (bs : List β) (w w' : Workspace α),
      storeAll store bs w = .ok () w'
        ↔ (∀ b ∈ bs, check b w = .ok ())
          ∧ w' = bs.foldl (fun w b => put b w) w
  | [], w, w' => by
      show EStateM.Result.ok () w = .ok () w' ↔ _
      constructor
      · intro h
        injection h with _ h
        exact ⟨nofun, h.symm⟩
      · rintro ⟨-, rfl⟩
        rfl
  | b :: bs, w, w' => by
      show EStateM.bind (store b) (fun _ => storeAll store bs) w = _ ↔ _
      unfold EStateM.bind
      rw [hstore]
      cases hb : check b w with
      | error e =>
          refine ⟨nofun, fun h => ?_⟩
          have hfirst := h.1 b (List.mem_cons_self ..)
          rw [hb] at hfirst
          cases hfirst
      | ok u =>
          refine (storeAll_ok_iff hstore hcheck bs (put b w) w').trans ?_
          simp only [hcheck, List.forall_mem_cons, hb, List.foldl_cons,
            true_and]

/-- A sequence of stores that is refused was refused at one of them, and the
writes before it were made. -/
theorem storeAll_refused
    (hstore : ∀ b w, store b w = stored (check b w) w (put b w))
    (hcheck : ∀ b b' w, check b (put b' w) = check b w) {e : LayerError} :
    ∀ {bs : List β} {w w' : Workspace α},
      storeAll store bs w = .error e w' →
        ∃ made b rest, bs = made ++ b :: rest
          ∧ (∀ b ∈ made, check b w = .ok ()) ∧ check b w = .error e
          ∧ w' = made.foldl (fun w b => put b w) w
  | [], w, w', h => nomatch (h : EStateM.Result.ok () w = .error e w')
  | b :: bs, w, w', h => by
      have hstep : EStateM.bind (store b) (fun _ => storeAll store bs) w
          = .error e w' := h
      unfold EStateM.bind at hstep
      rw [hstore] at hstep
      cases hb : check b w with
      | error e' =>
          rw [hb] at hstep
          injection hstep with he hw
          subst he hw
          exact ⟨[], b, bs, rfl, nofun, hb, rfl⟩
      | ok _ =>
          rw [hb] at hstep
          obtain ⟨made, b', rest, rfl, hmade, hb', rfl⟩ :=
            storeAll_refused hstore hcheck hstep
          refine ⟨b :: made, b', rest, rfl, ?_, by rwa [hcheck] at hb', rfl⟩
          rw [List.forall_mem_cons]
          exact ⟨hb, fun d hd => (hcheck d b w).symm.trans (hmade d hd)⟩

-- ==================================================== reading a write back

/-- A position that is not written takes no write. -/
theorem writesAt_of_not_mem {ps : List (Nat × β)} {i : Nat}
    (h : i ∉ ps.map (·.1)) : writesAt ps i = [] := by
  have hnone : ps.filter (·.1 = i) = [] := by
    refine List.filter_eq_nil_iff.2 fun q hq hqi => h ?_
    exact List.mem_map.2 ⟨q, hq, of_decide_eq_true hqi⟩
  rw [writesAt, hnone]
  rfl

/-- A position written once takes that write. -/
theorem writesAt_of_mem {ps : List (Nat × β)} (h : (ps.map (·.1)).Nodup)
    {i : Nat} {b : β} (hmem : (i, b) ∈ ps) : writesAt ps i = [b] := by
  induction ps with
  | nil => cases hmem
  | cons p ps ih =>
      rw [List.map_cons, List.nodup_cons] at h
      rcases List.mem_cons.1 hmem with heq | hrest
      · subst heq
        have hown : writesAt ((i, b) :: ps) i = b :: writesAt ps i := by
          simp [writesAt]
        rw [hown, writesAt_of_not_mem h.1]
      · have hne : p.1 ≠ i := fun hpi =>
          h.1 (List.mem_map.2 ⟨(i, b), hrest, hpi.symm⟩)
        have hskip : writesAt (p :: ps) i = writesAt ps i := by
          simp [writesAt, hne]
        rw [hskip, ih h.2 hrest]

/-- An entry after writes to distinct positions, one of which is its own. -/
theorem getElem?_overlay_of_mem (put : β → γ → γ) {ps : List (Nat × β)}
    (h : (ps.map (·.1)).Nodup) {i : Nat} {b : β} (hmem : (i, b) ∈ ps)
    (l : List γ) : (overlay put ps l)[i]? = l[i]?.map (put b) := by
  rw [getElem?_overlay, writesAt_of_mem h hmem]
  rfl

/-- The same where handles name the positions. -/
theorem getElem?_overlay_handle {η : Type} (index : η → Nat)
    (put : β → γ → γ) {ps : List (η × β)}
    (h : (ps.map fun p => index p.1).Nodup) {i : η} {b : β}
    (hmem : (i, b) ∈ ps) (l : List γ) :
    (overlay put (ps.map fun p => (index p.1, p.2)) l)[index i]?
      = l[index i]?.map (put b) := by
  refine getElem?_overlay_of_mem put ?_ (List.mem_map.2 ⟨_, hmem, rfl⟩) l
  rw [List.map_map]
  exact h

/-- Writes do not change how long a list is. -/
theorem length_overlay (put : β → γ → γ) (ps : List (Nat × β)) :
    ∀ l : List γ, (overlay put ps l).length = l.length := by
  induction ps with
  | nil => exact fun _ => rfl
  | cons p ps ih =>
      intro l
      show (overlay put ps (l.modify p.1 (put p.2))).length = _
      rw [ih, List.length_modify]

/-- What no write changes can be read off before. -/
theorem map_overlay {put : β → γ → γ} {f : γ → δ}
    (h : ∀ b e, f (put b e) = f e) (ps : List (Nat × β)) (l : List γ)
    (i : Nat) : (overlay put ps l)[i]?.map f = l[i]?.map f := by
  rw [getElem?_overlay, Option.map_map]
  refine congrArg (Option.map · _) (funext fun e => ?_)
  show f ((writesAt ps i).foldl _ e) = f e
  induction writesAt ps i generalizing e with
  | nil => rfl
  | cons b bs ih => rw [List.foldl_cons, ih, h]

/-- Writing what is there changes nothing. -/
theorem overlay_self {put : β → γ → γ} (ps : List (Nat × β)) (l : List γ)
    (h : ∀ p ∈ ps, ∀ e, l[p.1]? = some e → put p.2 e = e) :
    overlay put ps l = l := by
  induction ps with
  | nil => rfl
  | cons p ps ih =>
      have hfirst : l.modify p.1 (put p.2) = l := by
        refine List.ext_getElem? fun i => ?_
        rw [List.getElem?_modify]
        by_cases hi : p.1 = i
        · subst hi
          cases hentry : l[p.1]? with
          | none => rfl
          | some e =>
              simp only [if_true]
              exact congrArg some (h p (List.mem_cons_self ..) e hentry)
        · simp [hi]
      show overlay put ps (l.modify p.1 (put p.2)) = l
      rw [hfirst]
      exact ih fun q hq => h q (List.mem_cons_of_mem _ hq)

/-- The workspace with scratch buffers overwritten one after the other. -/
def putScratches (ps : List (ScratchHandle × Tensor α)) (w : Workspace α) :
    Workspace α :=
  ps.foldl (fun w p => w.putScratch p.1 p.2) w

/-- Storing many scratch values overlays the buffers' values. -/
theorem putScratches_eq (ps : List (ScratchHandle × Tensor α)) :
    ∀ w : Workspace α,
      w.putScratches ps
        = { w with
            scratch := overlay (fun t e => { e with value := t })
              (ps.map fun p => (p.1.index, p.2)) w.scratch } := by
  induction ps with
  | nil => exact fun _ => rfl
  | cons p ps ih =>
      intro w
      show (w.putScratch p.1 p.2).putScratches ps = _
      rw [ih]
      rfl

/-- What fits a scratch buffer does not depend on the values stored. -/
theorem fitsScratch_putScratch (h h' : ScratchHandle) (t t' : Tensor α)
    (w : Workspace α) :
    (w.putScratch h' t').fitsScratch h t = w.fitsScratch h t := by
  have hsame : (w.putScratch h' t').scratch[h.index]?.map (·.decl)
      = w.scratch[h.index]?.map (·.decl) :=
    map_modify (by intro; rfl) _
  exact lookup_bind_congr hsame fun d => checkExact d.dims.toShape t

/-- A buffer that was written is read back as it was written. -/
theorem scratchValue_putScratches {ps : List (ScratchHandle × Tensor α)}
    (hps : (ps.map (·.1.index)).Nodup) {w : Workspace α} {h : ScratchHandle}
    {t : Tensor α} (hmem : (h, t) ∈ ps) (hfit : w.fitsScratch h t = .ok ()) :
    (w.putScratches ps).scratchValue h = .ok t := by
  obtain ⟨e, he, -⟩ := lookup_bind_eq_ok.1 hfit
  rw [putScratches_eq]
  refine lookup_bind_eq_ok.2 ⟨{ e with value := t }, ?_, rfl⟩
  dsimp only
  rw [getElem?_overlay_handle ScratchHandle.index _ hps hmem, he]
  rfl

/-- So is the gradient of a weight. -/
theorem weightGrad_putWeightGrads {ps : List (WeightHandle × Tensor α)}
    (hps : (ps.map (·.1.index)).Nodup) {w : Workspace α} {h : WeightHandle}
    {t : Tensor α} (hmem : (h, t) ∈ ps) (hfit : w.fitsWeight h t = .ok ()) :
    (w.putWeightGrads ps).weightGrad h = .ok t := by
  obtain ⟨e, he, -⟩ := lookup_bind_eq_ok.1 hfit
  rw [putWeightGrads_eq]
  refine lookup_bind_eq_ok.2 ⟨{ e with grad := t }, ?_, rfl⟩
  dsimp only
  rw [getElem?_overlay_handle WeightHandle.index _ hps hmem, he]
  rfl

/-- The derivative with respect to an input that was stored is the one read. -/
theorem outgoingAt_putOutgoings {ps : List (InputHandle × Tensor α)}
    (hps : (ps.map (·.1.index)).Nodup) {w : Workspace α} {h : InputHandle}
    {t : Tensor α} (hmem : (h, t) ∈ ps)
    (hlen : h.index < w.outgoing.length) :
    (w.putOutgoings ps).outgoingAt h = .ok t := by
  rw [putOutgoings_eq]
  refine lookup_eq_ok.2 ?_
  dsimp only
  rw [getElem?_overlay_handle InputHandle.index _ hps hmem,
    List.getElem?_eq_getElem hlen]
  rfl

end MixtureAttention.Workspace
