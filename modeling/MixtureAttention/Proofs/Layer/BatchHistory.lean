/-
What is left of the batches that came before. A layer is set up for one
batch extent and may be set to others any number of times, with calls in
between that succeed or are refused. Once a batch extent is set and a step
is fed with inputs of that extent, nothing of the history shows in what the
step leaves, nor does the extent of the setup (`batch_history_forgotten`).

Three facts make it so. A change of the extent allocates anew, so it hides
the changes before it, in whatever session (`setBatch_setBatch`). A forward
pass does not look at the contents of scratch buffers (`confined_forward`).
And the weights are drawn without a look at the batch (`weight_start`). The
step itself is compared through its formulas: two sessions that are supplied
with the same leave the same, whatever else they hold
(`SameStep.of_supplied`).
-/
import MixtureAttention.Proofs.Layer.BatchEntries
import MixtureAttention.Proofs.Layer.Confinement
import MixtureAttention.Proofs.Layer.Validation

namespace MixtureAttention

variable {α : Type}

open Layer Procedure Workspace

-- ================================================== one change after another

section

variable [Zero α]

/-- What another batch extent makes of a buffer does not depend on the
current one. -/
theorem Scratch.resize_resize (e : Scratch α) (m n : Nat) :
    (e.resize m).resize n = e.resize n := by
  unfold Scratch.resize
  dsimp only
  rw [Option.map_map]
  rfl

/-- Of two reallocations of the same buffers the second stands. -/
theorem putResized_putResized (m n : Nat) (hs : List ScratchHandle)
    (w : Workspace α) :
    putResized n hs (putResized m hs w) = putResized n hs w := by
  unfold putResized
  dsimp only
  congr 1
  refine List.ext_getElem? fun i => ?_
  rw [getElem?_overlay, getElem?_overlay, getElem?_overlay, Option.map_map]
  congr 1
  funext e
  have hwrites : ∀ n : Nat, writesAt (hs.map fun h => (h.index, n)) i
      = (hs.filter fun h => h.index = i).map fun _ => n := by
    intro n
    rw [writesAt, List.filter_map, List.map_map]
    rfl
  show (writesAt _ i).foldl _ ((writesAt _ i).foldl _ e) = _
  rw [hwrites, hwrites]
  cases hs.filter fun h => h.index = i with
  | nil => rfl
  | cons h hs =>
      let put : Nat → Scratch α → Scratch α := fun n e => e.resize n
      have hput : ∀ m n e, put m (put n e) = put m e :=
        fun m n e => e.resize_resize n m
      have hhides : ∀ (ns : List Nat) (e : Scratch α),
          (ns.foldl (fun e n => e.resize n) e).resize n = e.resize n :=
        put_foldl hput n
      simp only [List.map_cons, List.foldl_cons, hhides,
        Scratch.resize_resize]

/-- Resizing keeps the number of buffers. -/
theorem length_putResized (n : Nat) (hs : List ScratchHandle)
    (w : Workspace α) :
    (putResized n hs w).scratch.length = w.scratch.length := by
  unfold putResized
  dsimp only
  rw [length_overlay]

/-- The handles before the first one that names no buffer. -/
def leading (w : Workspace α) (hs : List ScratchHandle) :
    List ScratchHandle :=
  hs.takeWhile fun h => h.index < w.scratch.length

/-- The first one that names no buffer. -/
def firstUnknown? (w : Workspace α) (hs : List ScratchHandle) :
    Option ScratchHandle :=
  hs.find? fun h => w.scratch.length ≤ h.index

/-- Buffers are reallocated up to the first handle that names none. -/
theorem resizeAll_eq (n : Nat) :
    ∀ (hs : List ScratchHandle) (w : Workspace α),
      resizeAll n hs w
        = match firstUnknown? w hs with
          | none => .ok () (putResized n (leading w hs) w)
          | some h => .error (.invalidHandle .scratch h.index)
              (putResized n (leading w hs) w)
  | [], _ => rfl
  | h :: hs, w => by
      have hbind : resizeAll n (h :: hs) w
          = match resize h n w with
            | .ok _ w' => resizeAll n hs w'
            | .error e w' => .error e w' := by
        rw [resizeAll]
        cases hrun : resize h n w <;> simp [bind, EStateM.bind, hrun]
      rw [hbind]
      by_cases hvalid : h.index < w.scratch.length
      · have hfirst : resize h n w = .ok () (putResized n [h] w) := by
          rw [resize_eq, scratchEntry,
            lookup_eq_ok.2 (List.getElem?_eq_getElem hvalid)]
          rfl
        have hunknown : firstUnknown? w (h :: hs)
            = firstUnknown? (putResized n [h] w) hs := by
          rw [firstUnknown?, firstUnknown?, length_putResized,
            List.find?_cons_of_neg (by simpa using hvalid)]
        have hleading : leading w (h :: hs)
            = h :: leading (putResized n [h] w) hs := by
          rw [leading, leading, length_putResized,
            List.takeWhile_cons_of_pos (by simpa using hvalid)]
        rw [hfirst, hunknown, hleading]
        exact resizeAll_eq n hs (putResized n [h] w)
      · have hrefused : resize h n w
            = .error (.invalidHandle .scratch h.index) w := by
          rw [resize_eq, scratchEntry, lookup,
            List.getElem?_eq_none (Nat.le_of_not_lt hvalid)]
          rfl
        rw [hrefused, firstUnknown?, leading,
          List.find?_cons_of_pos (by simpa using hvalid),
          List.takeWhile_cons_of_neg (by simpa using hvalid)]
        rfl

variable {st : Session α} {s : Slots}

/-- With a buffer for every handle all are reallocated. -/
theorem setBatch_of_known (n : Nat) (hs : st.layer.slots = some s)
    (hknown : firstUnknown? st.workspace s.scratch = none) :
    setBatch n st
      = .ok () ((st.withMemo .stale).withWorkspace
          (putResized n (leading st.workspace s.scratch) st.workspace)) := by
  have hall := resizeAll_eq n s.scratch st.workspace
  rw [hknown] at hall
  unfold setBatch
  rw [bind_of_ok (read_of_ok (slots?_of_some hs))]
  exact bind_of_ok (onWorkspace_of_ok hall)

/-- Otherwise those before the first handle without one, whatever the
extent. -/
theorem setBatch_of_unknown (n : Nat) (hs : st.layer.slots = some s)
    {h : ScratchHandle}
    (hunknown : firstUnknown? st.workspace s.scratch = some h) :
    setBatch n st
      = .error (.invalidHandle .scratch h.index) (st.withWorkspace
          (putResized n (leading st.workspace s.scratch) st.workspace)) := by
  have hall := resizeAll_eq n s.scratch st.workspace
  rw [hunknown] at hall
  unfold setBatch
  rw [bind_of_ok (read_of_ok (slots?_of_some hs))]
  exact bind_of_error (onWorkspace_of_error hall)

/-- A change of the batch extent hides the one before it, in any session and
whether or not they are refused. -/
theorem setBatch_setBatch (m n : Nat) (st : Session α) :
    setBatch n (final (setBatch m) st) = setBatch n st := by
  cases hs : st.layer.slots with
  | none =>
      have hrefused : setBatch m st = .error .notFinalized st :=
        bind_of_error (read_of_error (slots?_of_none hs))
      rw [final_of_error hrefused]
  | some s =>
      -- the first change keeps which handles are found, so it is refused,
      -- if at all, where the second one is
      let w := putResized m (leading st.workspace s.scratch) st.workspace
      have hsame : firstUnknown? w s.scratch
          = firstUnknown? st.workspace s.scratch := by
        rw [firstUnknown?, length_putResized, firstUnknown?]
      have hhides : putResized n (leading w s.scratch) w
          = putResized n (leading st.workspace s.scratch) st.workspace := by
        have hleading : leading w s.scratch
            = leading st.workspace s.scratch := by
          rw [leading, length_putResized, leading]
        rw [hleading, putResized_putResized]
      cases hfound : firstUnknown? st.workspace s.scratch with
      | none =>
          let st₁ := (st.withMemo .stale).withWorkspace w
          have hslots : st₁.layer.slots = some s := hs
          have hagain : setBatch n st₁
              = .ok () ((st₁.withMemo .stale).withWorkspace
                  (putResized n (leading w s.scratch) w)) :=
            setBatch_of_known n hslots (hsame.trans hfound)
          rw [final_of_ok (setBatch_of_known m hs hfound),
            setBatch_of_known n hs hfound, ← hhides]
          exact hagain
      | some h =>
          let st₁ := st.withWorkspace w
          have hslots : st₁.layer.slots = some s := hs
          have hagain : setBatch n st₁
              = .error (.invalidHandle .scratch h.index) (st₁.withWorkspace
                  (putResized n (leading w s.scratch) w)) :=
            setBatch_of_unknown n hslots (hsame.trans hfound)
          rw [final_of_error (setBatch_of_unknown m hs hfound),
            setBatch_of_unknown n hs hfound, ← hhides]
          exact hagain

end

-- ======================================== declared for one batch or another

/-- The blueprint with its inputs declared for another batch extent. -/
def Blueprint.atBatch (b : Blueprint) (n : Nat) : Blueprint :=
  { b with inputs := b.inputs.map fun d => { d with batch := n } }

section

variable {l : Layer α} {b : Blueprint} {m n : Nat} {p p' : SetupPlan}

/-- At another batch size the inputs differ in their batch axis alone. -/
theorem Blueprint.inputs_atBatch (b : Blueprint) (m n : Nat) :
    (b.atBatch n).inputs
      = (b.atBatch m).inputs.map fun d => { d with batch := n } := by
  unfold atBatch
  rw [List.map_map]
  rfl

/-- So they are those of the plan at that size. -/
theorem inputDims_atBatch (h : (b.atBatch m).inputs = p.inputDims) (n : Nat) :
    (b.atBatch n).inputs = { p with batch := n }.inputDims := by
  rw [b.inputs_atBatch m n, h]
  rfl

/-- The batch extent of a plan is read off its inputs. -/
theorem batch_of_inputDims (h : (b.atBatch n).inputs = p.inputDims) :
    p.batch = n := by
  have hagain := inputDims_atBatch h n
  rw [h, SetupPlan.inputDims, SetupPlan.inputDims] at hagain
  exact congrArg Dims.batch (List.cons.inj hagain).1

/-- The inputs are those of a plan for every batch extent or for none. -/
theorem Layer.Documents.atBatch (h : l.Documents (b.atBatch m).inputs)
    (n : Nat) : l.Documents (b.atBatch n).inputs := by
  obtain ⟨p, hinputs, hsettings⟩ := h
  exact ⟨{ p with batch := n }, inputDims_atBatch hinputs n, hsettings⟩

/-- The plan of a setup depends on the batch extent in that extent only. -/
theorem plan_atBatch (h : SetupPlan.of l (b.atBatch m).inputs = .ok p)
    (h' : SetupPlan.of l (b.atBatch n).inputs = .ok p') :
    p' = { p with batch := n } := by
  obtain ⟨query, value, state, hinputs, hunit, -, hk, -, -, hwidth, -,
    hpositions, hvalueWidth, -⟩ := Setup.plan_cases h
  obtain ⟨query', value', state', hinputs', hunit', -, hk', -, hbatch',
    hwidth', -, hpositions', hvalueWidth', -⟩ := Setup.plan_cases h'
  rw [b.inputs_atBatch m n, hinputs] at hinputs'
  cases hinputs'
  obtain ⟨batch, queryWidth, positions, valueWidth, unit, mixtures⟩ := p
  obtain ⟨batch', queryWidth', positions', valueWidth', unit', mixtures'⟩ :=
    p'
  dsimp only at *
  rw [SetupPlan.mk.injEq]
  exact ⟨hbatch'.symm, hwidth'.symm.trans hwidth,
    hpositions'.symm.trans hpositions, hvalueWidth'.symm.trans hvalueWidth,
    Option.some.inj (hunit'.symm.trans hunit),
    Option.some.inj (hk'.symm.trans hk)⟩

end

-- ============================================================== the weights

/-- The scheme fills a weight without a draw. -/
def Initializer.DrawsNothing (i : Initializer) : Prop :=
  i = .zeros ∨ i = .ones

/-- No weight of the layer is drawn. -/
def Settings.DrawNothing (s : Settings) : Prop :=
  s.weightInitializer.DrawsNothing ∧ s.biasInitializer.DrawsNothing

/-- The call leaves the values of weights alone. -/
def Action.SparesWeights : Action α → Prop
  | writeWeight _ _ _ => False
  | replaceWeight _ _ => False
  | _ => True

section

variable [Scalar α]

/-- A weight that draws nothing has the same value from any generator state. -/
theorem value_allocateWeights (g : Generator) {d : WeightDecl}
    (hd : d.initializer.DrawsNothing) :
    ∀ (ds : List WeightDecl) (i : Nat) (s s' : g.State), ds[i]? = some d →
      (allocateWeights (α := α) g ds s)[i]?.map (·.value)
        = (allocateWeights (α := α) g ds s')[i]?.map (·.value)
  | [], _, _, _, h => by cases h
  | d' :: ds, 0, s, s', h => by
      cases h
      show some (d.initializer.fill g d.dims s).1
        = some (d.initializer.fill g d.dims s').1
      unfold Initializer.fill
      rcases hd with hd | hd <;> rw [hd] <;> rfl
  | d' :: ds, i + 1, s, s', h =>
      value_allocateWeights g hd ds i (d'.initializer.fill g d'.dims s).2
        (d'.initializer.fill (α := α) g d'.dims s').2 h

variable {l : Layer α} {b : Blueprint} {m n : Nat} {past direct : Setup α}

/-- The weights that a layer starts with are the same for every batch extent,
if they stem from one seed or are not drawn at all. -/
theorem weight_start
    (hpast : Setup.finalize ⟨l, b.atBatch m⟩ = .ok () past)
    (hdirect : Setup.finalize ⟨l, b.atBatch n⟩ = .ok () direct)
    (g : Generator) {seed seed' : UInt64}
    (hseed : seed = seed' ∨ l.settings.DrawNothing) {s : Slots}
    (hslots : direct.layer.slots = some s) :
    ∀ h ∈ s.weights, (Session.start past g seed).workspace.weight h
      = (Session.start direct g seed').workspace.weight h := by
  obtain ⟨p, hplan, rfl⟩ := Setup.finalize_cases hpast
  obtain ⟨p', hplan', rfl⟩ := Setup.finalize_cases hdirect
  obtain rfl := plan_atBatch hplan hplan'
  obtain rfl : Slots.startingAt b.weights.length b.scratch.length = s :=
    Option.some.inj hslots
  intro h hh
  let decls := b.weights ++ p.weightDecls l.settings b
  have hvalues : (allocateWeights (α := α) g decls
        (g.start seed))[h.index]?.map (·.value)
      = (allocateWeights (α := α) g decls
        (g.start seed'))[h.index]?.map (·.value) := by
    rcases hseed with rfl | ⟨hweight, hbias⟩
    · rfl
    · have hdecl : ∃ d, decls[h.index]? = some d
          ∧ d.initializer.DrawsNothing := by
        simp only [Slots.weights, Slots.startingAt, List.mem_cons,
          List.not_mem_nil, or_false] at hh
        rcases hh with rfl | rfl | rfl <;>
          simp [decls, SetupPlan.weightDecls, hweight, hbias]
      obtain ⟨d, hd, hnothing⟩ := hdecl
      exact value_allocateWeights g hnothing _ _ _ _ hd
  exact lookup_bind_congr hvalues .ok

/-- Calls that spare the weights leave their values as they were. -/
theorem weight_after {w : Workspace α} (as : List (Action α)) :
    ∀ {st : Session α}, (∀ a ∈ as, a.SparesWeights) →
      (∀ h, st.workspace.weight h = w.weight h) →
        ∀ h, (st.after as).workspace.weight h = w.weight h := by
  induction as with
  | nil => exact fun _ h => h
  | cons a as ih =>
      intro st has hst
      rw [List.forall_mem_cons] at has
      refine ih has.2 (Action.keeps (P := fun w' => ∀ h,
        w'.weight h = w.weight h) (fun c hc => ?_) st hst)
      cases hc with
      | writeWeight i n x => exact has.1.elim
      | replaceWeight i t => exact has.1.elim
      | setWeightGrad i t =>
          refine .stored (setWeightGrad_eq i t) fun w' hw' _ h => ?_
          have hframe := (Write.weightGrad i t).frame w'
          exact (hframe.weight (by simp [Write.place])).symm.trans (hw' h)
      | setInput i t => exact .stored (setInput_eq i t) fun _ hw _ => hw
      | setIncoming i t => exact .stored (setIncoming_eq i t) fun _ hw _ => hw
      | setScratch i t => exact .stored (setScratch_eq i t) fun _ hw _ => hw
      | setOutput i t => exact .stored (setOutput_eq i t) fun _ hw _ => hw
      | setScratchGrad _ i t =>
          exact .stored (setScratchGrad_eq i t) fun _ hw _ => hw
      | setOutgoing i t => exact .stored (setOutgoing_eq i t) fun _ hw _ => hw
      | resize i n => exact .stored (resize_eq i n) fun _ hw _ => hw

end

-- ================================================================ the feed

/-- What a caller stores for a step. -/
structure Feed (α : Type) where
  query : Tensor α
  value : Tensor α
  state : Tensor α
  /-- The derivative with respect to the output. -/
  incoming : Tensor α

namespace Feed

/-- The calls that store it. -/
def stores (f : Feed α) : List (Action α) :=
  [.setInput ⟨0⟩ f.query, .setInput ⟨1⟩ f.value, .setInput ⟨2⟩ f.state,
    .setIncoming 0 f.incoming]

/-- It has exactly the extents that are declared. -/
structure Fits (f : Feed α) (b : Blueprint) : Prop where
  inputs : [f.query, f.value, f.state].map (·.shape)
    = b.inputs.map Dims.toShape
  incoming : [f.incoming.shape] = b.outputs.map Dims.toShape

/-- The workspace with it stored. -/
def put (f : Feed α) (w : Workspace α) : Workspace α :=
  { w with
    inputs := ((w.inputs.set 0 f.query).set 1 f.value).set 2 f.state
    incoming := w.incoming.set 0 f.incoming }

/-- A workspace shows it to a layer with handles `s`. -/
structure Shown (f : Feed α) (s : Slots) (w : Workspace α) : Prop where
  query : w.input s.query = .ok f.query
  value : w.input s.value = .ok f.value
  state : w.input s.state = .ok f.state
  incoming : w.incomingAt 0 = .ok f.incoming

end Feed

section

variable {f : Feed α} {p : SetupPlan} {s : Slots} {dims : List Dims}
  {st : Session α} {w w' : Workspace α}

variable [Scalar α]

omit [Scalar α] in
/-- What is declared for a plan, in shapes. -/
theorem Feed.Fits.shapes {b : Blueprint} (hf : f.Fits b)
    (hinputs : b.inputs = p.inputDims)
    (houtputs : b.outputs = [p.outputDims]) :
    f.query.shape = [p.batch, 1, 1, p.queryWidth]
      ∧ f.value.shape = [p.batch, 1, p.positions, p.valueWidth]
      ∧ f.state.shape = [p.batch, 1, 1, p.mixtures]
      ∧ f.incoming.shape = [p.batch, 1, 1, p.valueWidth] := by
  obtain ⟨hshapes, hincoming⟩ := hf
  rw [hinputs] at hshapes
  rw [houtputs] at hincoming
  simp only [SetupPlan.inputDims, List.map_cons, List.map_nil,
    List.cons.injEq, and_true] at hshapes hincoming
  exact ⟨hshapes.1, hshapes.2.1, hshapes.2.2, hincoming⟩

/-- On a workspace that was built for another batch extent the feed is stored
all the same, since a store does not look at the batch extent. -/
theorem Running.after_stores {m : Nat} {b : Blueprint}
    (h : Running p s { p with batch := m }.inputDims st)
    (hinputs : b.inputs = p.inputDims) (houtputs : b.outputs = [p.outputDims])
    (hf : f.Fits b) : st.after f.stores = st.edit f.put := by
  obtain ⟨hquery, hvalue, hstate, hincoming⟩ := hf.shapes hinputs houtputs
  let st₁ := st.edit fun w => { w with inputs := w.inputs.set 0 f.query }
  let st₂ := st₁.edit fun w => { w with inputs := w.inputs.set 1 f.value }
  let st₃ := st₂.edit fun w => { w with inputs := w.inputs.set 2 f.state }
  have hdims := h.inputDims
  have htails : f.query.shape.tail = [1, 1, p.queryWidth]
      ∧ f.value.shape.tail = [1, p.positions, p.valueWidth]
      ∧ f.state.shape.tail = [1, 1, p.mixtures] := by
    rw [hquery, hvalue, hstate]
    exact ⟨rfl, rfl, rfl⟩
  have hfirst : final (onWorkspace (setInput ⟨0⟩ f.query)) st = st₁ :=
    final_setInput (congrArg (·[0]?) hdims) htails.1
  have hsecond : final (onWorkspace (setInput ⟨1⟩ f.value)) st₁ = st₂ :=
    final_setInput (congrArg (·[1]?) hdims) htails.2.1
  have hthird : final (onWorkspace (setInput ⟨2⟩ f.state)) st₂ = st₃ :=
    final_setInput (congrArg (·[2]?) hdims) htails.2.2
  calc st.after f.stores
      = final (onWorkspace (setIncoming 0 f.incoming))
          (final (onWorkspace (setInput ⟨2⟩ f.state))
            (final (onWorkspace (setInput ⟨1⟩ f.value))
              (final (onWorkspace (setInput ⟨0⟩ f.query)) st))) := rfl
    _ = final (onWorkspace (setIncoming 0 f.incoming)) st₃ := by
        rw [hfirst, hsecond, hthird]
    _ = st.edit f.put := by
        obtain ⟨d, hd, htail⟩ := h.wired.outputDims
        refine final_setIncoming hd ?_
        rw [hincoming, htail]
        rfl

/-- The layer finds what a feed has stored. -/
theorem Running.shown {m : Nat} {b : Blueprint}
    (h : Running p s { p with batch := m }.inputDims st)
    (hinputs : b.inputs = p.inputDims) (houtputs : b.outputs = [p.outputDims])
    (hf : f.Fits b) : f.Shown s (st.after f.stores).workspace := by
  have hlen := h.wired.inputs
  have hout : 0 < st.workspace.incoming.length := by
    obtain ⟨d, hd, -⟩ := h.wired.outputDims
    rw [h.sound.incoming.length]
    exact (List.getElem?_eq_some_iff.1 hd).1
  have hincoming : (f.put st.workspace).incomingAt 0 = .ok f.incoming :=
    lookup_eq_ok.2 (List.getElem?_set_self hout)
  rw [h.after_stores hinputs houtputs hf]
  obtain ⟨i, j, rfl⟩ := h.wired.slots
  match hthree : st.workspace.inputs, hlen with
  | [a, b, c], _ =>
      have hput : (f.put st.workspace).inputs
          = [f.query, f.value, f.state] := by
        rw [Feed.put, hthree]
        rfl
      have hread : ∀ k t, [f.query, f.value, f.state][k]? = some t →
          (f.put st.workspace).input ⟨k⟩ = .ok t := by
        intro k t ht
        refine lookup_eq_ok.2 ?_
        rw [hput]
        exact ht
      exact ⟨hread 0 _ rfl, hread 1 _ rfl, hread 2 _ rfl, hincoming⟩

omit [Scalar α] in
/-- What is held is told by the inputs and the weights. -/
theorem Given.Held.of_alike [Zero α] {c : Given α} (h : c.Held p s w)
    (halike : InputsAlike s w' w) : c.Held p s w' where
  query := halike.query.trans h.query
  value := halike.value.trans h.value
  state := halike.state.trans h.state
  hiddenWeight := (halike.weight _ (by simp [Slots.weights])).trans
    h.hiddenWeight
  hiddenBias := (halike.weight _ (by simp [Slots.weights])).trans h.hiddenBias
  packedWeight := (halike.weight _ (by simp [Slots.weights])).trans
    h.packedWeight

/-- A step on what was stored finds everything it needs. -/
theorem Running.supplied {m : Nat} {b : Blueprint}
    (h : Running p s { p with batch := m }.inputDims st)
    (hsized : st.workspace.WeightsSized) (hinputs : b.inputs = p.inputDims)
    (houtputs : b.outputs = [p.outputDims]) (hf : f.Fits b) :
    ∃ c g, Supplied c p s g (st.after f.stores) := by
  obtain ⟨hquery, hvalue, hstate, hincoming⟩ := hf.shapes hinputs houtputs
  have hshown := h.shown hinputs houtputs hf
  have hrun : Running p s { p with batch := m }.inputDims
      (st.after f.stores) := h.after f.stores
  have hspares : ∀ a ∈ f.stores, a.SparesExtents := by
    simp [Feed.stores, Action.SparesExtents]
  obtain ⟨hhidden, hbias, hpacked⟩ := hrun.weight_shapes
    (weightsSized_after f.stores hsized hspares)
  obtain ⟨c, hheld⟩ := (Given.exists_held_iff p s _).2
    ⟨⟨_, hshown.query, hquery⟩, ⟨_, hshown.value, hvalue⟩,
      ⟨_, hshown.state, hstate⟩, hhidden, hbias, hpacked⟩
  have hout : Given.HasShape ((st.after f.stores).workspace.incomingAt 0)
      [p.batch, 1, 1, p.valueWidth] := ⟨_, hshown.incoming, hincoming⟩
  obtain ⟨g, hg⟩ := hout.exists_row
  exact ⟨c, g, hrun.slots, hrun.mixtures, hrun.wired, hheld, hg⟩

/-- With the same weights, two sessions that are fed the same are supplied
with the same. -/
theorem Running.both_supplied {m n : Nat} {b : Blueprint} {st' : Session α}
    (h : Running p s { p with batch := m }.inputDims st)
    (h' : Running p s { p with batch := n }.inputDims st')
    (hsized : st.workspace.WeightsSized) (hinputs : b.inputs = p.inputDims)
    (houtputs : b.outputs = [p.outputDims]) (hf : f.Fits b)
    (hweights : ∀ h ∈ s.weights, (st'.after f.stores).workspace.weight h
      = (st.after f.stores).workspace.weight h) :
    ∃ c g, Supplied c p s g (st.after f.stores)
      ∧ Supplied c p s g (st'.after f.stores) := by
  obtain ⟨c, g, hst⟩ := h.supplied hsized hinputs houtputs hf
  have hshown := h.shown hinputs houtputs hf
  have hshown' := h'.shown hinputs houtputs hf
  have hrun' : Running p s { p with batch := n }.inputDims
      (st'.after f.stores) := h'.after f.stores
  have halike : InputsAlike s (st'.after f.stores).workspace
      (st.after f.stores).workspace :=
    ⟨hshown'.query.trans hshown.query.symm,
      hshown'.value.trans hshown.value.symm,
      hshown'.state.trans hshown.state.symm, hweights⟩
  exact ⟨c, g, hst, hrun'.slots, hrun'.mixtures, hrun'.wired,
    hst.held.of_alike halike,
    (hshown'.incoming.trans hshown.incoming.symm).trans hst.incoming⟩

-- ================================================================ the step

/-- Two workspaces hold the same in every buffer that a step writes: the nine
scratch buffers, the output, the packed derivative, the derivatives with
respect to the inputs and the gradients of the weights. -/
structure SameStep (s : Slots) (w w' : Workspace α) : Prop where
  batched : ∃ ts : List (Tensor α), batchedReads s w = ts.map .ok
    ∧ batchedReads s w' = ts.map .ok
  weightGrads : ∀ h ∈ s.weights, ∃ t, w.weightGrad h = .ok t
    ∧ w'.weightGrad h = .ok t

/-- Two sessions that are supplied with the same leave the same. -/
theorem SameStep.of_supplied {c : Given α} {g : Nat → Nat → α}
    {st' : Session α} (h : Supplied c p s g st)
    (h' : Supplied c p s g st') :
    SameStep s (final forwardBackward st).workspace
      (final forwardBackward st').workspace := by
  obtain ⟨-, hleft⟩ := h.forwardBackward
  obtain ⟨-, hleft'⟩ := h'.forwardBackward
  refine ⟨⟨_, hleft.batchedReads, hleft'.batchedReads⟩, ?_⟩
  simp only [Slots.weights, List.forall_mem_cons]
  exact ⟨⟨_, hleft.stored.hiddenWeight, hleft'.stored.hiddenWeight⟩,
    ⟨_, hleft.stored.hiddenBias, hleft'.stored.hiddenBias⟩,
    ⟨_, hleft.stored.packedWeight, hleft'.stored.packedWeight⟩,
    List.forall_mem_nil _⟩

/-- A step that succeeds starts with a forward pass that does. -/
theorem forward_of_forwardBackward {st' : Session α}
    (h : forwardBackward st = .ok () st') :
    ∃ st₁, forward st = .ok () st₁ := by
  cases hrun : forward st with
  | ok _ st₁ => exact ⟨st₁, rfl⟩
  | error e st₁ =>
      have hrefused : forwardBackward st = .error e st₁ :=
        bind_of_error hrun
      rw [hrefused] at h
      cases h

end

-- ======================================================= what is not looked at

/-- The contents of a scratch buffer or of its gradient. -/
def Place.IsContents : Place → Prop
  | .scratch _ => True
  | .scratchGrad _ => True
  | _ => False

/-- A forward pass looks at no scratch contents. -/
theorem Slots.not_contents_of_mem {s : Slots} {q : Place}
    (hq : q ∈ s.forwardReads) : ¬ q.IsContents := by
  simp only [forwardReads, List.mem_append, List.mem_cons, List.mem_map,
    List.not_mem_nil, or_false] at hq
  rcases hq with ((rfl | rfl | rfl) | ⟨h, -, rfl⟩) | ⟨h, -, rfl⟩ <;>
    exact id

-- ================================================================== histories

section

variable [Scalar α] {l : Layer α} {b : Blueprint} {m n : Nat}
  {past direct : Setup α} {f : Feed α}

/-- A session whose calls end at a batch extent runs with the plan for this
extent. -/
theorem running_after {setup : Setup α} {p : SetupPlan}
    (hfinal : Setup.finalize ⟨l, b.atBatch m⟩ = .ok () setup)
    (hinputs : (b.atBatch n).inputs = p.inputDims)
    (hunit : l.settings.unit = some p.unit) (g : Generator) (seed : UInt64)
    {as : List (Action α)} (has : ∀ a ∈ as, a.SparesExtents)
    (hlast : batchAfter as m = n) :
    Running p (.startingAt b.weights.length b.scratch.length)
        { p with batch := m }.inputDims ((Session.start setup g seed).after as)
      ∧ ((Session.start setup g seed).after as).workspace.WeightsSized := by
  obtain ⟨p', s, hplan, hstart, hsized⟩ := running_start hfinal g seed
  have hdims : (b.atBatch m).inputs = { p with batch := m }.inputDims :=
    inputDims_atBatch hinputs m
  rw [hdims] at hplan hstart
  obtain rfl := SetupPlan.eq_of_inputDims hplan hunit
  have hslots : s = .startingAt b.weights.length b.scratch.length := by
    obtain ⟨p', -, rfl⟩ := Setup.finalize_cases hfinal
    exact (Option.some.inj hstart.slots).symm
  have hbatch : batchAfter as m = p.batch :=
    hlast.trans (batch_of_inputDims hinputs).symm
  have hrun := hstart.after as
  dsimp only at hrun
  rw [hbatch, hslots] at hrun
  exact ⟨hrun, weightsSized_after as hsized has⟩

omit [Scalar α] in
/-- The handles that a setup gives do not depend on the batch extent. -/
theorem slots_atBatch {setup : Setup α}
    (hfinal : Setup.finalize ⟨l, b.atBatch m⟩ = .ok () setup) :
    setup.layer.slots
      = some (.startingAt b.weights.length b.scratch.length) := by
  obtain ⟨p, -, rfl⟩ := Setup.finalize_cases hfinal
  rfl

/-- A step succeeds only if the declared inputs are those of a plan. -/
theorem documents_of_step {setup : Setup α} {g : Generator} {seed : UInt64}
    (hfinal : Setup.finalize ⟨l, b.atBatch m⟩ = .ok () setup) (n : Nat)
    (as bs : List (Action α))
    (hrun : ∃ st', forwardBackward
      (((Session.start setup g seed).after as).after bs) = .ok () st') :
    l.Documents (b.atBatch n).inputs := by
  obtain ⟨st', hrun⟩ := hrun
  obtain ⟨st₁, hforward⟩ := forward_of_forwardBackward hrun
  have hdoc := documents_of_forward hfinal g seed (as ++ bs)
    ⟨st₁, by rw [Session.after, List.foldl_append]; exact hforward⟩
  exact hdoc.atBatch n

/-- With the inputs of a plan and the same weights, both sessions are supplied
with the same. -/
theorem supplied_of_documents
    (hpast : Setup.finalize ⟨l, b.atBatch m⟩ = .ok () past)
    (hdirect : Setup.finalize ⟨l, b.atBatch n⟩ = .ok () direct)
    (g : Generator) (seed₀ seed : UInt64) {as opening : List (Action α)}
    (has : ∀ a ∈ as, a.SparesExtents)
    (hopening : ∀ a ∈ opening, a.SparesExtents)
    (hlast : batchAfter as m = n) (hkept : batchAfter opening n = n)
    (hf : f.Fits direct.blueprint) {s : Slots}
    (hslots : direct.layer.slots = some s)
    (hweights : ∀ h ∈ s.weights,
      (((Session.start past g seed₀).after as).after
          f.stores).workspace.weight h
        = (((Session.start direct g seed).after opening).after
          f.stores).workspace.weight h)
    (hdoc : l.Documents (b.atBatch n).inputs) :
    ∃ c p g', Supplied c p s g'
        (((Session.start direct g seed).after opening).after f.stores)
      ∧ Supplied c p s g'
        (((Session.start past g seed₀).after as).after f.stores) := by
  obtain ⟨p, hinputs, hunit, -⟩ := hdoc
  obtain ⟨hrun₀, -⟩ := running_after hpast hinputs hunit g seed₀ has hlast
  obtain ⟨hrun, hsized⟩ := running_after hdirect hinputs hunit g seed
    hopening hkept
  obtain rfl := Option.some.inj ((slots_atBatch hdirect).symm.trans hslots)
  obtain ⟨p', hplan, rfl⟩ := Setup.finalize_cases hdirect
  rw [hinputs] at hplan
  obtain rfl := SetupPlan.eq_of_inputDims hplan hunit
  have hdims : (Setup.finalized p l.settings (b.atBatch n)).inputs
      = p.inputDims := hinputs
  obtain ⟨c, g', hboth⟩ :=
    hrun.both_supplied hrun₀ hsized hdims rfl hf hweights
  exact ⟨c, p, g', hboth⟩

/-- The history of the batch does not matter. One layer is set up twice, with
the inputs declared for one batch extent and for another. Any calls follow on
both workspaces, answered or refused, which end at the extent of the second
setup. Then both are fed the same, of this extent.

The weights are the same as long as nobody writes them, if they stem from
one seed or are not drawn. If they are the same, a step that succeeds on both
workspaces leaves the same in every buffer. On a machine that has room for
what both setups request, and for the batches that come up, it succeeds on
both exactly if the declared inputs are those of a plan. A forward pass looks
at no contents of scratch buffers, and of two changes of the batch extent
only the second shows. -/
theorem batch_history_forgotten
    (hpast : Setup.finalize ⟨l, b.atBatch m⟩ = .ok () past)
    (hdirect : Setup.finalize ⟨l, b.atBatch n⟩ = .ok () direct)
    (g : Generator) (seed₀ seed : UInt64) {as opening : List (Action α)}
    (has : ∀ a ∈ as, a.SparesExtents)
    (hopening : ∀ a ∈ opening, a.SparesExtents)
    (hlast : batchAfter as m = n) (hkept : batchAfter opening n = n)
    (hf : f.Fits direct.blueprint) :
    let st₀ := ((Session.start past g seed₀).after as).after f.stores
    let st := ((Session.start direct g seed).after opening).after f.stores
    ∃ s, past.layer.slots = some s ∧ direct.layer.slots = some s
      ∧ (seed₀ = seed ∨ l.settings.DrawNothing →
          (∀ a ∈ as ++ opening, a.SparesWeights) →
            ∀ h ∈ s.weights, st₀.workspace.weight h = st.workspace.weight h)
      ∧ ((∀ h ∈ s.weights, st₀.workspace.weight h = st.workspace.weight h) →
          ((∀ p, SetupPlan.of l (b.atBatch n).inputs = .ok p →
              past.HasRoom p as ∧ direct.HasRoom p opening) →
            Machine.Allocates α (past.blueprint.dims ++ direct.blueprint.dims)
              ∧ ((∃ st', forwardBackward st₀ = .ok () st')
                ↔ l.Documents (b.atBatch n).inputs)
              ∧ ((∃ st', forwardBackward st = .ok () st')
                ↔ l.Documents (b.atBatch n).inputs))
            ∧ ∀ st₀' st', forwardBackward st₀ = .ok () st₀' →
                forwardBackward st = .ok () st' →
                  SameStep s st₀'.workspace st'.workspace)
      ∧ (∀ X : List Place, (∀ q ∈ X, q.IsContents) →
          Confined s X s.forwardWrites s.forwardWrites (forward (α := α)))
      ∧ ∀ (k k' : Nat) (st : Session α),
          setBatch k' (final (setBatch k) st) = setBatch k' st := by
  intro st₀ st
  refine ⟨_, slots_atBatch hpast, slots_atBatch hdirect, ?_, ?_, ?_,
    setBatch_setBatch⟩
  · intro hseed hspares h hh
    have hstores : ∀ a ∈ f.stores, a.SparesWeights := by
      simp [Feed.stores, Action.SparesWeights]
    -- no call of either run writes to a weight
    have hsame : ∀ {st : Session α} (as : List (Action α)),
        (∀ a ∈ as, a.SparesWeights) →
          ((st.after as).after f.stores).workspace.weight h
            = st.workspace.weight h :=
      fun as has => weight_after f.stores hstores
        (weight_after as has fun _ => rfl) h
    rw [List.forall_mem_append] at hspares
    exact ((hsame as hspares.1).trans (weight_start hpast hdirect g hseed
      (slots_atBatch hdirect) h hh)).trans (hsame opening hspares.2).symm
  · intro hweights
    have hboth := supplied_of_documents hpast hdirect g seed₀ seed has
      hopening hlast hkept hf (slots_atBatch hdirect) hweights
    refine ⟨fun hroom => ⟨?_, ⟨documents_of_step hpast n as f.stores,
        fun hdoc => ?_⟩, ⟨documents_of_step hdirect n opening f.stores,
        fun hdoc => ?_⟩⟩, fun st₀' st' hrun₀ hrun => ?_⟩
    · obtain ⟨p, hplan, -⟩ := Setup.finalize_cases hdirect
      obtain ⟨hroom₀, hroom⟩ := hroom p hplan
      exact Machine.HasRoom.allocates
        (List.forall_mem_append.2 ⟨hroom₀.requests, hroom.requests⟩)
    · obtain ⟨c, p, g', -, hst₀⟩ := hboth hdoc
      exact ⟨_, hst₀.forwardBackward.1⟩
    · obtain ⟨c, p, g', hst, -⟩ := hboth hdoc
      exact ⟨_, hst.forwardBackward.1⟩
    -- both runs are supplied with the same, so they leave the same
    · have hdoc := documents_of_step hdirect n opening f.stores ⟨st', hrun⟩
      obtain ⟨c, p, g', hst, hst₀⟩ := hboth hdoc
      have hsame := SameStep.of_supplied hst₀ hst
      rwa [final_of_ok hrun₀, final_of_ok hrun] at hsame
  · intro X hX
    exact confined_forward
      (fun q hq hmem => Slots.not_contents_of_mem hq (hX q hmem))
      (List.Subset.refl _)

/-- From a batch of two over one of three to a single entry, with calls on
the way that are refused, and weights that are drawn. -/
theorem batch_history_forgotten_resized :
    let l : Layer Float :=
      { settings := { unit := some 2, mixtures := some 2 } }
    let b := Session.blankBlueprint ⟨2, 3, 3, 1, 2, 2⟩
    let f : Feed Float := ⟨.full [1, 1, 1, 3] 0.5, .full [1, 1, 3, 1] 2,
      .full [1, 1, 1, 2] 1, .full [1, 1, 1, 1] 3⟩
    ∃ past direct st₀ st,
      Setup.finalize ⟨l, b.atBatch 2⟩ = .ok () past
        ∧ Setup.finalize ⟨l, b.atBatch 1⟩ = .ok () direct
        ∧ forwardBackward (((Session.start past .splitMix 7).after
            [.forward, .setBatch 3, .forward, .gradient .weights,
              .setBatch 1]).after f.stores) = .ok () st₀
        ∧ forwardBackward ((Session.start direct .splitMix 7).after f.stores)
            = .ok () st
        ∧ SameStep (.startingAt 0 0) st₀.workspace st.workspace := by
  intro l b f
  let calls : List (Action Float) := [.forward, .setBatch 3, .forward,
    .gradient .weights, .setBatch 1]
  have hcalls : ∀ a ∈ calls, a.SparesExtents := by
    simp [calls, Action.SparesExtents]
  have hspares : ∀ a ∈ calls ++ [], a.SparesWeights := by
    simp [calls, Action.SparesWeights]
  have hopening : ∀ a ∈ ([] : List (Action Float)), a.SparesExtents :=
    List.forall_mem_nil _
  have hpast := Setup.finalize_of_plan (l := l) (b := b.atBatch 2)
    (p := ⟨2, 3, 3, 1, 2, 2⟩) rfl
  have hdirect := Setup.finalize_of_plan (l := l) (b := b.atBatch 1)
    (p := ⟨1, 3, 3, 1, 2, 2⟩) rfl
  obtain ⟨s, -, hslots, hweights, hstep, -⟩ := batch_history_forgotten
    hpast hdirect Generator.splitMix 7 7 hcalls hopening rfl rfl
    (f := f) ⟨rfl, rfl⟩
  obtain rfl := Option.some.inj hslots
  obtain ⟨hruns, hsame⟩ := hstep (hweights (.inl rfl) hspares)
  have hdoc : l.Documents (b.atBatch 1).inputs :=
    ⟨⟨1, 3, 3, 1, 2, 2⟩, rfl, rfl, by decide, rfl, by decide⟩
  obtain ⟨-, hrun₀, hrun⟩ := hruns fun p hplan => by
    obtain rfl : ⟨1, 3, 3, 1, 2, 2⟩ = p := Except.ok.inj hplan
    exact ⟨⟨by decide, by decide⟩, ⟨by decide, by decide⟩⟩
  obtain ⟨st₀, hrun₀⟩ := hrun₀.2 hdoc
  obtain ⟨st, hrun⟩ := hrun.2 hdoc
  exact ⟨_, _, st₀, st, hpast, hdirect, hrun₀, hrun,
    hsame st₀ st hrun₀ hrun⟩

end
end MixtureAttention
