/-
What the procedures of a layer write and what they look at. A procedure is
confined (`Confined`) if two sessions that differ at most at places that it
does not look at are treated alike: it answers the same, leaves the same
layer, and writes the same values, all of them to places that it may write,
and to all places that it must write if it is not refused.

With one session for both this is the frame of the procedure: it changes
nothing but what it may write (`Confined.frame`). With two it is
non-interference: what it wrote is the same in both, and so is everything
that was the same before.

Confinement passes through sequencing, so it is proved along the code of a
procedure, and each procedure has one lemma that gives both.
-/
import MixtureAttention.Proofs.Layer.GradientOrder
import MixtureAttention.Proofs.Layer.Wiring
import MixtureAttention.Proofs.Registry.Places

namespace MixtureAttention

variable {α β γ : Type}

open Procedure Workspace

-- ============================================================ confinement

/-- Two sessions of one layer, with handles `s`, that differ at most at the
places `X` of their workspaces. -/
structure Twins (s : Slots) (X : List Place) (st st' : Session α) : Prop where
  layer : st.layer = st'.layer
  slots : st.layer.slots = some s
  workspace : SameBut X st.workspace st'.workspace

/-- A call treats two sessions alike, writing to places in `may` and, if it
is not refused, to all places in `must`. -/
structure Together (may must : List Place) (p : Procedure α β)
    (st st' : Session α) : Prop where
  answer : answer p st = answer p st'
  layer : (final p st).layer = (final p st').layer
  slots : (final p st).layer.slots = st.layer.slots
  writes : ∃ xs : List (Write α), (∀ x ∈ xs, x.place ∈ may)
    ∧ (final p st).workspace = writeAll xs st.workspace
    ∧ (final p st').workspace = writeAll xs st'.workspace
    ∧ ∀ y, Procedure.answer p st = .ok y →
        ∀ q ∈ must, ∃ x ∈ xs, x.place = q

/-- On a layer with handles `s` the procedure does not look at the places
`X`. -/
def Confined (s : Slots) (X may must : List Place)
    (p : Procedure α β) : Prop :=
  ∀ st st', Twins s X st st' → Together may must p st st'

section

variable {s : Slots} {X may must must' : List Place} {st st' : Session α}
  {p : Procedure α β} {q : β → Procedure α γ}

/-- A procedure that writes nothing treats two sessions alike if it answers
the same and leaves the same layer. -/
theorem Together.of_idle
    (hanswer : Procedure.answer p st = Procedure.answer p st')
    (hlayer : (final p st).layer = (final p st').layer)
    (hslots : (final p st).layer.slots = st.layer.slots)
    (hw : (final p st).workspace = st.workspace)
    (hw' : (final p st').workspace = st'.workspace) :
    Together may [] p st st' :=
  ⟨hanswer, hlayer, hslots, [], List.forall_mem_nil _, hw, hw',
    fun _ _ => List.forall_mem_nil _⟩

namespace Confined

/-- Afterwards the sessions are alike as before. -/
theorem twins (hp : Confined s X may must p) (h : Twins s X st st') :
    Twins s X (final p st) (final p st') := by
  obtain ⟨-, hlayer, hslots, xs, -, hw, hw', -⟩ := hp st st' h
  refine ⟨hlayer, hslots.trans h.slots, ?_⟩
  rw [hw, hw']
  exact h.workspace.writeAll

/-- The procedure changes nothing but what it may write. -/
theorem frame (hp : Confined s X may must p)
    (hs : st.layer.slots = some s) :
    SameBut may st.workspace (final p st).workspace := by
  obtain ⟨-, -, -, xs, hmay, hw, -, -⟩ :=
    hp st st ⟨rfl, hs, .refl X st.workspace⟩
  rw [hw]
  exact sameBut_writeAll hmay st.workspace

/-- What it must write is the same afterwards, whatever was there. -/
theorem settles (hp : Confined s X may must p) (h : Twins s X st st') {y : β}
    (hy : answer p st = .ok y) {q : Place} (hq : q ∈ must) :
    SameAt (final p st).workspace (final p st').workspace q := by
  obtain ⟨-, -, -, xs, -, hw, hw', hmust⟩ := hp st st' h
  rw [hw, hw']
  exact sameAt_writeAll h.workspace.outline (hmust y hy q hq)

/-- Fewer places may be promised. -/
theorem mono (hp : Confined s X may must p) (hsub : must' ⊆ must) :
    Confined s X may must' p := by
  intro st st' h
  obtain ⟨hanswer, hlayer, hslots, xs, hmay, hw, hw', hmust⟩ := hp st st' h
  exact ⟨hanswer, hlayer, hslots, xs, hmay, hw, hw',
    fun y hy q hq => hmust y hy q (hsub hq)⟩

-- ------------------------------------------------------------- sequencing

/-- A value that is only returned writes nothing. -/
theorem pure (x : β) : Confined s X may [] (pure x : Procedure α β) :=
  fun _ _ h => .of_idle rfl h.layer rfl rfl rfl

/-- A refusal may promise any writes, since a promise is about success. -/
theorem throw (e : LayerError) :
    Confined s X may must (throw e : Procedure α β) :=
  fun _ _ h => ⟨rfl, h.layer, rfl, [], List.forall_mem_nil _, rfl, rfl,
    fun _ hy => by cases hy⟩

/-- Reading at other places writes nothing. -/
theorem read {f : Session α → Except LayerError β}
    (hf : ∀ st st', Twins s X st st' → f st = f st') :
    Confined s X may [] (read f) := by
  intro st st' h
  have hrun : ∀ st, final (Procedure.read f) st = st
      ∧ answer (Procedure.read f) st = f st := by
    intro st
    unfold final answer Procedure.read
    cases f st <;> exact ⟨rfl, rfl⟩
  obtain ⟨hfinal, hanswer⟩ := hrun st
  obtain ⟨hfinal', hanswer'⟩ := hrun st'
  refine .of_idle ?_ ?_ ?_ ?_ ?_
  · rw [hanswer, hanswer', hf st st' h]
  · rw [hfinal, hfinal', h.layer]
  · rw [hfinal]
  · rw [hfinal]
  · rw [hfinal']

/-- A change of the layer alone that keeps its handles. -/
theorem modifyLayer {g : Layer α → Layer α}
    (hg : ∀ l, (g l).slots = l.slots) :
    Confined s X may []
      (modify fun st => { st with layer := g st.layer } :
        Procedure α Unit) :=
  fun _ _ h => .of_idle rfl (congrArg g h.layer) (hg _) rfl rfl

/-- What the layer remembers is no place of a workspace. -/
theorem remember (memo : Memo α) :
    Confined s X may [] (Procedure.remember memo) :=
  modifyLayer (g := fun l => { l with memo }) fun _ => rfl

/-- A step that looks at the layer. -/
theorem get {q : Session α → Procedure α β}
    (hlayer : ∀ st st', st.layer = st'.layer → q st = q st')
    (hq : ∀ st, Confined s X may must (q st)) :
    Confined s X may must (MonadState.get >>= q) := by
  intro st st' h
  have hrun := hq st st st' h
  have hsame := hlayer st st' h.layer
  have hfinal : final (MonadState.get >>= q) st' = final (q st) st' := by
    rw [hsame]
    rfl
  have hanswer : Procedure.answer (MonadState.get >>= q) st'
      = Procedure.answer (q st) st' := by
    rw [hsame]
    rfl
  refine ⟨hrun.answer.trans hanswer.symm, ?_, hrun.slots, ?_⟩
  · rw [hfinal]
    exact hrun.layer
  · rw [hfinal]
    exact hrun.writes

/-- Two steps in sequence write what each of them writes. -/
theorem bind (hp : Confined s X may must p)
    (hq : ∀ x, Confined s X may must' (q x)) :
    Confined s X may (must ++ must') (p >>= q) := by
  intro st st' h
  have htwins := hp.twins h
  obtain ⟨hanswer, -, hslots, xs, hmay, hw, hw', hmust⟩ := hp st st' h
  cases hx : answer p st with
  | error e =>
      have hrun₁ := bind_of_refused (f := q) hx
      have hrun₂ := bind_of_refused (f := q) (hanswer.symm.trans hx)
      refine ⟨?_, ?_, ?_, xs, hmay, ?_, ?_, ?_⟩
      · rw [answer_of_error hrun₁, answer_of_error hrun₂]
      · rw [final_of_error hrun₁, final_of_error hrun₂, htwins.layer]
      · rw [final_of_error hrun₁, hslots]
      · rw [final_of_error hrun₁, hw]
      · rw [final_of_error hrun₂, hw']
      · intro y hy
        rw [answer_of_error hrun₁] at hy
        cases hy
  | ok x =>
      have hrun₁ := bind_of_answer (f := q) hx
      have hrun₂ := bind_of_answer (f := q) (hanswer.symm.trans hx)
      obtain ⟨hanswer', hlayer', hslots', ys, hmay', hv, hv', hmust'⟩ :=
        hq x _ _ htwins
      refine ⟨?_, ?_, ?_, xs ++ ys, ?_, ?_, ?_, ?_⟩
      · rw [answer_congr hrun₁, answer_congr hrun₂, hanswer']
      · rw [final_congr hrun₁, final_congr hrun₂, hlayer']
      · rw [final_congr hrun₁, hslots', hslots]
      · intro y hy
        exact (List.mem_append.1 hy).elim (hmay y) (hmay' y)
      · rw [final_congr hrun₁, hv, hw, writeAll_append]
      · rw [final_congr hrun₂, hv', hw', writeAll_append]
      · intro y hy r hr
        rw [answer_congr hrun₁] at hy
        rcases List.mem_append.1 hr with hr | hr
        · obtain ⟨z, hz, hplace⟩ := hmust x hx r hr
          exact ⟨z, List.mem_append_left _ hz, hplace⟩
        · obtain ⟨z, hz, hplace⟩ := hmust' y hy r hr
          exact ⟨z, List.mem_append_right _ hz, hplace⟩

/-- A step before what must be written. -/
theorem before (hp : Confined s X may [] p)
    (hq : ∀ x, Confined s X may must (q x)) :
    Confined s X may must (p >>= q) :=
  hp.bind hq

/-- A step after it. -/
theorem after (hp : Confined s X may must p)
    (hq : ∀ x, Confined s X may [] (q x)) :
    Confined s X may must (p >>= q) :=
  (hp.bind hq).mono (List.subset_append_left must [])

/-- Whoever asks for the handles of the layer gets them. -/
theorem slots {q : Slots → Procedure α β}
    (hq : Confined s X may must (q s)) :
    Confined s X may must
      (Procedure.read (fun st => st.layer.slots?) >>= q) := by
  intro st st' h
  have hrun : ∀ {st : Session α}, st.layer.slots = some s →
      (Procedure.read (fun st => st.layer.slots?) >>= q) st = q s st :=
    fun hs => bind_of_ok (read_of_ok (Layer.slots?_of_some hs))
  have hslots' : st'.layer.slots = some s := h.layer ▸ h.slots
  have hrun₁ := hrun h.slots
  have hrun₂ := hrun hslots'
  obtain ⟨hanswer, hlayer, hslots, hwrites⟩ := hq st st' h
  refine ⟨?_, ?_, ?_, ?_⟩
  · rw [answer_congr hrun₁, answer_congr hrun₂, hanswer]
  · rw [final_congr hrun₁, final_congr hrun₂, hlayer]
  · rw [final_congr hrun₁, hslots]
  · rw [final_congr hrun₁, final_congr hrun₂, answer_congr hrun₁]
    exact hwrites

-- --------------------------------------------------------------- commands

/-- A command that makes the same writes on two workspaces. -/
theorem command {c : Command α Unit}
    (hc : ∀ w w', SameBut X w w' → ∃ (r : Except LayerError Unit)
      (xs : List (Write α)), (∀ x ∈ xs, x.place ∈ may)
        ∧ c w = answered r (writeAll xs w)
        ∧ c w' = answered r (writeAll xs w')
        ∧ ∀ y, r = .ok y → ∀ q ∈ must, ∃ x ∈ xs, x.place = q) :
    Confined s X may must (onWorkspace c) := by
  intro st st' h
  obtain ⟨r, xs, hmay, hw, hw', hmust⟩ := hc _ _ h.workspace
  obtain ⟨hfinal, hanswer⟩ := onWorkspace_of_answered hw
  obtain ⟨hfinal', hanswer'⟩ := onWorkspace_of_answered hw'
  refine ⟨hanswer.trans hanswer'.symm, ?_, ?_, xs, hmay, ?_, ?_, ?_⟩
  · rw [hfinal, hfinal', h.layer]
  · rw [hfinal]
  · rw [hfinal]
  · rw [hfinal']
  · rw [hanswer]
    exact hmust

/-- A store that writes one value. -/
theorem store {c : Command α Unit}
    {check : Workspace α → Except LayerError Unit}
    {next : Workspace α → Workspace α}
    (hform : ∀ w, c w = stored (check w) w (next w))
    (hcheck : ∀ w w', SameBut X w w' → check w = check w') {x : Write α}
    (hx : x.place ∈ may)
    (hnext : ∀ w, check w = .ok () → next w = x.apply w) :
    Confined s X may [x.place] (onWorkspace c) := by
  refine .command fun w w' h => ?_
  have hsame := hcheck w w' h
  cases hw : check w with
  | error e =>
      refine ⟨.error e, [], List.forall_mem_nil _, ?_, ?_,
        fun _ hy => by cases hy⟩
      · rw [hform, hw]
        rfl
      · rw [hform, ← hsame, hw]
        rfl
  | ok _ =>
      refine ⟨.ok (), [x], by simpa using hx, ?_, ?_, fun _ _ q hq => ?_⟩
      · rw [hform, hw, hnext w hw]
        rfl
      · rw [hform, ← hsame, hw, hnext w' (hsame.symm.trans hw)]
        rfl
      · exact ⟨x, List.mem_singleton_self x, (List.mem_singleton.1 hq).symm⟩

/-- Storing an input writes that input. -/
theorem setInput {h : InputHandle} (hmay : .input h.index ∈ may)
    (t : Tensor α) :
    Confined s X may [.input h.index]
      (onWorkspace (Workspace.setInput h t)) := by
  refine .store (x := .input h t) (setInput_eq h t) (fun w w' hw => ?_) hmay
    fun _ _ => rfl
  rw [hw.inputDims]

/-- Storing an incoming derivative writes it. -/
theorem setIncoming {i : Nat} (hmay : .incoming i ∈ may) (t : Tensor α) :
    Confined s X may [.incoming i]
      (onWorkspace (Workspace.setIncoming i t)) := by
  refine .store (x := .incoming i t) (setIncoming_eq i t) (fun w w' hw => ?_)
    hmay fun _ _ => rfl
  rw [hw.outputDims]

/-- Storing an output writes it. -/
theorem setOutput {i : Nat} (hmay : .output i ∈ may) (t : Tensor α) :
    Confined s X may [.output i] (onWorkspace (Workspace.setOutput i t)) := by
  refine .store (x := .output i t) (setOutput_eq i t) (fun w w' hw => ?_) hmay
    fun _ _ => rfl
  rw [hw.outputDims]

/-- Storing an outgoing derivative looks at the input that it belongs to. -/
theorem setOutgoing {h : InputHandle} (hX : .input h.index ∉ X)
    (hmay : .outgoing h.index ∈ may) (t : Tensor α) :
    Confined s X may [.outgoing h.index]
      (onWorkspace (Workspace.setOutgoing h t)) :=
  .store (x := .outgoing h t) (setOutgoing_eq h t)
    (fun _ _ hw => hw.fitsInput hX t) hmay fun _ _ => rfl

/-- Storing a weight gradient looks at a request, which never differs. -/
theorem setWeightGrad {h : WeightHandle} (hmay : .weightGrad h.index ∈ may)
    (t : Tensor α) :
    Confined s X may [.weightGrad h.index]
      (onWorkspace (Workspace.setWeightGrad h t)) :=
  .store (x := .weightGrad h t) (setWeightGrad_eq h t)
    (fun _ _ hw => hw.fitsWeight h t) hmay fun _ _ => rfl

/-- Storing a scratch value looks at the request of its buffer. -/
theorem setScratch {h : ScratchHandle} (hX : .request h.index ∉ X)
    (hmay : .scratch h.index ∈ may) (t : Tensor α) :
    Confined s X may [.scratch h.index]
      (onWorkspace (Workspace.setScratch h t)) :=
  .store (x := .scratch h t) (setScratch_eq h t)
    (fun _ _ hw => hw.fitsScratch hX t) hmay fun _ _ => rfl

/-- Storing a scratch gradient looks at the request and at whether there is a
gradient. -/
theorem setScratchGrad {h : ScratchHandle} (hX : .request h.index ∉ X)
    (hX' : .scratchGrad h.index ∉ X) (hmay : .scratchGrad h.index ∈ may)
    (t : Tensor α) :
    Confined s X may [.scratchGrad h.index]
      (onWorkspace (Workspace.setScratchGrad h t)) := by
  refine .store (x := .scratchGrad h t) (setScratchGrad_eq h t)
    (fun w w' hw => ?_) hmay fun w hw => ?_
  · rw [hw.fitsScratch hX t, hw.scratchGrad hX hX']
  · -- the gradient is there, so it is written whether asked for or not
    obtain ⟨-, -, hgrad⟩ := exists_of_bind hw
    obtain ⟨grad, hgrad, -⟩ := exists_of_bind hgrad
    obtain ⟨e, he, hsome⟩ := scratchGrad_eq_ok.1 hgrad
    unfold putScratchGrad Write.apply
    dsimp only
    congr 1
    refine modify_congr_at fun e' he' => ?_
    rw [he] at he'
    cases he'
    rw [hsome]
    rfl

/-- A change of the batch extent writes the three places of a buffer. -/
theorem resize [Zero α] {h : ScratchHandle} (hX : .request h.index ∉ X)
    (hmay : h.places ⊆ may) (n : Nat) :
    Confined s X may h.places
      (onWorkspace (Workspace.resize (α := α) h n)) := by
  refine .command fun w w' hw => ?_
  have hdecl : w.scratch[h.index]?.map (·.decl)
      = w'.scratch[h.index]?.map (·.decl) := hw.same _ hX
  cases he : w.scratch[h.index]? with
  | none =>
      rw [he] at hdecl
      have he' := Option.map_eq_none_iff.1 hdecl.symm
      exact ⟨_, [], List.forall_mem_nil _, resize_of_none n he,
        resize_of_none n he', fun _ hy => by cases hy⟩
  | some e =>
      rw [he] at hdecl
      obtain ⟨e', he', hdecl⟩ := Option.map_eq_some_iff.1 hdecl.symm
      refine ⟨_, _, fun x hx => hmay ?_, resize_eq_writes n he rfl,
        resize_eq_writes n he' hdecl, fun _ _ q hq => ?_⟩
      · rw [← place_reallocation h (e.resize n)]
        exact List.mem_map_of_mem hx
      · rw [← place_reallocation h (e.resize n)] at hq
        exact List.mem_map.1 hq

end Confined
end

-- ============================================================== reading

namespace Slots

/-- The places that a forward pass looks at. The contents of scratch buffers
are not among them, only their extents. -/
def forwardReads (s : Slots) : List Place :=
  [.input s.query.index, .input s.value.index, .input s.state.index]
    ++ s.weights.map (fun h => .weight h.index)
    ++ s.scratch.map fun h => .request h.index

/-- The places that any procedure looks at. -/
def reads (s : Slots) : List Place :=
  s.forwardReads ++ [.incoming 0, .scratchGrad s.packed.index]
    ++ s.scratch.map fun h => .scratch h.index

/-- A forward pass looks at the requests of all its buffers. -/
theorem mem_forwardReads_request {s : Slots} {h : ScratchHandle}
    (hmem : h ∈ s.scratch) : .request h.index ∈ s.forwardReads :=
  List.mem_append_right _ (List.mem_map_of_mem hmem)

/-- The backward calls look at all that a forward pass looks at. -/
theorem forwardReads_subset (s : Slots) : s.forwardReads ⊆ s.reads :=
  fun _ hq => List.mem_append_left _ (List.mem_append_left _ hq)

end Slots

/-- Two workspaces hold the same inputs and weights for a layer with handles
`s`. -/
structure InputsAlike (s : Slots) (w w' : Workspace α) : Prop where
  query : w.input s.query = w'.input s.query
  value : w.input s.value = w'.input s.value
  state : w.input s.state = w'.input s.state
  weight : ∀ h ∈ s.weights, w.weight h = w'.weight h

/-- They show the layer the same wherever it looks. -/
structure ReadsAlike (s : Slots) (w w' : Workspace α) : Prop
    extends InputsAlike s w w' where
  incoming : w.incomingAt 0 = w'.incomingAt 0
  packedGrad : w.scratchGrad s.packed = w'.scratchGrad s.packed
  scratch : ∀ h ∈ s.scratch, w.scratchValue h = w'.scratchValue h

section

variable {s : Slots} {X : List Place} {w w' : Workspace α}

/-- Workspaces that differ elsewhere have the same inputs and weights for a
forward pass. -/
theorem Workspace.SameBut.inputsAlike (h : SameBut X w w')
    (hX : ∀ q ∈ s.forwardReads, q ∉ X) : InputsAlike s w w' where
  query := h.input (hX _ (by simp [Slots.forwardReads]))
  value := h.input (hX _ (by simp [Slots.forwardReads]))
  state := h.input (hX _ (by simp [Slots.forwardReads]))
  weight i hi :=
    h.weight (hX _ (List.mem_append_left _ (List.mem_append_right _
      (List.mem_map_of_mem hi))))

/-- Workspaces that differ elsewhere are the same in everything that the
backward calls look at. -/
theorem Workspace.SameBut.readsAlike (h : SameBut X w w')
    (hX : ∀ q ∈ s.reads, q ∉ X) : ReadsAlike s w w' where
  toInputsAlike := h.inputsAlike fun q hq => hX q (s.forwardReads_subset hq)
  incoming := h.incomingAt (hX _ (by simp [Slots.reads]))
  packedGrad :=
    h.scratchGrad (hX _ (s.forwardReads_subset
      (Slots.mem_forwardReads_request (by simp [Slots.scratch]))))
      (hX _ (by simp [Slots.reads]))
  scratch i hi :=
    h.scratchValue (hX _ (List.mem_append_right _ (List.mem_map_of_mem hi)))

/-- Alike inputs give the same nine buffers. -/
theorem InputsAlike.forwardValues [Scalar α] (h : InputsAlike s w w')
    (k : Nat) : forwardValues s k w = forwardValues s k w' := by
  unfold MixtureAttention.forwardValues
  rw [h.query, h.value, h.state, h.weight _ (by simp [Slots.weights]),
    h.weight s.hiddenBias (by simp [Slots.weights]),
    h.weight s.packedWeight (by simp [Slots.weights])]

namespace ReadsAlike

variable [Scalar α] (h : ReadsAlike s w w')

include h

/-- The derivatives of the forward buffers are the same. -/
theorem packedDerivative (k : Nat) :
    packedDerivative s k w = packedDerivative s k w' := by
  unfold MixtureAttention.packedDerivative
  rw [h.incoming, h.value, h.scratch s.packed (by simp [Slots.scratch]),
    h.scratch s.mass (by simp [Slots.scratch]),
    h.scratch s.upper (by simp [Slots.scratch]),
    h.scratch s.lower (by simp [Slots.scratch]),
    h.scratch s.upperEdge (by simp [Slots.scratch]),
    h.scratch s.lowerEdge (by simp [Slots.scratch])]

/-- The derivative of the hidden row is the same. -/
theorem hiddenDerivative :
    hiddenDerivative s w = hiddenDerivative s w' := by
  unfold MixtureAttention.hiddenDerivative
  rw [h.packedGrad, h.weight s.packedWeight (by simp [Slots.weights]),
    h.scratch s.hidden (by simp [Slots.scratch])]

/-- The derivative of the values is the same. -/
theorem valueDerivative :
    valueDerivative .release s w = valueDerivative .release s w' := by
  unfold MixtureAttention.valueDerivative
  rw [h.scratch s.scores (by simp [Slots.scratch]), h.incoming, h.value]

/-- The derivative of the query is the same. -/
theorem queryDerivative : queryDerivative s w = queryDerivative s w' := by
  unfold MixtureAttention.queryDerivative
  rw [h.hiddenDerivative, h.weight s.hiddenWeight (by simp [Slots.weights])]

/-- The three weight gradients are the same. -/
theorem weightDerivatives :
    weightDerivatives .release s w = weightDerivatives .release s w' := by
  unfold MixtureAttention.weightDerivatives
  rw [h.scratch s.hidden (by simp [Slots.scratch]), h.packedGrad,
    h.weight s.packedWeight (by simp [Slots.weights]), h.hiddenDerivative,
    h.query, h.weight s.hiddenWeight (by simp [Slots.weights])]

end ReadsAlike
end

-- =================================================== what each call writes

namespace Slots

/-- What a forward pass writes. -/
def forwardWrites (s : Slots) : List Place :=
  s.scratch.map (fun h => .scratch h.index) ++ [.output 0]

/-- What a change of the batch extent writes. -/
def batchWrites (s : Slots) : List Place :=
  s.scratch.flatMap ScratchHandle.places

end Slots

namespace GradientCall

/-- What a gradient procedure is called for. -/
def results (s : Slots) : GradientCall → List Place
  | inputs => [.outgoing s.query.index, .outgoing s.value.index,
      .outgoing s.state.index]
  | weights => s.weights.map fun h => .weightGrad h.index

/-- What it writes, the packed derivative included, which is there for the
other one as well. -/
def writes (s : Slots) (c : GradientCall) : List Place :=
  .scratchGrad s.packed.index :: c.results s

end GradientCall

namespace Layer

variable {s : Slots} {X may : List Place}

/-- A change of the batch size looks at no place but its buffers and writes all
of them. -/
theorem confined_setBatch [Zero α] (hX : ∀ q ∈ s.forwardReads, q ∉ X)
    (hmay : s.batchWrites ⊆ may) (n : Nat) :
    Confined s X may s.batchWrites (setBatch (α := α) n) := by
  have hall : ∀ hs : List ScratchHandle, hs ⊆ s.scratch →
      Confined s X may (hs.flatMap ScratchHandle.places)
        (onWorkspace (resizeAll (α := α) n hs)) := by
    intro hs
    induction hs with
    | nil => exact fun _ => .pure ()
    | cons h hs ih =>
        intro hsub
        have hmem := hsub (List.mem_cons_self ..)
        rw [resizeAll, onWorkspace_bind, List.flatMap_cons]
        refine .bind (.resize (hX _ (Slots.mem_forwardReads_request hmem)) ?_ n)
          fun _ => ih fun i hi => hsub (List.mem_cons_of_mem _ hi)
        exact fun q hq => hmay (List.mem_flatMap.2 ⟨h, hmem, hq⟩)
  exact .slots (.after (hall s.scratch (List.Subset.refl _)) fun _ =>
    .remember _)

variable [Scalar α]

/-- A forward pass writes its buffers and the output. -/
theorem confined_forward (hX : ∀ q ∈ s.forwardReads, q ∉ X)
    (hmay : s.forwardWrites ⊆ may) :
    Confined s X may s.forwardWrites (forward (α := α)) := by
  have hscratch : ∀ h ∈ s.scratch, ∀ t : Tensor α,
      Confined s X may [.scratch h.index] (onWorkspace (setScratch h t)) :=
    fun h hmem t => .setScratch (hX _ (Slots.mem_forwardReads_request hmem))
      (hmay (List.mem_append_left _ (List.mem_map_of_mem hmem))) t
  have hstore : ∀ v : ForwardValues α,
      Confined s X may s.forwardWrites (onWorkspace (v.store s)) := by
    intro v
    unfold ForwardValues.store
    simp only [onWorkspace_bind]
    simp only [Slots.scratch, List.forall_mem_cons] at hscratch
    obtain ⟨h₁, h₂, h₃, h₄, h₅, h₆, h₇, h₈, h₉, -⟩ := hscratch
    have hout : Confined s X may [.output 0]
        (onWorkspace (setOutput 0 v.output)) :=
      .setOutput (hmay (by simp [Slots.forwardWrites])) _
    exact (h₁ _).bind fun _ => (h₂ _).bind fun _ => (h₃ _).bind fun _ =>
      (h₄ _).bind fun _ => (h₅ _).bind fun _ => (h₆ _).bind fun _ =>
      (h₇ _).bind fun _ => (h₈ _).bind fun _ => (h₉ _).bind fun _ => hout
  refine .slots (.before (.read fun st st' h => ?_) fun k => ?_)
  · rw [h.layer]
  refine .before (.remember _) fun _ => .before (.read fun st st' h => ?_)
    fun v => .after (hstore v) fun _ => .remember _
  exact (h.workspace.inputsAlike hX).forwardValues k

/-- The shared derivatives are written to the packed buffer's gradient alone.
-/
theorem confined_ensureDifferentiated (hX : ∀ q ∈ s.reads, q ∉ X)
    (hmay : .scratchGrad s.packed.index ∈ may) :
    Confined s X may [] (ensureDifferentiated (α := α)) := by
  refine .get (fun st st' h => by rw [h]) fun st => ?_
  cases st.layer.memo with
  | stale => exact .throw _
  | differentiated _ => exact .pure _
  | forwarded =>
      have hpacked : .request s.packed.index ∉ X :=
        hX _ (s.forwardReads_subset
          (Slots.mem_forwardReads_request (by simp [Slots.scratch])))
      refine .slots (.before (.read fun st st' h => ?_) fun k => ?_)
      · rw [h.layer]
      refine .before (.read fun st st' h => ?_) fun d => ?_
      · exact (h.workspace.readsAlike hX).packedDerivative k
      refine .mono (.after (.setScratchGrad hpacked ?_ hmay _) fun _ =>
        .modifyLayer (g := fun l =>
          { l with
            packedRuns := l.packedRuns + 1
            memo := .differentiated d.state })
          fun _ => rfl) (List.nil_subset _)
      exact hX _ (by simp [Slots.reads])

/-- The weight gradients are written beside the shared derivatives. -/
theorem confined_weightGradients (hX : ∀ q ∈ s.reads, q ∉ X)
    (hmay : GradientCall.weights.writes s ⊆ may) :
    Confined s X may (GradientCall.weights.results s)
      (weightGradients (α := α) .release) := by
  have hstore : ∀ h ∈ s.weights, ∀ t : Tensor α,
      Confined s X may [.weightGrad h.index]
        (onWorkspace (setWeightGrad h t)) :=
    fun h hmem t => .setWeightGrad
      (hmay (List.mem_cons_of_mem _ (List.mem_map_of_mem hmem))) t
  simp only [Slots.weights, List.forall_mem_cons] at hstore
  obtain ⟨hhidden, hbias, hpacked, -⟩ := hstore
  refine .slots (.before (confined_ensureDifferentiated hX
    (hmay (List.mem_cons_self ..))) fun _ => ?_)
  refine .before (.read fun st st' h => ?_) fun d => ?_
  · exact (h.workspace.readsAlike hX).weightDerivatives
  refine .mono (.bind (hpacked _) fun _ => .bind (hhidden _) fun _ =>
    hbias _) ?_
  simp [GradientCall.results, Slots.weights]

/-- The outgoing derivatives are written beside the shared derivatives. -/
theorem confined_inputGradients (hX : ∀ q ∈ s.reads, q ∉ X)
    (hmay : GradientCall.inputs.writes s ⊆ may) :
    Confined s X may (GradientCall.inputs.results s)
      (inputGradients (α := α) .release) := by
  have hstore : ∀ h : InputHandle, .input h.index ∈ s.reads →
      .outgoing h.index ∈ GradientCall.inputs.writes s → ∀ t : Tensor α,
      Confined s X may [.outgoing h.index] (onWorkspace (setOutgoing h t)) :=
    fun h hread hwrite t => .setOutgoing (hX _ hread) (hmay hwrite) t
  have hrest : Confined s X may (GradientCall.inputs.results s) (do
      let dvalue ← Procedure.read fun st => valueDerivative .release s st.workspace
      ensureDifferentiated
      let dquery ← Procedure.read fun st => queryDerivative s st.workspace
      let dstate ← Procedure.read fun st => st.layer.stateDerivative
      onWorkspace (setOutgoing s.query dquery)
      onWorkspace (setOutgoing s.value dvalue)
      onWorkspace (setOutgoing s.state dstate) : Procedure α Unit) := by
    refine .before (.read fun st st' h => ?_) fun dvalue => ?_
    · exact (h.workspace.readsAlike hX).valueDerivative
    refine .before (confined_ensureDifferentiated hX
      (hmay (List.mem_cons_self ..))) fun _ => ?_
    refine .before (.read fun st st' h => ?_) fun dquery => ?_
    · exact (h.workspace.readsAlike hX).queryDerivative
    refine .before (.read fun st st' h => ?_) fun dstate => ?_
    · rw [h.layer]
    refine .bind (hstore _ ?_ ?_ _) fun _ => .bind (hstore _ ?_ ?_ _)
      fun _ => hstore _ ?_ ?_ _
    all_goals simp [Slots.reads, Slots.forwardReads, GradientCall.writes,
      GradientCall.results]
  refine .slots (.get (fun st st' h => by rw [h]) fun st => ?_)
  by_cases hstale : st.layer.isStale = true
  · simp only [hstale, if_true]
    exact .mono (.before (.throw _) fun _ => hrest) (List.Subset.refl _)
  · simp only [hstale]
    exact hrest

end Layer
end MixtureAttention
