/-
Two layers on one workspace. A workspace has one numbering for weights and
one for scratch buffers, and handles are bare numbers, so two layers keep
apart for one reason only: requests are answered with consecutive numbers
(`Numbered`), whoever makes them. From that, what one layer may write is
nothing that the other looks at (`Slots.apart`), since both also share the
inputs, which no layer writes, and the outgoing derivatives and the output,
which no layer reads.

So the calls of one layer can be left out of any history without the other
layer noticing (`neighbours_undisturbed`). The invariant is `Twins`: the
session of the second layer in the full history and in the one without the
first layer's calls differ at most where the first layer writes. A call of
the first layer keeps it by its frame, a call of the second by confinement.
-/
import Mathlib.Data.List.Nodup
import MixtureAttention.Proofs.Layer.Confinement

namespace MixtureAttention

variable {α : Type}

open Layer Procedure Workspace

-- ================================================== calls of one layer

/-- A change of the settings of the layer. -/
def Procedure.onSettings (c : Settings.Change) : Procedure α Unit :=
  fun st =>
    match c st.layer.settings with
    | .ok x settings =>
        .ok x { st with layer := { st.layer with settings } }
    | .error e settings =>
        .error e { st with layer := { st.layer with settings } }

/-- What a layer that is set up can be called for. -/
inductive LayerCall
  | forward
  | gradient (c : GradientCall)
  | setBatch (batch : Nat)
  | setProperty (key value : String)
  | configure (entries : List String)

namespace LayerCall

/-- The procedure that is called. -/
def procedure [Scalar α] : LayerCall → Procedure α Unit
  | forward => Layer.forward
  | gradient c => c.procedure
  | setBatch n => Layer.setBatch n
  | setProperty key value => onSettings (Settings.set key value)
  | configure entries => onSettings (Settings.load entries)

/-- The places that a call writes at most, on a layer with handles `s`. -/
def writes (s : Slots) : LayerCall → List Place
  | forward => s.forwardWrites
  | gradient c => c.writes s
  | setBatch _ => s.batchWrites
  | setProperty _ _ => []
  | configure _ => []

/-- The places that it writes in any case, unless it is refused. -/
def results (s : Slots) : LayerCall → List Place
  | forward => s.forwardWrites
  | gradient c => c.results s
  | setBatch _ => s.batchWrites
  | setProperty _ _ => []
  | configure _ => []

end LayerCall

section

variable {s : Slots} {X may : List Place} {st : Session α}

/-- Settings are no part of the workspace. -/
theorem Confined.onSettings (c : Settings.Change) :
    Confined s X may [] (Procedure.onSettings (α := α) c) := by
  intro st st' h
  have hkeeps : ∀ st : Session α,
      (final (Procedure.onSettings c) st).workspace = st.workspace
        ∧ (final (Procedure.onSettings c) st).layer.slots
            = st.layer.slots := by
    intro st
    unfold final Procedure.onSettings
    cases c st.layer.settings <;> exact ⟨rfl, rfl⟩
  refine .of_idle ?_ ?_ (hkeeps st).2 (hkeeps st).1 (hkeeps st').1
  · unfold answer Procedure.onSettings
    rw [h.layer]
    cases c st'.layer.settings <;> rfl
  · unfold final Procedure.onSettings
    rw [h.layer]
    cases c st'.layer.settings <;> rfl

variable [Scalar α]

/-- Every call of a layer looks at nothing but what the layer reads and
writes nothing but its own. -/
theorem LayerCall.confined (c : LayerCall) (hX : ∀ q ∈ s.reads, q ∉ X) :
    Confined s X (c.writes s) (c.results s) (c.procedure (α := α)) := by
  cases c with
  | forward =>
      exact confined_forward (fun q hq => hX q (s.forwardReads_subset hq))
        (List.Subset.refl _)
  | setBatch n =>
      exact confined_setBatch (fun q hq => hX q (s.forwardReads_subset hq))
        (List.Subset.refl _) n
  | setProperty key value =>
      exact Confined.onSettings (Settings.set key value)
  | configure entries => exact Confined.onSettings (Settings.load entries)
  | gradient c =>
      cases c with
      | inputs => exact confined_inputGradients hX (List.Subset.refl _)
      | weights => exact confined_weightGradients hX (List.Subset.refl _)

/-- On any workspace a call changes no places but its own. -/
theorem LayerCall.frame (c : LayerCall) (hs : st.layer.slots = some s) :
    SameBut (c.writes s) st.workspace
      (Procedure.final c.procedure st).workspace :=
  (c.confined (X := []) fun _ _ => List.not_mem_nil).frame hs

end

-- ================================================ requests by anyone else

namespace Blueprint

/-- What is asked of a blueprint. -/
inductive Request
  | weight (dims : Dims) (initializer : Initializer)
      (regularizer : Regularizer) (constant : Float) (name : String)
      (trainable : Bool)
  | scratch (dims : Dims) (name : String) (hasGrad : Bool)
      (lifespan : Lifespan)
  | outputs (dims : List Dims)

/-- The handles that requests were answered with. -/
structure Handles where
  weights : List WeightHandle := []
  scratch : List ScratchHandle := []

/-- Makes a request. -/
def request (b : Blueprint) : Request → Handles × Blueprint
  | .weight dims initializer regularizer constant name trainable =>
      let (h, b) := b.requestWeight dims initializer regularizer constant
        name trainable
      ({ weights := [h] }, b)
  | .scratch dims name hasGrad lifespan =>
      let (h, b) := b.requestScratch dims name hasGrad lifespan
      ({ scratch := [h] }, b)
  | .outputs dims => ({}, b.setOutputs dims)

/-- Makes requests one after the other. -/
def requestAll : List Request → Blueprint → Handles × Blueprint
  | [], b => ({}, b)
  | r :: rs, b =>
      let (h, b) := b.request r
      let (hs, b) := requestAll rs b
      (⟨h.weights ++ hs.weights, h.scratch ++ hs.scratch⟩, b)

/-- The handles carry the numbers that come next, one after the other. -/
structure Numbered (b : Blueprint) (ws : List WeightHandle)
    (ss : List ScratchHandle) (b' : Blueprint) : Prop where
  weights : ws.map (·.index) = List.range' b.weights.length ws.length
  scratch : ss.map (·.index) = List.range' b.scratch.length ss.length
  weightCount : b'.weights.length = b.weights.length + ws.length
  scratchCount : b'.scratch.length = b.scratch.length + ss.length

variable {b b' b'' : Blueprint} {ws ws' : List WeightHandle}
  {ss ss' : List ScratchHandle}

/-- Handles numbered in sequence stay so. -/
theorem Numbered.append (h : Numbered b ws ss b')
    (h' : Numbered b' ws' ss' b'') :
    Numbered b (ws ++ ws') (ss ++ ss') b'' := by
  obtain ⟨hw, hs, hwc, hsc⟩ := h
  obtain ⟨hw', hs', hwc', hsc'⟩ := h'
  refine ⟨?_, ?_, ?_, ?_⟩
  · rw [List.map_append, hw, hw', hwc, List.length_append,
      List.range'_append_1]
  · rw [List.map_append, hs, hs', hsc, List.length_append,
      List.range'_append_1]
  · rw [hwc', hwc, List.length_append, Nat.add_assoc]
  · rw [hsc', hsc, List.length_append, Nat.add_assoc]

/-- Consecutive numbers are distinct. -/
theorem Numbered.nodup (h : Numbered b ws ss b') : ws.Nodup ∧ ss.Nodup := by
  constructor
  · refine List.Nodup.of_map (·.index) ?_
    rw [h.weights]
    exact List.nodup_range'
  · refine List.Nodup.of_map (·.index) ?_
    rw [h.scratch]
    exact List.nodup_range'

/-- One request numbers its handles on. -/
theorem numbered_request (b : Blueprint) (r : Request) :
    Numbered b (b.request r).1.weights (b.request r).1.scratch
      (b.request r).2 := by
  cases r <;> exact ⟨rfl, rfl, by simp [request, requestWeight,
    requestScratch, setOutputs], by simp [request, requestWeight,
    requestScratch, setOutputs]⟩

/-- So all requests number theirs without overlap. -/
theorem numbered_requestAll :
    ∀ (rs : List Request) (b : Blueprint),
      Numbered b (requestAll rs b).1.weights (requestAll rs b).1.scratch
        (requestAll rs b).2
  | [], _ => ⟨rfl, rfl, rfl, rfl⟩
  | r :: rs, b =>
      (numbered_request b r).append (numbered_requestAll rs (b.request r).2)

/-- A setup that succeeds is answered with consecutive numbers too. -/
theorem numbered_finalize {l : Layer α} {setup : Setup α}
    (h : Setup.finalize ⟨l, b⟩ = .ok () setup) :
    ∃ s, setup.layer.slots = some s
      ∧ Numbered b s.weights s.scratch setup.blueprint := by
  obtain ⟨p, -, rfl⟩ := Setup.finalize_cases h
  refine ⟨_, rfl, rfl, rfl, ?_, ?_⟩
  · simp [Setup.finalized, SetupPlan.weightDecls, Slots.weights]
  · simp [Setup.finalized, SetupPlan.scratchDecls, Slots.scratch]

end Blueprint

-- ========================================================= layers apart

namespace Slots

/-- All places that calls of a layer write. -/
def writes (s : Slots) : List Place :=
  s.forwardWrites ++ s.batchWrites ++ GradientCall.inputs.writes s
    ++ GradientCall.weights.writes s

variable {s s₁ s₂ : Slots} {q : Place}

/-- A call writes only to places of its own layer. -/
theorem writes_subset (s : Slots) (c : LayerCall) :
    c.writes s ⊆ s.writes := by
  intro q hq
  simp only [writes, List.mem_append]
  cases c with
  | forward => exact .inl (.inl (.inl hq))
  | setBatch n => exact .inl (.inl (.inr hq))
  | gradient c =>
      cases c with
      | inputs => exact .inl (.inr hq)
      | weights => exact .inr hq
  | setProperty key value => cases hq
  | configure entries => cases hq

/-- A layer writes its scratch buffers, the gradients of its weights, the
output and the outgoing derivatives. -/
theorem mem_writes (hq : q ∈ s.writes) :
    (∃ h ∈ s.scratch, q ∈ h.places)
      ∨ (∃ h ∈ s.weights, q = .weightGrad h.index)
      ∨ q = .output 0 ∨ ∃ i, q = .outgoing i := by
  have hpacked : Place.scratchGrad s.packed.index ∈ s.packed.places := by
    simp [ScratchHandle.places]
  have hmem : s.packed ∈ s.scratch := by simp [Slots.scratch]
  simp only [writes, forwardWrites, batchWrites, GradientCall.writes,
    GradientCall.results, List.mem_append, List.mem_cons, List.mem_map,
    List.mem_flatMap, List.not_mem_nil, or_false] at hq
  rcases hq with (((⟨h, hh, rfl⟩ | rfl) | ⟨h, hh, hq⟩) | hq) | hq
  · exact .inl ⟨h, hh, by simp [ScratchHandle.places]⟩
  · exact .inr (.inr (.inl rfl))
  · exact .inl ⟨h, hh, hq⟩
  · rcases hq with rfl | rfl | rfl | rfl
    · exact .inl ⟨s.packed, hmem, hpacked⟩
    all_goals exact .inr (.inr (.inr ⟨_, rfl⟩))
  · rcases hq with rfl | ⟨h, hh, rfl⟩
    · exact .inl ⟨s.packed, hmem, hpacked⟩
    · exact .inr (.inl ⟨h, hh, rfl⟩)

/-- A layer looks at its scratch buffers, the inputs, the weights and the
incoming derivatives. -/
theorem mem_reads (hq : q ∈ s.reads) :
    (∃ h ∈ s.scratch, q ∈ h.places)
      ∨ (∃ i, q = .input i) ∨ (∃ i, q = .weight i) ∨ ∃ i, q = .incoming i := by
  have hmem : s.packed ∈ s.scratch := by simp [Slots.scratch]
  simp only [reads, forwardReads, List.mem_append, List.mem_cons,
    List.mem_map, List.not_mem_nil, or_false] at hq
  rcases hq with ((((rfl | rfl | rfl) | ⟨h, -, rfl⟩) | ⟨h, hh, rfl⟩)
    | (rfl | rfl)) | ⟨h, hh, rfl⟩
  · exact .inr (.inl ⟨_, rfl⟩)
  · exact .inr (.inl ⟨_, rfl⟩)
  · exact .inr (.inl ⟨_, rfl⟩)
  · exact .inr (.inr (.inl ⟨_, rfl⟩))
  · exact .inl ⟨h, hh, by simp [ScratchHandle.places]⟩
  · exact .inr (.inr (.inr ⟨_, rfl⟩))
  · exact .inl ⟨s.packed, hmem, by simp [ScratchHandle.places]⟩
  · exact .inl ⟨h, hh, by simp [ScratchHandle.places]⟩

/-- Two layers share no weight and no scratch buffer. -/
structure Apart (s₁ s₂ : Slots) : Prop where
  weights : s₁.weights.Disjoint s₂.weights
  scratch : s₁.scratch.Disjoint s₂.scratch

/-- Being apart is mutual. -/
theorem Apart.symm (h : Apart s₁ s₂) : Apart s₂ s₁ :=
  ⟨fun _ hi hi' => h.weights hi' hi, fun _ hi hi' => h.scratch hi' hi⟩

/-- The places of a scratch buffer of one layer are not written by the
other. -/
theorem Apart.scratch_not_mem (h : Apart s₁ s₂) {i : ScratchHandle}
    (hi : i ∈ s₂.scratch) (hq : q ∈ i.places) : q ∉ s₁.writes := by
  intro hmem
  simp only [ScratchHandle.places, List.mem_cons, List.not_mem_nil,
    or_false] at hq
  rcases mem_writes hmem with ⟨j, hj, hplace⟩ | ⟨j, -, rfl⟩ | rfl | ⟨j, rfl⟩
  · have hsame : i.index = j.index := by
      simp only [ScratchHandle.places, List.mem_cons, List.not_mem_nil,
        or_false] at hplace
      rcases hq with rfl | rfl | rfl <;> simpa using hplace
    have hij : j = i := by
      obtain ⟨i⟩ := i
      obtain ⟨j⟩ := j
      exact congrArg ScratchHandle.mk hsame.symm
    exact h.scratch (hij ▸ hj) hi
  all_goals simp at hq

/-- The first layer writes to no weight gradient of the second. -/
theorem Apart.weightGrad_not_mem (h : Apart s₁ s₂) {i : WeightHandle}
    (hi : i ∈ s₂.weights) : .weightGrad i.index ∉ s₁.writes := by
  intro hmem
  rcases mem_writes hmem with ⟨j, -, hplace⟩ | ⟨j, hj, hsame⟩ | hsame
    | ⟨j, hsame⟩
  · simp [ScratchHandle.places] at hplace
  · have hij : j = i := by
      obtain ⟨i⟩ := i
      obtain ⟨j⟩ := j
      exact congrArg WeightHandle.mk (Place.weightGrad.inj hsame).symm
    exact h.weights (hij ▸ hj) hi
  · cases hsame
  · cases hsame

/-- What one layer looks at is not written by the other. -/
theorem Apart.reads (h : Apart s₁ s₂) : ∀ q ∈ s₂.reads, q ∉ s₁.writes := by
  intro q hq hmem
  rcases mem_reads hq with ⟨i, hi, hplace⟩ | hshared
  · exact h.scratch_not_mem hi hplace hmem
  · -- no layer writes inputs, weights or incoming derivatives
    rcases mem_writes hmem with ⟨j, -, hplace⟩ | ⟨j, -, rfl⟩ | rfl | ⟨j, rfl⟩
    · simp only [ScratchHandle.places, List.mem_cons, List.not_mem_nil,
        or_false] at hplace
      rcases hplace with rfl | rfl | rfl <;> simp at hshared
    all_goals simp at hshared

end Slots

-- ============================================================= histories

/-- Two layers and the workspace that both are driven on. -/
structure Duo (α : Type) where
  first : Layer α
  second : Layer α
  workspace : Workspace α

/-- A call of one of the layers, or a store by the caller. -/
inductive Move (α : Type)
  | first (c : LayerCall)
  | second (c : LayerCall)
  | setInput (h : InputHandle) (t : Tensor α)
  | setIncoming (index : Nat) (t : Tensor α)

namespace Move

/-- Whether it is a call of the first layer. -/
def isFirst : Move α → Bool
  | first _ => true
  | _ => false

/-- A history without the calls of the first layer. -/
def others (moves : List (Move α)) : List (Move α) :=
  moves.filter fun m => !m.isFirst

/-- The procedure that is called. -/
def procedure [Scalar α] : Move α → Procedure α Unit
  | first c => c.procedure
  | second c => c.procedure
  | setInput h t => onWorkspace (Workspace.setInput h t)
  | setIncoming i t => onWorkspace (Workspace.setIncoming i t)

end Move

namespace Duo

/-- The first layer on the workspace. -/
def onFirst (d : Duo α) : Session α := ⟨d.first, d.workspace⟩

/-- The second layer on the workspace. -/
def onSecond (d : Duo α) : Session α := ⟨d.second, d.workspace⟩

variable [Scalar α]

/-- What a move leaves, whatever it answers. Stores by the caller leave
both layers alone. -/
def step (d : Duo α) (m : Move α) : Duo α :=
  if m.isFirst then
    let st := final m.procedure d.onFirst
    { d with first := st.layer, workspace := st.workspace }
  else
    let st := final m.procedure d.onSecond
    { d with second := st.layer, workspace := st.workspace }

/-- What a list of moves leaves. -/
def after (moves : List (Move α)) (d : Duo α) : Duo α :=
  moves.foldl step d

/-- The answers to all moves but those of the first layer. -/
def answers : List (Move α) → Duo α → List (Except LayerError Unit)
  | [], _ => []
  | m :: moves, d =>
      if m.isFirst then answers moves (d.step m)
      else answer m.procedure d.onSecond :: answers moves (d.step m)

/-- A move of the first layer leaves the second. -/
theorem step_first {d : Duo α} {m : Move α} (hm : m.isFirst = true) :
    d.step m = { d with
      first := (final m.procedure d.onFirst).layer
      workspace := (final m.procedure d.onFirst).workspace } := by
  rw [step, if_pos hm]

/-- A move of the second layer leaves the first. -/
theorem step_other {d : Duo α} {m : Move α} (hm : m.isFirst = false) :
    d.step m = { d with
      second := (final m.procedure d.onSecond).layer
      workspace := (final m.procedure d.onSecond).workspace } := by
  rw [step, if_neg (by simp [hm])]

/-- The second layer notices no difference between two pairs. -/
structure Alike (s₁ s₂ : Slots) (d d' : Duo α) : Prop where
  first : d.first.slots = some s₁
  second : Twins s₂ s₁.writes d.onSecond d'.onSecond

variable {s₁ s₂ : Slots} {d d' : Duo α} {m : Move α}

/-- A call of the first layer is left out. -/
theorem Alike.step_first (h : Alike s₁ s₂ d d') (hm : m.isFirst = true) :
    Alike s₁ s₂ (d.step m) d' := by
  cases m with
  | first c =>
      have hconfined := c.confined (α := α) (s := s₁) (X := [])
        fun _ _ => List.not_mem_nil
      have htogether := hconfined d.onFirst d.onFirst
        ⟨rfl, h.first, .refl _ _⟩
      have hcall : SameBut (c.writes s₁) d.onFirst.workspace
          (final c.procedure d.onFirst).workspace := c.frame h.first
      have hframe : SameBut s₁.writes d.workspace
          (final c.procedure d.onFirst).workspace :=
        hcall.mono (s₁.writes_subset c)
      rw [Duo.step_first hm]
      exact ⟨htogether.slots.trans h.first, h.second.layer, h.second.slots,
        hframe.symm.trans h.second.workspace⟩
  | _ => cases hm

/-- Any other move is made on both sides, and answers the same. -/
theorem Alike.step_other (hapart : s₁.Apart s₂) (h : Alike s₁ s₂ d d')
    (hm : m.isFirst = false) :
    answer m.procedure d.onSecond = answer m.procedure d'.onSecond
      ∧ Alike s₁ s₂ (d.step m) (d'.step m) := by
  have hconfined : ∃ may must,
      Confined s₂ s₁.writes may must (m.procedure (α := α)) := by
    cases m with
    | first c => cases hm
    | second c => exact ⟨_, _, c.confined hapart.reads⟩
    | setInput i t =>
        exact ⟨_, _, .setInput (List.mem_singleton_self _) t⟩
    | setIncoming i t =>
        exact ⟨_, _, .setIncoming (List.mem_singleton_self _) t⟩
  obtain ⟨may, must, hconfined⟩ := hconfined
  refine ⟨(hconfined _ _ h.second).answer, ?_⟩
  rw [Duo.step_other hm, Duo.step_other hm]
  exact ⟨h.first, hconfined.twins h.second⟩

/-- Without the calls of the first layer all other moves answer the same
and leave the second layer the same. -/
theorem Alike.run (hapart : s₁.Apart s₂) :
    ∀ (moves : List (Move α)) {d d' : Duo α}, Alike s₁ s₂ d d' →
      answers moves d = answers (Move.others moves) d'
        ∧ Alike s₁ s₂ (d.after moves) (d'.after (Move.others moves))
  | [], _, _, h => ⟨rfl, h⟩
  | m :: moves, d, d', h => by
      cases hm : m.isFirst with
      | true =>
          have hskip : Move.others (m :: moves) = Move.others moves :=
            List.filter_cons_of_neg (by simp [hm])
          obtain ⟨hanswers, hafter⟩ := (h.step_first hm).run hapart moves
          rw [hskip]
          refine ⟨?_, hafter⟩
          rw [answers, if_pos hm]
          exact hanswers
      | false =>
          have hkeep : Move.others (m :: moves) = m :: Move.others moves :=
            List.filter_cons_of_pos (by simp [hm])
          obtain ⟨hanswer, hstep⟩ := h.step_other hapart hm
          obtain ⟨hanswers, hafter⟩ := hstep.run hapart moves
          rw [hkeep]
          refine ⟨?_, hafter⟩
          rw [answers, answers, if_neg (by simp [hm]),
            if_neg (by simp [hm]), hanswer, hanswers]

/-- What the second layer's history is without the calls of the first
layer: the same answers, the same layer, and the same in all its buffers
and wherever else the first layer does not write. What its next call
answers is the same, and so is all that this call is made for. -/
structure Undisturbed (s₁ s₂ : Slots) (moves : List (Move α))
    (d : Duo α) : Prop where
  answers : answers moves d = Duo.answers (Move.others moves) d
  layer : (d.after moves).second = (d.after (Move.others moves)).second
  elsewhere : SameBut s₁.writes (d.after moves).workspace
    (d.after (Move.others moves)).workspace
  weightGrad : ∀ h ∈ s₂.weights, (d.after moves).workspace.weightGrad h
    = (d.after (Move.others moves)).workspace.weightGrad h
  scratch : ∀ h ∈ s₂.scratch, (d.after moves).workspace.scratchValue h
    = (d.after (Move.others moves)).workspace.scratchValue h
  packedGrad : (d.after moves).workspace.scratchGrad s₂.packed
    = (d.after (Move.others moves)).workspace.scratchGrad s₂.packed
  next : ∀ c : LayerCall,
    answer c.procedure (d.after moves).onSecond
        = answer c.procedure (d.after (Move.others moves)).onSecond
      ∧ (answer c.procedure (d.after moves).onSecond = .ok () →
          ∀ q ∈ c.results s₂,
            SameAt (final c.procedure (d.after moves).onSecond).workspace
              (final c.procedure
                (d.after (Move.others moves)).onSecond).workspace q)

/-- So neither disturbs the other, whatever the moves. -/
theorem undisturbed (hapart : s₁.Apart s₂) (hfirst : d.first.slots = some s₁)
    (hsecond : d.second.slots = some s₂) (moves : List (Move α)) :
    d.Undisturbed s₁ s₂ moves := by
  obtain ⟨hanswers, hafter⟩ := Alike.run hapart moves
    (⟨hfirst, rfl, hsecond, .refl _ _⟩ : Alike s₁ s₂ d d)
  have hsame : SameBut s₁.writes (d.after moves).workspace
      (d.after (Move.others moves)).workspace := hafter.second.workspace
  have hreads := hsame.readsAlike hapart.reads
  refine ⟨hanswers, hafter.second.layer, hsame, fun h hh => ?_,
    hreads.scratch, hreads.packedGrad, fun c => ?_⟩
  · exact hsame.weightGrad (hapart.weightGrad_not_mem hh)
  · have hconfined := c.confined (α := α) hapart.reads
    exact ⟨(hconfined _ _ hafter.second).answer, fun hok _ hq =>
      hconfined.settles hafter.second hok hq⟩

end Duo

-- ====================================================== two layers set up

variable [Scalar α] {l₁ l₂ : Layer α} {setup₁ setup₂ : Setup α}

/-- Two layers are set up on one blueprint, one after the other, whatever
else is requested before, between and after. No two of all the handles are
the same, each call of either layer changes no place but its own, and on
any workspace the calls of either layer can be left out of any history
without a trace in the other's. -/
theorem neighbours_undisturbed (name : String) (inputs : List Dims)
    (earlier between later : List Blueprint.Request)
    (hfirst : Setup.finalize
      ⟨l₁, ((Blueprint.new name inputs).requestAll earlier).2⟩
        = .ok () setup₁)
    (hsecond : Setup.finalize
      ⟨l₂, (setup₁.blueprint.requestAll between).2⟩ = .ok () setup₂) :
    ∃ s₁ s₂, setup₁.layer.slots = some s₁ ∧ setup₂.layer.slots = some s₂
      ∧ (((Blueprint.new name inputs).requestAll earlier).1.weights
          ++ s₁.weights ++ (setup₁.blueprint.requestAll between).1.weights
          ++ s₂.weights
          ++ (setup₂.blueprint.requestAll later).1.weights).Nodup
      ∧ (((Blueprint.new name inputs).requestAll earlier).1.scratch
          ++ s₁.scratch ++ (setup₁.blueprint.requestAll between).1.scratch
          ++ s₂.scratch
          ++ (setup₂.blueprint.requestAll later).1.scratch).Nodup
      ∧ (∀ s ∈ [s₁, s₂], ∀ (c : LayerCall) (st : Session α),
          st.layer.slots = some s → SameBut (c.writes s) st.workspace
            (final c.procedure st).workspace)
      ∧ (∀ (d : Duo α) (moves : List (Move α)),
          d.first.slots = some s₁ → d.second.slots = some s₂ →
            d.Undisturbed s₁ s₂ moves)
      ∧ ∀ (d : Duo α) (moves : List (Move α)),
          d.first.slots = some s₂ → d.second.slots = some s₁ →
            d.Undisturbed s₂ s₁ moves := by
  obtain ⟨s₁, hs₁, hnumbered₁⟩ := Blueprint.numbered_finalize hfirst
  obtain ⟨s₂, hs₂, hnumbered₂⟩ := Blueprint.numbered_finalize hsecond
  have hall := (((((Blueprint.numbered_requestAll earlier
    (.new name inputs)).append hnumbered₁).append
    (Blueprint.numbered_requestAll between setup₁.blueprint)).append
    hnumbered₂).append
    (Blueprint.numbered_requestAll later setup₂.blueprint))
  obtain ⟨hweights, hscratch⟩ := hall.nodup
  have hapart : s₁.Apart s₂ := by
    constructor
    · have hpair := List.disjoint_of_nodup_append
        (List.nodup_append.1 hweights).1
      exact fun i hi hi' => hpair (List.mem_append_left _
        (List.mem_append_right _ hi)) hi'
    · have hpair := List.disjoint_of_nodup_append
        (List.nodup_append.1 hscratch).1
      exact fun i hi hi' => hpair (List.mem_append_left _
        (List.mem_append_right _ hi)) hi'
  refine ⟨s₁, s₂, hs₁, hs₂, hweights, hscratch, ?_, ?_, ?_⟩
  · exact fun s _ c st hs => c.frame hs
  · exact fun d moves h₁ h₂ => Duo.undisturbed hapart h₁ h₂ moves
  · exact fun d moves h₁ h₂ => Duo.undisturbed hapart.symm h₁ h₂ moves

/-- Two small layers among requests of others; the second layer's gradients
are computed after a whole step of the first. They are answered as without
it, and the gradient of its packed weight and its scores are the same. -/
theorem neighbours_undisturbed_small :
    let p : SetupPlan := ⟨2, 3, 3, 1, 2, 2⟩
    let l : Layer Float := { settings := Session.blankSettings p }
    let others : List Blueprint.Request :=
      [.weight ⟨1, 1, 3, 3⟩ .zeros .none 1.0 "embedding" true,
        .scratch ⟨2, 1, 1, 3⟩ "embedded" true .iteration]
    let moves : List (Move Float) := [.second .forward, .first .forward,
      .first (.gradient .weights), .first (.gradient .inputs),
      .second (.gradient .weights)]
    let alone : List (Move Float) :=
      [.second .forward, .second (.gradient .weights)]
    ∃ setup₁ setup₂ : Setup Float,
      Setup.finalize ⟨l, ((Session.blankBlueprint p).requestAll others).2⟩
          = .ok () setup₁
        ∧ Setup.finalize ⟨l, (setup₁.blueprint.requestAll others).2⟩
          = .ok () setup₂
        ∧ ∀ w : Workspace Float,
          let d : Duo Float := ⟨setup₁.layer, setup₂.layer, w⟩
          Duo.answers moves d = Duo.answers alone d
            ∧ (d.after moves).workspace.weightGrad ⟨7⟩
              = (d.after alone).workspace.weightGrad ⟨7⟩
            ∧ (d.after moves).workspace.scratchValue ⟨14⟩
              = (d.after alone).workspace.scratchValue ⟨14⟩ := by
  intro p l others moves alone
  let b := ((Session.blankBlueprint p).requestAll others).2
  let b' := ((Setup.finalized p l.settings b).requestAll others).2
  have hplan := Session.blank_plan (α := Float) p (by decide) (by decide)
  have hfirst := Setup.finalize_of_plan (l := l) (b := b) hplan
  have hsecond := Setup.finalize_of_plan (l := l) (b := b') hplan
  obtain ⟨s₁, s₂, hs₁, hs₂, -, -, -, hundisturbed, -⟩ :=
    neighbours_undisturbed _ _ others others [] hfirst hsecond
  obtain rfl : Slots.startingAt 5 11 = s₂ := Option.some.inj hs₂
  refine ⟨_, _, hfirst, hsecond, fun w => ?_⟩
  have hquiet := hundisturbed ⟨_, _, w⟩ moves hs₁ hs₂
  exact ⟨hquiet.answers, hquiet.weightGrad ⟨7⟩ (by decide),
    hquiet.scratch ⟨14⟩ (by decide)⟩

end MixtureAttention
