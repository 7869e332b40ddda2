/-
Workspaces that a layer keeps fitting. A layer is set up, whatever else is
requested before and after, and a workspace is built. From then on the layer
is called with it and with other workspaces, other layers are called with
it, and the caller edits it, each call answered or refused
(`Session.Native`). As long as the layer's own scratch buffers change their
batch extent together, by a call of the layer, and no buffer is replaced as
a whole, the workspace fits the layer at one batch extent (`Attuned`): it is
wired, every buffer has the extents that it is declared to have, and so have
the weights.

The number of components is not part of this. It may be set again at any
time, to anything that is positive.
-/
import MixtureAttention.Proofs.Layer.History
import MixtureAttention.Proofs.Layer.Neighbours
import MixtureAttention.Proofs.Layer.Readiness
import MixtureAttention.Proofs.Registry.Edits

namespace MixtureAttention

open Workspace Procedure

variable {α : Type}

/-- The workspace fits a layer with handles `s` at the batch extent of the
plan, buffer by buffer. -/
structure Attuned (p : SetupPlan) (s : Slots) (dims : List Dims)
    (w : Workspace α) : Prop where
  wired : Wired p s w
  sound : w.Sound
  inputDims : w.inputDims = dims
  weights : w.WeightsSized

section

variable {p : SetupPlan} {s : Slots} {dims : List Dims} {w : Workspace α}

/-- What keeps to whatever the workspace is declared to serve keeps it
attuned. -/
theorem Attuned.of_keeps (h : Attuned p s dims w) {c : Command α Unit}
    (hconforms : ∀ b, Keeps (Conforms b) c) (hsized : Keeps WeightsSized c) :
    Attuned p s dims (left c w) := by
  have hafter := hconforms _ w h.sound
  have hsame := hafter.declared
  exact ⟨h.wired.of_declared h.sound hafter.sound hsame, hafter.sound,
    (congrArg Blueprint.inputs hsame).trans h.inputDims,
    hsized w h.weights⟩

/-- Handles with one number are one handle. -/
theorem ScratchHandle.eq_of_index {i j : ScratchHandle}
    (h : i.index = j.index) : i = j := by
  cases i
  cases j
  exact congrArg ScratchHandle.mk h

/-- Another layer's buffer may change its batch extent. -/
theorem Attuned.resize_other [Zero α] (h : Attuned p s dims w)
    {i : ScratchHandle} (hi : i ∉ s.scratch) (n : Nat) :
    Attuned p s dims (left (resize i n) w) := by
  have hsound := sound_resize i n w h.sound
  have hsized := weightsSized_resize i n w h.weights
  unfold left at hsound hsized ⊢
  rw [resize_eq] at hsound hsized ⊢
  cases he : w.scratchEntry i with
  | error e => exact h
  | ok e =>
      rw [he] at hsound hsized
      have hown : ∀ j ∈ s.scratch, ∀ {γ : Type} (f : Scratch α → γ),
          (w.scratch.modify i.index (·.resize n))[j.index]?.map f
            = w.scratch[j.index]?.map f := fun j hj γ f =>
        map_modify_of_ne fun hsame =>
          hi (ScratchHandle.eq_of_index hsame ▸ hj)
      refine ⟨⟨h.wired.slots, h.wired.weights, ?_, ?_, h.wired.outputDims,
        h.wired.outputs, h.wired.inputs, h.wired.outgoing⟩, hsound,
        h.inputDims, hsized⟩
      · rw [← h.wired.scratch]
        exact List.map_congr_left fun j hj => hown j hj _
      · obtain ⟨t, ht⟩ := h.wired.packedGrad
        obtain ⟨e', he', hgrad⟩ := scratchGrad_eq_ok.1 ht
        have hpacked := hown s.packed (by simp [Slots.scratch]) id
        rw [Option.map_id, id, id, he'] at hpacked
        exact ⟨t, scratchGrad_eq_ok.2 ⟨e', hpacked, hgrad⟩⟩

variable [Scalar α]

/-- An edit that is not another batch extent for one of the layer's own
buffers. -/
theorem Attuned.edit (h : Attuned p s dims w) (e : Edit α)
    (he : ∀ i n, e = .resize i n → i ∉ s.scratch) :
    Attuned p s dims (left e.command w) := by
  cases hresize : e.isResize with
  | false =>
      exact h.of_keeps (fun _ => e.keeps_conforms hresize) e.keeps_sized
  | true =>
      cases e with
      | resize i n => exact h.resize_other (he i n rfl) n
      | _ => cases hresize

-- ================================================================== calls

/-- Everything that a forward pass or a gradient procedure of any layer
stores. -/
theorem Attuned.stores (p : SetupPlan) (s : Slots) (dims : List Dims) :
    (∀ i t, Keeps (Attuned (α := α) p s dims) (setScratch i t))
      ∧ (∀ i t, Keeps (Attuned (α := α) p s dims) (setOutput i t))
      ∧ (∀ i t, Keeps (Attuned (α := α) p s dims) (setScratchGrad i t))
      ∧ (∀ i t, Keeps (Attuned (α := α) p s dims) (setWeightGrad i t))
      ∧ ∀ i t, Keeps (Attuned (α := α) p s dims) (setOutgoing i t) :=
  ⟨fun i t _ h => h.edit (.setScratch i t) nofun,
    fun i t _ h => h.edit (.setOutput i t) nofun,
    fun i t _ h => h.edit (.setScratchGrad i t) nofun,
    fun i t _ h => h.edit (.setWeightGrad i t) nofun,
    fun i t _ h => h.edit (.setOutgoing i t) nofun⟩

/-- Whether a call changes batch extents. -/
def LayerCall.isResizing : LayerCall → Bool
  | setBatch _ => true
  | _ => false

omit [Scalar α] in
/-- Settings are no part of the workspace. -/
theorem workspace_onSettings (c : Settings.Change) (st : Session α) :
    (final (onSettings c) st).workspace = st.workspace := by
  unfold final onSettings
  cases c st.layer.settings <;> rfl

/-- A call of any layer, if it changes no batch extent. -/
theorem Attuned.call {c : LayerCall} (hc : c.isResizing = false)
    {st : Session α} (h : Attuned p s dims st.workspace) :
    Attuned p s dims (final c.procedure st).workspace := by
  obtain ⟨hscratch, hout, hgrad, hweight, houtgoing⟩ :=
    Attuned.stores (α := α) p s dims
  cases c with
  | forward => exact Layer.keeps_forward hscratch hout st h
  | gradient c =>
      cases c with
      | inputs => exact Layer.keeps_inputGradients hgrad houtgoing st h
      | weights => exact Layer.keeps_weightGradients hgrad hweight st h
  | setBatch n => cases hc
  | setProperty key value =>
      unfold LayerCall.procedure
      rw [workspace_onSettings]
      exact h
  | configure entries =>
      unfold LayerCall.procedure
      rw [workspace_onSettings]
      exact h

/-- A call of a layer that has none of the buffers. -/
theorem Attuned.neighbour (h : Attuned p s dims w) (l : Layer α)
    {c : LayerCall} (hc : c.isResizing = true → ∀ s', l.slots = some s' →
      s'.scratch.Disjoint s.scratch) :
    Attuned p s dims (final c.procedure ⟨l, w⟩).workspace := by
  cases hresizing : c.isResizing with
  | false => exact Attuned.call hresizing h
  | true =>
      cases c with
      | setBatch n =>
          cases hs : l.slots with
          | none =>
              have hrun : Layer.setBatch n (⟨l, w⟩ : Session α)
                  = .error .notFinalized ⟨l, w⟩ :=
                bind_of_error (read_of_error (Layer.slots?_of_none hs))
              rw [LayerCall.procedure, final_of_error hrun]
              exact h
          | some s' =>
              have hkeeps : Procedure.Keeps (Attuned (α := α) p s dims)
                  (do
                    onWorkspace (Layer.resizeAll n s'.scratch)
                    remember .stale) :=
                .bind (.onWorkspace (Layer.keeps_resizeAll fun i hi _ h =>
                  h.resize_other (hc rfl s' hs hi) n)) fun _ => .remember _
              have hrun : Layer.setBatch n (⟨l, w⟩ : Session α)
                  = (do
                      onWorkspace (Layer.resizeAll n s'.scratch)
                      remember .stale : Procedure α Unit) ⟨l, w⟩ :=
                bind_of_ok (read_of_ok (Layer.slots?_of_some hs))
              rw [LayerCall.procedure, final_congr hrun]
              exact hkeeps ⟨l, w⟩ h
      | _ => cases hresizing

/-- A call of the layer itself, which may change all its batch extents
together. -/
theorem Attuned.own {st : Session α} (hs : st.layer.slots = some s)
    (h : Attuned p s dims st.workspace) (c : LayerCall) :
    ∃ n, Attuned { p with batch := n } s dims
      (final c.procedure st).workspace := by
  cases hresizing : c.isResizing with
  | false => exact ⟨p.batch, Attuned.call hresizing h⟩
  | true =>
      cases c with
      | setBatch n =>
          obtain ⟨w, hrun, hwired, hsound, hdims⟩ :=
            Layer.setBatch_sound hs h.wired h.sound h.inputDims n
          have hsized := Layer.keeps_setBatch
            (fun i => weightsSized_resize i n) st h.weights
          rw [final_of_ok hrun] at hsized
          refine ⟨n, ?_⟩
          rw [LayerCall.procedure, final_of_ok hrun]
          exact ⟨hwired, hsound, hdims, hsized⟩
      | _ => cases hresizing

end

-- ============================================================== the layer

/-- The layer has handles and a positive number of components. -/
structure Layer.Equipped (s : Slots) (l : Layer α) : Prop where
  slots : l.slots = some s
  mixtures : ∃ k, l.settings.mixtures = some k ∧ 0 < k

namespace Settings

/-- No setting makes the number of components zero. -/
theorem mixtures_pos_assign {s s' : Settings} {key value : String}
    (h : s.assign key value = .ok s')
    (hs : ∃ k, s.mixtures = some k ∧ 0 < k) :
    ∃ k, s'.mixtures = some k ∧ 0 < k := by
  rcases mixtures_assign h with hsame | ⟨-, n, hn, hset⟩
  · rw [hsame]
    exact hs
  · exact ⟨n, hset, of_decide_eq_true (Option.filter_eq_some_iff.1 hn).2⟩

theorem mixtures_pos_set (key value : String) (s : Settings)
    (hs : ∃ k, s.mixtures = some k ∧ 0 < k) :
    ∃ k, (split (set key value s)).2.mixtures = some k ∧ 0 < k :=
  holds_set (P := fun s => ∃ k, s.mixtures = some k ∧ 0 < k)
    (fun _ h => mixtures_pos_assign h hs) hs

theorem mixtures_pos_load (entries : List String) :
    ∀ s : Settings, (∃ k, s.mixtures = some k ∧ 0 < k) →
      ∃ k, (split (load entries s)).2.mixtures = some k ∧ 0 < k :=
  holds_load (P := fun s => ∃ k, s.mixtures = some k ∧ 0 < k) entries
    fun _ _ _ _ _ _ _ h hs => mixtures_pos_assign h hs

end Settings

section

variable {s : Slots} {st : Session α}

theorem Layer.Equipped.onSettings {c : Settings.Change}
    (hc : ∀ settings, (∃ k, settings.mixtures = some k ∧ 0 < k) →
      ∃ k, (split (c settings)).2.mixtures = some k ∧ 0 < k)
    (h : st.layer.Equipped s) :
    (final (Procedure.onSettings c) st).layer.Equipped s := by
  have hmixtures := hc st.layer.settings h.mixtures
  unfold final Procedure.onSettings
  cases hrun : c st.layer.settings <;> rw [hrun] at hmixtures <;>
    exact ⟨h.slots, hmixtures⟩

/-- Every call of a layer leaves it equipped, refused or not. -/
theorem Layer.Equipped.call [Scalar α] (h : st.layer.Equipped s)
    (c : LayerCall) : (final c.procedure st).layer.Equipped s := by
  have hsetup : (final c.procedure st).layer.setup = st.layer.setup →
      (final c.procedure st).layer.Equipped s := by
    intro hsame
    refine ⟨(congrArg Prod.snd hsame).trans h.slots, ?_⟩
    obtain ⟨k, hk, hpos⟩ := h.mixtures
    exact ⟨k, (congrArg (fun x => x.1.mixtures) hsame).trans hk, hpos⟩
  cases c with
  | forward => exact hsetup (Layer.setup_forward st)
  | gradient c => exact hsetup (Layer.setup_gradient c st)
  | setBatch n => exact hsetup (Layer.setup_setBatch n st)
  | setProperty key value =>
      unfold LayerCall.procedure
      exact h.onSettings (Settings.mixtures_pos_set key value)
  | configure entries =>
      unfold LayerCall.procedure
      exact h.onSettings (Settings.mixtures_pos_load entries)

end

-- ================================================= sessions of its own

variable [Scalar α]

/-- The sessions of a layer with a workspace that was built for it. Before
the setup and after it anything may be requested, but the workspace has the
outputs that the setup declared. Then the layer is called with it, and with
other workspaces; other layers are called with it, and the caller edits it,
but only calls of the layer itself change the batch extents of its
buffers. -/
inductive Session.Native (s : Slots) : Session α → Prop
  | built {l : Layer α} {b : Blueprint} {setup : Setup α}
      (hfinal : Setup.finalize ⟨l, b⟩ = .ok () setup)
      (hslots : setup.layer.slots = some s)
      (later : List Blueprint.Request)
      (houtputs : (setup.blueprint.requestAll later).2.outputs
        = setup.blueprint.outputs) (g : Generator) (seed : UInt64) :
      Native s
        ⟨setup.layer, (setup.blueprint.requestAll later).2.build g seed⟩
  | call {st : Session α} (h : Native s st) (c : LayerCall) :
      Native s (final c.procedure st)
  | elsewhere {st : Session α} (h : Native s st) (c : LayerCall)
      (w : Workspace α) :
      Native s { st with layer := (final c.procedure ⟨st.layer, w⟩).layer }
  | neighbour {st : Session α} (h : Native s st) (c : LayerCall)
      (l : Layer α) (hapart : c.isResizing = true → ∀ s', l.slots = some s' →
        s'.scratch.Disjoint s.scratch) :
      Native s
        { st with
          workspace := (final c.procedure ⟨l, st.workspace⟩).workspace }
  | edit {st : Session α} (h : Native s st) (e : Edit α)
      (hown : ∀ i n, e = .resize i n → i ∉ s.scratch) :
      Native s { st with workspace := left e.command st.workspace }

/-- Requests come after what was requested before. -/
theorem Blueprint.requestAll_extends :
    ∀ (rs : List Request) (b : Blueprint), ∃ weights scratch,
      (b.requestAll rs).2 = { b.extended weights scratch with
        outputs := (b.requestAll rs).2.outputs }
  | [], b => ⟨[], [], by simp [requestAll, extended]⟩
  | r :: rs, b => by
      have hnext : (b.requestAll (r :: rs)).2
          = ((b.request r).2.requestAll rs).2 := rfl
      obtain ⟨weights, scratch, hrest⟩ :=
        requestAll_extends rs (b.request r).2
      rw [hnext, hrest]
      cases r with
      | weight dims i r c name trainable =>
          refine ⟨⟨b.qualify name, dims, i, r, c, trainable⟩ :: weights,
            scratch, ?_⟩
          simp [request, requestWeight, extended]
      | scratch dims name hasGrad lifespan =>
          refine ⟨weights,
            ⟨b.qualify name, dims, hasGrad, lifespan⟩ :: scratch, ?_⟩
          simp [request, requestScratch, extended]
      | outputs dims =>
          exact ⟨weights, scratch, by simp [request, setOutputs, extended]⟩

namespace Session.Native

variable {s : Slots} {st : Session α}

/-- In every session of a layer's own the layer is equipped and the
workspace attuned, with the inputs of some setup. -/
theorem attuned (h : Native s st) :
    st.layer.Equipped s
      ∧ ∃ (l : Layer α) (dims : List Dims) (p : SetupPlan) (n : Nat),
          SetupPlan.of l dims = .ok p
            ∧ Attuned { p with batch := n } s dims st.workspace := by
  induction h with
  | @built l b setup hfinal hslots later houtputs g seed =>
      obtain ⟨p, hplan, rfl⟩ := Setup.finalize_cases hfinal
      obtain ⟨-, -, -, -, -, -, hk, hpos, -⟩ := Setup.plan_cases hplan
      obtain ⟨weights, scratch, hextends⟩ :=
        Blueprint.requestAll_extends later (Setup.finalized p l.settings b)
      dsimp only at hextends houtputs ⊢
      rw [houtputs] at hextends
      cases hslots
      refine ⟨⟨rfl, p.mixtures, hk, hpos⟩, l, b.inputs, p, p.batch, hplan, ?_⟩
      refine ⟨?_, (conforms_build _ g seed).sound, ?_,
        weightsSized_build _ g seed⟩
      · rw [hextends]
        exact wired_build_extended hplan l.settings weights scratch g seed
      · rw [hextends]
        rfl
  | call h c ih =>
      obtain ⟨hlayer, l, dims, p, n, hplan, hw⟩ := ih
      obtain ⟨n', hw'⟩ := hw.own hlayer.slots c
      exact ⟨hlayer.call c, l, dims, p, n', hplan, hw'⟩
  | @elsewhere st h c w ih =>
      have hlayer : (Session.mk st.layer w).layer.Equipped s := ih.1
      exact ⟨hlayer.call c, ih.2⟩
  | neighbour h c l hapart ih =>
      obtain ⟨hlayer, l', dims, p, n, hplan, hw⟩ := ih
      exact ⟨hlayer, l', dims, p, n, hplan, hw.neighbour l hapart⟩
  | edit h e hown ih =>
      obtain ⟨hlayer, l, dims, p, n, hplan, hw⟩ := ih
      exact ⟨hlayer, l, dims, p, n, hplan, hw.edit e hown⟩

end Session.Native
end MixtureAttention
