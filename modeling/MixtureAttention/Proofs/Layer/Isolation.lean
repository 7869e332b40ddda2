/-
Several workspaces on one layer. The buffers belong to a workspace, but the
memo belongs to the layer, and it does not say which workspace it is about:
it is about the one of the latest forward pass. As long as the gradient
procedures are called on that workspace only, no workspace shows that there
are others: each holds what it would hold, and each call on it answers what
it would answer, if the layer were driven with it alone
(`workspaces_isolated`). Called on another workspace a gradient procedure is
let through by a forward pass that is not its own.

The invariant is about one workspace (`Alike`). Driven with it alone, the
layer leaves it the same and has the same memo, whenever it is the workspace
of the latest forward pass. A forward pass on another workspace breaks the
second part, and the next one on this workspace restores it, since forward
passes do not look at the memo.
-/
import MixtureAttention.Proofs.Layer.History
import MixtureAttention.Proofs.Layer.Recast
import MixtureAttention.Proofs.Layer.Wiring

namespace MixtureAttention

variable {α : Type}

open Layer Procedure

-- ================================================================== calls

/-- The workspace that a call of a training step is made on. -/
def Call.workspace? : Call α → Option Nat
  | .setInput i _ _ => some i
  | .setIncoming i _ _ => some i
  | .forward i => some i
  | .inputGradients i => some i
  | .weightGradients i => some i
  | _ => none

/-- Whether it is made on workspace `i`. -/
def Call.isOn (i : Nat) (c : Call α) : Bool := c.workspace? = some i

/-- The workspace of a forward pass. -/
def Call.forward? : Call α → Option Nat
  | .forward i => some i
  | _ => none

/-- The workspace of a call of a gradient procedure. -/
def Call.gradient? : Call α → Option Nat
  | .inputGradients i => some i
  | .weightGradients i => some i
  | _ => none

/-- The call of a gradient procedure on workspace `i`. -/
def GradientCall.on (i : Nat) : GradientCall → Call α
  | inputs => .inputGradients i
  | weights => .weightGradients i

/-- The workspace of the latest forward pass, whether it succeeded or not. -/
def latestForward? (calls : List (Call α)) : Option Nat :=
  calls.findSome? Call.forward?

/-- A gradient procedure is called on no workspace but the one of the latest
forward pass, if there was one. -/
def Aligned : List (Call α) → Prop
  | [] => True
  | c :: earlier => Aligned earlier ∧ ∀ i, c.gradient? = some i →
      latestForward? earlier = none ∨ latestForward? earlier = some i

-- ================================================== two sessions, one outcome

namespace Session

variable {st st' : Session α}

/-- The same but for the count of runs. -/
structure Agrees (st st' : Session α) : Prop where
  setup : st.layer.setup = st'.layer.setup
  memo : st.layer.memo = st'.layer.memo
  workspace : st.workspace = st'.workspace

/-- Sessions that agree are told apart by no procedure that commutes with
recasting. -/
theorem Agrees.run {β : Type} {p : Procedure α β} (h : Agrees st st')
    (hp : ∀ settings n, Commutes (Session.recast settings n) p) :
    answer p st = answer p st' ∧ Agrees (final p st) (final p st') := by
  let base : Session α :=
    { st with layer := { st.layer with packedRuns := 0 } }
  have hst : st = base.recast st.layer.settings st.layer.packedRuns := by
    unfold Session.recast Layer.recast
    dsimp only [base]
    rw [Nat.zero_add]
  have hst' : st' = base.recast st.layer.settings st'.layer.packedRuns := by
    obtain ⟨⟨settings, slots, memo, runs⟩, w⟩ := st
    obtain ⟨⟨settings', slots', memo', runs'⟩, w'⟩ := st'
    obtain ⟨hsetup, hmemo, hworkspace⟩ := h
    cases hsetup
    cases hmemo
    cases hworkspace
    unfold Session.recast Layer.recast
    dsimp only [base]
    rw [Nat.zero_add]
  rw [hst, hst', (hp _ _).answer, (hp _ _).answer, (hp _ _).final,
    (hp _ _).final]
  exact ⟨rfl, rfl, rfl, rfl⟩

end Session

namespace Layer

variable [Scalar α] {st st' : Session α} {s : Slots} {k : Nat}

/-- A forward pass does not look at the memo. -/
theorem forward_withMemo (hs : st.layer.slots = some s)
    (hk : st.layer.settings.mixtures = some k) (memo : Memo α) :
    forward (st.withMemo memo) = forward st := by
  have hs' : (st.withMemo memo).layer.slots = some s := hs
  rw [forward_eq hs hk]
  exact forward_eq hs' hk

/-- A forward pass sees only the setup and the workspace. -/
theorem forward_agrees (hs : st.layer.slots = some s)
    (hk : st.layer.settings.mixtures = some k)
    (hsetup : st'.layer.setup = st.layer.setup)
    (hworkspace : st'.workspace = st.workspace) :
    answer forward st' = answer forward st
      ∧ (final forward st').Agrees (final forward st) := by
  have hsame : st'.Agrees (st.withMemo st'.layer.memo) :=
    ⟨hsetup, rfl, hworkspace⟩
  have hrun := hsame.run fun _ _ => recast_forward
  rw [answer_congr (forward_withMemo hs hk _),
    final_congr (forward_withMemo hs hk _)] at hrun
  exact hrun

/-- Both gradient procedures ask for a forward pass if there is none. -/
theorem gradient_of_stale (c : GradientCall) (hs : st.layer.slots = some s)
    (hm : st.layer.memo = .stale) :
    c.procedure st = .error .forwardNotRun st := by
  cases c with
  | inputs => exact inputGradients_of_stale hs hm
  | weights =>
      refine (weightGradients_eq hs).trans ?_
      rw [ensureDifferentiated_of_stale hm]

end Layer

-- ========================================================== the invariant

/-- A session on workspace `i` of a layer that is driven with several
workspaces, and the one of a layer that is driven with this workspace alone,
where `owner` is the workspace of the latest forward pass. -/
structure Alike (i : Nat) (owner : Option Nat) (shared alone : Session α) :
    Prop where
  slots : ∃ s, shared.layer.slots = some s
  mixtures : ∃ k, shared.layer.settings.mixtures = some k
  setup : alone.layer.setup = shared.layer.setup
  workspace : alone.workspace = shared.workspace
  memo : owner = some i → alone.layer.memo = shared.layer.memo
  unused : owner = none →
    shared.layer.memo = .stale ∧ alone.layer.memo = .stale

namespace Alike

variable {i : Nat} {owner : Option Nat} {shared alone : Session α}

/-- While the workspace owns the memo, or nobody does, the sessions
agree. -/
theorem agrees (h : Alike i owner shared alone)
    (howner : owner = none ∨ owner = some i) : alone.Agrees shared := by
  refine ⟨h.setup, ?_, h.workspace⟩
  rcases howner with hnone | hown
  · obtain ⟨hshared, halone⟩ := h.unused hnone
    rw [hshared, halone]
  · exact h.memo hown

/-- What keeps the handles and the settings keeps the rest, if it looks after
the memo. -/
theorem of_setup {owner' : Option Nat} {shared' alone' : Session α}
    (h : Alike i owner shared alone)
    (hshared : shared'.layer.setup = shared.layer.setup)
    (halone : alone'.layer.setup = alone.layer.setup)
    (hworkspace : alone'.workspace = shared'.workspace)
    (hmemo : owner' = some i → alone'.layer.memo = shared'.layer.memo)
    (hunused : owner' = none →
      shared'.layer.memo = .stale ∧ alone'.layer.memo = .stale) :
    Alike i owner' shared' alone' := by
  obtain ⟨s, hs⟩ := h.slots
  obtain ⟨k, hk⟩ := h.mixtures
  have hslots : shared'.layer.slots = shared.layer.slots :=
    congrArg Prod.snd hshared
  have hsettings : shared'.layer.settings = shared.layer.settings :=
    congrArg Prod.fst hshared
  refine ⟨⟨s, hslots.trans hs⟩, ⟨k, ?_⟩, ?_, hworkspace, hmemo, hunused⟩
  · rw [hsettings, hk]
  · rw [halone, hshared, h.setup]

-- ------------------------------------------------ a call on the workspace

/-- A command on its own workspace keeps a session alike. -/
theorem command (h : Alike i owner shared alone)
    (c : Workspace.Command α Unit) :
    answer (onWorkspace c) shared = answer (onWorkspace c) alone
      ∧ Alike i owner (final (onWorkspace c) shared)
          (final (onWorkspace c) alone) := by
  have hrun : answer (onWorkspace c) shared = answer (onWorkspace c) alone
      ∧ (final (onWorkspace c) alone).workspace
        = (final (onWorkspace c) shared).workspace := by
    unfold answer final onWorkspace
    rw [h.workspace]
    cases c shared.workspace <;> exact ⟨rfl, rfl⟩
  refine ⟨hrun.1, h.of_setup (setup_onWorkspace c _) (setup_onWorkspace c _)
    hrun.2 ?_ ?_⟩ <;> rw [layer_onWorkspace, layer_onWorkspace]
  · exact h.memo
  · exact h.unused

variable [Scalar α]

/-- A forward pass takes the memo over. -/
theorem forward (h : Alike i owner shared alone) :
    answer forward shared = answer forward alone
      ∧ Alike i (some i) (final forward shared) (final forward alone) := by
  obtain ⟨s, hs⟩ := h.slots
  obtain ⟨k, hk⟩ := h.mixtures
  obtain ⟨hanswer, hagrees⟩ := forward_agrees hs hk h.setup h.workspace
  exact ⟨hanswer.symm, h.of_setup (setup_forward _) (setup_forward _)
    hagrees.workspace (fun _ => hagrees.memo) nofun⟩

/-- A gradient call keeps a session alike unless another session's forward pass
came last. -/
theorem gradient (h : Alike i owner shared alone) (c : GradientCall)
    (howner : owner = none ∨ owner = some i) :
    answer c.procedure shared = answer c.procedure alone
      ∧ Alike i owner (final c.procedure shared)
          (final c.procedure alone) := by
  obtain ⟨hanswer, hagrees⟩ := (h.agrees howner).run
    fun _ _ => c.recast_procedure
  refine ⟨hanswer.symm, h.of_setup (setup_gradient c _) (setup_gradient c _)
    hagrees.workspace (fun _ => hagrees.memo) fun hnone => ?_⟩
  -- without a forward pass the call is refused and changes nothing
  obtain ⟨s, hs⟩ := h.slots
  obtain ⟨hshared, halone⟩ := h.unused hnone
  have hs' : alone.layer.slots = some s :=
    (congrArg Prod.snd h.setup).trans hs
  rw [final_of_error (gradient_of_stale c hs hshared),
    final_of_error (gradient_of_stale c hs' halone)]
  exact ⟨hshared, halone⟩

-- --------------------------------------------- a call on another workspace

/-- A forward pass elsewhere takes the layer over. -/
theorem forward_elsewhere {j : Nat} (h : Alike i owner shared alone)
    (hne : i ≠ j) {other : Session α} (hother : other.layer = shared.layer) :
    Alike i (some j)
      { shared with layer := (final Layer.forward other).layer } alone := by
  refine h.of_setup ?_ rfl h.workspace ?_ nofun
  · exact (setup_forward other).trans (congrArg Layer.setup hother)
  · intro hown
    injection hown with hown
    exact absurd hown.symm hne

/-- A gradient call elsewhere leaves it with who had it. -/
theorem gradient_elsewhere {j : Nat} (h : Alike i owner shared alone)
    (hne : i ≠ j) (c : GradientCall) (howner : owner = none ∨ owner = some j)
    {other : Session α} (hother : other.layer = shared.layer) :
    Alike i owner
      { shared with layer := (final c.procedure other).layer } alone := by
  refine h.of_setup ?_ rfl h.workspace ?_ ?_
  · exact (setup_gradient c other).trans (congrArg Layer.setup hother)
  · rintro rfl
    rcases howner with hnone | hown
    · cases hnone
    · injection hown with hown
      exact absurd hown hne
  · intro hnone
    obtain ⟨s, hs⟩ := h.slots
    obtain ⟨hshared, halone⟩ := h.unused hnone
    rw [← hother] at hs hshared
    rw [final_of_error (gradient_of_stale c hs hshared)]
    rw [hother] at hshared ⊢
    exact ⟨hshared, halone⟩

end Alike

-- ============================================================= whole runs

namespace Bench

variable [Scalar α] {b b' : Bench α} {c : Call α} {earlier : List (Call α)}
  {i j : Nat} {p : Procedure α Unit}

omit [Scalar α] in
/-- A driven session is the one left by the call. -/
theorem session_drive (p : Procedure α Unit) (i : Nat) (b : Bench α) :
    (b.drive p i).2.session i = final p (b.session i) :=
  session_resume ..

omit [Scalar α] in
/-- Another session sees the layer change and keeps its workspace. -/
theorem session_drive_of_ne (hne : i ≠ j) (p : Procedure α Unit)
    (b : Bench α) :
    (b.drive p j).2.session i
      = { b.session i with layer := (final p (b.session j)).layer } :=
  session_resume_of_ne b hne _

/-- A call on the workspace does the same on both. -/
theorem step_on (h : Alike i (latestForward? earlier) (b.session i)
      (b'.session i)) (hc : c.workspace? = some i)
    (haligned : ∀ j, c.gradient? = some j →
      latestForward? earlier = none ∨ latestForward? earlier = some j) :
    (b.step c).1 = (b'.step c).1
      ∧ Alike i (latestForward? (c :: earlier)) ((b.step c).2.session i)
          ((b'.step c).2.session i) := by
  have hdrive : ∀ {owner : Option Nat} {p : Procedure α Unit},
      answer p (b.session i) = answer p (b'.session i)
          ∧ Alike i owner (final p (b.session i)) (final p (b'.session i)) →
        (b.drive p i).1 = (b'.drive p i).1
          ∧ Alike i owner ((b.drive p i).2.session i)
              ((b'.drive p i).2.session i) := by
    intro owner p hrun
    rw [session_drive, session_drive]
    exact hrun
  cases c with
  | setInput j k t => cases hc; exact hdrive (h.command _)
  | setIncoming j o t => cases hc; exact hdrive (h.command _)
  | forward j => cases hc; exact hdrive h.forward
  | inputGradients j =>
      cases hc
      exact hdrive (h.gradient .inputs (haligned i rfl))
  | weightGradients j =>
      cases hc
      exact hdrive (h.gradient .weights (haligned i rfl))
  | _ => cases hc

/-- A call on another workspace can be left out. -/
theorem step_off (h : Alike i (latestForward? earlier) (b.session i)
      (b'.session i)) (hc : c.workspace? = some j) (hne : i ≠ j)
    (haligned : ∀ j, c.gradient? = some j →
      latestForward? earlier = none ∨ latestForward? earlier = some j) :
    Alike i (latestForward? (c :: earlier)) ((b.step c).2.session i)
      (b'.session i) := by
  have hcommand : ∀ command : Workspace.Command α Unit,
      (b.drive (onWorkspace command) j).2.session i = b.session i := by
    intro command
    rw [session_drive_of_ne hne, layer_onWorkspace]
    rfl
  cases c with
  | setInput j k t =>
      cases hc
      exact (hcommand _).symm ▸ h
  | setIncoming j o t =>
      cases hc
      exact (hcommand _).symm ▸ h
  | forward j =>
      cases hc
      exact (session_drive_of_ne hne _ b).symm
        ▸ h.forward_elsewhere hne rfl
  | inputGradients j =>
      cases hc
      exact (session_drive_of_ne hne _ b).symm
        ▸ h.gradient_elsewhere hne .inputs (haligned j rfl) rfl
  | weightGradients j =>
      cases hc
      exact (session_drive_of_ne hne _ b).symm
        ▸ h.gradient_elsewhere hne .weights (haligned j rfl) rfl
  | _ => cases hc

/-- Driven with all workspaces, and with this one alone. -/
theorem alike_afterAll (hs : b.layer.slots.isSome)
    (hk : b.layer.settings.mixtures.isSome) (hm : b.layer.memo = .stale)
    (i : Nat) :
    ∀ calls : List (Call α), (∀ c ∈ calls, c.workspace?.isSome) →
      Aligned calls →
        Alike i (latestForward? calls) ((b.afterAll calls).session i)
            ((b.afterAll (calls.filter (Call.isOn i))).session i)
          ∧ answersTo (Call.isOn i) (b.history calls)
            = answersTo (Call.isOn i)
                (b.history (calls.filter (Call.isOn i)))
  | [], _, _ => ⟨⟨Option.isSome_iff_exists.1 hs,
      Option.isSome_iff_exists.1 hk, rfl, rfl, fun _ => rfl,
      fun _ => ⟨hm, hm⟩⟩, rfl⟩
  | c :: earlier, hcalls, ⟨hearlier, haligned⟩ => by
      obtain ⟨halike, hanswers⟩ := alike_afterAll hs hk hm i earlier
        (fun c hc => hcalls c (List.mem_cons_of_mem _ hc)) hearlier
      obtain ⟨j, hj⟩ :=
        Option.isSome_iff_exists.1 (hcalls c (List.mem_cons_self ..))
      by_cases hij : i = j
      · subst hij
        have hon : Call.isOn i c = true := decide_eq_true hj
        obtain ⟨hanswer, hstep⟩ := step_on halike hj haligned
        rw [List.filter_cons_of_pos hon, history, history]
        exact ⟨hstep, answersTo_cons_congr rfl hanswer hanswers⟩
      · have hoff : ¬ Call.isOn i c = true := by
          simp [Call.isOn, hj, Ne.symm hij]
        rw [List.filter_cons_of_neg hoff, history]
        exact ⟨step_off halike hj hij haligned,
          (answersTo_cons_of_neg hoff _).trans hanswers⟩

/-- Workspaces are isolated as long as the gradient procedures follow the
forward passes. Whatever is called on several workspaces of one layer that
was set up and not driven yet, each workspace is left as if the layer had
been driven with it alone, and the calls on it are answered the same. And
where no forward pass was made on a workspace, its gradient procedures ask
for one. -/
theorem workspaces_isolated (hs : b.layer.slots.isSome)
    (hk : b.layer.settings.mixtures.isSome) (hm : b.layer.memo = .stale)
    {calls : List (Call α)} (hcalls : ∀ c ∈ calls, c.workspace?.isSome)
    (haligned : Aligned calls) (i : Nat) :
    let alone := calls.filter (Call.isOn i)
    (b.afterAll calls).workspaces i = (b.afterAll alone).workspaces i
      ∧ answersTo (Call.isOn i) (b.history calls)
        = answersTo (Call.isOn i) (b.history alone)
      ∧ ∀ g : GradientCall, Aligned (g.on i :: calls) →
          (∀ c ∈ alone, c.forward? = none) →
            ((b.afterAll calls).step (g.on i)).1 = .error .forwardNotRun := by
  intro alone
  obtain ⟨halike, hanswers⟩ :=
    alike_afterAll hs hk hm i calls hcalls haligned
  refine ⟨halike.workspace.symm, hanswers, fun g hg hunused => ?_⟩
  -- a call on this workspace is aligned, and there was no pass on it
  have hnone : latestForward? calls = none := by
    have hgradient : (g.on i : Call α).gradient? = some i := by
      cases g <;> rfl
    rcases hg.2 i hgradient with hnone | hown
    · exact hnone
    · obtain ⟨c, hc, hforward⟩ := List.exists_of_findSome?_eq_some hown
      have hon : Call.isOn i c = true := by
        cases c <;> simp_all [Call.forward?, Call.isOn, Call.workspace?]
      rw [hunused c (List.mem_filter.2 ⟨hc, hon⟩)] at hforward
      cases hforward
  obtain ⟨s, hs'⟩ := halike.slots
  have hrefused := fun g =>
    answer_of_error (gradient_of_stale g hs' (halike.unused hnone).1)
  cases g with
  | inputs => exact hrefused .inputs
  | weights => exact hrefused .weights

/-- Two workspaces that take turns. -/
theorem workspaces_isolated_two :
    let st : Session Float := .blank ⟨1, 1, 1, 1, 1, 1⟩
    let b : Bench Float :=
      ⟨st.layer, fun _ => .new "attention" [], fun _ => st.workspace⟩
    (b.afterAll [.inputGradients 1, .weightGradients 1, .forward 1,
        .weightGradients 0, .forward 0]).workspaces 0
      = (b.afterAll [.weightGradients 0, .forward 0]).workspaces 0 := by
  intro st b
  let calls : List (Call Float) := [.inputGradients 1, .weightGradients 1,
    .forward 1, .weightGradients 0, .forward 0]
  have hcalls : ∀ c ∈ calls, c.workspace?.isSome := by
    simp [calls, Call.workspace?]
  have haligned : Aligned calls := by
    simp [calls, Aligned, Call.gradient?, latestForward?, Call.forward?,
      List.findSome?_cons]
  exact (workspaces_isolated (b := b) rfl rfl rfl hcalls haligned 0).1

/-- A forward pass on one workspace lets a gradient procedure through on
another one, where it is refused otherwise. -/
theorem let_through_by_another :
    let st : Session Float := .blank ⟨1, 1, 1, 1, 1, 1⟩
    let b : Bench Float :=
      ⟨st.layer, fun _ => .new "attention" [], fun _ => st.workspace⟩
    (b.step (.forward 0)).1 = .ok ()
      ∧ ((b.step (.forward 0)).2.step (.weightGradients 1)).1 = .ok ()
      ∧ (b.step (.weightGradients 1)).1 = .error .forwardNotRun := by
  intro st b
  have hrefused : weightGradients .release (b.session 1)
      = .error .forwardNotRun (b.session 1) :=
    gradient_of_stale .weights (s := .startingAt 0 0) rfl rfl
  refine ⟨eq_ok_of_isOk ?_, eq_ok_of_isOk ?_, answer_of_error hrefused⟩ <;>
    decide +kernel

end Bench
end MixtureAttention
