/-
Settings that are changed after a setup. A setup reads every setting once
and the buffers are made for its number of components; after it, only this
number is still looked at. So as long as each operation finds the number
that the buffers were made for, whatever was set in between can be left out
of the history: the operations answer the same and leave the same
(`settings_unnoticed`).

Nothing keeps the number itself from being set again, and then the packed
rows are cut at other offsets than they were made with.
-/
import MixtureAttention.Proofs.Layer.History
import MixtureAttention.Proofs.Layer.Recast
import MixtureAttention.Proofs.Layer.Wiring

namespace MixtureAttention

variable {α : Type}

open Layer Procedure

-- ============================================== what becomes of the number

namespace Settings

/-- Setting this key to this value, if it succeeds, does not set the number
of components to anything but `k`. -/
def Spares (k : Nat) (key value : String) : Prop :=
  Text.normalize key = Property.mixtures.key →
    ∀ n, readPositive? (Text.trim value) = some n → n = k

theorem mixtures_assign_of_spares {s s' : Settings} {k : Nat}
    {key value : String} (hspares : Spares k key value)
    (h : s.assign key value = .ok s') (hs : s.mixtures = some k) :
    s'.mixtures = some k := by
  rcases mixtures_assign h with hsame | ⟨hkey, n, hn, hset⟩
  · exact hsame.trans hs
  · rw [hset, hspares hkey n hn]

theorem mixtures_set {s : Settings} {k : Nat} {key value : String}
    (hspares : Spares k key value) (hs : s.mixtures = some k) :
    (split (set key value s)).2.mixtures = some k :=
  holds_set (P := fun s => s.mixtures = some k)
    (fun _ h => mixtures_assign_of_spares hspares h hs) hs

theorem mixtures_load {s : Settings} {k : Nat} {entries : List String}
    (hspares : ∀ entry ∈ entries, ∀ key value,
      Text.splitFirst? '=' entry = some (key, value) → Spares k key value)
    (hs : s.mixtures = some k) :
    (split (load entries s)).2.mixtures = some k :=
  holds_load (P := fun s => s.mixtures = some k) entries
    (fun entry he key value hsplit _ _ =>
      mixtures_assign_of_spares (hspares entry he key value hsplit)) s hs

end Settings

-- ================================================================== calls

/-- Whether a call changes settings. -/
def Call.isSetting : Call α → Bool
  | .setProperty _ _ => true
  | .configure _ => true
  | _ => false

/-- Whether a call is about something else. -/
def Call.isOperation (c : Call α) : Bool := !c.isSetting

/-- Whether a call is a setup, which reads every setting. -/
def Call.isSetup : Call α → Bool
  | .finalize _ => true
  | _ => false

/-- The call does not set the number of components to anything but `k`. -/
def Call.Spares (k : Nat) : Call α → Prop
  | .setProperty key value => Settings.Spares k key value
  | .configure entries => ∀ entry ∈ entries, ∀ key value,
      Text.splitFirst? '=' entry = some (key, value) →
        Settings.Spares k key value
  | _ => True

namespace Bench

variable [Scalar α] {b : Bench α} {c : Call α} {k : Nat}
  {settings : Settings}

/-- Every call that is not about settings is made while the number of
components is `k`. -/
def Keeps (k : Nat) (b : Bench α) : List (Call α) → Prop
  | [] => True
  | c :: earlier =>
      b.Keeps k earlier ∧ (c.isSetting = false →
        (b.afterAll earlier).layer.settings.mixtures = some k)

/-- Only calls about settings change settings. -/
theorem settings_step (hc : c.isSetting = false) :
    (b.step c).2.layer.settings = b.layer.settings := by
  cases c with
  | setProperty key value => cases hc
  | configure entries => cases hc
  | finalize i =>
      have hrun := Setup.finalize_eq ⟨b.layer, b.blueprints i⟩
      rw [step, hrun]
      dsimp only
      cases SetupPlan.of b.layer (b.blueprints i).inputs <;> rfl
  | build i j g seed => rfl
  | setInput i h t => exact congrArg Prod.fst (setup_onWorkspace _ _)
  | setIncoming i o t => exact congrArg Prod.fst (setup_onWorkspace _ _)
  | forward i => exact congrArg Prod.fst (setup_forward _)
  | inputGradients i =>
      exact congrArg Prod.fst (setup_gradient .inputs _)
  | weightGradients i =>
      exact congrArg Prod.fst (setup_gradient .weights _)
  | setBatch i n => exact congrArg Prod.fst (setup_setBatch n _)
  | centres i => rfl

theorem mixtures_step (hc : c.Spares k)
    (hk : b.layer.settings.mixtures = some k) :
    (b.step c).2.layer.settings.mixtures = some k := by
  cases hset : c.isSetting with
  | false =>
      rw [settings_step hset]
      exact hk
  | true =>
      cases c with
      | setProperty key value =>
          have hkept := Settings.mixtures_set hc hk
          rw [step]
          cases hrun : Settings.set key value b.layer.settings <;>
            rw [hrun] at hkept <;> exact hkept
      | configure entries =>
          have hkept := Settings.mixtures_load hc hk
          rw [step, Layer.configure]
          cases hrun : Settings.load entries b.layer.settings <;>
            rw [hrun] at hkept <;> exact hkept
      | _ => cases hset

/-- Calls that do not set the number to anything else keep it. -/
theorem keeps_of_spares (hk : b.layer.settings.mixtures = some k) :
    ∀ calls : List (Call α), (∀ c ∈ calls, c.Spares k) →
      b.Keeps k calls
        ∧ (b.afterAll calls).layer.settings.mixtures = some k
  | [], _ => ⟨trivial, hk⟩
  | c :: earlier, hspares => by
      obtain ⟨hkeeps, hnow⟩ := keeps_of_spares hk earlier
        fun c hc => hspares c (List.mem_cons_of_mem _ hc)
      exact ⟨⟨hkeeps, fun _ => hnow⟩,
        mixtures_step (hspares c (List.mem_cons_self ..)) hnow⟩

omit [Scalar α] in
/-- A procedure that does not tell recast layers apart runs the same with
settings that agree on the components. -/
theorem drive_withSettings {p : Procedure α Unit}
    (hrecast : Commutes (Session.recast settings 0) p)
    (hkeep : ∀ st, (final p st).layer.setup = st.layer.setup)
    (hk : settings.mixtures = b.layer.settings.mixtures) (i : Nat) :
    (b.withSettings settings).drive p i
      = ((b.drive p i).1, (b.drive p i).2.withSettings settings) := by
  have hsession : (b.withSettings settings).session i
      = (b.session i).recast settings 0 := by
    unfold session Session.recast
    rw [recast_of_mixtures _ hk]
    rfl
  have hk' : settings.mixtures
      = (final p (b.session i)).layer.settings.mixtures := by
    have hsame : (final p (b.session i)).layer.settings = b.layer.settings :=
      congrArg Prod.fst (hkeep (b.session i))
    rw [hsame, hk]
  have hlayer : ((final p (b.session i)).recast settings 0).layer
      = { (final p (b.session i)).layer with settings } :=
    recast_of_mixtures _ hk'
  unfold drive
  rw [hsession, hrecast.answer, hrecast.final]
  unfold resume withSettings
  rw [hlayer]
  rfl

/-- So does every call but a setup. -/
theorem step_withSettings (hsetup : c.isSetup = false)
    (hc : c.isSetting = false)
    (hk : settings.mixtures = b.layer.settings.mixtures) :
    (b.withSettings settings).step c
      = ((b.step c).1, (b.step c).2.withSettings settings) := by
  cases c with
  | setProperty key value => cases hc
  | configure entries => cases hc
  | finalize i => cases hsetup
  | build i j g seed => rfl
  | setInput i h t =>
      exact drive_withSettings (recast_onWorkspace _) (setup_onWorkspace _)
        hk i
  | setIncoming i o t =>
      exact drive_withSettings (recast_onWorkspace _) (setup_onWorkspace _)
        hk i
  | forward i => exact drive_withSettings recast_forward setup_forward hk i
  | inputGradients i =>
      exact drive_withSettings (GradientCall.inputs.recast_procedure)
        (setup_gradient .inputs) hk i
  | weightGradients i =>
      exact drive_withSettings (GradientCall.weights.recast_procedure)
        (setup_gradient .weights) hk i
  | setBatch i n =>
      exact drive_withSettings (recast_setBatch n) (setup_setBatch n) hk i
  | centres i =>
      have hcentres : (b.layer.recast settings 0).centres (b.workspaces i)
          = b.layer.centres (b.workspaces i) := b.layer.centres_recast _
      rw [recast_of_mixtures _ hk] at hcentres
      unfold step withSettings
      dsimp only
      rw [hcentres]

/-- A call about settings changes nothing else. -/
theorem step_setting (hc : c.isSetting = true) :
    (b.step c).2.withSettings settings = b.withSettings settings := by
  cases c with
  | setProperty key value =>
      rw [step]
      cases Settings.set key value b.layer.settings <;> rfl
  | configure entries =>
      rw [step, Layer.configure]
      cases Settings.load entries b.layer.settings <;> rfl
  | _ => cases hc

-- ============================================================ left out

/-- Left out of a history, the calls about settings leave the same bench but
for its settings, and the same answers. -/
theorem settings_left_out (hk : b.layer.settings.mixtures = some k) :
    ∀ calls : List (Call α), (∀ c ∈ calls, c.isSetup = false) →
      b.Keeps k calls →
        (b.afterAll calls).withSettings b.layer.settings
            = b.afterAll (calls.filter Call.isOperation)
          ∧ answersTo Call.isOperation (b.history calls)
            = answersTo Call.isOperation
                (b.history (calls.filter Call.isOperation))
  | [], _, _ => ⟨rfl, rfl⟩
  | c :: earlier, hsetup, ⟨hearlier, hnow⟩ => by
      obtain ⟨hafter, hanswers⟩ := settings_left_out hk earlier
        (fun c hc => hsetup c (List.mem_cons_of_mem _ hc)) hearlier
      cases hc : c.isSetting with
      | true =>
          have hnot : ¬ c.isOperation = true := by simp [Call.isOperation, hc]
          rw [List.filter_cons_of_neg hnot, history]
          exact ⟨(step_setting hc).trans hafter,
            (answersTo_cons_of_neg hnot _).trans hanswers⟩
      | false =>
          have hpos : c.isOperation = true := by simp [Call.isOperation, hc]
          have hmixtures := hk.trans (hnow hc).symm
          have hstep := step_withSettings (hsetup c (List.mem_cons_self ..))
            hc hmixtures
          rw [hafter] at hstep
          rw [List.filter_cons_of_pos hpos, history, history]
          refine ⟨by rw [afterAll, afterAll, hstep],
            answersTo_cons_congr rfl ?_ hanswers⟩
          rw [entry, entry, hstep]

/-- What is set while the number of components stays the one that the layer
was set up with goes unnoticed. Left out of the history, it leaves every
other call with the answer that it had, and the bench with the same
workspaces, handles, memo and count of runs; and as long as the number is
still the one of the setup, the packed buffers are read the same. -/
theorem settings_unnoticed (hk : b.layer.settings.mixtures = some k)
    {calls : List (Call α)} (hsetup : ∀ c ∈ calls, c.isSetup = false)
    (hkeeps : b.Keeps k calls) :
    let left := calls.filter Call.isOperation
    let b₁ := b.afterAll calls
    let b₂ := b.afterAll left
    b₁.withSettings b.layer.settings = b₂
      ∧ answersTo Call.isOperation (b.history calls)
        = answersTo Call.isOperation (b.history left)
      ∧ (b₁.layer.settings.mixtures = some k → ∀ i,
          (∀ seg, b₁.layer.packedSegment (b₁.workspaces i) seg
            = b₂.layer.packedSegment (b₂.workspaces i) seg)
          ∧ (∀ seg, b₁.layer.packedGradSegment (b₁.workspaces i) seg
            = b₂.layer.packedGradSegment (b₂.workspaces i) seg)
          ∧ b₁.layer.centres (b₁.workspaces i)
            = b₂.layer.centres (b₂.workspaces i)) := by
  intro left b₁ b₂
  obtain ⟨hafter, hanswers⟩ := settings_left_out hk calls hsetup hkeeps
  change b₁.withSettings b.layer.settings = b₂ at hafter
  refine ⟨hafter, hanswers, fun hnow i => ?_⟩
  have hlayer : b₁.layer.recast b.layer.settings 0 = b₂.layer := by
    rw [recast_of_mixtures _ (hk.trans hnow.symm), ← hafter]
    rfl
  have hworkspaces : b₁.workspaces = b₂.workspaces := by
    rw [← hafter]
    rfl
  rw [← hlayer, ← hworkspaces]
  exact ⟨fun seg => (packedSegment_recast _ _ seg).symm,
    fun seg => (packedGradSegment_recast _ _ seg).symm,
    (centres_recast _ _).symm⟩

/-- Two components, a forward pass, and then a setting that is about
something else, one that is refused and one that sets two components again:
the next forward pass and what it leaves do not show them. -/
theorem settings_unnoticed_two :
    let p : SetupPlan := ⟨1, 1, 1, 1, 1, 2⟩
    let st : Session Float := .blank p
    let b : Bench Float := ⟨st.layer, fun _ => Session.blankBlueprint p,
      fun _ => st.workspace⟩
    (b.afterAll [.forward 0, .setProperty " MOL_K" "2",
        .setProperty "mol_k" "0", .setProperty "unit" "7",
        .forward 0]).withSettings b.layer.settings
      = b.afterAll [.forward 0, .forward 0] := by
  intro p st b
  have hagain : Settings.Spares 2 " MOL_K" "2" := fun _ n hn => by
    have hread : Settings.readPositive? (Text.trim "2") = some 2 := by
      decide +kernel
    rw [hread] at hn
    injection hn with hn
    exact hn.symm
  have hrefused : Settings.Spares 2 "mol_k" "0" := fun _ n hn => by
    have hread : Settings.readPositive? (Text.trim "0") = none := by
      decide +kernel
    rw [hread] at hn
    cases hn
  have hother : Settings.Spares 2 "unit" "7" := fun hkey => by
    revert hkey
    decide +kernel
  have hkeeps := keeps_of_spares (b := b) (k := 2) rfl
    [.forward 0, .setProperty " MOL_K" "2", .setProperty "mol_k" "0",
      .setProperty "unit" "7", .forward 0]
    (by simp [Call.Spares, hagain, hrefused, hother])
  exact (settings_unnoticed (b := b) (k := 2) rfl (by simp [Call.isSetup])
    hkeeps.1).1

end Bench
end MixtureAttention
