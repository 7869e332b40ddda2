/-
Every history of calls on one layer. A bench holds the layer with any
number of blueprints and workspaces; a history is what a sequence of calls
on it did, entry by entry, whether the calls succeeded or not.

The memo is a machine of three states, and a call moves it in one of four
ways (`Entry.Step`): a forward pass fills it, a refused forward pass or a
change of extents drops it, a gradient procedure completes the packed
derivative, and everything else leaves it alone. What an entry shows of
this is its mark, so the state of the memo can be read off the latest mark
of the history, and the runs of the packed derivative can be counted.
-/
import Mathlib.Logic.Function.Basic
import MixtureAttention.Proofs.Layer.Finalize
import MixtureAttention.Proofs.Layer.GradientOrder
import MixtureAttention.Proofs.Layer.Refusals

namespace MixtureAttention

variable {α : Type}

open Layer Procedure

-- ================================================================= bench

/-- A layer together with every blueprint and workspace that it is used
with, by number. -/
structure Bench (α : Type) where
  layer : Layer α
  blueprints : Nat → Blueprint
  workspaces : Nat → Workspace α

/-- What can be called. A call says which blueprint or workspace it is made
with. -/
inductive Call (α : Type)
  | setProperty (key value : String)
  | configure (entries : List String)
  | finalize (blueprint : Nat)
  | build (blueprint workspace : Nat) (g : Generator) (seed : UInt64)
  | setInput (workspace : Nat) (h : InputHandle) (t : Tensor α)
  | setIncoming (workspace index : Nat) (t : Tensor α)
  | forward (workspace : Nat)
  | inputGradients (workspace : Nat)
  | weightGradients (workspace : Nat)
  | setBatch (workspace batch : Nat)
  | centres (workspace : Nat)

/-- An outcome as the answer that was given and the state that was left. -/
def split {ε σ β : Type} : EStateM.Result ε σ β → Except ε Unit × σ
  | .ok _ s => (.ok (), s)
  | .error e s => (.error e, s)

namespace Bench

/-- The layer with one of the workspaces. -/
def session (b : Bench α) (i : Nat) : Session α := ⟨b.layer, b.workspaces i⟩

/-- The bench after a session with workspace `i`. -/
def resume (b : Bench α) (i : Nat) (st : Session α) : Bench α :=
  { b with
    layer := st.layer
    workspaces := Function.update b.workspaces i st.workspace }

/-- A bench reads back the session that was put there. -/
theorem session_resume (b : Bench α) (i : Nat) (st : Session α) :
    (b.resume i st).session i = st := by
  unfold session resume
  dsimp only
  rw [Function.update_self]

/-- A session with another workspace changes the layer alone. -/
theorem session_resume_of_ne (b : Bench α) {i j : Nat} (hne : i ≠ j)
    (st : Session α) :
    (b.resume j st).session i = { b.session i with layer := st.layer } := by
  unfold session resume
  dsimp only
  rw [Function.update_of_ne hne]

/-- A procedure on the layer and one of the workspaces. -/
def drive (p : Procedure α Unit) (i : Nat) (b : Bench α) :
    Except LayerError Unit × Bench α :=
  (answer p (b.session i), b.resume i (final p (b.session i)))

/-- The bench with other settings of the layer. -/
def withSettings (b : Bench α) (settings : Settings) : Bench α :=
  { b with layer := { b.layer with settings } }

/-- The bench after a layer was set up, or refused to be, on blueprint
`i`. -/
def withSetup (b : Bench α) (i : Nat) (st : Setup α) : Bench α :=
  { b with
    layer := st.layer
    blueprints := Function.update b.blueprints i st.blueprint }

/-- Makes a call. -/
def step [Scalar α] (b : Bench α) :
    Call α → Except LayerError Unit × Bench α
  | .setProperty key value =>
      (split (Settings.set key value b.layer.settings)).map id b.withSettings
  | .configure entries =>
      (split (Layer.configure entries b.layer)).map id
        fun layer => { b with layer }
  | .finalize i =>
      (split (Setup.finalize ⟨b.layer, b.blueprints i⟩)).map id
        (b.withSetup i)
  | .build i j g seed =>
      (.ok (), { b with
        workspaces := Function.update b.workspaces j
          ((b.blueprints i).build g seed) })
  | .setInput i h t => b.drive (onWorkspace (Workspace.setInput h t)) i
  | .setIncoming i o t => b.drive (onWorkspace (Workspace.setIncoming o t)) i
  | .forward i => b.drive Layer.forward i
  | .inputGradients i => b.drive (Layer.inputGradients .release) i
  | .weightGradients i => b.drive (Layer.weightGradients .release) i
  | .setBatch i n => b.drive (Layer.setBatch n) i
  | .centres i => ((b.layer.centres (b.workspaces i)).map fun _ => (), b)

end Bench

-- =============================================================== entries

/-- A call that was made: what it was made on, what it answered and what it
left. -/
structure Entry (α : Type) where
  call : Call α
  before : Bench α
  answer : Except LayerError Unit
  after : Bench α

/-- What an entry means for the memo. -/
inductive Mark
  /-- A forward pass filled the scratch buffers. -/
  | filled
  /-- Nothing that the scratch buffers hold is usable any more. -/
  | dropped
deriving DecidableEq, Repr

namespace Entry

/-- The mark of an entry, if it has one: a forward pass attempted on a layer
that is set up, a setup that succeeded, or a change of the batch extent that
succeeded. -/
def mark? (e : Entry α) : Option Mark :=
  match e.call, e.answer with
  | .forward _, .ok _ => some .filled
  | .forward _, .error _ =>
      if e.before.layer.slots.isSome then some .dropped else none
  | .finalize _, .ok _ => some .dropped
  | .setBatch _ _, .ok _ => some .dropped
  | _, _ => none

/-- Whether the call is one of the two gradient procedures. -/
def isGradient (e : Entry α) : Bool :=
  match e.call with
  | .inputGradients _ => true
  | .weightGradients _ => true
  | _ => false

/-- Whether the packed derivative was completed during the call. -/
def completes (e : Entry α) : Bool :=
  e.before.layer.packedRuns < e.after.layer.packedRuns

end Entry

/-- The bench after calls, which are listed latest first. -/
def Bench.afterAll [Scalar α] (b : Bench α) : List (Call α) → Bench α
  | [] => b
  | c :: earlier => ((b.afterAll earlier).step c).2

/-- The entry of a call made on a bench. -/
def Bench.entry [Scalar α] (b : Bench α) (c : Call α) : Entry α :=
  ⟨c, b, (b.step c).1, (b.step c).2⟩

/-- What calls did, latest first. -/
def Bench.history [Scalar α] (b : Bench α) : List (Call α) → List (Entry α)
  | [] => []
  | c :: earlier => (b.afterAll earlier).entry c :: b.history earlier

/-- The calls of one kind with what they answered. -/
def answersTo (kind : Call α → Bool) (h : List (Entry α)) :
    List (Call α × Except LayerError Unit) :=
  (h.filter fun e => kind e.call).map fun e => (e.call, e.answer)

/-- A call of the kind is listed with its answer. -/
theorem answersTo_cons_of_pos {kind : Call α → Bool} {e : Entry α}
    (hkind : kind e.call = true) (h : List (Entry α)) :
    answersTo kind (e :: h) = (e.call, e.answer) :: answersTo kind h := by
  rw [answersTo, List.filter_cons, if_pos hkind, List.map_cons, answersTo]

/-- Any other call is passed over. -/
theorem answersTo_cons_of_neg {kind : Call α → Bool} {e : Entry α}
    (hkind : ¬ kind e.call = true) (h : List (Entry α)) :
    answersTo kind (e :: h) = answersTo kind h := by
  rw [answersTo, List.filter_cons, if_neg hkind, answersTo]

/-- One call with one answer before the same answers. -/
theorem answersTo_cons_congr {kind : Call α → Bool} {e e' : Entry α}
    {h h' : List (Entry α)} (hcall : e.call = e'.call)
    (hanswer : e.answer = e'.answer)
    (hearlier : answersTo kind h = answersTo kind h') :
    answersTo kind (e :: h) = answersTo kind (e' :: h') := by
  by_cases hkind : kind e.call = true
  · rw [answersTo_cons_of_pos hkind, answersTo_cons_of_pos (hcall ▸ hkind),
      hcall, hanswer, hearlier]
  · rw [answersTo_cons_of_neg hkind, answersTo_cons_of_neg (hcall ▸ hkind),
      hearlier]

/-- The latest mark. -/
def latestMark? (h : List (Entry α)) : Option Mark := h.findSome? Entry.mark?

-- ==================================================== settings are kept

/-- Whoever set a layer up has said how many components it has, and no
setting is ever taken back. -/
def Layer.Ready (l : Layer α) : Prop :=
  l.slots.isSome → l.settings.mixtures.isSome

namespace Settings

/-- Only the property of that name sets the number of mixtures, and only to a
positive one. -/
theorem mixtures_assign? {s s' : Settings} {p : Property} {value : String}
    (h : s.assign? p value = some s') :
    s'.mixtures = s.mixtures
      ∨ p = .mixtures ∧ ∃ n, readPositive? value = some n
        ∧ s'.mixtures = some n := by
  cases p <;> simp only [assign?, Option.map_eq_some_iff] at h <;>
    obtain ⟨x, hx, rfl⟩ := h
  case mixtures => exact .inr ⟨rfl, x, hx, rfl⟩
  all_goals exact .inl rfl

/-- An assignment that succeeds is one to the property that the key
names. -/
theorem exists_of_assign {s s' : Settings} {key value : String}
    (h : s.assign key value = .ok s') :
    ∃ p, Property.ofKey? (Text.normalize key) = some p
      ∧ s.assign? p (Text.trim value) = some s' := by
  unfold assign at h
  generalize Text.normalize key = normal at h ⊢
  generalize Text.trim value = trimmed at h ⊢
  dsimp only at h
  cases hp : Property.ofKey? normal with
  | none =>
      rw [hp] at h
      cases h
  | some p =>
      simp only [hp] at h
      cases hassign : s.assign? p trimmed with
      | none =>
          rw [hassign] at h
          cases h
      | some s₁ =>
          rw [hassign] at h
          injection h with h
          exact ⟨p, rfl, h ▸ hassign⟩

/-- The number of components changes through its own key only. -/
theorem mixtures_assign {s s' : Settings} {key value : String}
    (h : s.assign key value = .ok s') :
    s'.mixtures = s.mixtures
      ∨ Text.normalize key = Property.mixtures.key
        ∧ ∃ n, readPositive? (Text.trim value) = some n
          ∧ s'.mixtures = some n := by
  obtain ⟨p, hp, hassign⟩ := exists_of_assign h
  generalize Text.normalize key = normal at hp ⊢
  have hkey : p.key = normal := by
    have hfound := List.find?_some hp
    exact of_decide_eq_true hfound
  exact (mixtures_assign? hassign).imp_right
    fun ⟨hp, hset⟩ => ⟨by rw [← hkey, hp], hset⟩

/-- What an assignment keeps, setting a property keeps. -/
theorem holds_set {P : Settings → Prop} {s : Settings} {key value : String}
    (hkeep : ∀ s', s.assign key value = .ok s' → P s') (hs : P s) :
    P (split (set key value s)).2 := by
  unfold set
  cases h : s.assign key value with
  | error e => exact hs
  | ok s' => exact hkeep s' h

/-- What the assignment of each entry keeps, loading the entries keeps. -/
theorem holds_load {P : Settings → Prop} (entries : List String)
    (hkeep : ∀ entry ∈ entries, ∀ key value,
      Text.splitFirst? '=' entry = some (key, value) →
        ∀ s s', s.assign key value = .ok s' → P s → P s') :
    ∀ s, P s → P (split (load entries s)).2 := by
  induction entries with
  | nil => exact fun _ hs => hs
  | cons entry rest ih =>
      intro s hs
      unfold load
      cases h : s.applyEntry entry with
      | error e => exact hs
      | ok s' =>
          refine ih (fun e he => hkeep e (List.mem_cons_of_mem _ he)) s' ?_
          unfold applyEntry at h
          split at h
          · cases h
          · next key value hsplit =>
              exact hkeep entry (List.mem_cons_self ..) key value hsplit s s'
                h hs

/-- An accepted setting leaves the number of mixtures set. -/
theorem mixtures_isSome_assign {s s' : Settings} {key value : String}
    (h : s.assign key value = .ok s') (hs : s.mixtures.isSome) :
    s'.mixtures.isSome := by
  rcases mixtures_assign h with hsame | ⟨-, n, -, hset⟩
  · rw [hsame]
    exact hs
  · rw [hset]
    rfl

/-- Any attempt at a setting leaves the number of mixtures set. -/
theorem mixtures_isSome_set (s : Settings) (key value : String)
    (hs : s.mixtures.isSome) :
    (split (set key value s)).2.mixtures.isSome :=
  holds_set (P := fun s => s.mixtures.isSome)
    (fun _ h => mixtures_isSome_assign h hs) hs

/-- Loading any entries leaves it set, to the first fault or to the end. -/
theorem mixtures_isSome_load (entries : List String) :
    ∀ s : Settings, s.mixtures.isSome →
      (split (load entries s)).2.mixtures.isSome :=
  holds_load (P := fun s => s.mixtures.isSome) entries
    fun _ _ _ _ _ _ _ h hs => mixtures_isSome_assign h hs

end Settings

-- ========================================================= reading it back

/-- The packed derivative was completed after the latest successful forward
pass, and nothing has dropped the memo since. -/
def Completed (h : List (Entry α)) : Prop :=
  ∃ recent f older, h = recent ++ f :: older ∧ f.mark? = some .filled
    ∧ (∀ e ∈ recent, e.mark? = none) ∧ ∃ e ∈ recent, e.completes = true

/-- A call without a mark leaves the latest mark. -/
theorem latestMark?_cons_of_none {e : Entry α} (he : e.mark? = none)
    (h : List (Entry α)) : latestMark? (e :: h) = latestMark? h := by
  rw [latestMark?, List.findSome?_cons, he]
  rfl

/-- A call with one replaces it. -/
theorem latestMark?_cons_of_some {e : Entry α} {m : Mark}
    (he : e.mark? = some m) (h : List (Entry α)) :
    latestMark? (e :: h) = some m := by
  rw [latestMark?, List.findSome?_cons, he]

/-- Right after an entry with a mark nothing is completed. -/
theorem not_completed_cons {e : Entry α} {m : Mark} (he : e.mark? = some m)
    (h : List (Entry α)) : ¬ Completed (e :: h) := by
  rintro ⟨recent, f, older, hsplit, -, hrecent, hdone⟩
  cases recent with
  | nil =>
      obtain ⟨e', he', -⟩ := hdone
      cases he'
  | cons e' recent =>
      rw [List.cons_append] at hsplit
      injection hsplit with hhead
      have hnone := hrecent e' (List.mem_cons_self ..)
      rw [← hhead, he] at hnone
      cases hnone

/-- An entry without a mark adds its own completion, which counts if the
latest mark is a filled memo. -/
theorem completed_cons {e : Entry α} (he : e.mark? = none)
    (h : List (Entry α)) :
    Completed (e :: h)
      ↔ Completed h
        ∨ (e.completes = true ∧ latestMark? h = some .filled) := by
  constructor
  · rintro ⟨recent, f, older, hsplit, hf, hrecent, e', he', hdone⟩
    cases recent with
    | nil => cases he'
    | cons e₁ recent =>
        rw [List.cons_append] at hsplit
        injection hsplit with hhead htail
        have hrest : ∀ e ∈ recent, e.mark? = none :=
          fun e he => hrecent e (List.mem_cons_of_mem _ he)
        rcases List.mem_cons.1 he' with rfl | he'
        · refine .inr ⟨by rw [hhead]; exact hdone, ?_⟩
          rw [latestMark?, htail, List.findSome?_append,
            List.findSome?_eq_none_iff.2 hrest, List.findSome?_cons, hf]
          rfl
        · exact .inl ⟨recent, f, older, htail, hf, hrest, e', he', hdone⟩
  · rintro (⟨recent, f, older, rfl, hf, hrecent, e', he', hdone⟩ |
      ⟨hdone, hlatest⟩)
    · exact ⟨e :: recent, f, older, rfl, hf,
        List.forall_mem_cons.2 ⟨he, hrecent⟩, e',
        List.mem_cons_of_mem _ he', hdone⟩
    · obtain ⟨recent, f, older, rfl, hf, hrecent⟩ :=
        List.findSome?_eq_some_iff.1 hlatest
      exact ⟨e :: recent, f, older, rfl, hf,
        List.forall_mem_cons.2 ⟨he, hrecent⟩, e, List.mem_cons_self ..,
        hdone⟩

/-- What a history tells about the layer that it ends in. -/
structure Tells (h : List (Entry α)) (l : Layer α) : Prop where
  stale : l.memo = .stale ↔ latestMark? h ≠ some .filled
  completed : l.hasPackedGrad = true ↔ Completed h
  budget : l.budget ≤ h.countP fun e => e.mark? = some .filled

-- =============================================================== one call

/-- How a call moves the memo, and what its entry shows of it. -/
inductive Entry.Step (e : Entry α) : Prop
  | fills (mark : e.mark? = some .filled)
      (memo : e.after.layer.memo = .forwarded)
      (runs : e.after.layer.packedRuns = e.before.layer.packedRuns)
  | drops (mark : e.mark? = some .dropped)
      (memo : e.after.layer.memo = .stale)
      (runs : e.after.layer.packedRuns = e.before.layer.packedRuns)
  | completed (mark : e.mark? = none) (call : e.isGradient = true)
      (before : e.before.layer.memo = .forwarded) (dstate : Tensor α)
      (memo : e.after.layer.memo = .differentiated dstate)
      (runs : e.after.layer.packedRuns = e.before.layer.packedRuns + 1)
  | keeps (mark : e.mark? = none)
      (memo : e.after.layer.memo = e.before.layer.memo)
      (runs : e.after.layer.packedRuns = e.before.layer.packedRuns)

namespace Entry.Step

variable {e : Entry α}

/-- A call completes the packed derivative once or not at all. -/
theorem runs_eq (h : e.Step) :
    e.after.layer.packedRuns
      = e.before.layer.packedRuns + if e.completes then 1 else 0 := by
  unfold completes
  rcases h with ⟨-, -, runs⟩ | ⟨-, -, runs⟩ | ⟨-, -, -, -, -, runs⟩ |
    ⟨-, -, runs⟩ <;> simp [runs]

/-- Only a forward pass allows another run. -/
theorem budget_le (h : e.Step) :
    e.after.layer.budget
      ≤ e.before.layer.budget + if e.mark? = some .filled then 1 else 0 := by
  unfold budget
  rcases h with ⟨mark, memo, runs⟩ | ⟨-, memo, runs⟩ |
    ⟨-, -, before, _, memo, runs⟩ | ⟨-, memo, runs⟩
  · rw [memo, runs, if_pos mark]
    have hforwarded : (Memo.forwarded : Memo α).credit = 1 := rfl
    omega
  · rw [memo, runs]
    exact Nat.le_trans (Nat.le_add_right _ _) (Nat.le_add_right _ _)
  · rw [memo, runs, before]
    exact Nat.le_add_right _ _
  · rw [memo, runs]
    exact Nat.le_add_right _ _

/-- What a history tells, it tells after another call. -/
theorem tells {h : List (Entry α)} (hstep : e.Step)
    (htells : Tells h e.before.layer) : Tells (e :: h) e.after.layer := by
  -- the budget grows by a forward pass alone
  have hbudget : e.after.layer.budget
      ≤ (e :: h).countP fun e => e.mark? = some .filled := by
    rw [List.countP_cons]
    have hone := hstep.budget_le
    have hall := htells.budget
    simp only [decide_eq_true_eq]
    omega
  rcases hstep with ⟨mark, memo, runs⟩ | ⟨mark, memo, runs⟩ |
    ⟨mark, -, before, d, memo, runs⟩ | ⟨mark, memo, runs⟩
  · refine ⟨?_, ?_, hbudget⟩
    · rw [memo, latestMark?_cons_of_some mark]
      exact ⟨nofun, fun hne => absurd rfl hne⟩
    · rw [hasPackedGrad, memo]
      exact ⟨nofun, fun hdone => absurd hdone (not_completed_cons mark h)⟩
  · refine ⟨?_, ?_, hbudget⟩
    · rw [memo, latestMark?_cons_of_some mark]
      exact ⟨fun _ => nofun, fun _ => rfl⟩
    · rw [hasPackedGrad, memo]
      exact ⟨nofun, fun hdone => absurd hdone (not_completed_cons mark h)⟩
  -- a run was made, so a forward pass was the latest mark
  · have hfilled : latestMark? h = some .filled := by
      by_contra hne
      rw [htells.stale.2 hne] at before
      cases before
    have hdone : e.completes = true := by
      unfold completes
      rw [runs]
      exact decide_eq_true (Nat.lt_succ_self _)
    refine ⟨?_, ?_, hbudget⟩
    · rw [memo, latestMark?_cons_of_none mark, hfilled]
      exact ⟨nofun, fun hne => absurd rfl hne⟩
    · rw [hasPackedGrad, memo, completed_cons mark]
      exact ⟨fun _ => .inr ⟨hdone, hfilled⟩, fun _ => rfl⟩
  · have hquiet : e.completes = false := by
      unfold completes
      rw [runs]
      exact decide_eq_false (Nat.lt_irrefl _)
    refine ⟨?_, ?_, hbudget⟩
    · rw [memo, latestMark?_cons_of_none mark]
      exact htells.stale
    · rw [hasPackedGrad, memo, completed_cons mark, hquiet]
      exact htells.completed.trans ⟨.inl, fun hor =>
        hor.resolve_right fun hand => nomatch hand.1⟩

end Entry.Step

namespace Bench

variable [Scalar α] {b : Bench α} {c : Call α} {p : Procedure α Unit}
  {i : Nat} {st : Session α}

/-- The entry of a call that drives a session and succeeds. -/
theorem entry_of_ok (hc : b.step c = b.drive p i)
    (h : p (b.session i) = .ok () st) :
    b.entry c = ⟨c, b, .ok (), b.resume i st⟩ := by
  unfold entry
  rw [hc, drive, answer_of_ok h, final_of_ok h]

/-- The entry of one that is refused. -/
theorem entry_of_error {e : LayerError} (hc : b.step c = b.drive p i)
    (h : p (b.session i) = .error e st) :
    b.entry c = ⟨c, b, .error e, b.resume i st⟩ := by
  unfold entry
  rw [hc, drive, answer_of_error h, final_of_error h]

/-- Setting the layer up drops the memo, and a refused setup changes
nothing. -/
theorem step_finalize (i : Nat) (hb : b.layer.Ready) :
    (b.entry (.finalize i)).Step
      ∧ (b.entry (.finalize i)).after.layer.Ready := by
  have hrun := Setup.finalize_eq ⟨b.layer, b.blueprints i⟩
  unfold entry
  cases hplan : SetupPlan.of b.layer (b.blueprints i).inputs with
  | error e =>
      simp only [hplan] at hrun
      rw [step, hrun]
      exact ⟨.keeps rfl rfl rfl, hb⟩
  | ok p =>
      obtain ⟨-, -, -, -, -, -, hk, -⟩ := Setup.plan_cases hplan
      simp only [hplan] at hrun
      rw [step, hrun]
      exact ⟨.drops rfl rfl rfl, fun _ => Option.isSome_of_eq_some hk⟩

/-- A forward pass that is attempted fills the memo or drops it. -/
theorem step_forward (i : Nat) (hb : b.layer.Ready) :
    (b.entry (.forward i)).Step
      ∧ (b.entry (.forward i)).after.layer.Ready := by
  have hsession : (b.session i).layer = b.layer := rfl
  cases hs : b.layer.slots with
  | none =>
      rw [entry_of_error rfl (forward_of_unset (hsession ▸ hs))]
      have hmark : Entry.mark? ⟨.forward i, b, .error .notFinalized,
          b.resume i (b.session i)⟩ = none := by
        simp [Entry.mark?, hs]
      exact ⟨.keeps hmark rfl rfl, hb⟩
  | some s =>
      obtain ⟨k, hk⟩ := Option.isSome_iff_exists.1 (hb (by rw [hs]; rfl))
      have hs' : (b.session i).layer.slots = some s := hs
      rcases forward_cases hs' hk with ⟨e, w, hrun⟩ | ⟨w, hrun⟩
      · rw [entry_of_error rfl hrun]
        have hmark : Entry.mark? ⟨.forward i, b, .error e, b.resume i
            (((b.session i).withMemo .stale).withWorkspace w)⟩
            = some .dropped := by
          simp [Entry.mark?, hs]
        exact ⟨.drops hmark rfl rfl, hb⟩
      · rw [entry_of_ok rfl hrun]
        exact ⟨.fills rfl rfl rfl, hb⟩

/-- A command on a workspace leaves the layer alone. -/
theorem step_command {command : Workspace.Command α Unit}
    (hc : b.step c = b.drive (onWorkspace command) i)
    (hmark : ∀ r, Entry.mark? ⟨c, b, r, (b.entry c).after⟩ = none)
    (hb : b.layer.Ready) :
    (b.entry c).Step ∧ (b.entry c).after.layer.Ready := by
  have hlayer : (b.entry c).after.layer = b.layer := by
    show (b.step c).2.layer = _
    rw [hc]
    exact layer_onWorkspace command (b.session i)
  exact ⟨.keeps (hmark _) (congrArg Layer.memo hlayer)
    (congrArg Layer.packedRuns hlayer), by rw [hlayer]; exact hb⟩

/-- A change of the batch size is a step like the others, and forgets the
forward pass. -/
theorem step_setBatch (i n : Nat) (hb : b.layer.Ready) :
    (b.entry (.setBatch i n)).Step
      ∧ (b.entry (.setBatch i n)).after.layer.Ready := by
  rcases setBatch_cases n (b.session i) with ⟨e, w, hrun⟩ | ⟨w, hrun⟩
  · rw [entry_of_error rfl hrun]
    exact ⟨.keeps rfl rfl rfl, hb⟩
  · rw [entry_of_ok rfl hrun]
    exact ⟨.drops rfl rfl rfl, hb⟩

/-- A gradient procedure completes the packed derivative or leaves the layer
alone, whatever it answers. -/
theorem step_gradient {g : GradientCall}
    (hc : b.step c = b.drive g.procedure i)
    (hmark : (b.entry c).mark? = none) (hgrad : (b.entry c).isGradient = true)
    (hb : b.layer.Ready) :
    (b.entry c).Step ∧ (b.entry c).after.layer.Ready := by
  have hlayer : (b.entry c).after.layer
      = (final g.procedure (b.session i)).layer := by
    unfold entry
    rw [hc]
    rfl
  have hkeeps : (b.entry c).after.layer = b.layer →
      (b.entry c).Step ∧ (b.entry c).after.layer.Ready := by
    intro h
    refine ⟨.keeps hmark ?_ ?_, ?_⟩
    · exact congrArg Layer.memo h
    · exact congrArg Layer.packedRuns h
    · rw [h]
      exact hb
  rcases g.outcome (b.session i) with
    ⟨e, hrun, -⟩ | ⟨st', f, -, hensure, hrun, hfinal, -⟩
  · rw [final_of_error hrun] at hlayer
    exact hkeeps hlayer
  · rw [final_congr hrun, hfinal] at hlayer
    change _ = st'.layer at hlayer
    rcases ensureDifferentiated_ok hensure with
      ⟨dstate, hm, rfl⟩ | ⟨s, d, hs, hm, rfl⟩
    · exact hkeeps hlayer
    · refine ⟨.completed hmark hgrad hm d.state ?_ ?_, ?_⟩
      · rw [hlayer]
        rfl
      · rw [hlayer]
        rfl
      · rw [hlayer]
        exact hb

/-- Every call moves the memo in one of the four ways. -/
theorem entry_step (c : Call α) (hb : b.layer.Ready) :
    (b.entry c).Step ∧ (b.entry c).after.layer.Ready := by
  cases c with
  | setProperty key value =>
      have hset := Settings.mixtures_isSome_set b.layer.settings key value
      unfold entry
      rw [step]
      cases hrun : Settings.set key value b.layer.settings <;>
        rw [hrun] at hset <;>
        exact ⟨.keeps rfl rfl rfl, fun hs => hset (hb hs)⟩
  | configure entries =>
      have hload := Settings.mixtures_isSome_load entries b.layer.settings
      unfold entry
      rw [step, Layer.configure]
      cases hrun : Settings.load entries b.layer.settings <;>
        rw [hrun] at hload <;>
        exact ⟨.keeps rfl rfl rfl, fun hs => hload (hb hs)⟩
  | finalize i => exact step_finalize i hb
  | build i j g seed => exact ⟨.keeps rfl rfl rfl, hb⟩
  | setInput i h t => exact step_command rfl (fun _ => rfl) hb
  | setIncoming i o t => exact step_command rfl (fun _ => rfl) hb
  | forward i => exact step_forward i hb
  | inputGradients i =>
      exact step_gradient (g := .inputs) rfl rfl rfl hb
  | weightGradients i =>
      exact step_gradient (g := .weights) rfl rfl rfl hb
  | setBatch i n => exact step_setBatch i n hb
  | centres i => exact ⟨.keeps rfl rfl rfl, hb⟩

-- ====================================================== a whole history

/-- Each call has one entry. -/
theorem length_history (b : Bench α) (calls : List (Call α)) :
    (b.history calls).length = calls.length := by
  induction calls with
  | nil => rfl
  | cons c earlier ih => rw [history, List.length_cons, List.length_cons, ih]

/-- Calls in sequence, the latest first. -/
theorem afterAll_append (b : Bench α) (later earlier : List (Call α)) :
    b.afterAll (later ++ earlier) = (b.afterAll earlier).afterAll later := by
  induction later with
  | nil => rfl
  | cons c later ih => rw [List.cons_append, afterAll, afterAll, ih]

/-- The history of a sequence is that of its parts. -/
theorem history_append (b : Bench α) (later earlier : List (Call α)) :
    b.history (later ++ earlier)
      = (b.afterAll earlier).history later ++ b.history earlier := by
  induction later with
  | nil => rfl
  | cons c later ih =>
      rw [List.cons_append, history, history, ih, afterAll_append,
        List.cons_append]

/-- A stretch of a history is the history of a stretch of its calls. -/
theorem history_middle {calls : List (Call α)}
    {newer middle older : List (Entry α)}
    (h : b.history calls = newer ++ middle ++ older) :
    ∃ cs ds, middle = (b.afterAll ds).history cs
      ∧ ∃ later, calls = later ++ cs ++ ds := by
  have hlen := congrArg List.length h
  rw [length_history, List.length_append, List.length_append] at hlen
  obtain ⟨later, rest, hcalls, hlater⟩ :
      ∃ later rest, calls = later ++ rest ∧ later.length = newer.length :=
    ⟨calls.take newer.length, calls.drop newer.length,
      (List.take_append_drop ..).symm, by rw [List.length_take]; omega⟩
  obtain ⟨cs, ds, hrest, hcs⟩ :
      ∃ cs ds, rest = cs ++ ds ∧ cs.length = middle.length := by
    refine ⟨rest.take middle.length, rest.drop middle.length,
      (List.take_append_drop ..).symm, ?_⟩
    rw [hcalls, List.length_append] at hlen
    rw [List.length_take]
    omega
  subst hcalls hrest
  rw [history_append, history_append, List.append_assoc] at h
  have htail := (List.append_inj h (by rw [length_history, hlater])).2
  have hmiddle := (List.append_inj htail (by rw [length_history, hcs])).1
  exact ⟨cs, ds, hmiddle.symm, later, (List.append_assoc ..).symm⟩

/-- No call takes the layer's handles away. -/
theorem afterAll_ready (hb : b.layer.Ready) (calls : List (Call α)) :
    (b.afterAll calls).layer.Ready := by
  induction calls with
  | nil => exact hb
  | cons c earlier ih => exact (entry_step c ih).2

/-- Every entry of a history is a step. -/
theorem step_of_mem_history (hb : b.layer.Ready) {calls : List (Call α)}
    {e : Entry α} (he : e ∈ b.history calls) : e.Step := by
  induction calls with
  | nil => cases he
  | cons c earlier ih =>
      rcases List.mem_cons.1 he with rfl | he
      · exact (entry_step c (afterAll_ready hb earlier)).1
      · exact ih he

/-- While no forward pass succeeds the memo's allowance is not renewed: the
runs that are made are those that were allowed at the start. -/
theorem runs_between (hb : b.layer.Ready) :
    ∀ calls : List (Call α),
      (∀ e ∈ b.history calls, e.mark? ≠ some .filled) →
      (b.afterAll calls).layer.packedRuns
          = b.layer.packedRuns + (b.history calls).countP Entry.completes
        ∧ (b.afterAll calls).layer.budget ≤ b.layer.budget
  | [], _ => ⟨rfl, Nat.le_refl _⟩
  | c :: earlier, hnone => by
      obtain ⟨hruns, hbudget⟩ := runs_between hb earlier fun e he =>
        hnone e (List.mem_cons_of_mem _ he)
      have hstep := (entry_step c (afterAll_ready hb earlier)).1
      have hstepRuns := hstep.runs_eq
      have hstepBudget := hstep.budget_le
      rw [if_neg (hnone _ (List.mem_cons_self ..))] at hstepBudget
      rw [history, List.countP_cons]
      change (b.afterAll (c :: earlier)).layer.packedRuns
        = (b.afterAll earlier).layer.packedRuns + _ at hstepRuns
      change (b.afterAll (c :: earlier)).layer.budget
        ≤ (b.afterAll earlier).layer.budget + 0 at hstepBudget
      omega

/-- A bench with a new layer, which was not set up and never driven. -/
def start (settings : Settings) (blueprints : Nat → Blueprint)
    (workspaces : Nat → Workspace α) : Bench α :=
  ⟨{ settings }, blueprints, workspaces⟩

omit [Scalar α] in
/-- A fresh bench has a layer that is ready. -/
theorem start_ready (settings : Settings) (blueprints : Nat → Blueprint)
    (workspaces : Nat → Workspace α) :
    (start settings blueprints workspaces).layer.Ready := by
  intro hs
  cases hs

/-- The history tells what the layer remembers: the step lemma, by induction on
the calls. -/
theorem tells_history (settings : Settings) (blueprints : Nat → Blueprint)
    (workspaces : Nat → Workspace α) (calls : List (Call α)) :
    Tells ((start settings blueprints workspaces).history calls)
      ((start settings blueprints workspaces).afterAll calls).layer := by
  induction calls with
  | nil =>
      have hnone : ¬ Completed ([] : List (Entry α)) := by
        rintro ⟨recent, f, older, hsplit, -⟩
        cases recent <;> cases hsplit
      exact ⟨⟨fun _ => nofun, fun _ => rfl⟩,
        ⟨nofun, fun hdone => absurd hdone hnone⟩, Nat.le_refl _⟩
  | cons c earlier ih =>
      have hready := afterAll_ready
        (start_ready settings blueprints workspaces) earlier
      exact (entry_step c hready).1.tells ih

/-- The memo over every history of calls on one layer, which may succeed or
fail. On a layer that is set up the three calls that need a forward pass ask
for one exactly when the latest mark is not a successful forward pass. The
packed derivative runs only inside a gradient procedure, by one run, and at
most once between two successful forward passes, so that it never runs more
often than they do. And it is there exactly when it was completed since the
latest of them and nothing has dropped it. -/
theorem memo_over_history (settings : Settings)
    (blueprints : Nat → Blueprint) (workspaces : Nat → Workspace α)
    (calls : List (Call α)) :
    let b := (start settings blueprints workspaces).afterAll calls
    let h := (start settings blueprints workspaces).history calls
    (b.layer.slots.isSome → ∀ i,
        ((b.step (.inputGradients i)).1 = .error .forwardNotRun
          ↔ latestMark? h ≠ some .filled)
        ∧ ((b.step (.weightGradients i)).1 = .error .forwardNotRun
          ↔ latestMark? h ≠ some .filled)
        ∧ ((b.step (.centres i)).1 = .error .forwardNotRun
          ↔ latestMark? h ≠ some .filled))
      ∧ (∀ e ∈ h, e.after.layer.packedRuns = e.before.layer.packedRuns
          ∨ e.isGradient = true
            ∧ e.after.layer.packedRuns = e.before.layer.packedRuns + 1)
      ∧ (∀ newer middle older, h = newer ++ middle ++ older →
          (∀ e ∈ middle, e.mark? ≠ some .filled) →
          middle.countP Entry.completes ≤ 1)
      ∧ b.layer.packedRuns ≤ h.countP (fun e => e.mark? = some .filled)
      ∧ (b.layer.hasPackedGrad = true ↔ Completed h) := by
  intro b h
  have hfresh := start_ready settings blueprints workspaces
  have htells := tells_history settings blueprints workspaces calls
  refine ⟨fun hs i => ?_, fun e he => ?_, ?_, ?_, htells.completed⟩
  · obtain ⟨s, hs⟩ := Option.isSome_iff_exists.1 hs
    have hcentres : (b.step (.centres i)).1 = .error .forwardNotRun
        ↔ b.layer.centres (b.workspaces i) = .error .forwardNotRun := by
      rw [step]
      cases b.layer.centres (b.workspaces i) with
      | error e => exact ⟨fun h => by injection h with h; rw [h],
          fun h => by injection h with h; rw [h]; rfl⟩
      | ok t => exact ⟨nofun, nofun⟩
    have hs' : (b.session i).layer.slots = some s := hs
    exact ⟨(inputGradients_asks_iff hs').trans htells.stale,
      (weightGradients_asks_iff hs').trans htells.stale,
      hcentres.trans ((centres_asks_iff _ _).trans htells.stale)⟩
  · rcases step_of_mem_history hfresh he with ⟨-, -, runs⟩ | ⟨-, -, runs⟩ |
      ⟨-, call, -, -, -, runs⟩ | ⟨-, -, runs⟩
    · exact .inl runs
    · exact .inl runs
    · exact .inr ⟨call, runs⟩
    · exact .inl runs
  · intro newer middle older hsplit hnone
    -- without a forward pass in between runs come out of the credit at the
    -- start
    obtain ⟨cs, ds, rfl, -⟩ := history_middle hsplit
    obtain ⟨hruns, hbudget⟩ :=
      runs_between (afterAll_ready hfresh ds) cs hnone
    unfold budget at hbudget
    have hcredit := ((start settings blueprints workspaces).afterAll
      ds).layer.memo.credit_le_one
    omega
  · exact Nat.le_trans (Nat.le_add_right _ _) htells.budget

end Bench
end MixtureAttention
