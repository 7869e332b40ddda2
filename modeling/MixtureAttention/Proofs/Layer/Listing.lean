/-
Settings that are listed load back. What a listing writes is what loading
reads: keys are in normal form and hold no separator, counts and names read
back, and nothing that is written has a blank at its ends. So loading the
listing takes over one property after the other (`load_listed`), and from
the defaults it arrives at the settings that were listed.

For this the settings have to be such as can be set at all: counts that are
positive and fit a word, and a constant that is finite and not below zero.
The defaults are, and every change keeps it, one that is refused too
(`sound_reached`).
-/
import MixtureAttention.Proofs.Decimal.RoundTrip
import MixtureAttention.Proofs.Layer.History

namespace MixtureAttention

-- =================================================================== names

/-- Every property is found by its key. -/
theorem Property.ofKey?_key (p : Property) :
    Property.ofKey? p.key = some p := by
  cases p <;> decide +kernel

/-- Keys are written in normal form. -/
theorem Property.normalize_key (p : Property) :
    Text.normalize p.key = p.key := by
  cases p <;> decide +kernel

/-- A key holds no separator. -/
theorem Property.separator_not_mem_key (p : Property) :
    '=' ∉ p.key.toList := by
  cases p <;> decide +kernel

/-- Every initializer is found by its name. -/
theorem Initializer.ofName?_name (i : Initializer) :
    Initializer.ofName? i.name = some i := by
  cases i <;> decide +kernel

/-- The name of an initializer has no blanks around it. -/
theorem Initializer.trim_name (i : Initializer) :
    Text.trim i.name = i.name := by
  cases i <;> decide +kernel

/-- Every regularizer is found by its name. -/
theorem Regularizer.ofName?_name (r : Regularizer) :
    Regularizer.ofName? r.name = some r := by
  cases r <;> decide +kernel

/-- The name of a regularizer has no blanks around it. -/
theorem Regularizer.trim_name (r : Regularizer) :
    Text.trim r.name = r.name := by
  cases r <;> decide +kernel

namespace Settings

variable {s s' t : Settings} {key value : String}

-- ========================================================== what can be set

/-- A count is positive and fits a word. -/
def IsCount (n : Nat) : Prop := 0 < n ∧ n < Natural.wordLimit

/-- A constant is finite and not below zero. -/
def IsConstant (c : Float) : Prop := c.isFinite = true ∧ 0.0 ≤ c

/-- Settings that can be set: what is set has passed its check. -/
structure Sound (s : Settings) : Prop where
  unit : ∀ n, s.unit = some n → IsCount n
  mixtures : ∀ n, s.mixtures = some n → IsCount n
  penaltyConstant : IsConstant s.penaltyConstant

/-- The defaults pass their own checks. -/
theorem sound_default : Sound {} where
  unit := nofun
  mixtures := nofun
  penaltyConstant := by unfold IsConstant; decide +kernel

/-- What is read as a count is one. -/
theorem isCount_of_read {n : Nat} (h : readPositive? value = some n) :
    IsCount n := by
  obtain ⟨hread, hpos⟩ := Option.filter_eq_some_iff.1 h
  exact ⟨of_decide_eq_true hpos, Natural.lt_wordLimit_of_read hread⟩

/-- What is read as a constant is one. -/
theorem isConstant_of_read {c : Float} (h : readConstant? value = some c) :
    IsConstant c := by
  have hcheck := (Option.filter_eq_some_iff.1 h).2
  rw [Bool.and_eq_true] at hcheck
  exact ⟨hcheck.1, of_decide_eq_true hcheck.2⟩

/-- An assignment to one property keeps what can be set. -/
theorem Sound.assign? {p : Property} (hs : s.Sound)
    (h : s.assign? p value = some s') : s'.Sound := by
  cases p <;> simp only [Settings.assign?, Option.map_eq_some_iff] at h <;>
    obtain ⟨x, hx, rfl⟩ := h
  case unit =>
    exact { hs with unit := fun n hn =>
      Option.some.inj hn ▸ isCount_of_read hx }
  case mixtures =>
    exact { hs with mixtures := fun n hn =>
      Option.some.inj hn ▸ isCount_of_read hx }
  case penaltyConstant =>
    exact { hs with penaltyConstant := isConstant_of_read hx }
  all_goals exact ⟨hs.unit, hs.mixtures, hs.penaltyConstant⟩

/-- An accepted setting keeps the settings sound. -/
theorem Sound.assign (hs : s.Sound) (h : s.assign key value = .ok s') :
    s'.Sound := by
  obtain ⟨p, -, hassign⟩ := exists_of_assign h
  exact hs.assign? hassign

-- ================================================================= commands

/-- What changes settings. A width or a number of components that is not
read from text is positive. -/
inductive Command
  | set (key value : String)
  | load (entries : List String)
  | withUnit (n : Nat) (h : IsCount n)
  | withMixtures (n : Nat) (h : IsCount n)

namespace Command

/-- The settings after a command, whether it succeeds or is refused. -/
def apply : Command → Settings → Settings
  | .set key value, s => (split (Settings.set key value s)).2
  | .load entries, s => (split (Settings.load entries s)).2
  | .withUnit n _, s => s.withUnit n
  | .withMixtures n _, s => s.withMixtures n

/-- Every command keeps what can be set. -/
theorem sound_apply (c : Command) (hs : s.Sound) : (c.apply s).Sound := by
  cases c with
  | set key value => exact holds_set (fun _ h => hs.assign h) hs
  | load entries =>
      exact holds_load entries (fun _ _ _ _ _ _ _ h hs => hs.assign h) s hs
  | withUnit n h =>
      exact { hs with unit := fun m hm => Option.some.inj hm ▸ h }
  | withMixtures n h =>
      exact { hs with mixtures := fun m hm => Option.some.inj hm ▸ h }

end Command

/-- The settings that commands lead to from the defaults, the latest
command first. -/
def reached : List Command → Settings
  | [] => {}
  | c :: earlier => c.apply (reached earlier)

/-- So all settings that commands reach are sound. -/
theorem sound_reached (commands : List Command) :
    (reached commands).Sound := by
  induction commands with
  | nil => exact sound_default
  | cons c earlier ih => exact c.sound_apply ih

-- ============================================================= loading back

/-- The settings `t` with one property taken over from `s`, if it is set
there. -/
def adopt (s t : Settings) : Property → Settings
  | .unit => { t with unit := s.unit.or t.unit }
  | .mixtures => { t with mixtures := s.mixtures.or t.mixtures }
  | .weightInitializer => { t with weightInitializer := s.weightInitializer }
  | .biasInitializer => { t with biasInitializer := s.biasInitializer }
  | .weightRegularizer => { t with weightRegularizer := s.weightRegularizer }
  | .penaltyConstant => { t with penaltyConstant := s.penaltyConstant }

/-- From the defaults, all properties are taken over. -/
theorem adopt_all (s : Settings) :
    Property.all.foldl (fun t p => s.adopt t p) {} = s := by
  obtain ⟨unit, mixtures, i, j, r, c⟩ := s
  cases unit <;> cases mixtures <;> rfl

/-- A property that is not listed is not taken over. -/
theorem adopt_of_unlisted {p : Property} (h : s.valueText? p = none) :
    s.adopt t p = t := by
  cases p <;> simp_all [valueText?, adopt]

/-- A positive count is read back from its text. -/
theorem readPositive?_text {n : Nat} (h : IsCount n) :
    readPositive? (Natural.text n) = some n := by
  rw [readPositive?, Natural.read?_text h.2, Option.filter_some]
  simp [h.1]

/-- A constant is read back from its text to the last bit. -/
theorem readConstant?_text {c : Float} (h : IsConstant c) :
    readConstant? (Decimal.text c) = some c := by
  rw [readConstant?, Decimal.read?_text h.1, Option.filter_some]
  simp [h.1, h.2]

/-- The text of a value has no blanks at its ends. -/
theorem trim_valueText {p : Property} (h : s.valueText? p = some value) :
    Text.trim value = value := by
  cases p <;> simp only [valueText?, Option.map_eq_some_iff,
    Option.some.injEq] at h
  case unit =>
    obtain ⟨n, -, rfl⟩ := h
    exact Text.trim_of_unblank (Natural.unblank_text n)
  case mixtures =>
    obtain ⟨n, -, rfl⟩ := h
    exact Text.trim_of_unblank (Natural.unblank_text n)
  case weightInitializer => exact h ▸ s.weightInitializer.trim_name
  case biasInitializer => exact h ▸ s.biasInitializer.trim_name
  case weightRegularizer => exact h ▸ s.weightRegularizer.trim_name
  case penaltyConstant =>
    exact h ▸ Text.trim_of_unblank (Decimal.unblank_text _)

/-- What is listed of a property reads back. -/
theorem assign?_valueText {p : Property} (hs : s.Sound)
    (h : s.valueText? p = some value) :
    t.assign? p value = some (s.adopt t p) := by
  cases p <;> simp only [valueText?, Option.map_eq_some_iff,
    Option.some.injEq] at h
  case unit =>
    obtain ⟨n, hn, rfl⟩ := h
    simp [assign?, adopt, readPositive?_text (hs.unit n hn), hn]
  case mixtures =>
    obtain ⟨n, hn, rfl⟩ := h
    simp [assign?, adopt, readPositive?_text (hs.mixtures n hn), hn]
  case weightInitializer =>
    simp [assign?, adopt, ← h, Initializer.ofName?_name]
  case biasInitializer =>
    simp [assign?, adopt, ← h, Initializer.ofName?_name]
  case weightRegularizer =>
    simp [assign?, adopt, ← h, Regularizer.ofName?_name]
  case penaltyConstant =>
    simp [assign?, adopt, ← h, readConstant?_text hs.penaltyConstant]

/-- An entry of the listing sets its property to what it was. -/
theorem applyEntry_listed {p : Property} (hs : s.Sound)
    (h : s.valueText? p = some value) :
    t.applyEntry (p.key ++ "=" ++ value) = .ok (s.adopt t p) := by
  have hsplit : Text.splitFirst? '=' (p.key ++ "=" ++ value)
      = some (p.key, value) :=
    Text.splitFirst?_join value p.separator_not_mem_key
  simp only [applyEntry, hsplit, Settings.assign, p.normalize_key,
    p.ofKey?_key, trim_valueText h, assign?_valueText hs h]

/-- Loading what is listed of some properties takes them over, one after
the other. -/
theorem load_listed (hs : s.Sound) (ps : List Property) :
    ∀ t, load ((ps.filterMap fun p =>
        (s.valueText? p).map fun v => (p.key, v)).map
          fun (key, value) => key ++ "=" ++ value) t
      = .ok () (ps.foldl (fun t p => s.adopt t p) t) := by
  -- on the properties, for any settings: each entry is loaded on those before
  induction ps with
  | nil => exact fun _ => rfl
  | cons p ps ih =>
      intro t
      cases hvalue : s.valueText? p with
      | none =>
          rw [List.filterMap_cons_none (by rw [hvalue]; rfl),
            List.foldl_cons, adopt_of_unlisted hvalue]
          exact ih t
      | some v =>
          rw [List.filterMap_cons_some (by rw [hvalue]; rfl),
            List.map_cons, List.foldl_cons, load,
            applyEntry_listed hs hvalue]
          exact ih _

/-- Settings that commands lead to from the defaults, refused ones among
them, are listed in a form that loads back: into the defaults, without a
refusal, and with nothing lost, so that the listing of what was loaded is
the same again. -/
theorem listing_loads_back (commands : List Command) :
    let s := reached commands
    (∃ t, load s.entries {} = .ok () t ∧ t = s ∧ t.listing = s.listing)
      ∧ s.Sound := by
  intro s
  have hs := sound_reached commands
  have hload := load_listed hs Property.all {}
  rw [adopt_all] at hload
  exact ⟨⟨s, hload, rfl, rfl⟩, hs⟩

/-- A load that is refused half way, and what it set before. -/
theorem listing_loads_back_refused :
    let commands : List Command :=
      [.load ["mol_k = 2", "Weight_Regularizer_Constant=25e-2", "unit=-1",
        "unit=3"], .set " UNIT " "+08"]
    let s := reached commands
    s.entries = ["unit=8", "mol_k=2", "weight_initializer=xavier_uniform",
        "bias_initializer=zeros", "weight_regularizer=none",
        "weight_regularizer_constant=0.25"]
      ∧ (∃ t, load s.entries {} = .ok () t ∧ t = s ∧ t.listing = s.listing)
      ∧ s.Sound := by
  intro commands s
  exact ⟨by decide +kernel, listing_loads_back commands⟩

end Settings
end MixtureAttention
