/-
What a list of entries does to settings. An entry sets one property to the
value that its text reads as (`Sets`), or it is faulty and there is one
error that says why (`Faulty`); which of the two, and with what, does not
depend on the settings (`sets_or_faulty`). A load of entries that all set
something leaves every property at what the last entry for it says
(`load_valid`), and this pins the settings down (`TakesLast.unique`), so
that only the last entry for each key counts. A load that meets a faulty
entry leaves what the entries before it leave (`load_faulty`).
-/
import MixtureAttention.Proofs.Layer.Listing

namespace MixtureAttention

-- ============================================================== properties

namespace Property

/-- What a property holds. -/
abbrev Value : Property → Type
  | unit => Option Nat
  | mixtures => Option Nat
  | weightInitializer => Initializer
  | biasInitializer => Initializer
  | weightRegularizer => Regularizer
  | penaltyConstant => Float

/-- What a text means as the value of a property: a count above zero, a
scheme, a penalty or a constant that is not below zero. -/
def read? : (p : Property) → String → Option p.Value
  | unit, text => (Settings.readPositive? text).map some
  | mixtures, text => (Settings.readPositive? text).map some
  | weightInitializer, text => Initializer.ofName? text
  | biasInitializer, text => Initializer.ofName? text
  | weightRegularizer, text => Regularizer.ofName? text
  | penaltyConstant, text => Settings.readConstant? text

/-- A property is found by its own key. -/
theorem ofKey?_eq_some_iff {key : String} {p : Property} :
    ofKey? key = some p ↔ p.key = key := by
  constructor
  · intro h
    have hfound := List.find?_some h
    exact of_decide_eq_true hfound
  · rintro rfl
    exact p.ofKey?_key

/-- A key is unknown if no property has it. -/
theorem ofKey?_eq_none_iff {key : String} :
    ofKey? key = none ↔ ∀ p : Property, key ≠ p.key := by
  rw [Option.eq_none_iff_forall_ne_some]
  exact forall_congr' fun p =>
    not_congr (ofKey?_eq_some_iff.trans eq_comm)

/-- Keys of different properties differ. -/
theorem key_injective : Function.Injective key := by
  intro p q h
  exact Option.some.inj (by rw [← p.ofKey?_key, h, q.ofKey?_key])

end Property

namespace Settings

variable {s t t' : Settings} {p q : Property} {entry : String}
  {entries : List String} {err : LayerError}

/-- The value of a property. -/
def get (s : Settings) : (p : Property) → p.Value
  | .unit => s.unit
  | .mixtures => s.mixtures
  | .weightInitializer => s.weightInitializer
  | .biasInitializer => s.biasInitializer
  | .weightRegularizer => s.weightRegularizer
  | .penaltyConstant => s.penaltyConstant

/-- The settings with another value of one property. -/
def put (s : Settings) : (p : Property) → p.Value → Settings
  | .unit, x => { s with unit := x }
  | .mixtures, x => { s with mixtures := x }
  | .weightInitializer, x => { s with weightInitializer := x }
  | .biasInitializer, x => { s with biasInitializer := x }
  | .weightRegularizer, x => { s with weightRegularizer := x }
  | .penaltyConstant, x => { s with penaltyConstant := x }

/-- The value put is the value read. -/
@[simp] theorem get_put (s : Settings) (p : Property) (x : p.Value) :
    (s.put p x).get p = x := by
  cases p <;> rfl

/-- Other properties keep theirs. -/
theorem get_put_of_ne (s : Settings) (hne : q ≠ p) (x : p.Value) :
    (s.put p x).get q = s.get q := by
  cases p <;> cases q <;> first | rfl | exact absurd rfl hne

/-- Settings are the values of their properties. -/
theorem ext_get (h : ∀ p, s.get p = t.get p) : s = t := by
  obtain ⟨unit, mixtures, i, j, r, c⟩ := s
  obtain ⟨unit', mixtures', i', j', r', c'⟩ := t
  obtain rfl : unit = unit' := h .unit
  obtain rfl : mixtures = mixtures' := h .mixtures
  obtain rfl : i = i' := h .weightInitializer
  obtain rfl : j = j' := h .biasInitializer
  obtain rfl : r = r' := h .weightRegularizer
  obtain rfl : c = c' := h .penaltyConstant
  rfl

/-- An assignment reads the text first, without a look at the settings, and
then changes the one property. -/
theorem assign?_eq (s : Settings) (p : Property) (text : String) :
    s.assign? p text = (p.read? text).map (s.put p) := by
  cases p <;> simp only [assign?, Property.read?, Option.map_map] <;> rfl

-- ============================================================= one entry

/-- An entry is split at its first equals sign. -/
def Splits (entry key value : String) : Prop :=
  '=' ∉ key.toList ∧ entry = key ++ "=" ++ value

instance (entry key value : String) : Decidable (Splits entry key value) :=
  inferInstanceAs (Decidable (_ ∧ _))

/-- An entry sets a property to a value: its key names the property, and
its text reads as the value. -/
def Sets (entry : String) (p : Property) (x : p.Value) : Prop :=
  ∃ key value, Splits entry key value ∧ Text.normalize key = p.key
    ∧ p.read? (Text.trim value) = some x

/-- An entry that sets some property to some value. -/
def Valid (entry : String) : Prop := ∃ p x, Sets entry p x

/-- An entry sets nothing, and the error says why. -/
inductive Faulty (entry : String) : LayerError → Prop
  /-- There is no equals sign. -/
  | unseparated (h : '=' ∉ entry.toList) :
      Faulty entry (.invalidProperty (Text.trim entry) "")
  /-- The key names no property. -/
  | unknown {key value : String} (hsplit : Splits entry key value)
      (h : ∀ p : Property, Text.normalize key ≠ p.key) :
      Faulty entry (.unknownProperty (Text.normalize key))
  /-- The text is not one of a value of the property. -/
  | malformed {key value : String} (p : Property)
      (hsplit : Splits entry key value) (hkey : Text.normalize key = p.key)
      (h : p.read? (Text.trim value) = none) :
      Faulty entry (.invalidProperty p.key (Text.trim value))

/-- The key of an entry, in normal form, if it has one. -/
def key? (entry : String) : Option String :=
  (Text.splitFirst? '=' entry).map fun (key, _) => Text.normalize key

/-- An entry is split at its first equals sign. -/
theorem splits_iff {key value : String} :
    Splits entry key value
      ↔ Text.splitFirst? '=' entry = some (key, value) :=
  Text.splitFirst?_eq_some_iff.symm

/-- An entry that sets a property has that property's key. -/
theorem Sets.key?_eq {x : p.Value} (h : Sets entry p x) :
    key? entry = some p.key := by
  obtain ⟨key, value, hsplit, hkey, -⟩ := h
  rw [key?, splits_iff.1 hsplit]
  exact congrArg some hkey

/-- An entry sets its property to one value. -/
theorem Sets.value_unique {x y : p.Value} (hx : Sets entry p x)
    (hy : Sets entry p y) : x = y := by
  obtain ⟨key, value, hsplit, -, hread⟩ := hx
  obtain ⟨key', value', hsplit', -, hread'⟩ := hy
  obtain ⟨rfl, rfl⟩ := Prod.mk.inj (Option.some.inj
    ((splits_iff.1 hsplit).symm.trans (splits_iff.1 hsplit')))
  exact Option.some.inj (hread.symm.trans hread')

/-- Every entry sets something or is faulty. -/
theorem sets_or_faulty (entry : String) :
    Valid entry ∨ ∃ err, Faulty entry err := by
  cases hsplit : Text.splitFirst? '=' entry with
  | none =>
      exact .inr ⟨_, .unseparated (Text.splitFirst?_eq_none_iff.1 hsplit)⟩
  | some parts =>
      obtain ⟨key, value⟩ := parts
      have hsplit := splits_iff.2 hsplit
      cases hkey : Property.ofKey? (Text.normalize key) with
      | none =>
          exact .inr ⟨_, .unknown hsplit (Property.ofKey?_eq_none_iff.1 hkey)⟩
      | some p =>
          have hkey := (Property.ofKey?_eq_some_iff.1 hkey).symm
          cases hread : p.read? (Text.trim value) with
          | none => exact .inr ⟨_, .malformed p hsplit hkey hread⟩
          | some x => exact .inl ⟨p, x, key, value, hsplit, hkey, hread⟩

/-- Applying it puts that value. -/
theorem applyEntry_of_sets {x : p.Value} (h : Sets entry p x)
    (s : Settings) : s.applyEntry entry = .ok (s.put p x) := by
  obtain ⟨key, value, hsplit, hkey, hread⟩ := h
  simp only [applyEntry, splits_iff.1 hsplit, assign, hkey, p.ofKey?_key,
    assign?_eq, hread, Option.map_some]

/-- A faulty entry is refused with its own fault. -/
theorem applyEntry_of_faulty (h : Faulty entry err) (s : Settings) :
    s.applyEntry entry = .error err := by
  cases h with
  | unseparated h =>
      simp only [applyEntry, Text.splitFirst?_eq_none_iff.2 h]
  | unknown hsplit h =>
      simp only [applyEntry, splits_iff.1 hsplit, assign,
        Property.ofKey?_eq_none_iff.2 h]
  | malformed p hsplit hkey h =>
      simp only [applyEntry, splits_iff.1 hsplit, assign, hkey,
        p.ofKey?_key, assign?_eq, h, Option.map_none]

/-- An entry has one fault. -/
theorem Faulty.unique {err' : LayerError} (h : Faulty entry err)
    (h' : Faulty entry err') : err = err' :=
  Except.error.inj
    ((applyEntry_of_faulty h {}).symm.trans (applyEntry_of_faulty h' {}))

/-- A valid entry has none. -/
theorem Valid.not_faulty (h : Valid entry) : ¬ Faulty entry err := by
  intro hfaulty
  obtain ⟨p, x, hsets⟩ := h
  have hboth := (applyEntry_of_sets hsets {}).symm.trans
    (applyEntry_of_faulty hfaulty {})
  cases hboth

-- ======================================================= the last for a key

/-- The last entry with the key of a property. -/
def lastFor? (p : Property) (entries : List String) : Option String :=
  (entries.filter fun entry => key? entry = some p.key).getLast?

/-- The last entry for a property is looked for from the end. -/
theorem lastFor?_cons (p : Property) (entry : String)
    (rest : List String) :
    lastFor? p (entry :: rest)
      = (lastFor? p rest).or
          (if key? entry = some p.key then some entry else none) := by
  unfold lastFor?
  by_cases hkey : key? entry = some p.key
  · rw [List.filter_cons_of_pos (by simpa using hkey), List.getLast?_cons,
      if_pos hkey, Option.or_some]
  · rw [List.filter_cons_of_neg (by simpa using hkey), if_neg hkey,
      Option.or_none]

/-- The settings `t` have every property that the entries name at what the
last entry for it says, and the others as they are in `s`. -/
structure TakesLast (entries : List String) (s t : Settings) : Prop where
  named : ∀ {p entry}, lastFor? p entries = some entry →
    Sets entry p (t.get p)
  kept : ∀ {p}, lastFor? p entries = none → t.get p = s.get p

/-- The last entries determine the settings. -/
theorem TakesLast.unique (h : TakesLast entries s t)
    (h' : TakesLast entries s t') : t = t' := by
  refine ext_get fun p => ?_
  cases hlast : lastFor? p entries with
  | none => exact (h.kept hlast).trans (h'.kept hlast).symm
  | some entry => exact (h.named hlast).value_unique (h'.named hlast)

/-- Taken over a second time, nothing changes. -/
theorem TakesLast.again (h : TakesLast entries s t) :
    TakesLast entries t t where
  named := h.named
  kept _ := rfl

/-- An entry before others is the last for its own key if they do not have
it. -/
theorem TakesLast.cons {x : p.Value} (hsets : Sets entry p x)
    (h : TakesLast entries (s.put p x) t) :
    TakesLast (entry :: entries) s t := by
  constructor
  · intro q last hlast
    rw [lastFor?_cons, hsets.key?_eq] at hlast
    cases hlater : lastFor? q entries with
    | some later =>
        rw [hlater, Option.some_or] at hlast
        exact Option.some.inj hlast ▸ h.named hlater
    | none =>
        rw [hlater, Option.none_or, Option.ite_none_right_eq_some] at hlast
        obtain ⟨hkey, hentry⟩ := hlast
        obtain rfl := Property.key_injective (Option.some.inj hkey)
        have hput := (h.kept hlater).trans (get_put s p x)
        exact hput ▸ Option.some.inj hentry ▸ hsets
  · intro q hlast
    rw [lastFor?_cons, hsets.key?_eq, Option.or_eq_none_iff] at hlast
    obtain ⟨hlater, hkey⟩ := hlast
    have hne : q ≠ p := by
      rintro rfl
      rw [if_pos rfl] at hkey
      cases hkey
    exact (h.kept hlater).trans (get_put_of_ne s hne x)

-- ================================================================ loading

/-- Entries in another order, in which those with one key follow each other
as before. -/
structure Reordered (entries entries' : List String) : Prop where
  perm : entries'.Perm entries
  sameKey : ∀ key,
    entries'.filter (fun entry => key? entry = some key)
      = entries.filter fun entry => key? entry = some key

/-- Two neighbours with different keys may change places. -/
theorem Reordered.swap {entry' : String} (before after : List String)
    (hne : key? entry ≠ key? entry') :
    Reordered (before ++ entry :: entry' :: after)
      (before ++ entry' :: entry :: after) where
  perm := (List.Perm.swap entry entry' after).append_left before
  sameKey key := by
    rw [List.filter_append, List.filter_append]
    congr 1
    by_cases hentry : key? entry = some key
    · have hentry' : ¬ key? entry' = some key := fun h =>
        hne (hentry.trans h.symm)
      simp [hentry, hentry']
    · simp [List.filter_cons, hentry]

/-- Entries of different properties may change places. -/
theorem Reordered.takesLast {entries' : List String}
    (hr : Reordered entries entries') (h : TakesLast entries s t) :
    TakesLast entries' s t := by
  have hlast : ∀ p, lastFor? p entries' = lastFor? p entries := fun p =>
    congrArg List.getLast? (hr.sameKey p.key)
  exact ⟨fun hsome => h.named (hlast _ ▸ hsome),
    fun hnone => h.kept (hlast _ ▸ hnone)⟩

/-- Valid entries all load, and the last of each property counts. -/
theorem load_valid : ∀ (entries : List String) (s : Settings),
    (∀ entry ∈ entries, Valid entry) →
      ∃ t, load entries s = .ok () t ∧ TakesLast entries s t
  | [], s, _ => ⟨s, rfl, nofun, fun _ => rfl⟩
  | entry :: rest, s, h => by
      obtain ⟨⟨p, x, hsets⟩, hrest⟩ := List.forall_mem_cons.1 h
      obtain ⟨t, hload, hlast⟩ := load_valid rest (s.put p x) hrest
      refine ⟨t, ?_, hlast.cons hsets⟩
      rw [load, applyEntry_of_sets hsets]
      exact hload

/-- Entries that are valid leave the one thing that they can. -/
theorem load_eq_of_takesLast (hvalid : ∀ entry ∈ entries, Valid entry)
    (h : TakesLast entries s t) : load entries s = .ok () t := by
  obtain ⟨t', hload, hlast⟩ := load_valid entries s hvalid
  rw [hload, hlast.unique h]

/-- Entries that load without a fault may be loaded ahead of the others. -/
theorem load_append : ∀ (before after : List String) (s t : Settings),
    load before s = .ok () t → load (before ++ after) s = load after t
  | [], _, s, t, h => by
      injection h with _ hst
      rw [hst, List.nil_append]
  | entry :: before, after, s, t, h => by
      rw [List.cons_append]
      rw [load] at h ⊢
      cases hentry : s.applyEntry entry with
      | error err =>
          rw [hentry] at h
          cases h
      | ok s' =>
          rw [hentry] at h
          exact load_append before after s' t h

/-- A faulty entry after others: it changes nothing more, and what follows
it does not matter. -/
theorem load_faulty {before : List String} (h : load before s = .ok () t)
    (hfaulty : Faulty entry err) (after : List String) :
    load (before ++ entry :: after) s = .error err t := by
  rw [load_append before _ s t h, load, applyEntry_of_faulty hfaulty]

/-- Entries that are not all valid have a first that is faulty. -/
theorem exists_first_faulty : ∀ entries : List String,
    (¬ ∀ entry ∈ entries, Valid entry) →
      ∃ before entry after err, entries = before ++ entry :: after
        ∧ (∀ earlier ∈ before, Valid earlier) ∧ Faulty entry err
  | [], h => absurd (fun _ => nofun) h
  | entry :: rest, h => by
      rcases sets_or_faulty entry with hvalid | ⟨err, hfaulty⟩
      · obtain ⟨before, entry', after, err, rfl, hbefore, hfaulty⟩ :=
          exists_first_faulty rest fun hrest =>
            h (List.forall_mem_cons.2 ⟨hvalid, hrest⟩)
        exact ⟨entry :: before, entry', after, err, rfl,
          List.forall_mem_cons.2 ⟨hvalid, hbefore⟩, hfaulty⟩
      · exact ⟨[], entry, rest, err, rfl, fun _ => nofun, hfaulty⟩

/-- Loading applies the entries that stand before the first faulty one, and
the last entry for each key counts. If none is faulty, loading succeeds:
each property is what the last entry for it says, or what it was. Then
entries with different keys can change places, and loading everything again
changes nothing. Otherwise the load is refused with the error of the first
faulty entry; the settings are left as the entries before it leave them,
whatever follows. -/
theorem load_until_first_fault (s : Settings) (entries : List String) :
    ((∀ entry ∈ entries, Valid entry) →
      ∃ t, load entries s = .ok () t ∧ TakesLast entries s t
        ∧ (∀ entries', Reordered entries entries' →
            load entries' s = .ok () t)
        ∧ load entries t = .ok () t
        ∧ load (entries ++ entries) s = .ok () t)
      ∧ ((¬ ∀ entry ∈ entries, Valid entry) →
        ∃ before entry after err t, entries = before ++ entry :: after
          ∧ (∀ earlier ∈ before, Valid earlier) ∧ Faulty entry err
          ∧ load before s = .ok () t ∧ load entries s = .error err t
          ∧ ∀ after', load (before ++ entry :: after') s = .error err t) := by
  constructor
  · intro hvalid
    obtain ⟨t, hload, hlast⟩ := load_valid entries s hvalid
    have hagain := load_eq_of_takesLast hvalid hlast.again
    refine ⟨t, hload, hlast, fun entries' hr => ?_, hagain, ?_⟩
    · exact load_eq_of_takesLast
        (fun entry he => hvalid entry (hr.perm.mem_iff.1 he))
        (hr.takesLast hlast)
    · rw [load_append entries entries s t hload, hagain]
  · intro hinvalid
    obtain ⟨before, entry, after, err, rfl, hbefore, hfaulty⟩ :=
      exists_first_faulty entries hinvalid
    obtain ⟨t, hload, -⟩ := load_valid before s hbefore
    exact ⟨before, entry, after, err, t, rfl, hbefore, hfaulty, hload,
      load_faulty hload hfaulty after, load_faulty hload hfaulty⟩

/-- A width that is given twice, with a number of components between, and a
load that stops at its second entry. -/
theorem load_until_first_fault_width_twice :
    (∃ t, load [" Unit = 16", "mol_k=3", "UNIT=+8"] {} = .ok () t
        ∧ t.unit = some 8 ∧ t.mixtures = some 3
        ∧ load ["mol_k=3", " Unit = 16", "UNIT=+8"] {} = .ok () t)
      ∧ ∃ t, load ["unit=3", "heads=4", "mol_k=2"] {}
          = .error (.unknownProperty "heads") t
        ∧ load ["unit=3"] {} = .ok () t := by
  have hfirst : Sets " Unit = 16" .unit (some 16) :=
    ⟨" Unit ", " 16", by decide, by decide +kernel, by decide +kernel⟩
  have hcount : Sets "mol_k=3" .mixtures (some 3) :=
    ⟨"mol_k", "3", by decide, by decide +kernel, by decide +kernel⟩
  have hsecond : Sets "UNIT=+8" .unit (some 8) :=
    ⟨"UNIT", "+8", by decide, by decide +kernel, by decide +kernel⟩
  have hwidth : Sets "unit=3" .unit (some 3) :=
    ⟨"unit", "3", by decide, by decide +kernel, by decide +kernel⟩
  have hnormal : Text.normalize "heads" = "heads" := by decide +kernel
  have hheads : Faulty "heads=4" (.unknownProperty "heads") := by
    have hsplit : Splits "heads=4" "heads" "4" := by decide
    have hunknown : ∀ p : Property, Text.normalize "heads" ≠ p.key := by
      intro p
      cases p <;> decide +kernel
    exact hnormal ▸ Faulty.unknown hsplit hunknown
  constructor
  · obtain ⟨t, hload, hlast, hreordered, -⟩ :=
      (load_until_first_fault {} [" Unit = 16", "mol_k=3", "UNIT=+8"]).1
        (by simpa using ⟨⟨_, _, hfirst⟩, ⟨_, _, hcount⟩, ⟨_, _, hsecond⟩⟩)
    have hunit : Sets "UNIT=+8" .unit t.unit :=
      hlast.named (by decide +kernel)
    have hmixtures : Sets "mol_k=3" .mixtures t.mixtures :=
      hlast.named (by decide +kernel)
    refine ⟨t, hload, hunit.value_unique hsecond,
      hmixtures.value_unique hcount,
      hreordered _ (.swap [] ["UNIT=+8"] ?_)⟩
    rw [hfirst.key?_eq, hcount.key?_eq]
    decide
  · have hinvalid : ¬ ∀ entry ∈ ["unit=3", "heads=4", "mol_k=2"],
        Valid entry := fun h => (h "heads=4" (by simp)).not_faulty hheads
    obtain ⟨before, entry, after, err, t, hsplit, hbefore, hfaulty, hload,
      hrefused, -⟩ :=
      (load_until_first_fault {} ["unit=3", "heads=4", "mol_k=2"]).2 hinvalid
    rcases before with _ | ⟨first, _ | ⟨second, before⟩⟩
    · obtain ⟨rfl, -⟩ := List.cons.inj hsplit
      exact absurd hfaulty (Valid.not_faulty ⟨_, _, hwidth⟩)
    · obtain ⟨rfl, hrest⟩ := List.cons.inj hsplit
      obtain ⟨rfl, -⟩ := List.cons.inj hrest
      rw [hfaulty.unique hheads] at hrefused
      exact ⟨t, hrefused, hload⟩
    · obtain ⟨-, hrest⟩ := List.cons.inj hsplit
      obtain ⟨rfl, -⟩ := List.cons.inj hrest
      exact absurd hheads (hbefore _ (by simp)).not_faulty

end Settings
end MixtureAttention
