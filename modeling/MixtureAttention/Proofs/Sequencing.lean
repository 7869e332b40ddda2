/-
Computations in sequence, each of which may be refused. A sequence that
succeeds is one whose every step succeeds (`exists_of_bind`, `of_lift_ok`,
`of_liftFlat_ok`); forwards, a step that succeeds passes its value on
(`ok_bind`, `lift_ok`, `liftFlat_ok`).
-/
import MixtureAttention.Registry.Error

namespace MixtureAttention

variable {ε α β : Type}

theorem ok_bind (a : α) (f : α → Except ε β) :
    (Except.ok a >>= f) = f a := rfl

/-- A sequence that succeeds has succeeded at each step. -/
theorem exists_of_bind {x : Except ε α} {f : α → Except ε β} {b : β}
    (h : (x >>= f) = .ok b) : ∃ a, x = .ok a ∧ f a = .ok b := by
  cases x with
  | error e => cases h
  | ok a => exact ⟨a, rfl, h⟩

/-- What succeeds without a value, in a form that can be evaluated. -/
theorem eq_ok_of_isOk {x : Except ε Unit} (h : x.isOk = true) :
    x = .ok () := by
  cases x with
  | error e => cases h
  | ok _ => rfl

/-- A tensor operation that succeeds, inside a layer operation. -/
theorem lift_ok (a : α) :
    (liftM (Except.ok a : Except TensorError α) : Except LayerError α)
      = .ok a := rfl

/-- A flat operation that succeeds, inside a tensor operation. -/
theorem liftFlat_ok (a : α) :
    (liftM (Except.ok a : Except Flat.Error α) : Except TensorError α)
      = .ok a := rfl

/-- A lifted tensor operation succeeds as the operation itself. -/
theorem of_lift_ok {x : Except TensorError α} {a : α}
    (h : (liftM x : Except LayerError α) = .ok a) : x = .ok a := by
  cases x with
  | error e => cases h
  | ok b => exact congrArg Except.ok (Except.ok.inj h)

/-- A lifted kernel succeeds as the kernel itself. -/
theorem of_liftFlat_ok {x : Except Flat.Error α} {a : α}
    (h : (liftM x : Except TensorError α) = .ok a) : x = .ok a := by
  cases x with
  | error e => cases h
  | ok b => exact congrArg Except.ok (Except.ok.inj h)

-- ============================================== what a computation returns

/-- The computation succeeds, with a value that has the property. -/
def Returns (Q : α → Prop) (r : Except ε α) : Prop := ∃ a, r = .ok a ∧ Q a

/-- If the computation succeeds, its value has the property. -/
def Ensures (Q : α → Prop) (r : Except ε α) : Prop := ∀ a, r = .ok a → Q a

variable {P : α → Prop} {Q : β → Prop}

theorem Returns.of_ok {a : α} (h : P a) :
    Returns P (.ok a : Except ε α) := ⟨a, rfl, h⟩

/-- Success with a property passes through sequencing. -/
theorem Returns.bind {r : Except ε α} {f : α → Except ε β}
    (hr : Returns P r) (hf : ∀ a, P a → Returns Q (f a)) :
    Returns Q (r >>= f) := by
  obtain ⟨a, rfl, ha⟩ := hr
  exact hf a ha

/-- What is found inside a tensor operation is found inside a layer
operation. -/
theorem Returns.lift {r : Except TensorError α} (h : Returns P r) :
    Returns P (liftM r : Except LayerError α) := by
  obtain ⟨a, rfl, ha⟩ := h
  exact ⟨a, rfl, ha⟩

theorem Returns.mono {P' : α → Prop} {r : Except ε α} (h : Returns P r)
    (hmono : ∀ a, P a → P' a) : Returns P' r := by
  obtain ⟨a, hr, ha⟩ := h
  exact ⟨a, hr, hmono a ha⟩

/-- Success with a property is more than a property of the success. -/
theorem Returns.ensures {r : Except ε α} (h : Returns P r) : Ensures P r := by
  obtain ⟨a, rfl, ha⟩ := h
  rintro _ ⟨⟩
  exact ha

/-- A value that is returned is what the computation returned. -/
theorem Ensures.self (r : Except ε α) : Ensures (fun a => r = .ok a) r :=
  fun _ h => h

/-- A property of every success passes through sequencing. -/
theorem Ensures.bind {r : Except ε α} {f : α → Except ε β}
    (hr : Ensures P r) (hf : ∀ a, P a → Ensures Q (f a)) :
    Ensures Q (r >>= f) := by
  intro b hb
  obtain ⟨a, ha, hb⟩ := exists_of_bind hb
  exact hf a (hr a ha) b hb

/-- A step of whose value nothing is asked. -/
theorem Ensures.skip {r : Except ε α} {f : α → Except ε β}
    (hf : ∀ a, Ensures Q (f a)) : Ensures Q (r >>= f) := by
  intro b hb
  obtain ⟨a, -, hb⟩ := exists_of_bind hb
  exact hf a b hb

/-- Lifting to the errors of a layer changes no success. -/
theorem Ensures.lift {r : Except TensorError α} (h : Ensures P r) :
    Ensures P (liftM r : Except LayerError α) :=
  fun a ha => h a (of_lift_ok ha)

/-- A check that passed held. -/
theorem of_ite_eq_ok {p : Prop} [Decidable p] {a b : α} {e : ε}
    (h : (if p then Except.ok a else .error e) = .ok b) : p ∧ a = b := by
  split at h
  · next hp => exact ⟨hp, by injection h⟩
  · cases h

end MixtureAttention
