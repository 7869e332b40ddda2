/-
Stretching orders the shapes, and the shape that two shapes share is their
least upper bound in this order. An axis of extent one lies below every
extent and no other two extents are comparable, zero among them, so the order
is that of a flat domain along each axis: two shapes with an upper bound have
a least one, and shapes without one are refused (`joinShapes_eq_ok_iff`,
`exists_joinShapes`).

What is true of all partial joins follows from that without another look at
an axis. The order of two operands does not matter, and three are joined to
the least upper bound of all three, whichever two are joined first
(`joinShapes_twice`).
-/
import MixtureAttention.Proofs.Tensor.Stretching

namespace MixtureAttention

variable {α : Type}

namespace Shape

variable {s t u v : Shape}

-- ============================================================== the order

/-- Every shape stretches to itself. -/
theorem Stretches.refl (s : Shape) : Stretches s s :=
  List.forall₂_same.2 fun _ _ => .inr rfl

/-- Stretching twice is stretching. -/
theorem Stretches.trans (h : Stretches s t) : Stretches t u →
    Stretches s u := by
  induction h generalizing u with
  | nil => exact id
  | @cons a b _ _ hab _ ih =>
      rintro (_ | ⟨hbc, hrest⟩)
      refine .cons ?_ (ih hrest)
      rcases hab with ha | rfl
      · exact .inl ha
      · exact hbc

/-- Shapes that stretch to each other are equal. -/
theorem Stretches.antisymm (h : Stretches s t) : Stretches t s → s = t := by
  induction h with
  | nil => exact fun _ => rfl
  | @cons a b _ _ hab _ ih =>
      rintro (_ | ⟨hba, hrest⟩)
      obtain rfl : a = b := by omega
      rw [ih hrest]

/-- Shapes with an upper bound can be stretched to each other, and the shape
they share lies below it. -/
theorem Stretches.joined (h : Stretches s v) : Stretches t v →
    Joinable s t ∧ Stretches (joined s t) v := by
  induction h generalizing t with
  | nil =>
      rintro (_ | _)
      exact ⟨.nil, .nil⟩
  | @cons a e _ _ hae _ ih =>
      rintro (_ | ⟨hbe, hrest⟩)
      obtain ⟨hjoin, hbelow⟩ := ih hrest
      refine ⟨.cons (by omega) hjoin, .cons ?_ hbelow⟩
      dsimp only
      split
      · exact hbe
      · exact hae

/-- The lowest of the shapes that have a property. -/
def Lowest (P : Shape → Prop) (u : Shape) : Prop :=
  P u ∧ ∀ v, P v → Stretches u v

/-- There is one lowest shape at most. -/
theorem Lowest.unique {P : Shape → Prop} (hu : Lowest P u)
    (hv : Lowest P v) : u = v :=
  (hu.2 v hv.1).antisymm (hv.2 u hu.1)

/-- Lowest depends on the condition alone. -/
theorem lowest_congr {P Q : Shape → Prop} (h : ∀ v, P v ↔ Q v) :
    Lowest P u ↔ Lowest Q u := by
  rw [funext fun v => propext (h v)]

/-- What lies above the least upper bound lies above both shapes. -/
theorem Lowest.stretches_iff
    (h : Lowest (fun v => Stretches s v ∧ Stretches t v) u) :
    Stretches u v ↔ Stretches s v ∧ Stretches t v :=
  ⟨fun huv => ⟨h.1.1.trans huv, h.1.2.trans huv⟩, h.2 v⟩

end Shape

namespace Flat

open Shape

variable {a b c s t u : Shape}

-- =============================================================== the join

/-- Shapes with an upper bound are joined, to the least one. -/
theorem exists_joinShapes (hs : Stretches s u) (ht : Stretches t u) :
    ∃ j, joinShapes s t = .ok j
      ∧ Lowest (fun v => Stretches s v ∧ Stretches t v) j := by
  obtain ⟨hjoin, -⟩ := hs.joined ht
  exact ⟨_, Tensor.joinShapes_ok hjoin, hjoin.stretches,
    fun v hv => (hv.1.joined hv.2).2⟩

/-- The common shape is the lowest that both stretch to. -/
theorem joinShapes_eq_ok_iff : joinShapes s t = .ok u
    ↔ Lowest (fun v => Stretches s v ∧ Stretches t v) u := by
  constructor
  · intro h
    by_cases hjoin : s.Joinable t
    · obtain ⟨hs, ht⟩ := hjoin.stretches
      obtain ⟨j, hj, hlow⟩ := exists_joinShapes hs ht
      rw [h] at hj
      cases hj
      exact hlow
    · obtain ⟨e, he, -⟩ := Tensor.joinShapes_refused hjoin
      rw [h] at he
      cases he
  · intro h
    obtain ⟨j, hj, hlow⟩ := exists_joinShapes h.1.1 h.1.2
    rw [hj, hlow.unique h]

/-- It does not depend on the order of the two. -/
theorem joinShapes_comm :
    joinShapes s t = .ok u ↔ joinShapes t s = .ok u := by
  rw [joinShapes_eq_ok_iff, joinShapes_eq_ok_iff]
  exact lowest_congr fun v => and_comm

/-- Two joins in a row arrive at the least upper bound of three shapes, and
succeed if there is one. -/
theorem joinShapes_twice :
    (joinShapes a b >>= fun ab => joinShapes ab c) = .ok u
      ↔ Lowest (fun v => (Stretches a v ∧ Stretches b v) ∧ Stretches c v)
          u := by
  constructor
  · intro h
    obtain ⟨ab, hab, h⟩ := exists_of_bind h
    have hlow := joinShapes_eq_ok_iff.1 hab
    exact (lowest_congr fun v => and_congr_left' hlow.stretches_iff).1
      (joinShapes_eq_ok_iff.1 h)
  · intro h
    obtain ⟨ab, hab, hlow⟩ := exists_joinShapes h.1.1.1 h.1.1.2
    rw [hab, ok_bind, joinShapes_eq_ok_iff]
    exact (lowest_congr fun v => and_congr_left' hlow.stretches_iff).2 h

/-- The common shape of three does not depend on how they are grouped: it is
the lowest that all three stretch to. -/
theorem joinShapes_assoc :
    (joinShapes a b >>= fun ab => joinShapes ab c) = .ok u
      ↔ (joinShapes b c >>= fun bc => joinShapes a bc) = .ok u := by
  have hright : (joinShapes b c >>= fun bc => joinShapes a bc) = .ok u
      ↔ (joinShapes b c >>= fun bc => joinShapes bc a) = .ok u := by
    cases joinShapes b c with
    | error e => exact Iff.rfl
    | ok bc => exact joinShapes_comm
  rw [hright, joinShapes_twice, joinShapes_twice]
  refine lowest_congr fun v => ?_
  rw [and_assoc, and_comm]

-- ============================================================== expansion

/-- Every buffer that is as long as its shape says is expanded to the other
shape. -/
def Expands (α : Type) (s t : Shape) : Prop :=
  ∀ data : Array α, data.size = s.size →
    ∃ wide, expand data s t = .ok wide

/-- The kernel expands a shape exactly to those that it stretches to. -/
theorem expands_iff [Zero α] : Expands α s t ↔ s.Stretches t := by
  constructor
  · intro h
    exact expand_ok_iff.1 (h _ (Tensor.zeros s).size_eq)
  · intro h data hsize
    exact (expand_ok_iff (t := .rowMajor s data hsize)).2 h

/-- The shape that two shapes share is a partial join. It does not depend on
the order of the two, a shape shares itself with itself, and of three shapes
any two may be joined first: one way succeeds exactly if the other does, with
the same shape. It exists exactly if both shapes expand to some shape, both
expand to it, and it expands to whatever both expand to. Extents may be zero
throughout. Shapes of different ranks are refused as such. -/
theorem joinShapes_is_join [Zero α] (a b c : Shape) :
    (∀ s, joinShapes a b = .ok s ↔ joinShapes b a = .ok s)
      ∧ joinShapes a a = .ok a
      ∧ (∀ s, (joinShapes a b >>= fun ab => joinShapes ab c) = .ok s
          ↔ (joinShapes b c >>= fun bc => joinShapes a bc) = .ok s)
      ∧ ((∃ s, joinShapes a b = .ok s)
          ↔ ∃ u, Expands α a u ∧ Expands α b u)
      ∧ (∀ s, joinShapes a b = .ok s →
          Expands α a s ∧ Expands α b s
            ∧ ∀ u, Expands α a u → Expands α b u → Expands α s u)
      ∧ (a.length ≠ b.length →
          joinShapes a b = .error (.rankMismatch a.length b.length)) := by
  simp only [expands_iff]
  refine ⟨fun s => joinShapes_comm, ?_, fun s => joinShapes_assoc, ?_,
    fun s hs => ?_, fun hrank => if_pos hrank⟩
  · have hself := Stretches.refl a
    exact joinShapes_eq_ok_iff.2 ⟨⟨hself, hself⟩, fun v hv => hv.1⟩
  · constructor
    · rintro ⟨s, hs⟩
      exact ⟨s, (joinShapes_eq_ok_iff.1 hs).1⟩
    · rintro ⟨u, ha, hb⟩
      obtain ⟨s, hs, -⟩ := exists_joinShapes ha hb
      exact ⟨s, hs⟩
  · have hlow := joinShapes_eq_ok_iff.1 hs
    exact ⟨hlow.1.1, hlow.1.2, fun u ha hb => hlow.2 u ⟨ha, hb⟩⟩

/-- An empty axis is not the larger one but the only one beside one, and a
shape with an axis more is refused. -/
theorem joinShapes_is_join_empty_axis :
    joinShapes [2, 1, 0] [1, 4, 1] = .ok [2, 4, 0]
      ∧ Expands Float [2, 1, 0] [2, 4, 0]
      ∧ Expands Float [1, 4, 1] [2, 4, 0]
      ∧ (joinShapes [1, 4, 1] [1, 1, 0] >>= fun bc =>
          joinShapes [2, 1, 0] bc) = .ok [2, 4, 0]
      ∧ joinShapes [2, 1, 0] [1, 4] = .error (.rankMismatch 3 2) := by
  obtain ⟨-, -, hassoc, -, hexpands, -⟩ :=
    joinShapes_is_join (α := Float) [2, 1, 0] [1, 4, 1] [1, 1, 0]
  obtain ⟨-, -, -, -, -, hrank⟩ :=
    joinShapes_is_join (α := Float) [2, 1, 0] [1, 4] []
  obtain ⟨hleft, hright, -⟩ := hexpands [2, 4, 0] rfl
  exact ⟨rfl, hleft, hright, (hassoc [2, 4, 0]).1 rfl, hrank (by decide)⟩

end Flat
end MixtureAttention
