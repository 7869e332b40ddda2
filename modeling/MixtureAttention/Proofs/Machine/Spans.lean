/-
Shapes that the machine can count through. The span of a shape bounds every
product of some of its extents (`span_le_of_sublist`, `size_le_span`), so in
an addressable shape sizes, strides and positions are words. Operations that
make shapes smaller keep them addressable: summing along an axis, shortening
the last axis, swapping axes. The shape that two shapes share, and a shape
that is stretched to, can be too large; where one of these is addressable,
the shapes that it was made from are.
-/
import MixtureAttention.Machine
import MixtureAttention.Proofs.Tensor.Acceptance

namespace MixtureAttention

/-- What can be allocated can be counted. -/
theorem Machine.capacity_lt_words : Machine.capacity < Machine.words := by
  decide

namespace Shape

variable {s t lead : Shape} {m n w len axis : Nat}

-- ================================================================== spans

@[simp] theorem span_nil : span [] = 1 := rfl

@[simp] theorem span_cons (d : Nat) (ds : Shape) :
    span (d :: ds) = max d 1 * span ds := rfl

/-- The span of axes together is the product of the spans. -/
@[simp] theorem span_append : ∀ s t : Shape,
    span (s ++ t) = span s * span t
  | [], _ => by simp
  | d :: ds, t => by simp [span_append ds t, Nat.mul_assoc]

/-- An empty axis does not make the span 0. -/
theorem one_le_span : ∀ s : Shape, 1 ≤ span s
  | [] => Nat.le_refl 1
  | d :: ds => Nat.mul_le_mul (Nat.le_max_right d 1) (one_le_span ds)

/-- Without some of its axes a shape spans no more. -/
theorem span_le_of_sublist : s.Sublist t → span s ≤ span t := by
  intro h
  induction h with
  | slnil => exact Nat.le_refl 1
  | cons d _ ih =>
      exact Nat.le_trans ih
        (Nat.le_mul_of_pos_left _ (Nat.le_max_right d 1))
  | cons_cons d _ ih => exact Nat.mul_le_mul_left _ ih

/-- So the span bounds the number of elements. -/
theorem size_le_span : ∀ s : Shape, size s ≤ span s
  | [] => Nat.le_refl 1
  | d :: ds => Nat.mul_le_mul (Nat.le_max_left d 1) (size_le_span ds)

/-- Summing an axis away makes no shape longer. -/
theorem span_set_one_le : ∀ (s : Shape) (axis : Nat),
    span (s.set axis 1) ≤ span s
  | [], _ => Nat.le_refl 1
  | d :: ds, 0 => by
      simpa using Nat.le_mul_of_pos_left (span ds) (Nat.le_max_right d 1)
  | d :: ds, axis + 1 => Nat.mul_le_mul_left _ (span_set_one_le ds axis)

/-- A shape that is stretched to another one spans no more. -/
theorem Stretches.span_le (h : s.Stretches t) : span s ≤ span t := by
  induction h with
  | nil => exact Nat.le_refl 1
  | cons hd _ ih =>
      refine Nat.mul_le_mul ?_ ih
      rcases hd with rfl | rfl <;> omega

-- ===================================================== addressable shapes

/-- The elements of an addressable shape can be allocated. -/
theorem Addressable.size_lt (h : s.Addressable) : s.size < Machine.capacity :=
  Nat.lt_of_le_of_lt (size_le_span s) h

/-- A shape of smaller span is addressable too. -/
theorem Addressable.of_span_le (h : t.Addressable) (hle : span s ≤ span t) :
    s.Addressable :=
  Nat.lt_of_le_of_lt hle h

/-- Every product of its extents stays within a word. -/
theorem Addressable.span_lt_words (h : s.Addressable) :
    s.span < Machine.words :=
  Nat.lt_trans h Machine.capacity_lt_words

/-- Some axes of an addressable shape are addressable. -/
theorem Addressable.of_sublist (h : t.Addressable) (hsub : s.Sublist t) :
    s.Addressable :=
  h.of_span_le (span_le_of_sublist hsub)

/-- The sum along an axis is no larger. -/
theorem Addressable.set_one (h : s.Addressable) (axis : Nat) :
    Addressable (s.set axis 1) :=
  h.of_span_le (span_set_one_le s axis)

/-- The sums of an addressable shape over any axes are addressable. -/
theorem Addressable.summed : ∀ (axes : List Nat) {s : Shape},
    s.Addressable → (s.summed axes).Addressable
  | [], s, h => by rwa [summed_nil]
  | axis :: axes, s, h => by
      rw [← summed_set]
      exact Addressable.summed axes (h.set_one axis)

/-- A shape that stretches to an addressable one is addressable. -/
theorem Addressable.of_stretches (h : t.Addressable) (hs : s.Stretches t) :
    s.Addressable :=
  h.of_span_le hs.span_le

/-- The shape that two shapes share is as large as either. -/
theorem Addressable.of_joined (h : (s.joined t).Addressable)
    (hjoin : s.Joinable t) : s.Addressable ∧ t.Addressable :=
  ⟨h.of_stretches hjoin.stretches.1, h.of_stretches hjoin.stretches.2⟩

/-- The last two axes swapped. -/
theorem addressable_swap :
    Addressable (lead ++ [m, n]) ↔ Addressable (lead ++ [n, m]) := by
  unfold Addressable
  simp [Nat.mul_comm (max m 1)]

/-- The leading axes and the rows as one axis. -/
theorem Addressable.flattened (h : (lead ++ [m, n]).Addressable) :
    Addressable [lead.size * m, n] := by
  refine h.of_span_le ?_
  rw [span_append, span_cons, span_cons m, ← Nat.mul_assoc]
  refine Nat.mul_le_mul_right _ (Nat.max_le.2 ⟨?_, ?_⟩)
  · exact Nat.mul_le_mul (size_le_span lead) (Nat.le_max_left m 1)
  · exact Nat.mul_le_mul (one_le_span lead) (Nat.le_max_right m 1)

/-- Fewer columns. -/
theorem Addressable.withWidth (h : (lead ++ [w]).Addressable)
    (hlen : len ≤ w) : Addressable (lead ++ [len]) := by
  refine h.of_span_le ?_
  rw [span_append, span_append]
  refine Nat.mul_le_mul_left _ ?_
  simp only [span_cons, span_nil, Nat.mul_one]
  omega

end Shape
end MixtureAttention
