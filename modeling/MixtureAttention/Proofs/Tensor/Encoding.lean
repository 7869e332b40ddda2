/-
Multi-indices and flat positions. The dot product with the row-major strides
takes the multi-indices of a shape one to one onto the positions of its
elements (`Shape.bijOn_dot`), and dividing the strides out again, from the
first axis to the last, is the inverse. Extents may be zero: such a shape has
neither multi-indices nor positions. On a machine all of it is counted in
words, which the positions of an addressable shape are.

The strides are written three times, as what they are, as one pass from the
last axis, and as a loop that fills a list in place, and the coordinates
twice, as a list and as they are peeled off by a loop that can divide by
zero. All of them agree, which is what reading an element by its multi-index
and reading it through stretched strides have in common.
-/
import Mathlib.Data.Set.Function
import MixtureAttention.Proofs.Machine.Mirrors

namespace MixtureAttention

open Machine

variable {α : Type}

namespace Shape

variable {s : Shape} {cs : List Nat} {i : Nat}

-- ==================================================== one to one and onto

/-- The coordinates of a position are the one multi-index that lies there. -/
theorem coordinates_eq_iff (hi : i < s.size) (hc : s.Contains cs) :
    coordinates s.strides i = cs ↔ dot cs s.strides = i := by
  constructor
  · rintro rfl
    exact dot_coordinates hi
  · rintro rfl
    exact hc.coordinates_dot

theorem bijOn_dot (s : Shape) :
    Set.BijOn (fun cs => dot cs s.strides) {cs | s.Contains cs}
      {i | i < s.size} := by
  refine ⟨fun cs hc => Contains.dot_lt hc, fun cs hc cs' hc' hsame => ?_,
    fun i hi => ?_⟩
  · have hc : s.Contains cs := hc
    have hc' : s.Contains cs' := hc'
    calc cs = coordinates s.strides (dot cs s.strides) :=
          hc.coordinates_dot.symm
      _ = coordinates s.strides (dot cs' s.strides) :=
          congrArg (coordinates s.strides) hsame
      _ = cs' := hc'.coordinates_dot
  · exact ⟨_, contains_coordinates hi, dot_coordinates hi⟩

end Shape

namespace Tensor

variable {t : Tensor α} {cs : List Nat}

/-- A coordinate out of its range is reported with the whole multi-index. -/
theorem get_of_not_inRange (h : t.shape.inRange cs = false) :
    t.get cs = .error (.indexOutOfBounds cs t.shape) := by
  rw [get, h]
  rfl

theorem get_eq_indexOutOfBounds_iff (hlen : cs.length = t.rank) :
    t.get cs = .error (.indexOutOfBounds cs t.shape)
      ↔ ∃ axis j d : Nat, cs[axis]? = some j ∧ t.shape[axis]? = some d
          ∧ d ≤ j := by
  cases hrange : t.shape.inRange cs with
  | false =>
      exact iff_of_true (get_of_not_inRange hrange)
        (Shape.inRange_eq_false_iff.1 hrange)
  | true =>
      obtain ⟨x, hx⟩ := exists_get (Shape.contains_of_inRange hlen hrange)
      refine iff_of_false (fun hget => ?_) fun hout => ?_
      · rw [hx] at hget
        cases hget
      · rw [Shape.inRange_eq_false_iff.2 hout] at hrange
        cases hrange

/-- No element is looked for past the end. -/
theorem get_ne_overrun (hlen : cs.length = t.rank) :
    t.get cs ≠ .error .overrun := by
  cases hrange : t.shape.inRange cs with
  | false =>
      rw [get_of_not_inRange hrange]
      nofun
  | true =>
      obtain ⟨x, hx⟩ := exists_get (Shape.contains_of_inRange hlen hrange)
      rw [hx]
      nofun

/-- Row-major encoding and decoding are inverse to each other, for a shape of
any rank and any extents that the machine can address. The strides that a
tensor keeps are filled in place from the last axis, by the loop of the
tensors and by that of the flat operations. The position at which an element
is read is below the number of elements, and every such position is that of
one multi-index. Carried over to the strides it came from, a position comes
back to itself; the loop that divides the strides out of it peels off its
multi-index, whatever strides it is carried to. An element is refused exactly
if one of its coordinates is out of range, and none is looked for past the
end. All of it is counted in words. -/
theorem get_encodes (t : Tensor α) (h : t.shape.Addressable) :
    ((Stored.filledStrides t.shape : Run TensorError (List Nat))
          = .ok t.strides
        ∧ (Flat.Loop.strides t.shape : Run Flat.Error (List Nat))
          = .ok t.strides
        ∧ Shape.sweepStrides t.shape = t.strides)
      ∧ Set.BijOn (fun cs => Shape.dot cs t.strides) {cs | t.shape.Contains cs}
          {i | i < t.data.size}
      ∧ (∀ i < t.data.size,
          (Flat.Loop.locate t.strides t.strides i 0 : Run Flat.Error Nat)
              = .ok i
            ∧ (∀ source, Shape.project t.strides source i < words →
              (Flat.Loop.locate t.strides source i 0 : Run Flat.Error Nat)
                = .ok (Shape.dot (Shape.coordinates t.strides i) source))
            ∧ t.shape.Contains (Shape.coordinates t.strides i)
            ∧ ∀ cs, t.shape.Contains cs →
                (Shape.coordinates t.strides i = cs
                  ↔ Shape.dot cs t.strides = i))
      ∧ ∀ cs, cs.length = t.rank →
          (Stored.of t).get cs = answer (t.get cs)
            ∧ (t.get cs = .error (.indexOutOfBounds cs t.shape)
              ↔ ∃ axis j d : Nat, cs[axis]? = some j
                  ∧ t.shape[axis]? = some d ∧ d ≤ j)
            ∧ (t.shape.Contains cs → ∃ x, t.get cs = .ok x
                ∧ (Stored.position cs t.strides : Run TensorError Nat)
                  = .ok (Shape.dot cs t.strides)
                ∧ t.data[Shape.dot cs t.strides]? = some x)
            ∧ t.get cs ≠ .error .overrun := by
  have hwords := Nat.lt_trans h.size_lt capacity_lt_words
  rw [t.strides_eq, t.size_eq]
  refine ⟨⟨Stored.filledStrides_ok h.span_lt_words,
      Flat.Loop.strides_ok h.span_lt_words, Shape.sweepStrides_eq t.shape⟩,
    Shape.bijOn_dot t.shape, fun i hi => ?_, fun cs hlen => ?_⟩
  · have hself : Shape.project t.shape.strides t.shape.strides i = i :=
      Shape.dot_coordinates hi
    refine ⟨?_, fun source hword => ?_, Shape.contains_coordinates hi,
      fun cs hc => Shape.coordinates_eq_iff hi hc⟩
    · rw [Flat.Loop.locate_eq hi (by omega), Nat.zero_add, hself]
    · rw [Flat.Loop.locate_eq hi (by rwa [Nat.zero_add]), Nat.zero_add,
        Shape.project]
  · refine ⟨Stored.get_of h hlen, get_eq_indexOutOfBounds_iff hlen,
      fun hc => ?_, get_ne_overrun hlen⟩
    obtain ⟨x, hx⟩ := exists_get hc
    exact ⟨x, hx, Stored.position_ok (Nat.lt_trans hc.dot_lt hwords),
      (get_eq_ok hc).1 hx⟩

/-- Two blocks of three rows of two: the first element of the last row lies
at position ten, where its coordinates are found again, and there is no third
block. -/
theorem get_encodes_two_blocks :
    let t : Tensor Nat :=
      .rowMajor [2, 3, 2] #[0, 1, 2, 3, 4, 5, 6, 7, 8, 9, 10, 11] rfl
    t.shape.Addressable
      ∧ (Stored.of t).get [1, 2, 0] = .ok 10
      ∧ Shape.coordinates t.strides 10 = [1, 2, 0]
      ∧ (Flat.Loop.locate t.strides t.strides 10 0 : Run Flat.Error Nat)
        = .ok 10
      ∧ (Stored.of t).get [2, 0, 0]
        = .error (.refused (.indexOutOfBounds [2, 0, 0] [2, 3, 2])) := by
  intro t
  have haddress : t.shape.Addressable :=
    (by decide : Shape.Addressable [2, 3, 2])
  obtain ⟨-, -, hposition, hget⟩ := get_encodes t haddress
  have hcontains : t.shape.Contains [1, 2, 0] :=
    ⟨by decide, by decide, by decide, trivial⟩
  obtain ⟨hlocate, -, -, hcoordinates⟩ := hposition 10 (by decide)
  obtain ⟨hstored, -, hread, -⟩ := hget [1, 2, 0] rfl
  obtain ⟨x, hx, -, hdata⟩ := hread hcontains
  obtain rfl : 10 = x := Option.some.inj hdata
  obtain ⟨hrefused, hout, -⟩ := hget [2, 0, 0] rfl
  have hno := hout.2 ⟨0, 2, 2, rfl, rfl, Nat.le_refl 2⟩
  refine ⟨haddress, ?_, (hcoordinates _ hcontains).2 rfl, hlocate, ?_⟩
  · rw [hstored, hx]
    rfl
  · rw [hrefused, hno]
    rfl

end Tensor
end MixtureAttention
