/-
What a sum over axes is. A sum along all of them at once is decided by the
set of the axes (`sumAxes_congr`), and a list with an axis that does not exist
is refused at the first one (`sumAxes_refused`). The machine goes from axis to
axis with elements and a shape, and ends in the same tensor or the same words,
as long as it can address the shape that is summed.
-/
import MixtureAttention.Proofs.Machine.Operations

namespace MixtureAttention

open Shape Finset

variable {α : Type} [AddCommMonoid α]

namespace Tensor

variable {t : Tensor α} {axes : List Nat}

/-- Two lists of the same axes give the same sums. -/
theorem sumAxes_congr {axes' : List Nat} (haxes : ∀ a ∈ axes, a < t.rank)
    (hsame : ∀ a, a ∈ axes' ↔ a ∈ axes) :
    t.sumAxes axes' = t.sumAxes axes := by
  obtain ⟨f, ht⟩ := exists_holds t
  obtain ⟨out, hout, hsums⟩ := ht.sumAxes axes haxes
  obtain ⟨out', hout', hsums'⟩ :=
    ht.sumAxes axes' fun a ha => haxes a ((hsame a).1 ha)
  have hshape : t.shape.summed axes' = t.shape.summed axes := by
    simp only [summed, hsame]
  have hagree : ∀ p q, AgreeOff axes' p q ↔ AgreeOff axes p q := by
    simp only [AgreeOff, hsame, implies_true]
  rw [hout, hout', hsums'.unique (hshape ▸ hsums) fun p _ => ?_]
  simp only [hagree]

/-- The first axis that is not below the rank is reported; the axes before it
leave the rank alone. -/
theorem sumAxes_refused {a : Nat} : ∀ {axes : List Nat} {t : Tensor α},
    axes.find? (t.rank ≤ ·) = some a →
      t.sumAxes axes = .error (.invalidAxis a t.rank)
  | b :: axes, t, h => by
      rw [sumAxes_cons]
      by_cases hb : t.rank ≤ b
      · rw [List.find?_cons_of_pos (by simpa using hb)] at h
        cases h
        rw [sumAxis, Flat.sumAxis, List.getElem?_eq_none hb]
        rfl
      · rw [List.find?_cons_of_neg (by simpa using hb)] at h
        obtain ⟨f, ht⟩ := exists_holds t
        obtain ⟨mid, hmid, hholds⟩ :=
          ht.sumAxis (List.getElem?_eq_getElem (Nat.lt_of_not_le hb))
        have hrank : mid.rank = t.rank := by
          rw [rank, hholds.shape, List.length_set, rank]
        rw [hmid, ← hrank]
        exact sumAxes_refused (hrank ▸ h)

/-- A sum over axes that all exist has extent one along each of them and the
extents of the tensor along the others, and each of its elements is the sum
of the elements of the tensor that agree with it beyond the axes, zero if one
of the axes is empty. The order of the axes and repetitions among them do
not matter. Otherwise the first axis that does not exist is reported. On a
machine that can address the shape, both are what the loops come to. -/
theorem sumAxes_sums_fibres (t : Tensor α) (h : t.shape.Addressable)
    (axes : List Nat) :
    ((∀ a ∈ axes, a < t.rank) →
      ∃ out f, t.sumAxes axes = .ok out
        ∧ (Stored.of t).sumAxes axes = .ok (.of out)
        ∧ t.Holds t.shape f
        ∧ (out.Holds
            (t.shape.mapIdx fun a extent => if a ∈ axes then 1 else extent)
            fun p => ∑ q ∈ t.shape.indices with AgreeOff axes p q, f q)
        ∧ ((∃ a ∈ axes, t.shape[a]? = some 0) →
            ∀ p, out.shape.Contains p → out.get p = .ok 0)
        ∧ ∀ axes', (∀ a, a ∈ axes' ↔ a ∈ axes) →
            t.sumAxes axes' = .ok out
              ∧ (Stored.of t).sumAxes axes' = .ok (.of out))
      ∧ ((∃ a ∈ axes, t.rank ≤ a) →
        ∃ a, axes.find? (t.rank ≤ ·) = some a
          ∧ t.sumAxes axes = .error (.invalidAxis a t.rank)
          ∧ (Stored.of t).sumAxes axes
            = .error (.refused (.invalidAxis a t.rank))) := by
  have hmirrors := fun axes => Stored.mirrors_sumAxes axes h
  constructor
  · intro haxes
    obtain ⟨f, ht⟩ := exists_holds t
    obtain ⟨out, hout, hsums⟩ := ht.sumAxes axes haxes
    refine ⟨out, f, hout, (hmirrors axes).of_ok hout, ht, hsums, ?_,
      fun axes' hsame => ?_⟩
    · rintro ⟨a, -, hzero⟩ p hp
      rw [hsums.get p (hsums.shape ▸ hp), indices_of_empty hzero,
        filter_empty, sum_empty]
    · have hout' := (sumAxes_congr haxes hsame).trans hout
      exact ⟨hout', (hmirrors axes').of_ok hout'⟩
  · rintro ⟨b, hb, hrank⟩
    have hsome : (axes.find? (t.rank ≤ ·)).isSome :=
      List.find?_isSome.2 ⟨b, hb, decide_eq_true hrank⟩
    obtain ⟨a, ha⟩ := Option.isSome_iff_exists.1 hsome
    have herror := sumAxes_refused ha
    exact ⟨a, ha, herror, (hmirrors axes).of_refusal herror trivial⟩

/-- The square of two rows, `1 2` and `3 4`: the rows summed, the axis named
twice or once, and an axis that it does not have. -/
theorem sumAxes_sums_fibres_square :
    let square : Tensor Nat := .rowMajor [2, 2] #[1, 2, 3, 4] rfl
    square.shape.Addressable
      ∧ (∃ out, square.sumAxes [1, 1] = .ok out
        ∧ square.sumAxes [1] = .ok out
        ∧ (Stored.of square).sumAxes [1] = .ok (.of out)
        ∧ out.shape = [2, 1] ∧ out.get [1, 0] = .ok 7)
      ∧ square.sumAxes [0, 2, 3] = .error (.invalidAxis 2 2) := by
  intro square
  have haddress : square.shape.Addressable :=
    (by decide : Shape.Addressable [2, 2])
  refine ⟨haddress, ?_, ?_⟩
  · obtain ⟨out, f, hout, -, hf, hsums, -, hsame⟩ :=
      (sumAxes_sums_fibres square haddress [1, 1]).1 (by decide)
    obtain ⟨honce, hstored⟩ := hsame [1] (by simp)
    refine ⟨out, hout, honce, hstored, hsums.shape, ?_⟩
    have hrow : {q ∈ square.shape.indices | AgreeOff [1, 1] [1, 0] q}
        = {[1, 0], [1, 1]} := by decide
    have hfirst : f [1, 0] = 3 :=
      Except.ok.inj (hf.get [1, 0] ⟨by decide, by decide, trivial⟩).symm
    have hsecond : f [1, 1] = 4 :=
      Except.ok.inj (hf.get [1, 1] ⟨by decide, by decide, trivial⟩).symm
    rw [hsums.get [1, 0] ⟨by decide, by decide, trivial⟩, hrow,
      sum_pair (by decide), hfirst, hsecond]
  · obtain ⟨a, ha, herror, -⟩ :=
      (sumAxes_sums_fibres square haddress [0, 2, 3]).2
        ⟨2, by decide, by decide⟩
    cases ha
    exact herror

end Tensor
end MixtureAttention
