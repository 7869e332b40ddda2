/-
Stored tensors mirror tensors. An operation on stored tensors, step by step
on a machine that can address the shapes, ends as the operation on tensors
does: with the result as it is stored, or with the same refusal
(`Mirrors`). So the strides of a result are those of its shape, its elements
are as many as its shape says, and no step was one that cannot be taken, with
the exception of a write past the end.

Each operation is one lemma, and a computation mirrors another one step by
step (`Mirrors.bind`).
-/
import MixtureAttention.Proofs.Flat.Ranges
import MixtureAttention.Proofs.Machine.Stored
import MixtureAttention.Proofs.Tensor.Lenses

namespace MixtureAttention

open Machine Tensor

variable {ε α β : Type}

namespace Stored

-- ============================================================== mirroring

/-- What is computed on stored tensors ends like what is computed on
tensors. -/
inductive Mirrors :
    Run TensorError (Stored α) → Except TensorError (Tensor α) → Prop
  | ok (t : Tensor α) : Mirrors (.ok (of t)) (.ok t)
  | refused {e : TensorError} (he : e.IsRefusal) :
      Mirrors (.error (.refused e)) (.error e)
  /-- A write past the end of a buffer. -/
  | past (v : Violation) : Mirrors (.error (.violated v)) (.error .overrun)

namespace Mirrors

variable {run : Run TensorError (Stored α)}
  {result : Except TensorError (Tensor α)}

/-- Mirrored steps in sequence mirror the sequence. -/
theorem bind {f : Stored α → Run TensorError (Stored β)}
    {g : Tensor α → Except TensorError (Tensor β)} (h : Mirrors run result)
    (hf : ∀ t, result = .ok t → Mirrors (f (of t)) (g t)) :
    Mirrors (run >>= f) (result >>= g) := by
  cases h with
  | ok t => exact hf t rfl
  | refused he => exact .refused he
  | past v => exact .past v

/-- The tensor that comes out, as it is stored. -/
theorem of_ok (h : Mirrors run result) {t : Tensor α}
    (ht : result = .ok t) : run = .ok (.of t) := by
  subst ht
  cases h
  rfl

/-- What is refused is refused alike. -/
theorem of_refusal (h : Mirrors run result) {e : TensorError}
    (he : result = .error e) (hrefusal : e.IsRefusal) :
    run = .error (.refused e) := by
  subst he
  cases h with
  | refused => rfl
  | past => exact hrefusal.elim

/-- The loops of a flat operation, and what is done with the elements. -/
theorem flat {Q : β → Prop} {loops : Run Flat.Error β}
    {r : Except Flat.Error β} {f : β → Run TensorError (Stored α)}
    {g : β → Except TensorError (Tensor α)}
    (h : Flat.Loop.Answers Q loops r)
    (hf : ∀ x, r = .ok x → Q x → Mirrors (f x) (g x)) :
    Mirrors ((liftM loops : Run TensorError β) >>= f)
      ((liftM r : Except TensorError β) >>= g) := by
  rcases h with ⟨x, rfl, rfl, hx⟩ | ⟨e, he, rfl, rfl⟩
  · exact hf x rfl hx
  · refine .refused (e := .ofFlat e) ?_
    cases e <;> first | exact absurd rfl he | exact trivial

end Mirrors

-- =============================================================== creation

variable {s : Shape}

/-- Filled from the last axis, the strides so far are those of the axes seen.
-/
theorem fillStrides_ok (hs : s.span < words) : ∀ axis, axis ≤ s.length →
    (fillStrides s axis
        (List.replicate axis 0 ++ Shape.strides (s.drop axis))
        (Shape.size (s.drop axis)) : Run ε (List Nat)) = .ok s.strides
  | 0, _ => by simp [fillStrides]
  | axis + 1, h => by
      rw [fillStrides, Flat.Loop.assign_stride h, ok_bind,
        item_ok (List.getElem?_eq_getElem h), ok_bind,
        Flat.Loop.times_extent hs h]
      exact fillStrides_ok hs axis (Nat.le_of_succ_le h)

/-- So the loop finds the strides without a wrap if the span stays within a
word. -/
theorem filledStrides_ok (hs : s.span < words) :
    (filledStrides s : Run ε (List Nat)) = .ok s.strides := by
  have hlast := fillStrides_ok (ε := ε) hs s.length (Nat.le_refl _)
  rw [List.drop_length] at hlast
  simpa [filledStrides, Shape.strides] using hlast

/-- The strides that are filled in are those of a tensor. -/
theorem beside_ok {t : Tensor α} (h : t.shape.Addressable) :
    (beside t.shape t.data : Run ε (Stored α)) = .ok (of t) := by
  rw [beside, filledStrides_ok h.span_lt_words, of, t.strides_eq]
  rfl

/-- The constructor checks the length and stores the strides of the shape. -/
theorem mirrors_ofArray {data : Array α} (h : s.Addressable) :
    Mirrors (ofArray data s) (Tensor.ofArray data s) := by
  rw [ofArray, product_ok h.span_lt_words, ok_bind, Tensor.ofArray]
  by_cases hsize : data.size = s.size
  · rw [if_neg (not_not_intro hsize), dif_pos hsize]
    have hmade := beside_ok (ε := TensorError) (t := rowMajor s data hsize) h
    exact hmade ▸ .ok _
  · rw [if_pos hsize, dif_neg hsize]
    exact .refused trivial

/-- A tensor of one value is allocated and stored with its strides. -/
theorem full_ok (h : s.Addressable) (x : α) :
    full s x = .ok (of (Tensor.full s x)) := by
  rw [full, product_ok h.span_lt_words, ok_bind, reserve_ok h.size_lt,
    ok_bind]
  exact beside_ok (t := Tensor.full s x) h

/-- A grid of row numbers is allocated and stored with its strides. -/
theorem rowGrid_ok {len width : Nat}
    (h : Shape.Addressable [1, 1, len, width]) (row : Nat → α) :
    rowGrid len width row = .ok (of (Tensor.rowGrid len width row)) := by
  have hsize : len * width < capacity := by simpa using h.size_lt
  have hwords := capacity_lt_words
  rw [rowGrid, times_ok (by omega), ok_bind, reserve_ok hsize, ok_bind]
  have hrows : ((List.range len).map fun h =>
        List.replicate width (row h)).flatten.toArray
      = (Tensor.rowGrid len width row).data := by
    have hconst : (fun h => List.replicate width (row h))
        = fun h => (List.range width).map fun _ => row h := by
      funext h
      rw [List.map_const', List.length_range]
    rw [hconst, flatten_range fun h _ => row h]
    refine Array.ext (by simp [Tensor.rowGrid]) fun i _ _ => ?_
    simp [Tensor.rowGrid]
  dsimp only
  rw [hrows]
  exact beside_ok (t := Tensor.rowGrid len width row) h

/-- The size counted in a word is the length of the data. -/
theorem size_of {t : Tensor α} (h : t.shape.Addressable) :
    ((of t).size : Run ε Nat) = .ok t.data.size := by
  rw [t.size_eq]
  exact product_ok h.span_lt_words

/-- A reshape recomputes the strides. -/
theorem mirrors_reshape {t : Tensor α} (ht : t.shape.Addressable)
    (hs : s.Addressable) : Mirrors ((of t).reshape s) (t.reshape s) := by
  rw [reshape, size_of ht, ok_bind, product_ok hs.span_lt_words, ok_bind,
    t.size_eq, Tensor.reshape]
  by_cases hsize : t.shape.size = s.size
  · rw [if_neg (not_not_intro hsize), dif_pos hsize]
    have hmade := beside_ok (ε := TensorError)
      (t := rowMajor s t.data (t.size_eq.trans hsize)) hs
    exact hmade ▸ .ok _
  · rw [if_pos hsize, dif_neg hsize]
    exact .refused trivial

-- ================================================================ reading

/-- The position that is found bounds every sum on the way. -/
theorem foldlM_position : ∀ {index strides : List Nat} {sum : Nat},
    sum + Shape.dot index strides < words →
      ((index.zip strides).foldlM
          (fun sum (i, s) => do plus sum (← times i s)) sum : Run ε Nat)
        = .ok (sum + Shape.dot index strides)
  | [], strides, _, _ => by cases strides <;> rfl
  | _ :: _, [], _, _ => rfl
  | i :: is, s :: ss, sum, h => by
      have hdot : Shape.dot (i :: is) (s :: ss) = i * s + Shape.dot is ss :=
        rfl
      rw [hdot] at h ⊢
      rw [List.zip_cons_cons, List.foldlM_cons]
      dsimp only
      rw [times_ok (by omega), ok_bind, plus_ok (by omega), ok_bind,
        foldlM_position (by omega), Nat.add_assoc]

/-- The dot product of index and strides stays within a word if its value does.
-/
theorem position_ok {index strides : List Nat}
    (h : Shape.dot index strides < words) :
    (position index strides : Run ε Nat)
      = .ok (Shape.dot index strides) := by
  rw [position, foldlM_position (by rwa [Nat.zero_add]), Nat.zero_add]

/-- An element is found where the tensor has it, and refused where the tensor
refuses it. -/
theorem get_of {t : Tensor α} {index : List Nat}
    (h : t.shape.Addressable) (hlen : index.length = t.rank) :
    (of t).get index = answer (t.get index) := by
  show (if Shape.inRange t.shape index then _ else _) = _
  cases hrange : Shape.inRange t.shape index with
  | false =>
      rw [Tensor.get, hrange]
      rfl
  | true =>
      have hc := Shape.contains_of_inRange hlen hrange
      obtain ⟨x, hx⟩ := exists_get hc
      have hget := (get_eq_ok hc).1 hx
      have hlt : Shape.dot index t.strides < words := by
        rw [t.strides_eq]
        exact Nat.lt_trans (Nat.lt_trans hc.dot_lt h.size_lt)
          capacity_lt_words
      rw [hx, if_pos rfl]
      show (do item t.data.toList (← position index t.strides)) = _
      rw [position_ok hlt, ok_bind, t.strides_eq]
      exact item_ok (by simpa using hget)

/-- A write keeps shape and strides. -/
theorem mirrors_write (t : Tensor α) (i : Nat) (x : α) :
    Mirrors ((of t).write i x) (t.write i x) := by
  show Mirrors (do
    let data ← assign t.data.toList i x
    return { of t with data := data.toArray }) _
  rw [assign, Tensor.write]
  by_cases hi : i < t.data.size
  · rw [if_pos (by simpa using hi), if_pos hi, ok_bind]
    have hdata : (t.data.toList.set i x).toArray
        = t.data.setIfInBounds i x := Array.ext' (by simp)
    rw [hdata]
    exact .ok { t with
      data := t.data.setIfInBounds i x
      size_eq := by simpa using t.size_eq }
  · rw [if_neg (by simpa using hi), if_neg hi]
    exact .past _

end Stored
end MixtureAttention
