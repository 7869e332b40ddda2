/-
Every operation on stored tensors mirrors the one on tensors. Element by
element operations overwrite a buffer of zeros or the one they have; flat
operations are their loops (`Flat.Loop.Answers`), and what they return is
given its shape only after its elements are counted; operations on rows cut
them as chunks and put them back together.

Of the shapes it is enough that the operands are addressable, and the result
where it can be larger than they are. Whether there is a result, the
condition on its shape says itself.
-/
import MixtureAttention.Proofs.Machine.Mirrors
import MixtureAttention.Proofs.Tensor.Stretching

namespace MixtureAttention.Stored

open Machine Tensor Flat.Loop

variable {ε α β : Type} {s lead lead' : Shape} {m n k k' w : Nat}
  {t u : Tensor α}

/-- Other elements in the place of those of a tensor. -/
theorem of_eq (h : t.shape = u.shape) :
    (⟨t.shape, t.strides, u.data⟩ : Stored α) = of u := by
  rw [of, t.strides_eq, u.strides_eq, h]

-- =============================================================== elements

section Elements

variable [Zero α]

/-- Zeros of some shape, overwritten element by element. -/
theorem zipWith_ok {f : α → α → α} {left right : Array α}
    (h : t.shape.Addressable)
    (hdata : Flat.combinePairwise f left right t.shape.size = t.data) :
    zipWith f t.shape left right = .ok (of t) := by
  rw [zipWith, full_ok h, ok_bind]
  refine congrArg Except.ok ?_
  simp only [of, Tensor.full, data_rowMajor, Array.size_replicate, hdata]
  exact of_eq (t := Tensor.full t.shape 0) rfl

/-- Arrays of one length are combined element by element. -/
theorem combinePairwise_eq {f : α → α → α} {size : Nat}
    {left right : Array α} (hl : left.size = size) (hr : right.size = size) :
    Flat.combinePairwise f left right size = Array.zipWith f left right := by
  refine Array.ext (by simp [Flat.combinePairwise, hl, hr]) fun i h h' => ?_
  simp [Flat.combinePairwise, hl, hr]

/-- A map keeps shape and strides. -/
theorem map_ok (h : t.shape.Addressable) (f : α → α) :
    (of t).map f = .ok (of (t.map f)) := by
  refine zipWith_ok (t := t.map f) h ?_
  show Flat.combinePairwise _ t.data t.data t.shape.size = t.data.map f
  rw [combinePairwise_eq t.size_eq t.size_eq]
  refine Array.ext (by simp) fun i _ _ => ?_
  simp

omit [Zero α] in
/-- A map in place changes the elements where they are stored. -/
theorem update_of (f : α → α) : (of t).update f = of (t.map f) :=
  of_eq (u := t.map f) rfl

/-- A pointwise operation mirrors the closed form if the joined shape is
addressable. -/
theorem mirrors_combine (op : α → α → α)
    (hfits : t.shape.Joinable u.shape →
      (t.shape.joined u.shape).Addressable) :
    Mirrors ((of t).combine op (of u)) (t.combine op u) := by
  refine .flat (combine_answers op t u hfits) fun r hr hlaid => ?_
  obtain ⟨data, shape⟩ := r
  obtain ⟨rfl, -⟩ := hlaid
  refine mirrors_ofArray (hfits ?_)
  by_contra hno
  obtain ⟨e, he, -⟩ := joinShapes_refused hno
  rw [Flat.combine, he] at hr
  cases hr

end Elements

/-- A broadcast does if its target is. -/
theorem mirrors_broadcastTo
    (hfits : t.shape.Stretches s → s.Addressable) :
    Mirrors ((of t).broadcastTo s) (t.broadcastTo s) := by
  exact .flat (expand_answers t s hfits) fun data hdata _ =>
    mirrors_ofArray (hfits (Flat.expand_ok_iff.1 ⟨data, hdata⟩))

-- ================================================================== sums

section Sums

variable [Zero α] [Add α]

/-- The elements and the shape go from axis to axis, where a sum of tensors
makes a tensor each time. -/
theorem mirrors_sumAxes : ∀ (axes : List Nat) {t : Tensor α},
    t.shape.Addressable → Mirrors ((of t).sumAxes axes) (t.sumAxes axes)
  | [], t, h => by
      have hself : Tensor.ofArray t.data t.shape = .ok t := by
        rw [Tensor.ofArray, dif_pos t.size_eq]
        exact congrArg Except.ok (Tensor.ext rfl rfl)
      show Mirrors (ofArray t.data t.shape) (.ok t)
      exact hself ▸ mirrors_ofArray h
  | axis :: axes, t, h => by
      rw [Tensor.sumAxes_cons]
      have hrun : (of t).sumAxes (axis :: axes)
          = ((liftM (Flat.Loop.sumAxis t.data t.shape axis)
              : Run TensorError (Array α)) >>= fun data =>
            sumEach axes (data, t.shape.set axis 1) >>= fun sums =>
              ofArray sums.1 sums.2) := by
        simp only [sumAxes, sumEach, bind_assoc]
        rfl
      have hsum : (t.sumAxis axis >>= fun t => t.sumAxes axes)
          = ((liftM (Flat.sumAxis t.data t.shape axis)
              : Except TensorError (Array α)) >>= fun data =>
            Tensor.ofArray data (t.shape.set axis 1) >>= fun t =>
              t.sumAxes axes) := by
        simp only [Tensor.sumAxis, bind_assoc]
      rw [hrun, hsum]
      refine .flat (sumAxis_answers t h axis) fun data _ hsize => ?_
      rw [Tensor.ofArray, dif_pos hsize, ok_bind]
      exact mirrors_sumAxes axes (t := rowMajor _ data hsize) (h.set_one axis)

end Sums

-- ============================================================== products

section Products

/-- A transposition recomputes the strides for the exchanged axes. -/
theorem mirrors_transpose [Zero α] (ht : t.shape = lead ++ [m, n])
    (h : t.shape.Addressable) : Mirrors (of t).transpose t.transpose := by
  refine .flat (transpose_answers t h) fun data _ _ => mirrors_ofArray ?_
  show t.shape.transposed.Addressable
  rw [ht] at h ⊢
  rw [Shape.transposed_append]
  exact Shape.addressable_swap.1 h

variable [Zero α] [Add α] [Mul α]

/-- Factors whose buffers are multiplied have a product. -/
theorem serves_of_multiply (ht : t.shape = lead ++ [m, k])
    (hu : u.shape = lead' ++ [k', n]) {data : Array α}
    (h : Flat.multiply t.data u.data t.shape u.shape = .ok data) :
    k = k' ∧ lead'.Serves lead := by
  by_contra hno
  obtain ⟨e, he, -⟩ := productPlan_refused (m := m) (n := n) hno
  rw [Flat.multiply, ht, hu, he] at h
  cases h

/-- A product mirrors the closed form if both factors and the result are
addressable. -/
theorem mirrors_matmul (ht : t.shape = lead ++ [m, k])
    (hu : u.shape = lead' ++ [k', n]) (h : t.shape.Addressable)
    (h' : u.shape.Addressable)
    (hfits : k = k' ∧ lead'.Serves lead → (lead ++ [m, n]).Addressable) :
    Mirrors ((of t).matmul (of u)) (t.matmul u) := by
  have hshape : t.shape.withWidth u.shape.width = lead ++ [m, n] := by
    rw [ht, hu, Shape.width_append, Shape.withWidth_append]
  have hout : ∀ data,
      Flat.multiply t.data u.data t.shape u.shape = .ok data →
        (t.shape.withWidth u.shape.width).Addressable := fun data hdata =>
    hshape ▸ hfits (serves_of_multiply ht hu hdata)
  exact .flat (multiply_answers t u h h' hout) fun data hdata _ =>
    mirrors_ofArray (hout data hdata)

/-- The left derivative is a product with the right factor transposed. -/
theorem mirrors_matmulGradLeft (ht : t.shape = lead ++ [m, n])
    (hu : u.shape = lead' ++ [k, k']) (h : t.shape.Addressable)
    (h' : u.shape.Addressable)
    (hfits : n = k' ∧ lead'.Serves lead → (lead ++ [m, k]).Addressable) :
    Mirrors ((of t).matmulGradLeft (of u)) (t.matmulGradLeft u) := by
  refine (mirrors_transpose hu h').bind fun v hv => ?_
  have hshape := ((decided_transpose hu).of_ok hv).2
  refine mirrors_matmul ht hshape h ?_ hfits
  rw [hshape]
  exact Shape.addressable_swap.1 (hu ▸ h')

/-- A product without rows or contracted elements looks at no element. -/
theorem multiply_empty_answers (left right : Array α) (n : Nat) :
    Answers (fun data => data.size = Shape.size [0, n])
      (Flat.Loop.multiply left right [0, 0] [0, n])
      (Flat.multiply left right [0, 0] [0, n]) := by
  refine .inl ⟨#[], ?_, ?_, by simp⟩
  · have hrun : Flat.Loop.multiply left right ([] ++ [0, 0]) ([] ++ [0, n]) = _ :=
      multiply_append rfl
    rw [List.nil_append, List.nil_append, if_neg (not_not_intro rfl)] at hrun
    have hserves : Shape.Serves [] [] := .inl rfl
    have hown : sharing ([] ++ [0, 0]) ([] ++ [0, n]) = .ok false :=
      sharing_ok hserves
    rw [List.nil_append, List.nil_append] at hown
    have hcount : Shape.size [] * 0 * n = 0 := by simp
    rw [hrun, hown, ok_bind, product_ok (by decide), ok_bind,
      times_ok (by decide), ok_bind, times_ok (by rw [hcount]; decide),
      ok_bind, hcount, reserve_ok (by decide), ok_bind, if_pos rfl]
    rfl
  · have hplan : Flat.ProductPlan.of [0, 0] [0, n]
        = .ok ⟨1, 0, 0, n, false⟩ :=
      Flat.ProductPlan.of_append (.inl (rfl : [] = []))
    rw [Flat.multiply, hplan, ok_bind, if_pos (by simp)]
    rfl

/-- What is done with the rows of the whole batch: they are flipped and
multiplied, unless they are empty. Then none is counted, the other factor may
have any number of elements, and none of them is looked at. -/
theorem contract_answers (ht : t.shape = lead ++ [m, k])
    (hu : u.shape = lead ++ [m, n]) (h : t.shape.Addressable)
    (h' : u.shape.Addressable) (hfits : Shape.Addressable [k, n]) :
    Answers (fun flipped => flipped.size = Shape.size [k, t.shape.filledRows])
        (Flat.Loop.transpose t.data [t.shape.filledRows, k])
        (Flat.transpose t.data [t.shape.filledRows, k])
      ∧ ∀ flipped : Array α,
        flipped.size = Shape.size [k, t.shape.filledRows] →
        Answers (fun data => data.size = Shape.size [k, n])
          (Flat.Loop.multiply flipped u.data [k, t.shape.filledRows]
            [t.shape.filledRows, n])
          (Flat.multiply flipped u.data [k, t.shape.filledRows]
            [t.shape.filledRows, n]) := by
  have htsize := t.size_eq
  have husize := u.size_eq
  rw [ht] at h htsize
  rw [hu] at h' husize
  -- with columns the rows are counted right, without any there are none
  rcases Nat.eq_zero_or_pos k with rfl | hk
  · have hnone : t.shape.filledRows = 0 := by simp [ht, Shape.filledRows]
    rw [hnone]
    have hempty : Shape.Addressable [0, 0] := by decide
    exact ⟨transpose_answers (rowMajor [0, 0] t.data (by simp [htsize]))
      hempty, fun flipped _ => multiply_empty_answers flipped u.data n⟩
  · have hrows : t.shape.filledRows = lead.size * m := by
      rw [ht, Shape.filledRows_append hk]
    rw [hrows]
    have hflat := h.flattened
    refine ⟨transpose_answers (rowMajor [lead.size * m, k] t.data
      (by simp [htsize, Nat.mul_assoc])) hflat, fun flipped hflipped => ?_⟩
    exact multiply_answers (rowMajor [k, lead.size * m] flipped hflipped)
      (rowMajor [lead.size * m, n] u.data (by simp [husize, Nat.mul_assoc]))
      (Shape.addressable_swap.1 hflat : Shape.Addressable ([] ++ [k, _]))
      h'.flattened fun _ _ => hfits

/-- The two shapes that are compared have one rank. -/
theorem mirrors_matmulGradRight (ht : t.shape = lead ++ [m, k])
    (hrank : lead'.length = lead.length) (h : t.shape.Addressable)
    (h' : u.shape.Addressable)
    (hfits : k' = k ∧ u.shape = lead ++ [m, n] ∧ lead'.Serves lead →
      (lead' ++ [k', n]).Addressable) :
    Mirrors ((of t).matmulGradRight (of u) (lead' ++ [k', n]))
      (t.matmulGradRight .release u (lead' ++ [k', n])) := by
  have hlead : t.shape.lead = lead := by simp [ht]
  have hwidth : t.shape.width = k := by simp [ht]
  rw [matmulGradRight, Tensor.matmulGradRight]
  show Mirrors
    (if u.shape.dropLast ≠ t.shape.dropLast then
      refuse (.shapeMismatch t.shape.dropLast u.shape.dropLast)
    else if (lead' ++ [k', n]).lastTwo ≠ [t.shape.width, u.shape.width] then
      refuse (.shapeMismatch [t.shape.width, u.shape.width]
        (lead' ++ [k', n]).lastTwo)
    else if (lead' ++ [k', n]).lead = t.shape.lead then do
      (← (of t).transpose).matmul (of u)
    else if (lead' ++ [k', n]).lead.any (· ≠ 1) then
      refuse (.shapeMismatch t.shape (lead' ++ [k', n]))
    else do
      let rows ← divide (← (of t).size) (max t.shape.width 1)
      let flipped ← Flat.Loop.transpose t.data [rows, t.shape.width]
      let data ← Flat.Loop.multiply flipped u.data [t.shape.width, rows]
        [rows, u.shape.width]
      ofArray data (lead' ++ [k', n])) _
  rw [Shape.lastTwo_append, Shape.lead_append, hlead, hwidth]
  by_cases hdrop : u.shape.dropLast = t.shape.dropLast
  case neg =>
    rw [if_pos hdrop, if_pos hdrop]
    exact .refused trivial
  rw [if_neg (not_not_intro hdrop), if_neg (not_not_intro hdrop)]
  by_cases htwo : [k', n] = [k, u.shape.width]
  case neg =>
    rw [if_pos htwo, if_pos htwo]
    exact .refused trivial
  rw [if_neg (not_not_intro htwo), if_neg (not_not_intro htwo)]
  obtain ⟨rfl, hn⟩ : k' = k ∧ n = u.shape.width := by simpa using htwo
  have hu : u.shape = lead ++ [m, n] :=
    Shape.eq_append_two (by simpa [ht] using hdrop) hn.symm
  -- a factor for each batch entry, or a single one for all rows
  by_cases hsame : lead' = lead
  · rw [if_pos hsame, if_pos hsame]
    refine (mirrors_transpose ht h).bind fun v hv => ?_
    have hshape := ((decided_transpose ht).of_ok hv).2
    refine mirrors_matmul hshape hu ?_ h' fun hserves => ?_
    · rw [hshape]
      exact Shape.addressable_swap.1 (ht ▸ h)
    · exact hsame ▸ hfits ⟨rfl, hu, .inl hsame⟩
  rw [if_neg hsame, if_neg hsame]
  by_cases hmany : lead'.any (· ≠ 1) = true
  · rw [if_pos hmany, if_pos hmany]
    exact .refused trivial
  have hout := hfits ⟨rfl, hu, .inr ⟨hrank, by simpa using hmany⟩⟩
  have hsums : Shape.Addressable [k', n] :=
    hout.of_sublist (List.sublist_append_right lead' _)
  rw [if_neg hmany, if_neg hmany, size_of h, ok_bind, divide_ok (by omega),
    ok_bind, ← hn]
  obtain ⟨hflip, hmultiply⟩ := contract_answers ht hu h h' hsums
  have hrows : t.data.size / max k' 1 = t.shape.filledRows := by
    rw [t.size_eq, Shape.filledRows, hwidth]
  rw [hrows]
  refine .flat hflip fun flipped _ hsize => ?_
  exact .flat (hmultiply flipped hsize) fun data _ _ => mirrors_ofArray hout

omit [Zero α] [Add α] [Mul α] in
/-- Both counts of the rows of a batch are words, so they are compared as they
are. -/
theorem assertRows_of (ht : t.shape = lead ++ [m, k])
    (h : t.shape.Addressable) :
    (of t).assertRows
      = answer (Build.debug.assertEq t.shape.filledRows t.shape.statedRows) := by
  have hspan := h.span_lt_words
  rw [ht] at hspan
  have hlead : lead.span < words :=
    (Shape.span_le_of_sublist (List.sublist_append_left lead [m, k])).trans_lt
      hspan
  have hrows : lead.size * m < words := by
    have hsub : (lead ++ [m]).Sublist (lead ++ [m, k]) :=
      List.Sublist.append_left (by simp) lead
    calc lead.size * m = Shape.size (lead ++ [m]) := by simp
      _ ≤ Shape.span (lead ++ [m]) := Shape.size_le_span _
      _ ≤ Shape.span (lead ++ [m, k]) := Shape.span_le_of_sublist hsub
      _ < words := hspan
  have hstated : t.shape.statedRows = lead.size * m := by
    rw [ht, Shape.statedRows, Shape.lead_append, Shape.dropLast_append_two]
    simp
  rw [assertRows, size_of h, ok_bind, shape_of, divide_ok (by omega), ok_bind,
    ht, Shape.lead_append, product_ok hlead, ok_bind,
    Shape.dropLast_append_two, Shape.width_concat, times_ok hrows, ok_bind,
    ← ht, hstated, t.size_eq]
  rfl

end Products

end MixtureAttention.Stored
