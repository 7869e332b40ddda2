/-
The loops stay in range. On buffers that are as long as their shapes say, of
shapes that the machine can address, the loops of every flat operation come
to the answer of the operation without a step that cannot be taken: the
divisors and the chunk lengths are extents of a buffer with elements, and
every position and range is that of an element or a row of a stack of
matrices (`cut_stack`, `inChunks_stack`). Where an extent is zero it is the
early end of a loop that keeps the steps away, and each lemma below splits
there.
-/
import MixtureAttention.Proofs.Flat.Loops
import MixtureAttention.Proofs.Tensor.AxisSums
import MixtureAttention.Proofs.Tensor.BatchedProduct
import MixtureAttention.Proofs.Tensor.Segments

namespace MixtureAttention.Flat.Loop

open Machine Tensor

variable {ε α β γ : Type}

-- ================================================================ strides

section Strides

variable {s t : Shape}

/-- The number of elements behind an axis is a word. -/
theorem size_drop_lt (hs : s.span < words) (axis : Nat) :
    Shape.size (s.drop axis) < words :=
  Nat.lt_of_le_of_lt ((Shape.size_le_span _).trans
    (Shape.span_le_of_sublist (List.drop_sublist axis s))) hs

/-- A stride is written where a zero stood. -/
theorem assign_stride {axis : Nat} (h : axis < s.length) :
    (assign (List.replicate (axis + 1) 0 ++ Shape.strides (s.drop (axis + 1)))
        axis (Shape.size (s.drop (axis + 1))) : Run ε (List Nat))
      = .ok (List.replicate axis 0 ++ Shape.strides (s.drop axis)) := by
  rw [assign, if_pos (by simp; omega), Shape.set_strides h]

/-- The extents behind an axis, multiplied by its own. -/
theorem times_extent (hs : s.span < words) {axis : Nat}
    (h : axis < s.length) :
    (times (Shape.size (s.drop (axis + 1))) s[axis] : Run ε Nat)
      = .ok (Shape.size (s.drop axis)) := by
  have hstep := Shape.size_drop h
  rw [times_ok (hstep ▸ size_drop_lt hs axis), hstep]

/-- The strides of the later axes stand, and zeros before them. -/
theorem fillStrides_ok (hs : s.span < words) : ∀ axis, axis ≤ s.length →
    ((List.range axis).reverse.foldlM (fillStride s)
        (List.replicate axis 0 ++ Shape.strides (s.drop axis),
          Shape.size (s.drop axis)) : Run ε (List Nat × Nat))
      = .ok (s.strides, s.size)
  | 0, _ => by simp; rfl
  | axis + 1, h => by
      rw [List.range_succ, List.reverse_append, List.reverse_singleton,
        List.singleton_append, List.foldlM_cons, fillStride,
        assign_stride h, ok_bind, item_ok (List.getElem?_eq_getElem h),
        ok_bind, times_extent hs h]
      exact fillStrides_ok hs axis (Nat.le_of_succ_le h)

/-- The stride loop stays within a word if the span of the shape does. -/
theorem strides_ok (hs : s.span < words) :
    (strides s : Run ε (List Nat)) = .ok s.strides := by
  have hlast := fillStrides_ok (ε := ε) hs s.length (Nat.le_refl _)
  rw [List.drop_length] at hlast
  rw [strides, show List.replicate s.length 0
    = List.replicate s.length 0 ++ Shape.strides [] by simp [Shape.strides]]
  rw [show (1 : Nat) = Shape.size [] from rfl, hlast]
  rfl

/-- Broadcasting sets the stride of each stretched axis to 0. -/
theorem zip_strides : ∀ {s t : Shape},
    (((s.zip t).zip s.strides).map fun ((d, t), step) =>
      if d = 1 ∧ t ≠ 1 then 0 else step) = s.stretch t
  | [], _ => rfl
  | _ :: _, [] => rfl
  | _ :: _, _ :: _ => congrArg (List.cons _) zip_strides

/-- The strides for a broadcast are found without a wrap. -/
theorem stretch_ok (hs : s.span < words) :
    (stretch s t : Run ε (List Nat)) = .ok (s.stretch t) := by
  rw [stretch, strides_ok hs, ok_bind, zip_strides]
  rfl

/-- Below the size of a shape no stride is zero. The position that is found
bounds every position on the way. -/
theorem locate_eq : ∀ {t : Shape} {source : List Nat} {i position : Nat},
    i < t.size → position + Shape.project t.strides source i < words →
      (locate t.strides source i position : Run ε Nat)
        = .ok (position + Shape.project t.strides source i)
  | [], source, _, _, _, _ => by cases source <;> rfl
  | _ :: _, [], _, _, _, _ => rfl
  | d :: ds, s :: source, i, position, h, hword => by
      have hrest : 0 < Shape.size ds := Nat.pos_of_ne_zero fun hzero => by
        simp [hzero] at h
      have hproject : Shape.project (Shape.strides (d :: ds)) (s :: source) i
          = i / Shape.size ds * s
            + Shape.project (Shape.strides ds) source (i % Shape.size ds) :=
        rfl
      rw [hproject] at hword ⊢
      show locate (Shape.size ds :: Shape.strides ds) (s :: source) i position
        = _
      rw [locate, divide_ok hrest, ok_bind, modulo_ok hrest, ok_bind,
        times_ok (by omega), ok_bind, plus_ok (by omega), ok_bind,
        locate_eq (Nat.mod_lt i hrest) (by omega), Nat.add_assoc]

/-- The dot product of coordinates and strides stays within a word if its value
does. -/
theorem locate_ok {i : Nat} (hi : i < t.size)
    (hword : stretchedPosition s t i < words) :
    (locate t.strides (s.stretch t) i 0 : Run ε Nat)
      = .ok (stretchedPosition s t i) := by
  rw [stretchedPosition, Shape.sweepStrides_eq] at hword ⊢
  rw [locate_eq hi (by rwa [Nat.zero_add]), Nat.zero_add]

end Strides

-- ======================================================= rows of a stack

section Stacks

variable {lead : Shape} {m n : Nat} {f : Nat → Nat → Nat → α}

/-- The rows of a stack lie within it. -/
theorem row_end_le {size x y : Nat} (hx : x < size) (hy : y < m) :
    (x * m + y) * n + n ≤ size * m * n := by
  rw [← Nat.succ_mul]
  exact Nat.mul_le_mul_right n (position_lt hx hy)

/-- In a stack that the machine can address, rows are counted by words, and
so are elements. -/
theorem rows_lt_words (h : (lead ++ [m, n]).Addressable) :
    lead.size * m < words ∧ lead.size * m * n < capacity := by
  have hspan := Shape.span_append lead [m, n]
  have hrows : lead.size * m ≤ Shape.span (lead ++ [m, n]) := by
    rw [hspan]
    refine Nat.mul_le_mul (Shape.size_le_span lead) ?_
    rw [Shape.span_cons]
    exact (Nat.le_max_left m 1).trans
      (Nat.le_mul_of_pos_right _ (Shape.one_le_span [n]))
  have hsize := h.size_lt
  rw [Shape.size_append, Shape.size_cons, Shape.size_cons, Shape.size_nil,
    Nat.mul_one, ← Nat.mul_assoc] at hsize
  exact ⟨Nat.lt_of_le_of_lt hrows h.span_lt_words, hsize⟩

/-- A stack lists its sheets in order, each row by row. -/
theorem data_stack_toList :
    (stack lead m n f).data.toList
      = (List.range (lead.size * m * n)).map fun i =>
          f (i / n / m) (i / n % m) (i % n) := by
  rw [data_stack]
  rfl

/-- The range of a row. -/
theorem cut_stack {x y : Nat} (hx : x < lead.size) (hy : y < m) :
    (cut (stack lead m n f).data.toList ((x * m + y) * n)
        ((x * m + y) * n + n) : Run ε (List α))
      = .ok ((List.range n).map (f x y)) := by
  rw [data_stack_toList, cut_range _ (row_end_le hx hy)]
  refine congrArg Except.ok (List.map_congr_left fun z hz => ?_)
  have hz := List.mem_range.1 hz
  rw [div_position hz, mod_position hz, div_position hy, mod_position hy]

/-- The position of an element. -/
theorem item_stack {x y z : Nat} (hx : x < lead.size) (hy : y < m)
    (hz : z < n) :
    (item (stack lead m n f).data.toList ((x * m + y) * n + z) : Run ε α)
      = .ok (f x y z) := by
  refine item_ok ?_
  rw [Array.getElem?_toList, data_stack]
  exact getElem?_cube hx hy hz

/-- Chunks that are written with the rows of a stack. -/
theorem inChunks_stack {write : Nat → Nat → Run ε (List α)} (hn : 0 < n)
    (h : ∀ x y, x < lead.size → y < m →
      write (x * m + y) n = .ok ((List.range n).map (f x y))) :
    inChunks (lead.size * m * n) n write = .ok (stack lead m n f).data := by
  have hcount : (lead.size * m * n + n - 1) / n = lead.size * m := by
    rw [Nat.add_sub_assoc hn, div_position (Nat.sub_lt hn Nat.one_pos)]
  have hwrite : ∀ r ∈ List.range (lead.size * m),
      write r (min n (lead.size * m * n - r * n))
        = .ok ((List.range n).map (f (r / m) (r % m))) := by
    intro r hr
    have hr := List.mem_range.1 hr
    have hm : 0 < m := Nat.pos_of_ne_zero fun hzero => by simp [hzero] at hr
    have hfull : n ≤ lead.size * m * n - r * n := by
      rw [← Nat.sub_mul]
      exact Nat.le_mul_of_pos_left n (Nat.sub_pos_of_lt hr)
    rw [Nat.min_eq_left hfull]
    have hrow := h (r / m) (r % m) ((Nat.div_lt_iff_lt_mul hm).2 hr)
      (Nat.mod_lt r hm)
    rwa [Nat.div_add_mod'] at hrow
  rw [inChunks, if_neg (Nat.ne_of_gt hn), hcount, mapM_ok hwrite, data_stack,
    ← flatten_cube]
  rfl

end Stacks

-- ============================================================= operations

/-- The loops and the operation answer a call alike: both return one value,
which has the property, or both refuse, and not for an element that is not
there. No step of the loops was one that cannot be taken. -/
def Answers (Q : β → Prop) (loops : Run Error β)
    (result : Except Error β) : Prop :=
  (∃ v, loops = .ok v ∧ result = .ok v ∧ Q v)
    ∨ ∃ e, e ≠ .overrun ∧ loops = .error (.refused e) ∧ result = .error e

/-- What answers as the closed form does is the closed form. -/
theorem Answers.eq_answer {Q : β → Prop} {loops : Run Error β}
    {result : Except Error β} (h : Answers Q loops result) :
    loops = answer result := by
  rcases h with ⟨v, rfl, rfl, -⟩ | ⟨e, -, rfl, rfl⟩ <;> rfl

/-- What an operation is refused for before any step is refused alike. -/
theorem Answers.of_error {Q : β → Prop} {loops : Run Error β}
    {result : Except Error β} {e : Error} (he : e ≠ .overrun)
    (hloops : loops = .error (.refused e)) (hresult : result = .error e) :
    Answers Q loops result :=
  .inr ⟨e, he, hloops, hresult⟩

/-- Through a larger shape an element of a buffer is found. -/
theorem itemThrough_ok {t : Tensor α} {target : Shape} {i : Nat} {x : α}
    (hi : i < target.size) (haddress : t.shape.Addressable)
    (hstretch : t.shape.Stretches target)
    (hx : t.data[stretchedPosition t.shape target i]? = some x) :
    (itemThrough t.data target.strides (t.shape.stretch target) i : Run ε α)
      = .ok x := by
  have hword : stretchedPosition t.shape target i < words :=
    Nat.lt_trans (Nat.lt_trans (hstretch.position_lt hi) haddress.size_lt)
      capacity_lt_words
  rw [itemThrough, locate_ok hi hword, ok_bind, item_ok (by simpa using hx)]

/-- The combining loop answers as its closed form if the joined shape is
addressable. -/
theorem combine_answers [Zero γ] (op : α → β → γ) (t : Tensor α)
    (u : Tensor β)
    (hfits : t.shape.Joinable u.shape →
      (t.shape.joined u.shape).Addressable) :
    Answers
      (fun r => r.2 = t.shape.joined u.shape ∧ r.1.size = r.2.size)
      (combine op t.data u.data t.shape u.shape)
      (Flat.combine op t.data u.data t.shape u.shape) := by
  by_cases h : t.shape.Joinable u.shape
  · left
    have hjoined := hfits h
    obtain ⟨hleft, hright⟩ := hjoined.of_joined h
    have hroom : (product (t.shape.joined u.shape) : Run Error Nat)
        = .ok (t.shape.joined u.shape).size :=
      product_ok hjoined.span_lt_words
    -- equal shapes take the other path
    by_cases hsame : t.shape = u.shape
    · refine ⟨(combinePairwise op t.data u.data
        (t.shape.joined u.shape).size, t.shape.joined u.shape), ?_, ?_, ?_⟩
      · rw [combine, joinShapes_ok h, answer_ok, ok_bind, hroom, ok_bind,
          reserve_ok hjoined.size_lt, ok_bind, if_pos hsame]
        rfl
      · rw [Flat.combine, joinShapes_ok h, ok_bind, if_pos hsame]
        rfl
      · exact ⟨rfl, Array.size_ofFn⟩
    · obtain ⟨ht, hu⟩ := h.stretches
      obtain ⟨data, hdata, hsize, helements⟩ :=
        combineStretched_elements op t u ht hu
      refine ⟨(data, t.shape.joined u.shape), ?_, ?_, rfl, hsize⟩
      · rw [combine, joinShapes_ok h, answer_ok, ok_bind, hroom, ok_bind,
          reserve_ok hjoined.size_lt, ok_bind, if_neg hsame,
          strides_ok hjoined.span_lt_words, ok_bind,
          stretch_ok hleft.span_lt_words, ok_bind,
          stretch_ok hright.span_lt_words, ok_bind,
          inElements_ok hsize fun i hi => ?_]
        · rfl
        · obtain ⟨a, b, ha, hb, hget⟩ := helements i hi
          refine ⟨op a b, ?_, hget⟩
          rw [itemThrough_ok hi hleft ht ha, ok_bind,
            itemThrough_ok hi hright hu hb]
          rfl
      · rw [combine_stretched op t u h, hdata]
        rfl
  · obtain ⟨e, he, hne⟩ := joinShapes_refused h
    refine .of_error hne ?_ ?_
    · rw [combine, he]
      rfl
    · rw [Flat.combine, he]
      rfl

/-- The expanding loop answers as its closed form if the target is addressable.
-/
theorem expand_answers (t : Tensor α) (target : Shape)
    (hfits : t.shape.Stretches target → target.Addressable) :
    Answers (fun wide => wide.size = target.size)
      (expand t.data t.shape target) (Flat.expand t.data t.shape target) := by
  by_cases hjoin : t.shape.Joinable target
  · by_cases hshared : t.shape.joined target = target
    · left
      have hstretch := Shape.stretches_iff.2 ⟨hjoin, hshared⟩
      have htarget := hfits hstretch
      have hshape := htarget.of_stretches hstretch
      obtain ⟨wide, hwide, hsize, helements⟩ := expand_elements t hstretch
      refine ⟨wide, ?_, hwide, hsize⟩
      rw [expand, joinShapes_ok hjoin, answer_ok, ok_bind,
        if_neg (not_not_intro hshared), product_ok htarget.span_lt_words,
        ok_bind, strides_ok htarget.span_lt_words, ok_bind,
        stretch_ok hshape.span_lt_words, ok_bind,
        reserve_ok htarget.size_lt, ok_bind, inElements_ok hsize fun i hi => ?_]
      obtain ⟨x, hx, hget⟩ := helements i hi
      exact ⟨x, itemThrough_ok hi hshape hstretch hx, hget⟩
    · refine .of_error (e := .broadcastMismatch t.shape target) (by simp) ?_ ?_
      · rw [expand, joinShapes_ok hjoin, answer_ok, ok_bind, if_pos hshared]
        rfl
      · rw [Flat.expand, joinShapes_ok hjoin, ok_bind, if_pos hshared]
        rfl
  · obtain ⟨e, he, hne⟩ := joinShapes_refused hjoin
    refine .of_error hne ?_ ?_
    · rw [expand, he]
      rfl
    · rw [Flat.expand, he]
      rfl

-- =============================================================== matrices

section Matrices

variable {lead lead' : Shape} {m k n : Nat} {f g : Nat → Nat → Nat → α}

/-- The rows are found on the axis before the last. -/
theorem minus_two :
    (minus (lead ++ [m, n]).length 2 : Run ε Nat) = .ok lead.length := by
  rw [minus_ok (by simp)]
  simp

/-- The columns are found on the last. -/
theorem minus_one :
    (minus (lead ++ [m, n]).length 1 : Run ε Nat)
      = .ok (lead.length + 1) := by
  rw [minus_ok (by simp)]
  simp

/-- The extent read there is the number of rows. -/
theorem item_rows :
    (item (lead ++ [m, n]) lead.length : Run ε Nat) = .ok m :=
  item_ok (by simp)

/-- The last extent is the number of columns. -/
theorem item_cols :
    (item (lead ++ [m, n]) (lead.length + 1) : Run ε Nat) = .ok n :=
  item_ok (by simp)

/-- A column of a matrix is read element by element. -/
theorem column_ok {x y : Nat} (hfits : (lead ++ [m, n]).Addressable)
    (hx : x < lead.size) (hy : y < n) :
    (do
      let start ← times (← times x m) n
      (List.range m).mapM fun r => do
        item (stack lead m n f).data.toList
          (← plus (← plus start (← times r n)) y) : Run ε (List α))
      = .ok ((List.range m).map fun r => f x r y) := by
  obtain ⟨hrows, hsize⟩ := rows_lt_words hfits
  have hn : 0 < n := Nat.zero_lt_of_lt hy
  have hxm : x * m ≤ lead.size * m := Nat.mul_le_mul_right m (Nat.le_of_lt hx)
  have hxmn : x * m * n ≤ lead.size * m * n := Nat.mul_le_mul_right n hxm
  have hwords := capacity_lt_words
  rw [times_ok (by omega), ok_bind, times_ok (by omega), ok_bind]
  refine mapM_ok fun r hr => ?_
  have hend := row_end_le (n := n) hx (List.mem_range.1 hr)
  rw [Nat.add_mul] at hend
  rw [times_ok (by omega), ok_bind, plus_ok (by omega), ok_bind,
    plus_ok (by omega), ok_bind, ← Nat.add_mul]
  exact item_stack hx (List.mem_range.1 hr) hy

/-- The transposing loop exchanges rows and columns of each sheet. -/
theorem transpose_stack_ok (hfits : (lead ++ [m, n]).Addressable) :
    transpose (stack lead m n f).data (lead ++ [m, n])
      = .ok (stack lead n m fun x y z => f x z y).data := by
  have hsize : (stack lead m n f).data.size = Shape.size (lead ++ [m, n]) :=
    (stack lead m n f).size_eq
  rw [transpose, if_neg (by simp), minus_two, ok_bind, item_rows, ok_bind,
    minus_one, ok_bind, item_cols, ok_bind,
    product_ok hfits.span_lt_words, ok_bind, if_neg (not_not_intro hsize),
    reserve_ok hfits.size_lt, ok_bind]
  have hcount : Shape.size (lead ++ [m, n]) = lead.size * n * m := by
    simp [Nat.mul_assoc, Nat.mul_comm n m]
  rw [hcount]
  by_cases hzero : lead.size * n * m = 0
  · rw [if_pos hzero, data_stack_empty hzero]
    rfl
  · rw [if_neg hzero]
    have hm : 0 < m := Nat.pos_of_ne_zero fun h => hzero (by simp [h])
    have hn : 0 < n := Nat.pos_of_ne_zero fun h => hzero (by simp [h])
    refine inChunks_stack hm fun x y hx hy => ?_
    rw [divide_ok hn, ok_bind, modulo_ok hn, ok_bind, div_position hy,
      mod_position hy]
    exact column_ok hfits hx hy

/-- A shape that is too short to be one of matrices. -/
theorem matrix?_of_short : ∀ {s : Shape}, s.length < 2 → s.matrix? = none
  | [], _ => rfl
  | [_], _ => rfl
  | _ :: _ :: _, h => absurd h (by simp)

/-- So it answers as its closed form for every rank. -/
theorem transpose_answers [Zero α] (t : Tensor α)
    (hfits : t.shape.Addressable) :
    Answers (fun data => data.size = t.shape.transposed.size)
      (transpose t.data t.shape) (Flat.transpose t.data t.shape) := by
  by_cases hrank : t.shape.length < 2
  · refine .of_error (e := .rankMismatch 2 t.shape.length) (by simp) ?_ ?_
    · rw [transpose, if_pos hrank]
      rfl
    · rw [Flat.transpose, matrix?_of_short hrank]
      rfl
  · obtain ⟨r, hr⟩ := Nat.exists_eq_add_of_le' (Nat.not_lt.1 hrank)
    obtain ⟨lead, m, n, hs, -⟩ := Shape.exists_append_two hr
    obtain ⟨f, rfl⟩ := exists_stack hs
    refine .inl ⟨_, transpose_stack_ok hfits, flatTranspose_stack, ?_⟩
    rw [shape_stack, Shape.transposed_append]
    exact (stack lead n m _).size_eq

-- =============================================================== products

/-- One right operand for all, or one for each, is told by the leading axes. -/
theorem sharing_ok (h : lead'.Serves lead) :
    sharing (lead ++ [m, k]) (lead' ++ [k, n])
      = .ok (decide (lead' ≠ lead)) := by
  rw [sharing, minus_two, ok_bind, cut_front, ok_bind, ok_bind, ← h.length,
    cut_front, ok_bind]
  by_cases hsame : lead' = lead
  · rw [if_pos hsame.symm, decide_eq_false (not_not_intro hsame)]
    rfl
  · have hones : lead'.all (· = 1) = true := by simpa using h.ones hsame
    rw [if_neg (Ne.symm hsame), if_pos hones, decide_eq_true hsame]
    rfl

/-- Other leading axes are refused with both shapes. -/
theorem sharing_refused (hrank : lead'.length = lead.length)
    (h : ¬ lead'.Serves lead) :
    sharing (lead ++ [m, k]) (lead' ++ [k, n])
      = .error (.refused
          (.shapeMismatch (lead ++ [m, k]) (lead' ++ [k, n]))) := by
  have hsame : ¬ lead = lead' := fun hsame => h (.inl hsame.symm)
  have hones : ¬ lead'.all (· = 1) = true := fun hones =>
    h (.inr ⟨hrank, by simpa using hones⟩)
  rw [sharing, minus_two, ok_bind, cut_front, ok_bind, ok_bind, ← hrank,
    cut_front, ok_bind, if_neg hsame, if_neg hones]
  rfl

variable [Zero α] [Add α] [Mul α]

/-- The inner loop adds the products in order. -/
theorem meet_rows {a b : Nat → α} :
    meet ((List.range k).map a) ((List.range k).map b)
      = sumTo k fun i => a i * b i := by
  rw [meet, List.zipWith_map, List.zipWith_self]
  rfl

/-- The right matrix of a batch entry starts where its rows do. -/
theorem productRow_ok (h : lead'.Serves lead)
    (hleft : (lead ++ [m, k]).Addressable)
    (hright : (lead' ++ [n, k]).Addressable) {x y : Nat}
    (hx : x < lead.size) (hy : y < m) :
    productRow (stack lead m k f).data (stack lead' n k g).data m k n
        (decide (lead' ≠ lead)) (x * m + y) n
      = .ok ((List.range n).map fun z =>
          sumTo k fun i => f x y i * g (pick lead'.size x) z i) := by
  obtain ⟨hrows, hsize⟩ := rows_lt_words hleft
  obtain ⟨hrows', hsize'⟩ := rows_lt_words hright
  have hm : 0 < m := Nat.zero_lt_of_lt hy
  have hend := row_end_le (n := k) hx hy
  rw [Nat.add_mul] at hend
  have hxm : x * m ≤ lead.size * m := Nat.mul_le_mul_right m (Nat.le_of_lt hx)
  have hwords := capacity_lt_words
  have hpick := pick_lt hx h.size
  have hoffset : matrixStart (decide (lead' ≠ lead)) x n k
      = .ok (pick lead'.size x * n * k) := by
    unfold matrixStart
    by_cases hsame : lead' = lead
    · subst hsame
      have hxn : x * n ≤ lead'.size * n :=
        Nat.mul_le_mul_right n (Nat.le_of_lt hx)
      have hxnk : x * n * k ≤ lead'.size * n * k := Nat.mul_le_mul_right k hxn
      rw [if_neg (by simp), times_ok (by omega), ok_bind,
        times_ok (by omega), pick_of_lt hx]
    · rw [if_pos (by simpa using hsame), Shape.size_of_ones (h.ones hsame)]
      simp
  unfold productRow
  rw [divide_ok hm, ok_bind, modulo_ok hm, ok_bind, div_position hy,
    mod_position hy, times_ok (by omega), ok_bind, times_ok (by omega),
    ok_bind, times_ok (by omega), ok_bind, plus_ok (by omega), ok_bind,
    plus_ok (by omega), ok_bind, ← Nat.add_mul, cut_stack hx hy, ok_bind,
    hoffset, ok_bind]
  refine mapM_ok fun z hz => ?_
  have hz := List.mem_range.1 hz
  have hend := row_end_le (n := k) hpick hz
  rw [Nat.add_mul] at hend
  rw [times_ok (by omega), ok_bind, plus_ok (by omega), ok_bind,
    plus_ok (by omega), ok_bind, ← Nat.add_mul, cut_stack hpick hz, ok_bind,
    meet_rows]
  rfl

/-- A product once ranks are known to agree. -/
theorem multiply_append {left right : Array α} {k' : Nat}
    (hrank : lead'.length = lead.length) :
    multiply left right (lead ++ [m, k]) (lead' ++ [k', n])
      = if k ≠ k' then refuse (.shapeMismatch [k] [k'])
        else (do
          let shared ← sharing (lead ++ [m, k]) (lead' ++ [k', n])
          let batch ← product lead
          let size ← times (← times batch m) n
          reserve size
          if size = 0 then return #[]
          else
            let flipped ← transpose right (lead' ++ [k', n])
            inChunks size n (productRow left flipped m k n shared)) := by
  have hlen : (lead' ++ [k', n]).length = (lead ++ [m, k]).length := by
    simp [hrank]
  unfold multiply
  dsimp only
  rw [if_neg (by simp), if_neg (not_not_intro hlen), minus_two, minus_one]
  simp only [ok_bind, item_rows, item_cols, cut_front]
  rw [← hrank]
  simp only [ok_bind, item_rows, item_cols]

/-- The product loop gives each element as the sum over the shared axis. -/
theorem multiply_stack_ok (h : lead'.Serves lead)
    (hleft : (lead ++ [m, k]).Addressable)
    (hright : (lead' ++ [k, n]).Addressable)
    (hout : (lead ++ [m, n]).Addressable) :
    multiply (stack lead m k f).data (stack lead' k n g).data
        (lead ++ [m, k]) (lead' ++ [k, n])
      = .ok (stack lead m n fun x y z =>
          sumTo k fun i => f x y i * g (pick lead'.size x) i z).data := by
  obtain ⟨hrows, hsize⟩ := rows_lt_words hout
  have hwords := capacity_lt_words
  have hlead : lead.span < words :=
    (hleft.of_sublist (List.sublist_append_left lead [m, k])).span_lt_words
  rw [multiply_append h.length, if_neg (not_not_intro rfl), sharing_ok h,
    ok_bind, product_ok hlead, ok_bind, times_ok hrows, ok_bind,
    times_ok (by omega), ok_bind, reserve_ok hsize, ok_bind]
  by_cases hcount : lead.size * m * n = 0
  · rw [if_pos hcount, data_stack_empty hcount]
    rfl
  · rw [if_neg hcount, transpose_stack_ok hright, ok_bind]
    have hn : 0 < n := Nat.pos_of_ne_zero fun h => hcount (by simp [h])
    exact inChunks_stack hn fun x y hx hy =>
      productRow_ok h hleft (Shape.addressable_swap.1 hright) hx hy

/-- So it answers as its closed form if the operands and the result are
addressable. -/
theorem multiply_answers (t u : Tensor α) (ht : t.shape.Addressable)
    (hu : u.shape.Addressable)
    (hout : ∀ data, Flat.multiply t.data u.data t.shape u.shape = .ok data →
      (t.shape.withWidth u.shape.width).Addressable) :
    Answers
      (fun data => data.size = (t.shape.withWidth u.shape.width).size)
      (multiply t.data u.data t.shape u.shape)
      (Flat.multiply t.data u.data t.shape u.shape) := by
  by_cases hshort : t.shape.length < 2
  · refine .of_error (e := .rankMismatch 2 t.shape.length) (by simp) ?_ ?_
    · exact if_pos hshort
    · rw [Flat.multiply, ProductPlan.of, matrix?_of_short hshort]
      rfl
  obtain ⟨r, hr⟩ := Nat.exists_eq_add_of_le' (Nat.not_lt.1 hshort)
  obtain ⟨lead, m, k, hs, hlead⟩ := Shape.exists_append_two hr
  by_cases hrank : u.shape.length = t.shape.length
  case neg =>
    refine .of_error (e := .rankMismatch t.shape.length u.shape.length)
      (by simp) ?_ ?_
    · exact (if_neg hshort).trans (if_pos hrank)
    · have hmatrix : t.shape.matrix? = some (lead, m, k) := by simp [hs]
      rw [Flat.multiply, ProductPlan.of, hmatrix]
      dsimp only
      rw [if_pos hrank]
      rfl
  obtain ⟨lead', k', n, hs', hlead'⟩ :=
    Shape.exists_append_two (hrank.trans hr)
  have hrank := hlead'.trans hlead.symm
  by_cases hk : k = k'
  case neg =>
    rw [hs, hs']
    refine .of_error (e := .shapeMismatch [k] [k']) (by simp) ?_ ?_
    · rw [multiply_append hrank, if_pos hk]
      rfl
    · rw [Flat.multiply, ProductPlan.inner_refused hrank hk]
      rfl
  subst hk
  by_cases hserves : Shape.Serves lead' lead
  case neg =>
    rw [hs, hs']
    refine .of_error
      (e := .shapeMismatch (lead ++ [m, k]) (lead' ++ [k, n])) (by simp) ?_ ?_
    · rw [multiply_append hrank, if_neg (not_not_intro rfl),
        sharing_refused hrank hserves]
      rfl
    · rw [Flat.multiply, ProductPlan.lead_refused hrank hserves]
      rfl
  -- the shapes fit, so both operands are stacks of matrices
  obtain ⟨f, rfl⟩ := exists_stack hs
  obtain ⟨g, rfl⟩ := exists_stack hs'
  rw [shape_stack, shape_stack, Shape.width_append,
    Shape.withWidth_append] at *
  have hfits := hout _ (multiply_stack hserves)
  exact .inl ⟨_, multiply_stack_ok hserves ht hu hfits,
    multiply_stack hserves, (stack lead m n _).size_eq⟩

end Matrices

-- =================================================================== sums

section Sums

variable [Add α] {pre post : Shape} {len n : Nat} {f : Nat → Nat → Nat → α}

/-- The accumulating loop adds element by element. -/
theorem addRow_map (a b : β → α) : ∀ l : List β,
    addRow (l.map a) (l.map b) = l.map fun i => a i + b i
  | [] => rfl
  | _ :: l => congrArg (List.cons _) (addRow_map a b l)

variable [Zero α]

/-- Rows added one after the other, to zeros. -/
theorem addRows_ok {row : Nat → Run ε (List α)} {a : Nat → Nat → α} :
    ∀ len, (∀ j < len, row j = .ok ((List.range n).map (a j))) →
      (List.range len).foldlM (fun sums j => do
          let next ← row j
          return addRow sums next) (List.replicate n 0)
        = .ok ((List.range n).map fun z => sumTo len fun j => a j z)
  | 0, _ => by
      rw [show (fun z => sumTo 0 fun j => a j z) = fun _ => 0 from rfl,
        List.map_const', List.length_range]
      rfl
  | len + 1, h => by
      rw [List.range_succ, List.foldlM_append,
        addRows_ok len fun j hj => h j (Nat.lt_succ_of_lt hj), ok_bind,
        List.foldlM_cons, h len (Nat.lt_succ_self len), ok_bind, addRow_map]
      simp only [sumTo_succ]
      rfl

/-- A block of rows is summed where it lies. -/
theorem sumAxis_stack_ok (hfits : (pre ++ len :: post).Addressable) :
    sumAxis (stack [pre.size] len (Shape.size post) f).data
        (pre ++ len :: post) pre.length
      = .ok (stack [pre.size] 1 (Shape.size post) fun x _ z =>
          sumTo len fun j => f x j z).data := by
  have hsplit : pre ++ len :: post = (pre ++ [len]) ++ post := by simp
  have hnext : pre.length + 1 = (pre ++ [len]).length := by simp
  have hitem : (item (pre ++ len :: post) pre.length : Run Error Nat)
      = .ok len := item_ok (by simp)
  have hafter : (cut (pre ++ len :: post) (pre.length + 1)
      (pre ++ len :: post).length : Run Error (List Nat)) = .ok post := by
    rw [hsplit, hnext]
    exact cut_back
  have hpre : pre.span < words :=
    (hfits.of_sublist (List.sublist_append_left _ _)).span_lt_words
  have hpost : Shape.span post < words := by
    rw [hsplit] at hfits
    exact (hfits.of_sublist (List.sublist_append_right _ _)).span_lt_words
  have hout : pre.size * Shape.size post < capacity := by
    have hshape := hfits.set_one pre.length
    simpa using hshape.size_lt
  have hsize : pre.size * len * Shape.size post < capacity := by
    simpa [Nat.mul_assoc] using hfits.size_lt
  have hwords := capacity_lt_words
  rw [sumAxis, if_neg (by simp), cut_front, ok_bind, product_ok hpre, ok_bind,
    hitem, ok_bind, hafter, ok_bind, product_ok hpost, ok_bind,
    times_ok (by omega), ok_bind, reserve_ok hout, ok_bind]
  have hcount : pre.size * Shape.size post
      = Shape.size [pre.size] * 1 * Shape.size post := by simp
  rw [hcount]
  by_cases hzero : Shape.size [pre.size] * 1 * Shape.size post = 0
  · rw [if_pos hzero, data_stack_empty hzero]
    rfl
  · rw [if_neg hzero]
    have hinner : 0 < Shape.size post :=
      Nat.pos_of_ne_zero fun h => hzero (by simp [h])
    refine inChunks_stack hinner fun x y hx hy => ?_
    obtain rfl : y = 0 := Nat.lt_one_iff.1 hy
    have hx' : x < pre.size := by simpa using hx
    have hxlen : x * len ≤ x * len * Shape.size post :=
      Nat.le_mul_of_pos_right _ hinner
    have hbase : x * len * Shape.size post
        ≤ pre.size * len * Shape.size post :=
      Nat.mul_le_mul_right _ (Nat.mul_le_mul_right _ (Nat.le_of_lt hx'))
    rw [Nat.mul_one, Nat.add_zero, times_ok (by omega), ok_bind,
      times_ok (by omega), ok_bind]
    refine addRows_ok len fun j hj => ?_
    -- the end of the row lies within the block, and so does all before it
    have hend := row_end_le (n := Shape.size post) hx' hj
    rw [Nat.add_mul] at hend
    have hnextRow : (j + 1) * Shape.size post
        = j * Shape.size post + Shape.size post := Nat.succ_mul ..
    have hcountRow : j + 1 ≤ (j + 1) * Shape.size post :=
      Nat.le_mul_of_pos_right _ hinner
    rw [blockRow, times_ok (by omega), ok_bind, plus_ok (by omega), ok_bind,
      plus_ok (by omega), ok_bind, times_ok (by omega), ok_bind,
      plus_ok (by omega), ok_bind, hnextRow, ← Nat.add_assoc, ← Nat.add_mul]
    exact cut_stack hx hj

/-- The closed form sums each fibre of the axis in order. -/
theorem flatSumAxis_stack :
    Flat.sumAxis (stack [pre.size] len (Shape.size post) f).data
        (pre ++ len :: post) pre.length
      = .ok (stack [pre.size] 1 (Shape.size post) fun x _ z =>
          sumTo len fun j => f x j z).data := by
  rw [flatSumAxis_append, data_stack, data_stack]
  refine gather_cube (by simp) fun x y z hx hy hz => ?_
  obtain rfl : y = 0 := Nat.lt_one_iff.1 hy
  refine total_eq_sumTo fun j hj => ?_
  rw [Nat.mul_one, Nat.add_zero, div_position hz, mod_position hz,
    ← Nat.add_mul]
  exact fetch_cube hx hj hz

/-- The summing loop answers as its closed form, for any axis. -/
theorem sumAxis_answers (t : Tensor α) (hfits : t.shape.Addressable)
    (axis : Nat) :
    Answers (fun data => data.size = Shape.size (t.shape.set axis 1))
      (sumAxis t.data t.shape axis) (Flat.sumAxis t.data t.shape axis) := by
  by_cases haxis : t.shape.length ≤ axis
  · refine .of_error (e := .invalidAxis axis t.shape.length) (by simp) ?_ ?_
    · exact if_pos haxis
    · rw [Flat.sumAxis, List.getElem?_eq_none haxis]
  · left
    obtain ⟨len, hlen⟩ : ∃ len, t.shape[axis]? = some len :=
      ⟨_, List.getElem?_eq_getElem (Nat.lt_of_not_le haxis)⟩
    obtain ⟨pre, post, hs, rfl, hset⟩ := Shape.exists_split hlen
    -- the axes before and after are one axis each
    have hblocks : t.data.size
        = Shape.size ([Shape.size pre] ++ [len, Shape.size post]) := by
      rw [t.size_eq, hs]
      simp
    let blocks : Tensor α :=
      rowMajor ([Shape.size pre] ++ [len, Shape.size post]) t.data hblocks
    have hshape : blocks.shape
        = [Shape.size pre] ++ [len, Shape.size post] := rfl
    obtain ⟨f, hf⟩ := exists_stack hshape
    have hdata : t.data
        = (stack [Shape.size pre] len (Shape.size post) f).data := by
      show blocks.data = _
      rw [hf]
    rw [hs] at hfits
    rw [hset, hdata, hs]
    exact ⟨_, sumAxis_stack_ok hfits, flatSumAxis_stack, by simp⟩

end Sums

-- ======================================================== every operation

/-- Buffers that are as long as their shapes say, of any rank and with any
extents that the machine can address, also in the result. The loops of every
operation end in an answer to the caller, which is the answer of the
operation: a refusal in words about shapes, or a buffer that is as long as
the resulting shape says. So every size, stride and position that is counted
is a word and every buffer can be allocated, no position or range that is
asked for lies outside its buffer, nothing is divided by zero, and no buffer
is cut into chunks of length zero. -/
theorem loops_stay_in_range [Zero α] [Add α] [Mul α] (t u : Tensor α)
    (ht : t.shape.Addressable) (hu : u.shape.Addressable) :
    ((t.shape.Joinable u.shape → (t.shape.joined u.shape).Addressable) →
      ∀ op : α → α → α,
        Answers (fun r => r.2 = t.shape.joined u.shape ∧ r.1.size = r.2.size)
          (combine op t.data u.data t.shape u.shape)
          (Flat.combine op t.data u.data t.shape u.shape))
    ∧ (∀ target : Shape,
      (t.shape.Stretches target → target.Addressable) →
        Answers (fun wide => wide.size = target.size)
          (expand t.data t.shape target)
          (Flat.expand t.data t.shape target))
    ∧ ((∀ data,
        Flat.multiply t.data u.data t.shape u.shape = .ok data →
          (t.shape.withWidth u.shape.width).Addressable) →
      Answers
        (fun data => data.size = (t.shape.withWidth u.shape.width).size)
        (multiply t.data u.data t.shape u.shape)
        (Flat.multiply t.data u.data t.shape u.shape))
    ∧ (∀ axis : Nat,
      Answers (fun data => data.size = Shape.size (t.shape.set axis 1))
        (sumAxis t.data t.shape axis) (Flat.sumAxis t.data t.shape axis))
    ∧ Answers (fun data => data.size = t.shape.transposed.size)
        (transpose t.data t.shape) (Flat.transpose t.data t.shape) :=
  ⟨fun hout op => combine_answers op t u hout, expand_answers t,
    multiply_answers t u ht hu, sumAxis_answers t ht, transpose_answers t ht⟩

/-- A column and a row: their product, their sum over the shape they share,
and an axis that is not there. -/
theorem loops_stay_in_range_column_and_row :
    let column : Tensor Int := .rowMajor [2, 1] #[5, 7] rfl
    let row : Tensor Int := .rowMajor [1, 2] #[1, 2] rfl
    column.shape.Addressable ∧ row.shape.Addressable
      ∧ multiply column.data row.data column.shape row.shape
        = .ok #[5, 10, 7, 14]
      ∧ combine (· + ·) column.data row.data column.shape row.shape
        = .ok (#[6, 7, 8, 9], [2, 2])
      ∧ sumAxis column.data column.shape 2
        = .error (.refused (.invalidAxis 2 2)) := by
  intro column row
  have hcolumn : column.shape.Addressable :=
    (by decide : Shape.Addressable [2, 1])
  have hrow : row.shape.Addressable := (by decide : Shape.Addressable [1, 2])
  have hshared : Shape.Addressable [2, 2] := by decide
  obtain ⟨hcombine, -, hmultiply, hsum, -⟩ :=
    loops_stay_in_range column row hcolumn hrow
  have hproduct : Flat.multiply column.data row.data column.shape row.shape
      = .ok #[5, 10, 7, 14] := by decide
  have htable : Flat.combine (· + ·) column.data row.data column.shape
      row.shape = .ok (#[6, 7, 8, 9], [2, 2]) := by decide
  refine ⟨hcolumn, hrow, ?_, ?_, (hsum 2).eq_answer⟩
  · rw [(hmultiply fun _ _ => hshared).eq_answer, hproduct, answer_ok]
  · rw [(hcombine (fun _ => hshared) (· + ·)).eq_answer, htable, answer_ok]

/-- A buffer that is too short is noticed, a row past its end. -/
example : multiply #[5] #[1, 2] [2, 1] [1, 2]
    = (.error (.violated (.range 1 2 1)) : Run Error (Array Nat)) := by decide

end MixtureAttention.Flat.Loop
