/-
Operations on rows, on stored tensors. The elements are cut into chunks of
the last extent, a range of each chunk is read or overwritten, or the chunk is
replaced by as long a one, and the chunks are put back together. On a sheet
the chunks are the rows of its function (`rows_of`), so each operation is the
one on tensors, row by row. Where the last extent is zero nothing is cut:
chunks cannot have length zero.

A range that is asked for must end at a word. The end is computed before it
is compared with the last extent.
-/
import MixtureAttention.Proofs.Machine.Operations

namespace MixtureAttention

open Machine Tensor

variable {ε α β : Type}

-- ================================================================== chunks

namespace Machine

/-- Chunks of equal length are runs. -/
theorem runs_eq_map (w : Nat) : ∀ (n : Nat) (l : List α),
    runs w n l = (List.range n).map fun i => (l.drop (i * w)).take w
  | 0, _ => rfl
  | n + 1, l => by
      rw [runs, runs_eq_map w n, List.range_succ_eq_map, List.map_cons,
        List.map_map]
      simp only [Nat.zero_mul, List.drop_zero, Function.comp_def,
        List.drop_drop, Nat.succ_mul, Nat.add_comm w]

/-- Rows of a positive width are cut one after the other. -/
theorem chunks_ok {l : List α} {n w : Nat} (hw : 0 < w)
    (hl : l.length = n * w) :
    (chunks l w : Run ε (List (List α))) = .ok (runs w n l) := by
  have hcount : (n * w + w - 1) / w = n := by
    rw [Nat.add_sub_assoc hw, div_position (Nat.sub_lt hw Nat.one_pos)]
  rw [chunks, if_neg (Nat.ne_of_gt hw), hl, hcount, runs_eq_map]

/-- The columns of a row that are overwritten, and those beside them. -/
theorem overwrite_range {w offset len : Nat} (h : offset + len ≤ w)
    (f g : Nat → α) :
    (overwrite ((List.range w).map f) offset (offset + len)
        ((List.range len).map g) : Run ε (List α))
      = .ok ((List.range w).map fun z =>
          if offset ≤ z ∧ z < offset + len then g (z - offset) else f z) := by
  rw [overwrite, cut_range f h, ok_bind, if_neg (by simp)]
  refine congrArg Except.ok (List.ext_getElem (by simp; omega) fun z _ hz => ?_)
  have hz : z < w := by simpa using hz
  by_cases hbefore : z < offset
  · rw [List.getElem_append_left (by simp; omega),
      List.getElem_append_left (by simp; omega)]
    simp [Nat.not_le.2 hbefore]
  · by_cases hwithin : z < offset + len
    · rw [List.getElem_append_left (by simp; omega),
        List.getElem_append_right (by simp; omega)]
      have hoffset : min offset w = offset := by omega
      simp [hoffset, Nat.not_lt.1 hbefore, hwithin]
    · rw [List.getElem_append_right (by simp; omega)]
      have hlength : min offset w + len = offset + len := by omega
      have hplace : offset + len + (z - (offset + len)) = z := by omega
      simp [hlength, hplace, hwithin]

end Machine

namespace Stored

variable {lead : Shape} {w offset len : Nat} {t u : Tensor α}
  {f g : Nat → Nat → α}

/-- The chunks of a tensor are its rows. -/
theorem rows_of (ht : t.shape = lead ++ [w]) :
    ((of t).rows : Run ε (List (List α))) = .ok t.rows := by
  have hne : t.shape ≠ [] := by simp [ht]
  show (if t.shape.width = 0 then _ else _) = _
  by_cases hw : t.shape.width = 0
  · have hnone : t.shape.filledRows = 0 := by
      have hsize := Shape.filledRows_mul_width hne
      rw [hw, Nat.mul_zero] at hsize
      simp [Shape.filledRows, ← hsize]
    rw [if_pos hw, Tensor.rows, hnone]
    rfl
  · rw [if_neg hw]
    refine chunks_ok (Nat.pos_of_ne_zero hw) ?_
    rw [Array.length_toList, data_of, t.size_eq, shape_of,
      Shape.filledRows_mul_width hne]

-- =============================================================== segments

/-- A segment within the row is found, with its end within a word. -/
theorem checkSegment_ok (ht : t.shape = lead ++ [w]) (h : offset + len ≤ w)
    (hword : offset + len < words) :
    checkSegment t.shape offset len = .ok (offset + len) := by
  rw [checkSegment, plus_ok hword, ok_bind, ht, Shape.width_concat,
    if_neg (Nat.not_lt.2 h)]
  rfl

/-- Any other is refused with its two ends. -/
theorem checkSegment_refused (ht : t.shape = lead ++ [w])
    (h : ¬ offset + len ≤ w) (hword : offset + len < words) :
    checkSegment t.shape offset len
      = .error (.refused
          (.indexOutOfBounds [offset, offset + len] t.shape)) := by
  rw [checkSegment, plus_ok hword, ok_bind, ht, Shape.width_concat,
    if_pos (Nat.not_le.1 h)]
  rfl

/-- Ranges that are cut out of rows, joined. -/
theorem flatten_columns (h : offset + len ≤ w) :
    (((List.range (if w = 0 then 0 else lead.size)).map fun x =>
        (List.range len).map fun z => f x (offset + z)).flatten).toArray
      = (sheet lead len fun x z => f x (offset + z)).data := by
  by_cases hw : w = 0
  · obtain rfl : len = 0 := by omega
    simp [hw, sheet]
  · rw [if_neg hw, flatten_range fun x z => f x (offset + z)]
    rfl

variable [Zero α]

/-- Columns are cut from each row and stored with their own strides. -/
theorem mirrors_columns (ht : t.shape = lead ++ [w])
    (h : t.shape.Addressable) (hword : offset + len < words) :
    Mirrors ((of t).columns offset len) (t.columns offset len) := by
  by_cases hseg : offset + len ≤ w
  · obtain ⟨f, rfl⟩ := exists_sheet ht
    rw [shape_sheet] at h
    have hcut : ∀ x ∈ List.range (if w = 0 then 0 else lead.size),
        (cut ((List.range w).map (f x)) offset (offset + len)
            : Run TensorError (List α))
          = .ok ((List.range len).map fun z => f x (offset + z)) :=
      fun x _ => cut_range (f x) hseg
    have hlen : len ≤ w := by omega
    have hmade := beside_ok (ε := TensorError)
      (t := sheet lead len fun x z => f x (offset + z)) (h.withWidth hlen)
    rw [columns, shape_of, checkSegment_ok rfl hseg hword, ok_bind,
      rows_of rfl, ok_bind, rows_sheet, List.mapM_map]
    simp only [Function.comp_def]
    rw [mapM_ok hcut, ok_bind, flatten_columns hseg, shape_sheet,
      Shape.withWidth_concat, columns_sheet hseg]
    exact hmade ▸ .ok _
  · rw [columns, shape_of, checkSegment_refused ht hseg hword,
      Tensor.columns, Tensor.checkSegment_refused ht hseg]
    exact .refused trivial

omit [Zero α] in
/-- Every row is overwritten by its part. -/
theorem overwriteRows_map {a b c : Nat → List α} {start stop : Nat} :
    ∀ {l : List Nat},
      (∀ x ∈ l, (overwrite (a x) start stop (b x) : Run ε (List α))
        = .ok (c x)) →
      (overwriteRows start stop (l.map a) (l.map b)
        : Run ε (List (List α))) = .ok (l.map c)
  | [], _ => rfl
  | x :: l, h => by
      rw [List.map_cons, List.map_cons, overwriteRows,
        h x List.mem_cons_self, ok_bind,
        overwriteRows_map fun y hy => h y (List.mem_cons_of_mem x hy)]
      rfl

omit [Zero α] in
/-- A sheet is cut into its rows, if they are not empty. -/
theorem chunks_sheet (hw : 0 < w) :
    (chunks (sheet lead w f).data.toList w : Run ε (List (List α)))
      = .ok ((List.range lead.size).map fun x => (List.range w).map (f x)) := by
  have hrows := rows_of (ε := ε) (t := sheet lead w f) rfl
  rw [rows_sheet, if_neg (Nat.ne_of_gt hw)] at hrows
  rw [← hrows]
  show _ = if (lead ++ [w]).width = 0 then _ else chunks _ (lead ++ [w]).width
  rw [Shape.width_concat, if_neg (Nat.ne_of_gt hw)]
  rfl

/-- Columns are overwritten in place. -/
theorem mirrors_setColumns (ht : t.shape = lead ++ [w])
    (hword : offset + len < words) :
    Mirrors ((of t).setColumns offset len (of u))
      (t.setColumns offset len u) := by
  by_cases hseg : offset + len ≤ w
  case neg =>
    rw [setColumns, shape_of, checkSegment_refused ht hseg hword,
      Tensor.setColumns, Tensor.checkSegment_refused ht hseg]
    exact .refused trivial
  have hwith : t.shape.withWidth len = lead ++ [len] := by
    rw [ht, Shape.withWidth_concat]
  rw [setColumns, shape_of, checkSegment_ok ht hseg hword, ok_bind, hwith]
  by_cases hu : u.shape = lead ++ [len]
  case neg =>
    rw [shape_of, if_pos hu, Tensor.setColumns,
      Tensor.checkSegment_ok ht hseg, ok_bind, hwith, if_pos hu]
    exact .refused trivial
  obtain ⟨f, rfl⟩ := exists_sheet ht
  obtain ⟨g, rfl⟩ := exists_sheet hu
  rw [shape_of, if_neg (not_not_intro hu), setColumns_sheet hseg]
  by_cases hlen : len = 0
  · have hsame : (sheet lead w fun x z =>
        if offset ≤ z ∧ z < offset + len then g x (z - offset) else f x z)
          = sheet lead w f :=
      sheet_congr fun x z _ _ => if_neg (by omega)
    rw [if_pos hlen, hsame]
    exact .ok _
  · have hpart : 0 < len := Nat.pos_of_ne_zero hlen
    have hw : 0 < w := by omega
    rw [if_neg hlen, data_of, data_of, shape_sheet, Shape.width_concat,
      chunks_sheet hw, ok_bind, chunks_sheet hpart, ok_bind,
      overwriteRows_map fun x _ => overwrite_range hseg (f x) (g x), ok_bind,
      flatten_range]
    exact .ok (sheet lead w fun x z =>
      if offset ≤ z ∧ z < offset + len then g x (z - offset) else f x z)

-- ============================================================ activations

section Activations

omit [Zero α]

variable [Scalar α]

/-- An activation runs over each row in turn. -/
theorem activate_ok (act : Activation) (ht : t.shape = lead ++ [w])
    (h : t.shape.Addressable) :
    activate act (of t) = .ok (of (act.apply t)) := by
  cases act with
  | tanh => exact map_ok h _
  | sigmoid => exact map_ok h _
  | softmax =>
      have hne : t.shape ≠ [] := by simp [ht]
      rw [activate, shape_of]
      by_cases hw : t.shape.width = 0
      · obtain ⟨f, rfl⟩ := exists_sheet ht
        obtain rfl : w = 0 := by simpa using hw
        have hsame : Activation.softmax.apply (sheet lead 0 f)
            = sheet lead 0 f := by
          rw [Activation.apply_sheet]
          exact sheet_congr fun _ _ _ hz => absurd hz (Nat.not_lt_zero _)
        rw [if_pos hw, hsame]
        rfl
      · rw [if_neg hw, rows_of ht, ok_bind]
        show _ = Except.ok (of (t.mapRows softmaxRow length_softmaxRow))
        rw [Tensor.mapRows, dif_neg hne]
        rfl

/-- The derivative of an activation compares the shapes and then runs over
elements or rows. -/
theorem mirrors_backward (act : Activation) (ht : t.shape = lead ++ [w])
    (h : t.shape.Addressable) :
    Mirrors (backward act (of t) (of u)) (act.backward t u) := by
  unfold backward Activation.backward
  rw [shape_of, shape_of]
  by_cases hsame : t.shape = u.shape
  case neg =>
    rw [if_pos hsame, dif_neg hsame]
    exact .refused trivial
  have husize : u.data.size = t.shape.size := hsame ▸ u.size_eq
  rw [if_neg (not_not_intro hsame), dif_pos hsame]
  have helements : ∀ f : α → α → α,
      zipWith f t.shape t.data u.data
        = .ok (of (Activation.backward.zip f t u hsame)) := fun f =>
    zipWith_ok (t := Activation.backward.zip f t u hsame) h
      (combinePairwise_eq t.size_eq husize)
  cases act with
  | tanh =>
      dsimp only
      exact helements _ ▸ .ok _
  | sigmoid =>
      dsimp only
      exact helements _ ▸ .ok _
  | softmax =>
      have hne : t.shape ≠ [] := by simp [ht]
      dsimp only
      rw [full_ok h, ok_bind]
      -- rows of width zero are not listed, and there is nothing to compute
      by_cases hw : t.shape.width = 0
      · obtain ⟨f, rfl⟩ := exists_sheet ht
        obtain ⟨g, rfl⟩ := exists_sheet hsame.symm
        obtain rfl : w = 0 := by simpa using hw
        rw [if_pos hw]
        have hzeros : Tensor.full (sheet lead 0 f).shape (0 : α)
            = (sheet lead 0 f).zipRows softmaxRowBackward
                length_softmaxRowBackward (sheet lead 0 g) hsame := by
          rw [zipRows_sheet (softmaxRowBackward_range 0)]
          refine Tensor.ext rfl (Array.ext (by simp [Tensor.full]) ?_)
          simp [Tensor.full]
        exact hzeros ▸ .ok _
      · rw [if_neg hw, rows_of ht, ok_bind, rows_of (hsame ▸ ht), ok_bind,
          Tensor.zipRows, dif_neg hne]
        exact .ok
          { shape := t.shape
            data := (List.zipWith softmaxRowBackward t.rows
              u.rows).flatten.toArray
            size_eq := _ }

end Activations

end Stored
end MixtureAttention
