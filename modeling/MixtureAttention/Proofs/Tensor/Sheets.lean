/-
Tensors of any rank as sheets of rows. Segments of columns see the leading
axes as one flat number of rows, so a tensor that they are cut from is given
by a shape for the leading axes and a function of two coordinates: which row
and which column. Reading and overwriting a segment are then formulas in the
column, and what a read finds after a write is decided by where the two
segments lie (`columns_written`, `columns_apart`).
-/
import MixtureAttention.Proofs.Tensor.Acceptance

namespace MixtureAttention.Tensor

variable {α : Type}

-- ================================================================ sheets

/-- The tensor whose last axis has extent `w` and whose rows, counted
through the leading axes, are given by `f`. -/
def sheet (lead : Shape) (w : Nat) (f : Nat → Nat → α) : Tensor α where
  shape := lead ++ [w]
  data := ((List.range (lead.size * w)).map fun i =>
    f (i / w) (i % w)).toArray
  size_eq := by simp

variable {lead : Shape} {w : Nat} {f g : Nat → Nat → α}

@[simp] theorem shape_sheet : (sheet lead w f).shape = lead ++ [w] := rfl

@[simp] theorem size_sheet : (sheet lead w f).data.size = lead.size * w := by
  simp [sheet]

/-- A row and a column for each position. -/
theorem exists_column {n i : Nat} (hi : i < n * w) :
    i / w < n ∧ i % w < w ∧ i / w * w + i % w = i := by
  have hw : 0 < w := Nat.pos_of_ne_zero fun hzero => by simp [hzero] at hi
  exact ⟨(Nat.div_lt_iff_lt_mul hw).2 hi, Nat.mod_lt i hw,
    Nat.div_add_mod' i w⟩

/-- A sheet depends on its function within the extents alone. -/
theorem sheet_congr (h : ∀ x z, x < lead.size → z < w → f x z = g x z) :
    sheet lead w f = sheet lead w g := by
  refine Tensor.ext rfl ?_
  refine congrArg List.toArray (List.map_congr_left fun i hi => ?_)
  obtain ⟨hx, hz, -⟩ := exists_column (List.mem_range.1 hi)
  exact h _ _ hx hz

theorem fetch_sheet {x z : Nat} (hx : x < lead.size) (hz : z < w) :
    Flat.fetch (sheet lead w f).data (x * w + z) = .ok (f x z) := by
  have hi : x * w + z < lead.size * w := position_lt hx hz
  rw [Flat.fetch, sheet, List.getElem?_toArray, List.getElem?_map,
    List.getElem?_range hi, Option.map_some, div_position hz, mod_position hz]

/-- Every tensor with an axis is a sheet. -/
theorem exists_sheet [Zero α] {t : Tensor α} (h : t.shape = lead ++ [w]) :
    ∃ f, t = sheet lead w f := by
  have hsize : t.data.size = lead.size * w := by
    rw [t.size_eq, h]
    simp
  refine ⟨fun x z => t.data[x * w + z]?.getD 0,
    Tensor.ext h (Array.ext (by rw [hsize, size_sheet]) fun i hi _ => ?_)⟩
  obtain ⟨-, -, hcolumn⟩ := exists_column (hsize ▸ hi)
  simp [sheet, hcolumn, hi]

/-- An operation that gathers its elements and gives them their shape. -/
theorem gather_ofArray_sheet {h : Nat → Except Flat.Error α} {n : Nat}
    (hn : n = lead.size * w)
    (hf : ∀ x z, x < lead.size → z < w → h (x * w + z) = .ok (f x z)) :
    (do
      let data ← Flat.gather n h
      ofArray data (lead ++ [w]) : Except TensorError (Tensor α))
      = .ok (sheet lead w f) := by
  have hgather : Flat.gather n h = .ok (sheet lead w f).data := by
    subst hn
    refine Flat.gather_ok (fun i => f (i / w) (i % w)) fun i hi => ?_
    obtain ⟨hx, hz, hcolumn⟩ := exists_column hi
    rw [← hf _ _ hx hz, hcolumn]
  rw [hgather, liftFlat_ok, ok_bind]
  exact dif_pos (sheet lead w f).size_eq

-- =============================================================== segments

variable {offset len : Nat}

theorem columns_sheet (h : offset + len ≤ w) :
    (sheet lead w f).columns offset len
      = .ok (sheet lead len fun x z => f x (offset + z)) := by
  rw [columns, checkSegment_ok rfl h, ok_bind]
  simp only [shape_sheet, Shape.width_concat, Shape.rowCount_concat,
    Shape.withWidth_concat]
  refine gather_ofArray_sheet rfl fun x z hx hz => ?_
  rw [div_position hz, mod_position hz, Nat.add_assoc]
  exact fetch_sheet hx (by omega)

theorem setColumns_sheet (h : offset + len ≤ w) :
    (sheet lead w f).setColumns offset len (sheet lead len g)
      = .ok (sheet lead w fun x z =>
          if offset ≤ z ∧ z < offset + len then g x (z - offset)
          else f x z) := by
  rw [setColumns, checkSegment_ok rfl h, ok_bind]
  simp only [shape_sheet, Shape.width_concat, Shape.withWidth_concat]
  rw [if_neg (not_not_intro rfl)]
  refine gather_ofArray_sheet (by simp) fun x z hx hz => ?_
  rw [div_position hz, mod_position hz]
  split
  · exact fetch_sheet hx (by omega)
  · exact fetch_sheet hx hz

variable [Zero α] {t t' u : Tensor α}

/-- An accepted write, in sheets. -/
theorem exists_written (ht : t.shape = lead ++ [w])
    (h : t.setColumns offset len u = .ok t') :
    ∃ f g, offset + len ≤ w ∧ t = sheet lead w f ∧ u = sheet lead len g
      ∧ t' = sheet lead w fun x z =>
          if offset ≤ z ∧ z < offset + len then g x (z - offset)
          else f x z := by
  obtain ⟨⟨hwidth, hu⟩, -⟩ :=
    (decided_setColumns ht offset len u).of_ok h
  obtain ⟨f, rfl⟩ := exists_sheet ht
  obtain ⟨g, rfl⟩ := exists_sheet hu
  rw [setColumns_sheet hwidth] at h
  exact ⟨f, g, hwidth, rfl, rfl, (Except.ok.inj h).symm⟩

/-- A segment is read back as it was written. -/
theorem columns_written (ht : t.shape = lead ++ [w])
    (h : t.setColumns offset len u = .ok t') :
    t'.columns offset len = .ok u := by
  obtain ⟨f, g, hwidth, -, rfl, rfl⟩ := exists_written ht h
  rw [columns_sheet hwidth]
  refine congrArg Except.ok (sheet_congr fun x z _ hz => ?_)
  rw [if_pos ⟨Nat.le_add_right _ _, by omega⟩, Nat.add_sub_cancel_left]

/-- Of a segment beside the one that is written nothing changes. -/
theorem columns_apart {offset' len' : Nat} (ht : t.shape = lead ++ [w])
    (h : t.setColumns offset len u = .ok t')
    (hapart : offset + len ≤ offset' ∨ offset' + len' ≤ offset) :
    t'.columns offset' len' = t.columns offset' len' := by
  obtain ⟨f, g, -, rfl, -, rfl⟩ := exists_written ht h
  by_cases hwidth : offset' + len' ≤ w
  · rw [columns_sheet hwidth, columns_sheet hwidth]
    refine congrArg Except.ok (sheet_congr fun x z _ hz => ?_)
    rw [if_neg (by omega)]
  · rw [columns, columns, checkSegment_refused rfl hwidth,
      checkSegment_refused rfl hwidth]
    rfl

end MixtureAttention.Tensor
