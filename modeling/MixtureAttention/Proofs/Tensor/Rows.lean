/-
The rows of a tensor of any rank. A multi-index is one for the leading axes
and a column (`Contains.concat`), so a sheet is read at the row that the
leading coordinates count to (`get_sheet`).

Operations on rows cut the elements into runs of the last extent. The runs
of a sheet are the rows of its function, and an operation that turns a row
given by a function into a row given by another function does so to every
row (`mapRows_sheet`, `zipRows_sheet`). A last extent of zero leaves nothing
to cut.
-/
import MixtureAttention.Proofs.Tensor.Positions
import MixtureAttention.Proofs.Tensor.Sheets

namespace MixtureAttention

variable {α : Type}

-- ======================================================= rows and columns

namespace Shape

variable {lead : Shape} {c p : List Nat} {w z : Nat}

/-- A multi-index for the leading axes and a column. -/
theorem Contains.concat : ∀ {lead : Shape} {c : List Nat},
    lead.Contains c → z < w → (lead ++ [w]).Contains (c ++ [z])
  | [], [], _, hz => ⟨hz, trivial⟩
  | _ :: _, _ :: _, h, hz => ⟨h.1, h.2.concat hz⟩

/-- Nothing else is a multi-index. -/
theorem Contains.of_concat : ∀ {lead : Shape} {p : List Nat},
    (lead ++ [w]).Contains p →
      ∃ c z, p = c ++ [z] ∧ lead.Contains c ∧ z < w
  | [], [z], h => ⟨[], z, rfl, trivial, h.1⟩
  | _ :: _, i :: _, h => by
      obtain ⟨c, z, rfl, hc, hz⟩ := Contains.of_concat h.2
      exact ⟨i :: c, z, rfl, ⟨h.1, hc⟩, hz⟩

/-- The two halves of a multi-index. -/
theorem contains_concat :
    (lead ++ [w]).Contains (c ++ [z]) ↔ lead.Contains c ∧ z < w := by
  constructor
  · intro h
    obtain ⟨c', z', heq, hc, hz⟩ := h.of_concat
    obtain ⟨rfl, hlast⟩ := List.append_inj' heq rfl
    cases hlast
    exact ⟨hc, hz⟩
  · rintro ⟨hc, hz⟩
    exact hc.concat hz

/-- The leading axes count the rows. -/
theorem Contains.dot_concat : ∀ {lead : Shape} {c : List Nat},
    lead.Contains c →
      dot (c ++ [z]) (strides (lead ++ [w])) = dot c lead.strides * w + z
  | [], [], _ => by simp [dot, strides]
  | d :: ds, i :: is, h => by
      show i * size (ds ++ [w]) + dot (is ++ [z]) (strides (ds ++ [w]))
        = (i * size ds + dot is (strides ds)) * w + z
      rw [h.2.dot_concat, size_append, size_cons, size_nil, Nat.mul_one,
        Nat.add_mul, Nat.mul_assoc, Nat.add_assoc]

end Shape

-- ==================================================== rows of a function

/-- Consecutive runs of a list given by a function. -/
theorem runs_range' (g : Nat → α) (k : Nat) :
    ∀ n s : Nat, runs k n ((List.range' s (n * k)).map g)
      = (List.range n).map fun r =>
          (List.range k).map fun z => g (s + r * k + z)
  | 0, _ => rfl
  | n + 1, s => by
      have hsplit : List.range' s ((n + 1) * k)
          = List.range' s k ++ List.range' (s + k) (n * k) := by
        rw [Nat.succ_mul, Nat.add_comm, ← List.range'_append_1]
      have hlen : ((List.range' s k).map g).length = k := by simp
      rw [runs, hsplit, List.map_append, List.take_left' hlen,
        List.drop_left' hlen, runs_range' g k n (s + k),
        List.range_succ_eq_map, List.map_cons, List.map_map]
      congr 1
      · rw [List.range'_eq_map_range, List.map_map]
        simp [Function.comp_def]
      · refine List.map_congr_left fun r _ => List.map_congr_left fun z _ => ?_
        show g _ = g _
        congr 1
        rw [Nat.succ_mul]
        omega

theorem runs_range (g : Nat → α) (n k : Nat) :
    runs k n ((List.range (n * k)).map g)
      = (List.range n).map fun r =>
          (List.range k).map fun z => g (r * k + z) := by
  rw [List.range_eq_range', runs_range']
  simp

/-- Rows of one length, joined. -/
theorem flatten_range (g : Nat → Nat → α) (k : Nat) :
    ∀ n : Nat, ((List.range n).map fun r => (List.range k).map (g r)).flatten
      = (List.range (n * k)).map fun i => g (i / k) (i % k)
  | 0 => by simp
  | n + 1 => by
      rw [List.range_succ, List.map_append, List.flatten_append,
        flatten_range g k n, Nat.succ_mul, List.range_add, List.map_append,
        List.map_map]
      congr 1
      simp only [List.map_cons, List.map_nil, List.flatten_cons,
        List.flatten_nil, List.append_nil]
      refine List.map_congr_left fun z hz => ?_
      have hz := List.mem_range.1 hz
      show g n z = g ((n * k + z) / k) ((n * k + z) % k)
      rw [div_position hz, mod_position hz]

namespace Tensor

variable {lead : Shape} {w : Nat} {f g : Nat → Nat → α}

-- ========================================================= rows of sheets

theorem map_sheet {β : Type} (op : α → β) :
    (sheet lead w f).map op = sheet lead w fun x z => op (f x z) := by
  refine Tensor.ext rfl ?_
  simp [map, sheet, Function.comp_def]

/-- The element at a flat position. -/
theorem getElem?_sheet {i : Nat} (hi : i < lead.size * w) :
    (sheet lead w f).data[i]? = some (f (i / w) (i % w)) := by
  rw [sheet, List.getElem?_toArray, List.getElem?_map,
    List.getElem?_range hi, Option.map_some]

/-- No element lies behind the last one. -/
theorem getElem?_sheet_of_le {i : Nat} (hi : lead.size * w ≤ i) :
    (sheet lead w f).data[i]? = none :=
  Array.getElem?_eq_none (size_sheet.symm ▸ hi)

/-- A sheet with another element at a flat position. -/
theorem write_sheet {i : Nat} (hi : i < lead.size * w) (v : α) :
    (sheet lead w f).write i v
      = .ok (sheet lead w fun x z =>
          if x = i / w ∧ z = i % w then v else f x z) := by
  rw [write, if_pos (size_sheet.symm ▸ hi)]
  refine congrArg Except.ok (Tensor.ext rfl (Array.ext_getElem? fun j => ?_))
  show ((sheet lead w f).data.setIfInBounds i v)[j]? = _
  rw [Array.getElem?_setIfInBounds]
  by_cases hj : j < lead.size * w
  · rw [getElem?_sheet hj, getElem?_sheet hj, size_sheet]
    by_cases hij : i = j
    · subst hij
      simp [hj]
    · -- positions are told apart by their row and column
      have hne : ¬ (j / w = i / w ∧ j % w = i % w) := by
        rintro ⟨hrow, hcolumn⟩
        obtain ⟨-, -, hi'⟩ := exists_column hi
        obtain ⟨-, -, hj'⟩ := exists_column hj
        rw [hrow, hcolumn, hi'] at hj'
        exact hij hj'
      rw [if_neg hij, if_neg hne]
  · have hj := Nat.not_lt.1 hj
    rw [getElem?_sheet_of_le hj, getElem?_sheet_of_le hj, if_neg (by omega)]

/-- An element of a sheet at its coordinates. -/
theorem get_sheet {c : List Nat} {z : Nat} (hc : lead.Contains c)
    (hz : z < w) :
    (sheet lead w f).get (c ++ [z]) = .ok (f (Shape.dot c lead.strides) z) := by
  refine (get_eq_ok (hc.concat hz)).2 ?_
  rw [shape_sheet, hc.dot_concat, getElem?_sheet (position_lt hc.dot_lt hz),
    div_position hz, mod_position hz]

/-- The row of the tensor at a multi-index for the leading axes. -/
def HasRow (t : Tensor α) (c : List Nat) (row : Nat → α) : Prop :=
  ∀ z, t.shape.Contains (c ++ [z]) → t.get (c ++ [z]) = .ok (row z)

/-- Two tensors of one shape have the same row there. -/
def SameRow (c : List Nat) (s t : Tensor α) : Prop :=
  s.shape = t.shape
    ∧ ∀ z, s.shape.Contains (c ++ [z]) → s.get (c ++ [z]) = t.get (c ++ [z])

theorem hasRow_sheet {c : List Nat} {row : Nat → α} :
    (sheet lead w f).HasRow c row
      ↔ (lead.Contains c → ∀ z < w,
          f (Shape.dot c lead.strides) z = row z) := by
  constructor
  · intro h hc z hz
    exact Except.ok.inj ((get_sheet hc hz).symm.trans (h z (hc.concat hz)))
  · intro h z hz
    obtain ⟨hc, hz⟩ := Shape.contains_concat.1 hz
    rw [get_sheet hc hz, h hc z hz]

theorem sameRow_sheet {c : List Nat} :
    SameRow c (sheet lead w f) (sheet lead w g)
      ↔ (lead.Contains c → ∀ z < w, f (Shape.dot c lead.strides) z
          = g (Shape.dot c lead.strides) z) := by
  constructor
  · rintro ⟨-, h⟩ hc z hz
    have hget := h z (hc.concat hz)
    rw [get_sheet hc hz, get_sheet hc hz] at hget
    exact Except.ok.inj hget
  · intro h
    refine ⟨rfl, fun z hz => ?_⟩
    obtain ⟨hc, hz⟩ := Shape.contains_concat.1 hz
    rw [get_sheet hc hz, get_sheet hc hz, h hc z hz]

/-- The rows that hold elements. -/
theorem rows_sheet :
    (sheet lead w f).rows
      = (List.range (if w = 0 then 0 else lead.size)).map fun x =>
          (List.range w).map (f x) := by
  by_cases hw : w = 0
  · subst hw
    have hnone : Shape.filledRows (lead ++ [0]) = 0 := by
      simp [Shape.filledRows]
    rw [rows, shape_sheet, hnone]
    rfl
  · have hfilled : Shape.filledRows (lead ++ [w]) = lead.size := by
      rw [Shape.filledRows_eq_rowCount (by simpa using Nat.pos_of_ne_zero hw),
        Shape.rowCount_concat]
    rw [rows, shape_sheet, hfilled, Shape.width_concat, if_neg hw]
    show runs w lead.size ((List.range (lead.size * w)).map _) = _
    rw [runs_range]
    refine List.map_congr_left fun x _ => List.map_congr_left fun z hz => ?_
    have hz := List.mem_range.1 hz
    rw [div_position hz, mod_position hz]

/-- Rows that are given by a function, joined, make a sheet. -/
theorem flatten_sheet :
    (((List.range (if w = 0 then 0 else lead.size)).map fun x =>
        (List.range w).map (f x)).flatten).toArray
      = (sheet lead w f).data := by
  rw [flatten_range]
  show List.toArray _ = List.toArray _
  by_cases hw : w = 0
  · subst hw
    simp
  · rw [if_neg hw]

theorem mapRows_sheet {op : List α → List α}
    {hop : ∀ row, (op row).length = row.length}
    {fop : (Nat → α) → Nat → α}
    (h : ∀ f, op ((List.range w).map f) = (List.range w).map (fop f)) :
    (sheet lead w f).mapRows op hop = sheet lead w fun x => fop (f x) := by
  rw [mapRows, dif_neg (by simp)]
  refine Tensor.ext rfl ?_
  show (((sheet lead w f).rows.map op).flatten).toArray = _
  rw [rows_sheet, List.map_map, ← flatten_sheet]
  refine congrArg (fun rows => (List.flatten rows).toArray) ?_
  exact List.map_congr_left fun x _ => h (f x)

theorem zipRows_sheet {op : List α → List α → List α}
    {hop : ∀ a b, a.length = b.length → (op a b).length = a.length}
    {fop : (Nat → α) → (Nat → α) → Nat → α}
    (h : ∀ f g, op ((List.range w).map f) ((List.range w).map g)
      = (List.range w).map (fop f g))
    (hs : (sheet lead w f).shape = (sheet lead w g).shape) :
    (sheet lead w f).zipRows op hop (sheet lead w g) hs
      = sheet lead w fun x => fop (f x) (g x) := by
  rw [zipRows, dif_neg (by simp)]
  refine Tensor.ext rfl ?_
  show ((List.zipWith op (sheet lead w f).rows
    (sheet lead w g).rows).flatten).toArray = _
  rw [rows_sheet, rows_sheet, List.zipWith_map, List.zipWith_self,
    ← flatten_sheet]
  refine congrArg (fun rows => (List.flatten rows).toArray) ?_
  exact List.map_congr_left fun x _ => h (f x) (g x)

end Tensor
end MixtureAttention
