/-
The rows of a tensor along its last axis, and operations that work on a
row at a time. The elements are cut into runs of the last extent, and a
row operation returns as many elements as it is given, so the runs put
back together fill the shape again. Where the last extent is zero there
are no elements to cut, and no rows, whatever the other extents.
-/
import MixtureAttention.Tensor.Basic

namespace MixtureAttention

variable {α : Type}

/-- The first `n` runs of `width` elements. -/
def runs (width : Nat) : Nat → List α → List (List α)
  | 0, _ => []
  | n + 1, xs => xs.take width :: runs width n (xs.drop width)

theorem length_of_mem_runs {width : Nat} :
    ∀ {n : Nat} {xs run : List α}, n * width ≤ xs.length →
      run ∈ runs width n xs → run.length = width
  | 0, _, _, _, h => by simp [runs] at h
  | n + 1, xs, run, hn, h => by
    rw [Nat.succ_mul] at hn
    rcases List.mem_cons.1 h with rfl | h
    · rw [List.length_take]
      omega
    · exact length_of_mem_runs (by rw [List.length_drop]; omega) h

@[simp] theorem length_runs (width n : Nat) (xs : List α) :
    (runs width n xs).length = n := by
  induction n generalizing xs with
  | zero => rfl
  | succ n ih => simp [runs, ih]

/-- Lists of one length, joined, are as long as their number times it. -/
theorem length_flatten_const {width : Nat} :
    ∀ {rows : List (List α)}, (∀ row ∈ rows, row.length = width) →
      rows.flatten.length = rows.length * width
  | [], _ => by simp
  | row :: rows, h => by
    rw [List.flatten_cons, List.length_append,
      h row (List.mem_cons_self ..),
      length_flatten_const fun r hr => h r (List.mem_cons_of_mem _ hr),
      List.length_cons, Nat.succ_mul, Nat.add_comm]

/-- The number of elements of a shape, counted row by row. A shape without
axes is not cut into rows. -/
theorem Shape.filledRows_mul_width {s : Shape} (h : s ≠ []) :
    s.filledRows * s.width = s.size := by
  obtain ⟨lead, d, rfl⟩ : ∃ lead d, s = lead ++ [d] :=
    ⟨s.dropLast, s.getLast h, (List.dropLast_concat_getLast h).symm⟩
  cases d with
  | zero => simp [width]
  | succ d => simp [filledRows, width]

/-- Rows that are not empty are all filled. -/
theorem Shape.filledRows_eq_rowCount {s : Shape} (h : 0 < s.width) :
    s.filledRows = s.rowCount := by
  have hs : s ≠ [] := by
    rintro rfl
    simp [width] at h
  obtain ⟨lead, d, rfl⟩ : ∃ lead d, s = lead ++ [d] :=
    ⟨s.dropLast, s.getLast hs, (List.dropLast_concat_getLast hs).symm⟩
  have hd : 0 < d := by simpa [width] using h
  simp [filledRows, rowCount, width, Nat.max_eq_left hd, hd]

namespace Tensor

/-- The rows along the last axis that hold elements. -/
def rows (t : Tensor α) : List (List α) :=
  runs t.shape.width t.shape.filledRows t.data.toList

theorem length_of_mem_rows {t : Tensor α} (h : t.shape ≠ [])
    {row : List α} (hr : row ∈ t.rows) : row.length = t.shape.width :=
  length_of_mem_runs (Nat.le_of_eq (by
    rw [Array.length_toList, t.size_eq, Shape.filledRows_mul_width h])) hr

/-- Applies an operation that keeps the length of a row to every row. -/
def mapRows (f : List α → List α) (hf : ∀ row, (f row).length = row.length)
    (t : Tensor α) : Tensor α :=
  if h : t.shape = [] then t
  else
    { t with
      data := (t.rows.map f).flatten.toArray
      size_eq := by
        have hw : ∀ row ∈ t.rows.map f, row.length = t.shape.width := by
          intro row hrow
          obtain ⟨r, hr, rfl⟩ := List.mem_map.1 hrow
          rw [hf, length_of_mem_rows h hr]
        rw [List.size_toArray, length_flatten_const hw, List.length_map,
          rows, length_runs, Shape.filledRows_mul_width h] }

/-- Combining two lists of rows of one length pair by pair gives rows of
that length. -/
theorem length_of_mem_zipWith {width : Nat} {f : List α → List α → List α}
    (hf : ∀ a b, a.length = b.length → (f a b).length = a.length) :
    ∀ {rs ss : List (List α)}, (∀ r ∈ rs, r.length = width) →
      (∀ r ∈ ss, r.length = width) →
      ∀ row ∈ List.zipWith f rs ss, row.length = width
  | [], _, _, _, row, h => by simp at h
  | _ :: _, [], _, _, row, h => by simp at h
  | r :: rs, s :: ss, hr, hs, row, h => by
    rcases List.mem_cons.1 h with rfl | h
    · rw [hf r s ((hr r (List.mem_cons_self ..)).trans
        (hs s (List.mem_cons_self ..)).symm)]
      exact hr r (List.mem_cons_self ..)
    · exact length_of_mem_zipWith hf
        (fun r h => hr r (List.mem_cons_of_mem _ h))
        (fun s h => hs s (List.mem_cons_of_mem _ h)) row h

/-- Combines the rows of two tensors of one shape, pair by pair, by an
operation that keeps their length. -/
def zipRows (f : List α → List α → List α)
    (hf : ∀ a b, a.length = b.length → (f a b).length = a.length)
    (s t : Tensor α) (hst : s.shape = t.shape) : Tensor α :=
  if h : s.shape = [] then s
  else
    { shape := s.shape
      data := (List.zipWith f s.rows t.rows).flatten.toArray
      size_eq := by
        have hw := length_of_mem_zipWith hf
          (fun _ => length_of_mem_rows h)
          (fun _ hr => (length_of_mem_rows (hst ▸ h) hr).trans
            (congrArg Shape.width hst.symm))
        rw [List.size_toArray, length_flatten_const hw, List.length_zipWith,
          rows, rows, length_runs, length_runs, ← hst, Nat.min_self,
          Shape.filledRows_mul_width h] }

end Tensor
end MixtureAttention
