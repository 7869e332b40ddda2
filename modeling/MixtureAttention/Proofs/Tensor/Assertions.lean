/-
Assertions in debug builds. Where one right factor serves a whole batch, its
adjoint runs the contraction through all rows of the batch, and takes their
number from the elements: so many rows of the last extent are filled. A debug
build compares that number with the extents before it goes on. An assertion
that does not hold ends the run apart from every answer to the caller
(`TensorError.asserted`).

The two numbers differ exactly where the rows are empty and there are some
(`filledRows_append_eq_iff`), because empty rows leave no elements to count.
There a debug build stops; everywhere else it answers what a release build
answers. `flattened_rows` says both for factors of any extents.
-/
import MixtureAttention.Proofs.Tensor.Acceptance

namespace MixtureAttention

variable {α : Type}

-- ======================================================== counts of rows

namespace Shape

variable {lead lead' : Shape} {m k n : Nat}

@[simp] theorem statedRows_append :
    statedRows (lead ++ [m, n]) = lead.size * m := by
  rw [statedRows, lead_append, dropLast_append_two]
  simp [width]

theorem filledRows_append_zero : filledRows (lead ++ [m, 0]) = 0 := by
  simp [filledRows]

/-- Rows are counted right unless they are empty and there are some. -/
theorem filledRows_append_eq_iff :
    filledRows (lead ++ [m, k]) = lead.size * m
      ↔ (k = 0 → lead.size * m = 0) := by
  rcases Nat.eq_zero_or_pos k with rfl | hk
  · rw [filledRows_append_zero]
    exact ⟨fun h _ => h.symm, fun h => (h rfl).symm⟩
  · exact ⟨fun _ hzero => absurd hzero (Nat.ne_of_gt hk),
      fun _ => filledRows_append hk⟩

/-- Rows that are counted wrong are empty, and none is counted. -/
theorem empty_of_miscounted {s : Shape} {r : Nat} (hs : s.length = r + 2)
    (h : s.filledRows ≠ s.statedRows) :
    s.width = 0 ∧ s.filledRows = 0 ∧ s.statedRows ≠ 0 := by
  obtain ⟨lead, m, k, rfl, -⟩ := exists_append_two hs
  rw [statedRows_append] at h ⊢
  obtain ⟨rfl, hrows⟩ : k = 0 ∧ size lead * m ≠ 0 := by
    by_contra hne
    exact h (filledRows_append_eq_iff.2 fun hk => by
      by_contra hsome
      exact hne ⟨hk, hsome⟩)
  exact ⟨width_append, filledRows_append_zero, hrows⟩

end Shape

namespace Tensor

open Shape

-- ============================================= the adjoint in a debug build

section

variable [Zero α] [Add α] [Mul α]

/-- The shapes pass every check before the rows of the batch are run
through: a single right factor served it all. -/
structure Flattens (left dout : Tensor α) (rightShape : Shape) : Prop where
  rows : dout.shape.dropLast = left.shape.dropLast
  cols : rightShape.lastTwo = [left.shape.width, dout.shape.width]
  lead : rightShape.lead ≠ left.shape.lead
  ones : ∀ d ∈ rightShape.lead, d = 1

variable {t u : Tensor α} {s lead lead' : Shape} {m k n : Nat}

omit [Zero α] [Add α] [Mul α] in
theorem flattens_append (ht : t.shape = lead ++ [m, k])
    (hu : u.shape = lead ++ [m, n]) :
    Flattens t u (lead' ++ [k, n]) ↔ lead' ≠ lead ∧ ∀ d ∈ lead', d = 1 := by
  constructor
  · intro h
    have hlead := h.lead
    have hones := h.ones
    rw [ht, lead_append, lead_append] at hlead
    rw [lead_append] at hones
    exact ⟨hlead, hones⟩
  · rintro ⟨hlead, hones⟩
    refine ⟨?_, ?_, ?_, ?_⟩
    · rw [ht, hu, dropLast_append_two, dropLast_append_two]
    · rw [ht, hu, lastTwo_append, width_append, width_append]
    · rwa [ht, lead_append, lead_append]
    · rwa [lead_append]

/-- Where the rows are counted wrong a debug build stops. -/
theorem matmulGradRight_debug_of_flattens (h : Flattens t u s)
    (hrows : t.shape.filledRows ≠ t.shape.statedRows) :
    t.matmulGradRight .debug u s
      = .error (.asserted t.shape.filledRows t.shape.statedRows) := by
  have hones : ¬ s.lead.any (· ≠ 1) = true := by simpa using h.ones
  unfold matmulGradRight
  dsimp only
  rw [if_neg (not_not_intro h.rows), if_neg (not_not_intro h.cols),
    if_neg h.lead, if_neg hones, Build.assertEq, if_neg hrows]
  rfl

/-- Everywhere else the assertion makes no difference. -/
theorem matmulGradRight_debug_of_rows
    (h : Flattens t u s → t.shape.filledRows = t.shape.statedRows) :
    t.matmulGradRight .debug u s = t.matmulGradRight .release u s := by
  unfold matmulGradRight
  dsimp only
  by_cases hrows : u.shape.dropLast = t.shape.dropLast
  · rw [if_neg (not_not_intro hrows), if_neg (not_not_intro hrows)]
    by_cases hcols : s.lastTwo = [t.shape.width, u.shape.width]
    · rw [if_neg (not_not_intro hcols), if_neg (not_not_intro hcols)]
      by_cases hlead : s.lead = t.shape.lead
      · rw [if_pos hlead, if_pos hlead]
      · rw [if_neg hlead, if_neg hlead]
        by_cases hones : s.lead.any (· ≠ 1) = true
        · rw [if_pos hones, if_pos hones]
        · have hsame := h ⟨hrows, hcols, hlead, by simpa using hones⟩
          rw [if_neg hones, if_neg hones, hsame, Build.assertEq_self,
            Build.assertEq_self]
    · rw [if_pos hcols, if_pos hcols]
      rfl
  · rw [if_pos hrows, if_pos hrows]
    rfl

/-- An adjoint in a debug build is the one in a release build, or its rows
are run through and counted wrong. -/
theorem matmulGradRight_debug_cases (t u : Tensor α) (s : Shape) :
    t.matmulGradRight .debug u s = t.matmulGradRight .release u s
      ∨ Flattens t u s ∧ t.shape.filledRows ≠ t.shape.statedRows
        ∧ t.matmulGradRight .debug u s
          = .error (.asserted t.shape.filledRows t.shape.statedRows) := by
  by_cases h : Flattens t u s ∧ t.shape.filledRows ≠ t.shape.statedRows
  · exact .inr ⟨h.1, h.2, matmulGradRight_debug_of_flattens h.1 h.2⟩
  · refine .inl (matmulGradRight_debug_of_rows fun hflattens => ?_)
    by_contra hne
    exact h ⟨hflattens, hne⟩

end

variable [Scalar α] {t u : Tensor α} {lead lead' : Shape} {m k n : Nat}

/-- Shapes that are flattened always have an adjoint. -/
theorem matmulGradRight_of_flattens (ht : t.shape = lead ++ [m, k])
    (hu : u.shape = lead ++ [m, n]) (hrank : lead'.length = lead.length)
    (hones : ∀ d ∈ lead', d = 1) :
    Returns (fun v => v.shape = lead' ++ [k, n])
      (t.matmulGradRight .release u (lead' ++ [k, n])) :=
  (decided_matmulGradRight ht hrank u).accepted ⟨rfl, hu, .inr ⟨hrank, hones⟩⟩

/-- The rows of a batch that is run through, by its extents: the buffers hold
as many as are counted, or there are rows and they are empty. Then a debug
build stops. -/
theorem flattened_rows (ht : t.shape = lead ++ [m, k])
    (hu : u.shape = lead ++ [m, n]) (hlead : lead' ≠ lead)
    (hones : ∀ d ∈ lead', d = 1) :
    t.data.size = t.shape.filledRows * k
      ∧ (t.shape.filledRows = lead.size * m ↔ (k = 0 → lead.size * m = 0))
      ∧ (u.data.size = t.shape.filledRows * n
          ↔ (k = 0 → lead.size * m * n = 0))
      ∧ t.matmulGradRight .debug u (lead' ++ [k, n])
          = if k = 0 ∧ lead.size * m ≠ 0 then
              .error (.asserted 0 (lead.size * m))
            else t.matmulGradRight .release u (lead' ++ [k, n]) := by
  have hleft : t.data.size = lead.size * m * k := by
    rw [t.size_eq, ht, size_append]
    simp [Nat.mul_assoc]
  have hright : u.data.size = lead.size * m * n := by
    rw [u.size_eq, hu, size_append]
    simp [Nat.mul_assoc]
  have hstated : t.shape.statedRows = lead.size * m := by
    rw [ht, statedRows_append]
  have hcount : t.shape.filledRows = lead.size * m
      ↔ (k = 0 → lead.size * m = 0) := by
    rw [ht]
    exact filledRows_append_eq_iff
  have hfilled : k = 0 → t.shape.filledRows = 0 := by
    rintro rfl
    rw [ht, filledRows_append_zero]
  -- without columns no row is counted; otherwise the count is right
  refine ⟨?_, hcount, ?_, ?_⟩
  · rcases Nat.eq_zero_or_pos k with rfl | hk
    · rw [hleft, Nat.mul_zero, Nat.mul_zero]
    · rw [hleft, ht, filledRows_append hk]
  · rw [hright]
    rcases Nat.eq_zero_or_pos k with hk | hk
    · rw [hfilled hk, Nat.zero_mul]
      exact ⟨fun h _ => h, fun h => h hk⟩
    · rw [hcount.2 fun hzero => absurd hzero (Nat.ne_of_gt hk)]
      exact ⟨fun _ hzero => absurd hzero (Nat.ne_of_gt hk), fun _ => rfl⟩
  · split
    · next hempty =>
        have hflattens : Flattens t u (lead' ++ [k, n]) :=
          (flattens_append ht hu).2 ⟨hlead, hones⟩
        have hrows : t.shape.filledRows ≠ t.shape.statedRows := by
          rw [hfilled hempty.1, hstated]
          exact Ne.symm hempty.2
        rw [matmulGradRight_debug_of_flattens hflattens hrows,
          hfilled hempty.1, hstated]
    · next hfull =>
        refine matmulGradRight_debug_of_rows fun _ => ?_
        rw [hstated]
        exact hcount.2 fun hk => by
          by_contra hne
          exact hfull ⟨hk, hne⟩

end Tensor
end MixtureAttention
