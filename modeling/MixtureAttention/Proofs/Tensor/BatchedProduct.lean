/-
The matrix product by multi-indices. The product runs over one flat counter
of rows and finds its factors by division and remainder, with one batch
offset on the left and another, or none, on the right. As stacks of matrices
the operands say what it computes (`multiply_stack`); here that is read at
the multi-indices of the operands themselves, and the product with a single
right matrix is compared to the product with as many copies of it
(`multiply_widened`): the elements are the same sums, in the same order.

Nothing is asked of the extents. Without a contracted extent every sum is
empty, and an empty product has no elements to be wrong.
-/
import MixtureAttention.Proofs.Tensor.Stretching

namespace MixtureAttention

variable {α : Type}

namespace Shape

variable {lead lead' : Shape} {c : List Nat} {m n y z : Nat}

theorem Serves.stretches (h : lead'.Serves lead) : lead'.Stretches lead := by
  by_cases hsame : lead' = lead
  · exact hsame ▸ List.forall₂_same.2 fun _ _ => .inr rfl
  · refine List.forall₂_iff_get.2 ⟨h.length, fun i hi _ => .inl ?_⟩
    exact h.ones hsame _ (List.get_mem lead' ⟨i, hi⟩)

/-- The matrices themselves are not stretched. -/
theorem Serves.stretches_append (h : lead'.Serves lead) :
    (lead' ++ [m, n]).Stretches (lead ++ [m, n]) :=
  List.rel_append h.stretches (List.forall₂_same.2 fun _ _ => .inr rfl)

/-- Before a pinned multi-index as many matrices are counted as before the
multi-index, or none where there is a single matrix. -/
theorem Serves.dot_pinned (h : lead'.Serves lead) (hc : lead.Contains c) :
    dot (lead'.pinned c) lead'.strides
      = Tensor.pick lead'.size (dot c lead.strides) := by
  by_cases hsame : lead' = lead
  · rw [hsame, hc.pinned, Tensor.pick_of_lt hc.dot_lt]
  · have hone := size_of_ones (h.ones hsame)
    have hlt := (h.stretches.contains_pinned hc).dot_lt
    rw [hone] at hlt ⊢
    exact Nat.lt_one_iff.1 hlt

theorem Serves.pinned_append (h : lead'.Serves lead) (hc : lead.Contains c)
    (hy : y < m) (hz : z < n) :
    (lead' ++ [m, n]).pinned (c ++ [y, z]) = lead'.pinned c ++ [y, z] := by
  unfold pinned
  rw [List.zipWith_append (h.length.trans hc.length.symm)]
  simp [Tensor.pick_of_lt hy, Tensor.pick_of_lt hz]

/-- Where every axis has extent one, every axis is pinned. -/
theorem pinned_of_ones : ∀ {s : Shape} {c : List Nat},
    s.length = c.length → (∀ d ∈ s, d = 1) →
      s.pinned c = List.replicate c.length 0
  | [], [], _, _ => rfl
  | d :: ds, i :: is, hlen, hones => by
      obtain rfl : d = 1 := hones d List.mem_cons_self
      exact congrArg (List.cons 0)
        (pinned_of_ones (Nat.succ.inj hlen) fun e he =>
          hones e (List.mem_cons_of_mem 1 he))

end Shape

namespace Tensor

open Flat (element?)

variable {lead lead' : Shape} {c : List Nat} {m n k y z : Nat}
  {f g : Nat → Nat → Nat → α}

-- ===================================================== elements of stacks

/-- The leading coordinates count the matrices of a stack. -/
theorem element?_stack (hc : lead.Contains c) (hy : y < m) (hz : z < n) :
    element? (stack lead m n f).data (lead ++ [m, n]) (c ++ [y, z])
      = some (f (Shape.dot c lead.strides) y z) := by
  rw [element?, hc.dot_append, data_stack]
  exact Flat.fetch_eq_ok.1 (fetch_cube hc.dot_lt hy hz)

/-- What a tensor is stretched to holds the stretched buffer. -/
theorem expand_of_broadcastTo {t v : Tensor α} {target : Shape}
    (h : t.broadcastTo target = .ok v) :
    Flat.expand t.data t.shape target = .ok v.data := by
  obtain ⟨data, hdata, hof⟩ := exists_of_bind h
  rw [of_liftFlat_ok hdata, (of_ofArray_ok hof).2]

/-- Stretching the leading axes of a stack copies its matrices. -/
theorem broadcastTo_stack [Zero α] (h : lead'.Serves lead) :
    (stack lead' m n f).broadcastTo (lead ++ [m, n])
      = .ok (stack lead m n fun x y z => f (pick lead'.size x) y z) := by
  have hstretch := h.stretches_append (m := m) (n := n)
  obtain ⟨wide, hwide, hshape⟩ :=
    (decided_broadcastTo (stack lead' m n f) _).accepted hstretch
  obtain ⟨data, hdata, hof⟩ := exists_of_bind hwide
  have hdata := of_liftFlat_ok hdata
  obtain ⟨copies, rfl⟩ := exists_stack hshape
  have hkept : (stack lead m n copies).data = data := (of_ofArray_ok hof).2
  rw [hwide]
  refine congrArg Except.ok (stack_congr fun x y z hx hy hz => ?_)
  -- the matrix numbered `x` has a multi-index, and both stacks hold its copy
  have hc := Shape.contains_coordinates hx
  obtain ⟨a, ha, hcopy⟩ :=
    Flat.expand_at hstretch hdata (hc.append hy hz)
  rw [shape_stack, h.pinned_append hc hy hz,
    element?_stack (h.stretches.contains_pinned hc) hy hz,
    h.dot_pinned hc, Shape.dot_coordinates hx] at ha
  rw [← hkept, element?_stack hc hy hz, Shape.dot_coordinates hx] at hcopy
  exact Option.some.inj (hcopy.trans ha.symm)

-- ============================================================== products

variable [Zero α] [Add α] [Mul α]

/-- The product with a right matrix for all entries is the product with a
copy for each. -/
theorem multiply_widened (h : lead'.Serves lead) :
    Flat.multiply (stack lead m k f).data
        (stack lead k n fun x y z => g (pick lead'.size x) y z).data
        (lead ++ [m, k]) (lead ++ [k, n])
      = Flat.multiply (stack lead m k f).data (stack lead' k n g).data
          (lead ++ [m, k]) (lead' ++ [k, n]) := by
  rw [multiply_stack (.inl rfl), multiply_stack h]
  refine congrArg (Except.ok ∘ data) (stack_congr fun x y z hx _ _ => ?_)
  rw [pick_of_lt hx]

end Tensor

namespace Flat

variable {lead lead' : Shape} {m k k' n : Nat}

-- ============================================================== refusals

/-- Two contracted extents that differ are refused, whatever the leading
axes are, and both are named. -/
theorem ProductPlan.inner_refused (hrank : lead'.length = lead.length)
    (h : k ≠ k') :
    ProductPlan.of (lead ++ [m, k]) (lead' ++ [k', n])
      = .error (.shapeMismatch [k] [k']) := by
  have hlen : (lead' ++ [k', n]).length = (lead ++ [m, k]).length := by
    simp [hrank]
  rw [ProductPlan.of, Shape.matrix?_append, Shape.matrix?_append]
  dsimp only
  rw [if_neg (not_not_intro hlen), if_pos h]

/-- Leading axes that neither agree nor are all single are refused, and both
shapes are named. -/
theorem ProductPlan.lead_refused (hrank : lead'.length = lead.length)
    (h : ¬ lead'.Serves lead) :
    ProductPlan.of (lead ++ [m, k]) (lead' ++ [k, n])
      = .error (.shapeMismatch (lead ++ [m, k]) (lead' ++ [k, n])) := by
  have hlen : (lead' ++ [k, n]).length = (lead ++ [m, k]).length := by
    simp [hrank]
  have hsame : ¬ lead = lead' := fun hsame => h (.inl hsame.symm)
  have hones : ¬ lead'.all (· = 1) = true := fun hones =>
    h (.inr ⟨hrank, by simpa using hones⟩)
  rw [ProductPlan.of, Shape.matrix?_append, Shape.matrix?_append]
  dsimp only
  rw [if_neg (not_not_intro hlen), if_neg (not_not_intro rfl),
    if_neg hsame, if_neg hones]

end Flat
end MixtureAttention
