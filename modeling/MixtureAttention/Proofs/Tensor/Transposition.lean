/-
The transpose of a product. Transposing addresses the buffer as the columns
of all matrices, one after the other, and a second transpose has rows and
columns in exchanged roles; as a stack of matrices a tensor only has two of
its three coordinates exchanged (`transpose_stack`), so a second transpose
undoes the first.

The product of two transposes, in exchanged order, takes the same rows and
columns as the product of the tensors (`matmul_flipped`). Each of its sums
runs through the contracted axis in the same order, so all that has to
commute are the two factors of a term; nothing is asked of the addition.
-/
import Mathlib.Algebra.Ring.Int.Defs
import MixtureAttention.Proofs.Tensor.BatchedProduct

namespace MixtureAttention.Tensor

variable {α : Type} {lead : Shape} {m k n : Nat} {f g : Nat → Nat → Nat → α}

/-- An element of a stack at its coordinates. -/
theorem get_stack {c : List Nat} {i j : Nat} (hc : lead.Contains c)
    (hi : i < m) (hj : j < n) :
    (stack lead m n f).get (c ++ [i, j])
      = .ok (f (Shape.dot c lead.strides) i j) :=
  (get_eq_ok (hc.append hi hj)).2 (element?_stack hc hi hj)

variable [Zero α] [Add α] [Mul α]

/-- The product of the transposes, in exchanged order. -/
theorem matmul_flipped (hmul : ∀ x y : α, x * y = y * x) :
    (stack lead n k fun x y z => g x z y).matmul
        (stack lead k m fun x y z => f x z y)
      = .ok (stack lead n m fun x y z =>
          sumTo k fun i => f x z i * g (pick lead.size x) i y) := by
  rw [matmul_stack (.inl rfl)]
  refine congrArg Except.ok (stack_congr fun x y z hx _ _ => ?_)
  rw [pick_of_lt hx]
  simp only [hmul]

/-- Transposing exchanges the last two coordinates of every element and
leaves the leading ones alone, and a second transpose gives the tensor back.
Where the factors of a term commute, the transpose of a product is the
product of the transposes in exchanged order, element for element, whatever
the addition is. -/
theorem transpose_exchanges :
    (∀ t : Tensor α, 2 ≤ t.rank → ∃ (lead : Shape) (m n : Nat) (out : Tensor α),
      t.shape = lead ++ [m, n]
      ∧ t.transpose = .ok out ∧ out.shape = lead ++ [n, m]
      ∧ (∀ c i j, lead.Contains c → i < m → j < n → ∃ x,
          t.get (c ++ [i, j]) = .ok x ∧ out.get (c ++ [j, i]) = .ok x)
      ∧ out.transpose = .ok t)
    ∧ ((∀ x y : α, x * y = y * x) → ∀ (a b : Tensor α) lead m k n,
        a.shape = lead ++ [m, k] → b.shape = lead ++ [k, n] →
          ∃ product flipped left right,
            a.matmul b = .ok product ∧ product.transpose = .ok flipped
            ∧ a.transpose = .ok left ∧ b.transpose = .ok right
            ∧ right.matmul left = .ok flipped) := by
  constructor
  · intro t hrank
    obtain ⟨r, hr⟩ := Nat.exists_eq_add_of_le' hrank
    obtain ⟨lead, m, n, hs, -⟩ := Shape.exists_append_two hr
    obtain ⟨f, rfl⟩ := exists_stack hs
    refine ⟨lead, m, n, _, rfl, transpose_stack, rfl, fun c i j hc hi hj => ?_,
      transpose_stack⟩
    exact ⟨_, get_stack hc hi hj, get_stack hc hj hi⟩
  · intro hmul a b lead m k n ha hb
    obtain ⟨f, rfl⟩ := exists_stack ha
    obtain ⟨g, rfl⟩ := exists_stack hb
    exact ⟨_, _, _, _, matmul_stack (.inl rfl), transpose_stack,
      transpose_stack, transpose_stack, matmul_flipped hmul⟩

/-- Two rows of three, `1 2 3` and `4 5 6`, and the column `1 0 2`. -/
theorem transpose_exchanges_two_rows :
    let rows : Tensor Int := .rowMajor [1, 2, 3] #[1, 2, 3, 4, 5, 6] rfl
    let column : Tensor Int := .rowMajor [1, 3, 1] #[1, 0, 2] rfl
    (∃ out, rows.transpose = .ok out ∧ out.get [0, 2, 1] = .ok 6
        ∧ out.transpose = .ok rows)
      ∧ ∃ product flipped left right,
          rows.matmul column = .ok product ∧ product.transpose = .ok flipped
          ∧ rows.transpose = .ok left ∧ column.transpose = .ok right
          ∧ right.matmul left = .ok flipped := by
  intro rows column
  constructor
  · obtain ⟨lead, m, n, out, hs, hout, -, hget, hback⟩ :=
      transpose_exchanges.1 rows (by decide)
    -- the shape is only split in one way
    obtain ⟨rfl, rfl, rfl⟩ : lead = [1] ∧ m = 2 ∧ n = 3 := by
      have hmatrix := congrArg Shape.matrix? hs
      rw [Shape.matrix?_append] at hmatrix
      cases hmatrix
      exact ⟨rfl, rfl, rfl⟩
    obtain ⟨x, hx, hflipped⟩ :=
      hget [0] 1 2 ⟨by decide, trivial⟩ (by decide) (by decide)
    cases hx
    exact ⟨out, hout, hflipped, hback⟩
  · exact transpose_exchanges.2 Int.mul_comm rows column [1] 2 3 1 rfl rfl

end MixtureAttention.Tensor
