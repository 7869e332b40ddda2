/-
Matrix products of cubes, and the two adjoints of the product. Cubes are
stacks of matrices, and what is known of stacks is read here for the four
axes of a layer's buffers: either there is one right matrix for each batch
entry, or one right matrix serves the whole batch.
-/
import MixtureAttention.Proofs.Tensor.Stack

namespace MixtureAttention.Tensor

variable {α : Type} {b b' l n m : Nat} {f g : Nat → Nat → Nat → α}

/-- The batches of two cubes agree, or the right one has a single entry. -/
theorem serves_batch (hb : b' = b ∨ b' = 1) : Shape.Serves [b', 1] [b, 1] :=
  hb.imp (fun h => by rw [h]) fun h => ⟨rfl, by simp [h]⟩

theorem transpose_cube :
    (cube b l n f).transpose = .ok (cube b n l fun x y z => f x z y) := by
  rw [cube_eq_stack, cube_eq_stack]
  exact transpose_stack

variable [Zero α] [Add α] [Mul α]

-- =============================================================== products

theorem matmul_cube (hb : b' = b ∨ b' = 1) :
    (cube b l n f).matmul (cube b' n m g)
      = .ok (cube b l m fun x y z =>
          sumTo n fun i => f x y i * g (pick b' x) i z) := by
  have hsize : Shape.size [b', 1] = b' := by simp
  rw [cube_eq_stack, cube_eq_stack, cube_eq_stack,
    matmul_stack (serves_batch hb), hsize]

/-- One right matrix for each batch entry. -/
theorem matmul_batch :
    (cube b l n f).matmul (cube b n m g)
      = .ok (cube b l m fun x y z => sumTo n fun i => f x y i * g x i z) := by
  rw [matmul_cube (.inl rfl)]
  refine congrArg _ (cube_congr fun x y z hx _ _ => ?_)
  rw [pick_of_lt hx]

/-- One right matrix for the whole batch. -/
theorem matmul_shared :
    (cube b l n f).matmul (cube 1 n m g)
      = .ok (cube b l m fun x y z => sumTo n fun i => f x y i * g 0 i z) := by
  rw [matmul_cube (.inr rfl)]
  rfl

-- =============================================================== adjoints

theorem matmulGradLeft_batch :
    (cube b l m f).matmulGradLeft (cube b n m g)
      = .ok (cube b l n fun x y z => sumTo m fun i => f x y i * g x z i) := by
  rw [matmulGradLeft, transpose_cube, ok_bind, matmul_batch]

theorem matmulGradLeft_shared :
    (cube b l m f).matmulGradLeft (cube 1 n m g)
      = .ok (cube b l n fun x y z => sumTo m fun i => f x y i * g 0 z i) := by
  rw [matmulGradLeft, transpose_cube, ok_bind, matmul_shared]

/-- The adjoint with respect to a right factor of its own for each batch
entry. -/
theorem matmulGradRight_batch :
    (cube b l n f).matmulGradRight .release (cube b l m g) [b, 1, n, m]
      = .ok (cube b n m fun x y z => sumTo l fun i => f x i y * g x i z) := by
  rw [cube_eq_stack, cube_eq_stack, cube_eq_stack]
  exact matmulGradRight_stack_batch

/-- The adjoint with respect to one right factor for the whole batch, whose
rows are single. -/
theorem matmulGradRight_shared :
    (cube b 1 n f).matmulGradRight .release (cube b 1 m g) [1, 1, n, m]
      = .ok (cube 1 n m fun _ y z => sumTo b fun i => f i 0 y * g i 0 z) := by
  by_cases hb : b = 1
  · subst hb
    rw [matmulGradRight_batch]
    refine congrArg _ (cube_congr fun x y z hx _ _ => sumTo_congr ?_)
    intro i hi
    have hx : x = 0 := by omega
    have hi : i = 0 := by omega
    rw [hx, hi]
  · have hne : [1, 1] ≠ [b, 1] := fun h => hb (List.cons.inj h).1.symm
    have hones : ∀ d ∈ [1, 1], d = 1 := by simp
    rw [cube_eq_stack, cube_eq_stack, cube_eq_stack]
    refine (matmulGradRight_stack_shared hne hones).trans ?_
    simp [Nat.mod_one]

end MixtureAttention.Tensor
