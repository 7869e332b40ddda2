/-
Tensors of any rank as stacks of matrices. A product, a transpose and the
two adjoints of a product see the leading axes as one flat batch, so a
tensor that they accept is given by a shape for the leading axes and, like a
cube, by a function of three coordinates: which matrix, which row, which
column. `exists_stack` turns a tensor into such a stack, and each operation
becomes a formula in the coordinates.

The shapes of two factors are settled once, in `Serves` and `plan_append`,
and read back from a product that succeeds in `matmul_ok`.
-/
import MixtureAttention.Proofs.Tensor.Cube
import MixtureAttention.Tensor.Product
import MixtureAttention.Tensor.Rows

namespace MixtureAttention

variable {α : Type}

-- ==================================================== shapes of matrices

namespace Shape

variable {lead lead' s : Shape} {m n : Nat}

/-- Two axes behind any others are those of a matrix. -/
@[simp] theorem matrix?_append :
    matrix? (lead ++ [m, n]) = some (lead, m, n) := by
  simp [matrix?]

/-- And only so a shape is one of matrices. -/
theorem eq_append_of_matrix? (h : s.matrix? = some (lead, m, n)) :
    s = lead ++ [m, n] := by
  unfold matrix? at h
  split at h
  · next cols rows rest hrev =>
    injection h with h
    injection h with hlead h
    injection h with hrows hcols
    subst hlead hrows hcols
    rw [← List.reverse_reverse s, hrev]
    simp
  · cases h

@[simp] theorem dropLast_append_two :
    (lead ++ [m, n]).dropLast = lead ++ [m] := by
  rw [show lead ++ [m, n] = (lead ++ [m]) ++ [n] by simp,
    List.dropLast_concat]

@[simp] theorem lead_append : Shape.lead (lead ++ [m, n]) = lead := by
  rw [Shape.lead, dropLast_append_two, List.dropLast_concat]

@[simp] theorem lastTwo_append :
    Shape.lastTwo (lead ++ [m, n]) = [m, n] := by
  simp [lastTwo]

@[simp] theorem width_append : width (lead ++ [m, n]) = n := by
  simp [width]

theorem withWidth_append (w : Nat) :
    withWidth (lead ++ [m, n]) w = lead ++ [m, w] := by
  simp [withWidth]

theorem transposed_append :
    transposed (lead ++ [m, n]) = lead ++ [n, m] := by
  simp [transposed]

/-- The rows of all matrices; where the rows are empty, none is counted. -/
theorem filledRows_append (hn : 0 < n) :
    filledRows (lead ++ [m, n]) = lead.size * m := by
  rw [filledRows_eq_rowCount (by simpa using hn), rowCount,
    dropLast_append_two]
  simp

/-- Matrices with the leading axes `lead'` can be the right factors of
matrices with the leading axes `lead`: one for each of them, or a single one
for them all. -/
def Serves (lead' lead : Shape) : Prop :=
  lead' = lead ∨ lead'.length = lead.length ∧ ∀ d ∈ lead', d = 1

/-- Leading axes of a single element hold a single matrix. -/
theorem size_of_ones (h : ∀ d ∈ lead, d = 1) : lead.size = 1 := by
  induction lead with
  | nil => rfl
  | cons d ds ih =>
    rw [size_cons, h d (by simp), ih fun e he => h e (by simp [he])]

/-- A shape that serves another has its rank. -/
theorem Serves.length (h : Serves lead' lead) :
    lead'.length = lead.length :=
  h.elim (congrArg List.length) And.left

/-- One that is not the same has a single matrix. -/
theorem Serves.ones (h : Serves lead' lead) (hne : lead' ≠ lead) :
    ∀ d ∈ lead', d = 1 := (h.resolve_left hne).2

/-- Seen as one flat batch, the right factors are as many or single. -/
theorem Serves.size (h : Serves lead' lead) :
    lead'.size = lead.size ∨ lead'.size = 1 :=
  h.elim (fun h => .inl (congrArg Shape.size h)) fun h =>
    .inr (size_of_ones h.2)

end Shape

namespace Flat

variable {lead lead' left right : Shape} {m k n : Nat}

/-- What a product is planned as: so many matrices, their extents, and whether
the right one is shared. -/
theorem ProductPlan.of_append (h : lead'.Serves lead) :
    ProductPlan.of (lead ++ [m, k]) (lead' ++ [k, n])
      = .ok ⟨lead.size, m, k, n, decide (lead' ≠ lead)⟩ := by
  have hlen : (lead' ++ [k, n]).length = (lead ++ [m, k]).length := by
    simp [h.length]
  unfold ProductPlan.of
  rw [Shape.matrix?_append, Shape.matrix?_append]
  simp only [hlen, ne_eq, not_true_eq_false, if_false]
  by_cases hsame : lead' = lead
  · simp [hsame]
  · have hones : lead'.all (· = 1) = true := by
      simpa using h.ones hsame
    rw [if_neg (Ne.symm hsame), if_pos hones]
    simp [hsame]

/-- Two shapes whose product has a plan. -/
theorem ProductPlan.of_eq_ok {p : ProductPlan}
    (h : ProductPlan.of left right = .ok p) :
    ∃ lead lead' m k n, left = lead ++ [m, k] ∧ right = lead' ++ [k, n]
      ∧ Shape.Serves lead' lead := by
  unfold ProductPlan.of at h
  split at h
  · cases h
  · next lead m k hleft =>
    split at h
    · cases h
    · next hlen =>
      split at h
      · cases h
      · next lead' k' n hright =>
        have hl := Shape.eq_append_of_matrix? hleft
        have hr := Shape.eq_append_of_matrix? hright
        split at h
        · cases h
        · next hk =>
          obtain rfl : k = k' := Decidable.not_not.1 hk
          refine ⟨lead, lead', m, k, n, hl, hr, ?_⟩
          split at h
          · next hsame => exact .inl hsame.symm
          · split at h
            · next hones =>
              refine .inr ⟨?_, by simpa using hones⟩
              simpa [hl, hr] using hlen
            · cases h

end Flat

namespace Tensor

-- ================================================================ stacks

/-- The tensor whose last two axes are `m` and `n` and whose matrices,
counted through the leading axes, are given by `f`. -/
def stack (lead : Shape) (m n : Nat) (f : Nat → Nat → Nat → α) :
    Tensor α where
  shape := lead ++ [m, n]
  data := (cube lead.size m n f).data
  size_eq := by simp [Nat.mul_assoc]

variable {lead lead' : Shape} {m n k : Nat} {f g : Nat → Nat → Nat → α}

@[simp] theorem shape_stack : (stack lead m n f).shape = lead ++ [m, n] :=
  rfl

/-- A stack has the elements of a cube with the leading axes taken together. -/
theorem data_stack :
    (stack lead m n f).data = (cube lead.size m n f).data := rfl

/-- There is an element for each matrix, row and column. -/
@[simp] theorem size_stack :
    (stack lead m n f).data.size = lead.size * m * n := size_cube

/-- A stack has no elements if one of the three extents is empty. -/
theorem data_stack_empty (h : lead.size * m * n = 0) :
    (stack lead m n f).data = #[] :=
  Array.eq_empty_of_size_eq_zero (size_stack.trans h)

/-- Only the coordinates in range are looked at. -/
theorem stack_congr
    (h : ∀ x y z, x < lead.size → y < m → z < n → f x y z = g x y z) :
    stack lead m n f = stack lead m n g :=
  Tensor.ext rfl (by rw [data_stack, data_stack, cube_congr h])

/-- A cube is a stack of matrices with two leading axes. -/
theorem cube_eq_stack : cube m n k f = stack [m, 1] n k f := by
  refine Tensor.ext rfl ?_
  simp [stack]

/-- Every tensor with two axes or more is a stack. -/
theorem exists_stack [Zero α] {t : Tensor α} (h : t.shape = lead ++ [m, n]) :
    ∃ f, t = stack lead m n f := by
  have hsize : t.data.size = Shape.size [lead.size, 1, m, n] := by
    rw [t.size_eq, h]
    simp
  let flat : Tensor α := rowMajor [lead.size, 1, m, n] t.data hsize
  have hflat : flat = cube lead.size m n flat.elem := eq_cube rfl
  refine ⟨flat.elem, Tensor.ext h ?_⟩
  rw [data_stack, ← hflat, data_rowMajor]

/-- The elements of a stack have its shape. -/
theorem ofArray_stack :
    ofArray (stack lead m n f).data (lead ++ [m, n])
      = .ok (stack lead m n f) :=
  dif_pos (stack lead m n f).size_eq

/-- The rows of all matrices under each other, as one matrix. -/
theorem data_stack_rows :
    (stack lead m n f).data
      = (stack [] (lead.size * m) n fun _ y z => f (y / m) (y % m) z).data := by
  show List.toArray _ = List.toArray _
  rw [Shape.size_nil, Nat.one_mul]
  refine congrArg List.toArray (List.map_congr_left fun i hi => ?_)
  have hi : i < n * (lead.size * m) := by
    rw [Nat.mul_comm]
    exact List.mem_range.1 hi
  rw [Nat.mod_eq_of_lt (Nat.div_lt_of_lt_mul hi)]

-- ============================================================= transpose

/-- Transposed on the bare buffer, rows and columns change places in every
matrix. -/
theorem flatTranspose_stack :
    Flat.transpose (stack lead m n f).data (lead ++ [m, n])
      = .ok (stack lead n m fun x y z => f x z y).data := by
  unfold Flat.transpose
  rw [Shape.matrix?_append]
  dsimp only
  rw [if_neg (fun h => h (stack lead m n f).size_eq), data_stack, data_stack]
  refine gather_cube (by simp [Nat.mul_assoc, Nat.mul_comm n m])
    fun x y z hx hy hz => ?_
  rw [div_position hz, mod_position hz, div_position hy, mod_position hy]
  rw [show x * m * n + z * n + y = (x * m + z) * n + y by
    rw [Nat.add_mul]]
  exact fetch_cube hx hz hy

/-- The tensor's transposition exchanges rows and columns of each sheet. -/
theorem transpose_stack :
    (stack lead m n f).transpose
      = .ok (stack lead n m fun x y z => f x z y) := by
  rw [transpose, shape_stack, flatTranspose_stack, Shape.transposed_append]
  exact ofArray_stack

-- ============================================================== products

variable [Zero α] [Add α] [Mul α]

/-- An element of a product is the sum over the contracted axis. A product
without elements looks at none of its factors. -/
theorem multiply_stack (h : lead'.Serves lead) :
    Flat.multiply (stack lead m k f).data (stack lead' k n g).data
        (lead ++ [m, k]) (lead' ++ [k, n])
      = .ok (stack lead m n fun x y z =>
          sumTo k fun i => f x y i * g (pick lead'.size x) i z).data := by
  unfold Flat.multiply
  rw [Flat.ProductPlan.of_append h, ok_bind]
  dsimp only
  by_cases hcount : lead.size * m * n = 0
  · rw [if_pos hcount, data_stack_empty hcount]
    rfl
  · rw [if_neg hcount, if_neg (fun h => h (stack lead' k n g).size_eq),
      data_stack, data_stack, data_stack]
    refine gather_cube rfl fun x y z hx hy hz => ?_
    refine total_eq_sumTo fun i hi => ?_
    have hleft : Flat.ProductPlan.leftPosition
        ⟨lead.size, m, k, n, decide (lead' ≠ lead)⟩ ((x * m + y) * n + z) i
        = (x * m + y) * k + i := by
      rw [Flat.ProductPlan.leftPosition, div_position hz]
    have hright : Flat.ProductPlan.rightPosition
        ⟨lead.size, m, k, n, decide (lead' ≠ lead)⟩ ((x * m + y) * n + z) i
        = (pick lead'.size x * k + i) * n + z := by
      rw [Flat.ProductPlan.rightPosition]
      dsimp only
      rw [div_position hz, mod_position hz, div_position hy]
      by_cases hsame : lead' = lead
      · rw [hsame, pick_of_lt hx, Nat.add_mul]
        simp
      · rw [Shape.size_of_ones (h.ones hsame)]
        simp [hsame]
    rw [hleft, hright, fetch_cube hx hy hi,
      fetch_cube (pick_lt hx h.size) hi hz]
    rfl

/-- The product of two stacks: a shared right factor is picked for every matrix
on the left. -/
theorem matmul_stack (h : lead'.Serves lead) :
    (stack lead m k f).matmul (stack lead' k n g)
      = .ok (stack lead m n fun x y z =>
          sumTo k fun i => f x y i * g (pick lead'.size x) i z) := by
  rw [matmul, shape_stack, shape_stack, multiply_stack h,
    Shape.width_append, Shape.withWidth_append]
  exact ofArray_stack

/-- Factors that have a product, by their shapes. -/
theorem matmul_ok {left right product : Tensor α}
    (h : left.matmul right = .ok product) :
    ∃ lead lead' m k n, left.shape = lead ++ [m, k]
      ∧ right.shape = lead' ++ [k, n] ∧ Shape.Serves lead' lead
      ∧ product.shape = lead ++ [m, n] := by
  obtain ⟨data, hdata, hshape⟩ := exists_of_bind h
  obtain ⟨p, hp, -⟩ := exists_of_bind (of_liftFlat_ok hdata)
  obtain ⟨lead, lead', m, k, n, hl, hr, hserves⟩ :=
    Flat.ProductPlan.of_eq_ok hp
  refine ⟨lead, lead', m, k, n, hl, hr, hserves, ?_⟩
  rw [hl, hr, Shape.width_append, Shape.withWidth_append] at hshape
  exact (of_ofArray_ok hshape).1

-- ============================================================== adjoints

/-- The adjoint of the left factor contracts the columns of both. -/
theorem matmulGradLeft_stack (h : lead'.Serves lead) :
    (stack lead m n f).matmulGradLeft (stack lead' k n g)
      = .ok (stack lead m k fun x y z =>
          sumTo n fun i => f x y i * g (pick lead'.size x) z i) := by
  rw [matmulGradLeft, transpose_stack, ok_bind, matmul_stack h]

/-- With a right factor for each matrix, each has an adjoint of its own. -/
theorem matmulGradRight_stack_batch :
    (stack lead m k f).matmulGradRight .release (stack lead m n g) (lead ++ [k, n])
      = .ok (stack lead k n fun x y z =>
          sumTo m fun i => f x i y * g x i z) := by
  unfold matmulGradRight
  rw [if_neg (fun h => h (by simp)), if_neg (fun h => h (by simp)),
    if_pos (by simp), transpose_stack, ok_bind, matmul_stack (.inl rfl)]
  refine congrArg _ (stack_congr fun x y z hx _ _ => ?_)
  rw [pick_of_lt hx]

/-- The rows of the whole batch contracted. Rows without elements are not
counted, but they leave nothing to contract either. -/
theorem contract_rows :
    (do
      let flipped ← Flat.transpose (stack lead m k f).data
        [Shape.filledRows (lead ++ [m, k]), k]
      Flat.multiply flipped (stack lead m n g).data
        [k, Shape.filledRows (lead ++ [m, k])]
        [Shape.filledRows (lead ++ [m, k]), n] : Except Flat.Error (Array α))
      = .ok (stack [] k n fun _ y z => sumTo (lead.size * m) fun i =>
          f (i / m) (i % m) y * g (i / m) (i % m) z).data := by
  rcases Nat.eq_zero_or_pos k with rfl | hk
  · have hrows : Shape.filledRows (lead ++ [m, 0]) = 0 := by
      simp [Shape.filledRows]
    have hnone : (stack lead m 0 f).data = #[] := data_stack_empty rfl
    have hempty : (stack [] 0 n fun _ y z => sumTo (lead.size * m) fun i =>
        f (i / m) (i % m) y * g (i / m) (i % m) z).data = #[] :=
      data_stack_empty (by simp)
    have hplan : Flat.ProductPlan.of [0, 0] [0, n]
        = .ok ⟨1, 0, 0, n, false⟩ :=
      Flat.ProductPlan.of_append (.inl (rfl : [] = []))
    rw [hrows, hnone, hempty]
    show Flat.multiply #[] (stack lead m n g).data [0, 0] [0, n] = _
    rw [Flat.multiply, hplan, ok_bind, if_pos (by simp)]
    rfl
  · have hflip : Flat.transpose (stack [] (lead.size * m) k fun _ y z =>
          f (y / m) (y % m) z).data [lead.size * m, k]
        = .ok (stack [] k (lead.size * m) fun _ y z =>
          f (z / m) (z % m) y).data := flatTranspose_stack
    rw [Shape.filledRows_append hk, data_stack_rows,
      data_stack_rows (f := g), hflip, ok_bind]
    exact multiply_stack (.inl (rfl : [] = []))

/-- With a single right factor its adjoint runs through the whole batch. -/
theorem matmulGradRight_stack_shared (hne : lead' ≠ lead)
    (hones : ∀ d ∈ lead', d = 1) :
    (stack lead m k f).matmulGradRight .release (stack lead m n g) (lead' ++ [k, n])
      = .ok (stack lead' k n fun _ y z => sumTo (lead.size * m) fun i =>
          f (i / m) (i % m) y * g (i / m) (i % m) z) := by
  have hsize : Shape.size lead' = Shape.size [] := Shape.size_of_ones hones
  have hdata : (stack [] k n fun _ y z => sumTo (lead.size * m) fun i =>
        f (i / m) (i % m) y * g (i / m) (i % m) z).data
      = (stack lead' k n fun _ y z => sumTo (lead.size * m) fun i =>
        f (i / m) (i % m) y * g (i / m) (i % m) z).data := by
    rw [data_stack, data_stack, hsize]
  have hany : ¬ lead'.any (· ≠ 1) = true := by simpa using hones
  unfold matmulGradRight
  rw [if_neg (fun h => h (by simp)), if_neg (fun h => h (by simp)),
    if_neg (by simpa using hne), if_neg (by simpa using hany)]
  obtain ⟨flipped, hflip, hmul⟩ :=
    exists_of_bind (contract_rows (f := f) (g := g))
  simp only [shape_stack, Shape.width_append]
  rw [hflip, liftFlat_ok, ok_bind, hmul, liftFlat_ok, ok_bind, hdata]
  exact ofArray_stack

end Tensor
end MixtureAttention
