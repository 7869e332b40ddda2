/-
The two gradients of a matrix product are its adjoints: pairing the product
with a derivative comes to the same as pairing either factor with the
derivative that is handed on to it. The elements may come from any
commutative ring, the rank is arbitrary and every extent may be zero. Which
code computes the gradient of the right factor depends on the shapes: one
product for each matrix, or a single contraction through all the rows of the
batch. Both sum over the same rows, in one stretch or matrix by matrix
(`sum_positions`).
-/
import Mathlib.Algebra.BigOperators.Intervals
import Mathlib.Algebra.BigOperators.Ring.Finset
import Mathlib.Tactic.Ring
import MixtureAttention.Proofs.Tensor.Products
import MixtureAttention.Proofs.Tensor.Sheets

namespace MixtureAttention

open Finset

-- ================================================================== sums

section Sums

variable {M : Type} [AddCommMonoid M]

/-- Where addition is commutative and associative, the order in which a sum
is run through is of no account. -/
theorem sumTo_eq_sum (n : Nat) (f : Nat → M) :
    sumTo n f = ∑ i ∈ range n, f i := by
  induction n with
  | zero => rfl
  | succ n ih =>
      rw [sum_range_succ, ← ih, sumTo_succ]

/-- A sum over the positions of a matrix is a sum over its rows and, within
a row, over its columns. -/
theorem sum_positions (rows cols : Nat) (f : Nat → Nat → M) :
    ∑ i ∈ range (rows * cols), f (i / cols) (i % cols)
      = ∑ y ∈ range rows, ∑ z ∈ range cols, f y z := by
  induction rows with
  | zero => simp
  | succ rows ih =>
      rw [Nat.succ_mul, sum_range_add, ih, sum_range_succ]
      congr 1
      refine sum_congr rfl fun z hz => ?_
      have hz := mem_range.1 hz
      rw [div_position hz, mod_position hz]

end Sums

namespace Tensor

-- =============================================================== pairing

/-- The sum of the products of the elements at the same positions. -/
def pair {α : Type} [Zero α] [Add α] [Mul α] (s t : Tensor α) : α :=
  (List.zipWith (· * ·) s.data.toList t.data.toList).sum

variable {α : Type} [CommRing α] {lead lead' : Shape} {m k n : Nat}
  {f g d : Nat → Nat → Nat → α}

theorem pair_sheet {w : Nat} {f g : Nat → Nat → α} :
    (sheet lead w f).pair (sheet lead w g)
      = ∑ x ∈ range lead.size, ∑ z ∈ range w, f x z * g x z := by
  rw [← sum_positions lead.size w fun x z => f x z * g x z, pair, sheet, sheet,
    List.zipWith_map, List.zipWith_self]
  rfl

theorem pair_stack :
    (stack lead m n f).pair (stack lead m n g)
      = ∑ x ∈ range lead.size, ∑ y ∈ range m, ∑ z ∈ range n,
          f x y z * g x y z := by
  have hlist : (stack lead m n f).pair (stack lead m n g)
      = ∑ i ∈ range (lead.size * m * n),
          f (i / n / m) (i / n % m) (i % n)
            * g (i / n / m) (i / n % m) (i % n) := by
    rw [pair, data_stack, data_stack, cube, cube, List.zipWith_map,
      List.zipWith_self]
    rfl
  rw [hlist, sum_positions (lead.size * m) n fun i z =>
      f (i / m) (i % m) z * g (i / m) (i % m) z,
    sum_positions lead.size m fun x y =>
      ∑ z ∈ range n, f x y z * g x y z]

-- ============================================================== exchange

/-- The left factor taken out of a row of a product. -/
theorem exchange_left (f d : Nat → α) (g : Nat → Nat → α) :
    ∑ z ∈ range n, (∑ i ∈ range k, f i * g i z) * d z
      = ∑ i ∈ range k, f i * ∑ z ∈ range n, d z * g i z := by
  simp only [sum_mul, mul_sum]
  rw [sum_comm]
  refine sum_congr rfl fun i _ => sum_congr rfl fun z _ => ?_
  ring

/-- The right factor taken out of a product of two matrices. -/
theorem exchange_right (f d g : Nat → Nat → α) :
    ∑ y ∈ range m, ∑ z ∈ range n, (∑ i ∈ range k, f y i * g i z) * d y z
      = ∑ i ∈ range k, ∑ z ∈ range n,
          g i z * ∑ y ∈ range m, f y i * d y z := by
  have hrow : ∀ y, ∑ z ∈ range n, (∑ i ∈ range k, f y i * g i z) * d y z
      = ∑ i ∈ range k, ∑ z ∈ range n, g i z * (f y i * d y z) := by
    intro y
    simp only [sum_mul]
    rw [sum_comm]
    refine sum_congr rfl fun i _ => sum_congr rfl fun z _ => ?_
    ring
  simp only [hrow, mul_sum]
  rw [sum_comm]
  refine sum_congr rfl fun i _ => ?_
  rw [sum_comm]

-- ============================================================== adjoints

theorem pair_matmulGradLeft (h : lead'.Serves lead) :
    ∃ product dleft,
      (stack lead m k f).matmul (stack lead' k n g) = .ok product
      ∧ (stack lead m n d).matmulGradLeft (stack lead' k n g) = .ok dleft
      ∧ dleft.shape = lead ++ [m, k]
      ∧ product.pair (stack lead m n d) = (stack lead m k f).pair dleft := by
  refine ⟨_, _, matmul_stack h, matmulGradLeft_stack h, rfl, ?_⟩
  rw [pair_stack, pair_stack]
  refine sum_congr rfl fun x _ => sum_congr rfl fun y _ => ?_
  simp only [sumTo_eq_sum]
  exact exchange_left (f x y) (d x y) (g (pick lead'.size x))

/-- One right factor for each matrix. -/
theorem pair_matmulGradRight_batch :
    ∃ product dright,
      (stack lead m k f).matmul (stack lead k n g) = .ok product
      ∧ (stack lead m k f).matmulGradRight .release (stack lead m n d)
          (lead ++ [k, n]) = .ok dright
      ∧ dright.shape = lead ++ [k, n]
      ∧ product.pair (stack lead m n d)
          = (stack lead k n g).pair dright := by
  refine ⟨_, _, matmul_stack (.inl rfl), matmulGradRight_stack_batch, rfl, ?_⟩
  rw [pair_stack, pair_stack]
  refine sum_congr rfl fun x hx => ?_
  simp only [sumTo_eq_sum, pick_of_lt (mem_range.1 hx)]
  exact exchange_right (f x) (d x) (g x)

/-- A single right factor: the rows of all matrices meet it in one
contraction. -/
theorem pair_matmulGradRight_shared (hserves : lead'.Serves lead)
    (hne : lead' ≠ lead) :
    ∃ product dright,
      (stack lead m k f).matmul (stack lead' k n g) = .ok product
      ∧ (stack lead m k f).matmulGradRight .release (stack lead m n d)
          (lead' ++ [k, n]) = .ok dright
      ∧ dright.shape = lead' ++ [k, n]
      ∧ product.pair (stack lead m n d)
          = (stack lead' k n g).pair dright := by
  have hones := hserves.ones hne
  have hsize : lead'.size = 1 := Shape.size_of_ones hones
  refine ⟨_, _, matmul_stack hserves,
    matmulGradRight_stack_shared hne hones, rfl, ?_⟩
  rw [pair_stack, pair_stack]
  simp only [sumTo_eq_sum, hsize, pick_one, range_one, sum_singleton]
  have hrows : ∀ i z,
      ∑ j ∈ range (lead.size * m), f (j / m) (j % m) i * d (j / m) (j % m) z
        = ∑ x ∈ range lead.size, ∑ y ∈ range m, f x y i * d x y z :=
    fun i z => sum_positions lead.size m fun x y => f x y i * d x y z
  calc
    _ = ∑ x ∈ range lead.size, ∑ i ∈ range k, ∑ z ∈ range n,
          g 0 i z * ∑ y ∈ range m, f x y i * d x y z :=
        sum_congr rfl fun x _ => exchange_right (f x) (d x) (g 0)
    _ = ∑ i ∈ range k, ∑ z ∈ range n, ∑ x ∈ range lead.size,
          g 0 i z * ∑ y ∈ range m, f x y i * d x y z := by
        rw [sum_comm]
        exact sum_congr rfl fun i _ => sum_comm
    _ = _ := by
        simp only [hrows, mul_sum]

/-- Where two tensors have a product, both gradients of a derivative of the
product's shape are computed, have the shapes of the factors, and are
adjoint to the product. -/
theorem matmul_grads_are_adjoints {left right product dout : Tensor α}
    (hproduct : left.matmul right = .ok product)
    (hdout : dout.shape = product.shape) :
    ∃ dleft dright,
      dout.matmulGradLeft right = .ok dleft
      ∧ dleft.shape = left.shape
      ∧ left.matmulGradRight .release dout right.shape = .ok dright
      ∧ dright.shape = right.shape
      ∧ product.pair dout = left.pair dleft
      ∧ product.pair dout = right.pair dright := by
  obtain ⟨lead, lead', m, k, n, hl, hr, hserves, hp⟩ := matmul_ok hproduct
  obtain ⟨f, rfl⟩ := exists_stack hl
  obtain ⟨g, rfl⟩ := exists_stack hr
  obtain ⟨d, rfl⟩ := exists_stack (hdout.trans hp)
  obtain ⟨product', dleft, hmul, hgradLeft, hleftShape, hleft⟩ :=
    pair_matmulGradLeft (f := f) (g := g) (d := d) hserves
  have hright : ∃ product dright,
      (stack lead m k f).matmul (stack lead' k n g) = .ok product
      ∧ (stack lead m k f).matmulGradRight .release (stack lead m n d)
          (lead' ++ [k, n]) = .ok dright
      ∧ dright.shape = lead' ++ [k, n]
      ∧ product.pair (stack lead m n d)
          = (stack lead' k n g).pair dright := by
    by_cases hne : lead' = lead
    · subst hne
      exact pair_matmulGradRight_batch
    · exact pair_matmulGradRight_shared hserves hne
  obtain ⟨product'', dright, hmul', hgradRight, hrightShape, hright⟩ := hright
  obtain rfl : product = product' := Except.ok.inj (hproduct.symm.trans hmul)
  obtain rfl : product = product'' := Except.ok.inj (hproduct.symm.trans hmul')
  exact ⟨dleft, dright, hgradLeft, hleftShape, hgradRight, hrightShape, hleft,
    hright⟩

/-- Two matrices of one row, `0 1` and `1 2`, meet the column `3 2`; the
derivative is `1` for the first and `2` for the second. -/
theorem matmul_grads_are_adjoints_two_rows :
    ∃ left right product dout dleft dright : Tensor Int,
      left.data = #[0, 1, 1, 2] ∧ left.shape = [2, 1, 2]
      ∧ right.data = #[3, 2] ∧ right.shape = [1, 2, 1]
      ∧ dout.data = #[1, 2] ∧ dout.shape = product.shape
      ∧ left.matmul right = .ok product
      ∧ dout.matmulGradLeft right = .ok dleft
      ∧ left.matmulGradRight .release dout right.shape = .ok dright
      ∧ product.pair dout = left.pair dleft
      ∧ product.pair dout = right.pair dright := by
  let left : Tensor Int := stack [2] 1 2 fun x _ z => x + z
  let right : Tensor Int := stack [1] 2 1 fun _ y _ => 3 - y
  let dout : Tensor Int := stack [2] 1 1 fun x _ _ => 1 + x
  have hproduct : ∃ product, left.matmul right = .ok product
      ∧ dout.shape = product.shape :=
    ⟨_, matmul_stack (.inr ⟨rfl, by simp⟩), rfl⟩
  obtain ⟨product, hproduct, hdout⟩ := hproduct
  obtain ⟨dleft, dright, hleft, -, hright, -, hpairLeft, hpairRight⟩ :=
    matmul_grads_are_adjoints hproduct hdout
  exact ⟨left, right, product, dout, dleft, dright, rfl, rfl, rfl, rfl, rfl,
    hdout, hproduct, hleft, hright, hpairLeft, hpairRight⟩

end Tensor
end MixtureAttention
