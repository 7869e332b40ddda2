/-
Softmax is the plain softmax. In an ordered field whose exponential is
positive and turns differences into quotients, the shift by the largest
element of a row is one factor of every exponential and cancels
(`softmaxAt_eq_plain`). What the shift is for stays: the largest element is
one of the row, so one of the exponentials that are added up is the
exponential of zero, and the divisor is at least one (`one_le_divisor`).

The largest element is looked for from minus infinity on. That is an element
below every other in the field with a bottom, and what is found from there is
what is found from the row's first element on (`foldl_max_bot`).

All of a row's outputs follow from the formula, in which the row's elements
alone appear, each once in the sum; so they follow a common shift, an
exchange of elements and a change of the other rows as the formula does. The
real numbers are such a field.
-/
import Mathlib.Algebra.BigOperators.Fin
import Mathlib.Algebra.BigOperators.Field
import Mathlib.Algebra.Order.BigOperators.Group.Finset
import Mathlib.Order.WithBot
import MixtureAttention.Proofs.Exact.Elements
import MixtureAttention.Proofs.Real.Elements

namespace MixtureAttention

open Finset Tensor

section

variable {α : Type} [Field α] [LinearOrder α] [Transcendental α]

/-- What softmax rests on: a positive exponential that turns differences
into quotients, and the maximum of the order. -/
structure ExponentialLaws (α : Type) [Field α] [LinearOrder α]
    [Transcendental α] : Prop where
  exp_pos : ∀ x : α, 0 < (Scalar.exp x : α)
  exp_sub : ∀ x y : α, (Scalar.exp (x - y) : α) = Scalar.exp x / Scalar.exp y
  max_eq : ∀ x y : α, Scalar.max x y = max x y

/-- How a row is computed: `m` is its largest element, looked for from below
every element, and what the shifted exponentials are divided by is their sum
`s`, which is at least one. -/
structure Divided (values : List α) (m s : α) : Prop where
  largest : values.foldl (fun m v => max m ↑v) (⊥ : WithBot α) = ↑m
  sum : s = (shiftedExp values).foldl (· + ·) 0
  one_le : 1 ≤ s
  outputs : softmaxRow values = values.map fun v => Scalar.exp (v - m) / s

/-- The exponentials of the first `k` values, each divided by their sum. -/
def plainSoftmax (k : Nat) (f : Nat → α) (z : Nat) : α :=
  Scalar.exp (f z) / ∑ i ∈ range k, Scalar.exp (f i)

-- ===================================================== the largest element

omit [Field α] [Transcendental α] in
/-- From below every element the fold finds what it finds from the first
element on. -/
theorem foldl_max_bot (x : α) (xs : List α) :
    (x :: xs).foldl (fun m v => max m ↑v) (⊥ : WithBot α)
      = ↑(xs.foldl max x) := by
  have hfold : ∀ (ys : List α) (m : α),
      ys.foldl (fun m v => max m ↑v) (m : WithBot α) = ↑(ys.foldl max m) := by
    intro ys
    induction ys with
    | nil => exact fun _ => rfl
    | cons y ys ih =>
        intro m
        rw [List.foldl_cons, List.foldl_cons, ← WithBot.coe_max]
        exact ih (max m y)
  rw [List.foldl_cons, max_eq_right bot_le]
  exact hfold xs x

variable (hlaws : ExponentialLaws α) {k w : Nat} {f g : Nat → α}

include hlaws

theorem rowMax_eq (x : α) (xs : List α) : rowMax x xs = xs.foldl max x := by
  show xs.foldl Scalar.max x = _
  refine congrArg (fun op => xs.foldl op x) ?_
  funext m v
  exact hlaws.max_eq m v

/-- The largest value is one of them. -/
theorem exists_largest (hk : 0 < k) (f : Nat → α) :
    ∃ i < k, f i = largest k f := by
  have hmem : ∀ (xs : List α) (x : α), xs.foldl max x ∈ x :: xs := by
    intro xs
    induction xs with
    | nil => exact fun x => List.mem_singleton_self x
    | cons y ys ih =>
        intro x
        rcases List.mem_cons.1 (ih (max x y)) with h | h
        · rw [List.foldl_cons, h]
          rcases max_choice x y with hx | hy
          · simp [hx]
          · simp [hy]
        · exact List.mem_cons_of_mem _ (List.mem_cons_of_mem _ h)
  have hlargest := hmem ((List.range (k - 1)).map fun i => f (i + 1)) (f 0)
  rw [← rowMax_eq hlaws] at hlargest
  rcases List.mem_cons.1 hlargest with h | h
  · exact ⟨0, hk, h.symm⟩
  · obtain ⟨i, hi, heq⟩ := List.mem_map.1 h
    have hi := List.mem_range.1 hi
    exact ⟨i + 1, by omega, heq⟩

-- ============================================================ the quotients

theorem exp_zero : (Scalar.exp 0 : α) = 1 := by
  have hsub := hlaws.exp_sub (0 : α) 0
  rwa [sub_self, div_self (hlaws.exp_pos _).ne'] at hsub

/-- The shift by the largest value cancels. -/
theorem softmaxAt_eq_plain (f : Nat → α) (z : Nat) :
    softmaxAt k f z = plainSoftmax k f z := by
  have hne : (Scalar.exp (largest k f) : α) ≠ 0 := (hlaws.exp_pos _).ne'
  unfold softmaxAt plainSoftmax
  rw [sumTo_eq_sum]
  simp only [hlaws.exp_sub]
  rw [← sum_div]
  exact div_div_div_cancel_right₀ hne _ _

variable [IsStrictOrderedRing α]

/-- The sum of the shifted exponentials, one of which is one. -/
theorem one_le_divisor (hk : 0 < k) (f : Nat → α) :
    1 ≤ (shiftedExp ((List.range k).map f)).foldl (· + ·) 0 := by
  obtain ⟨i, hi, hlargest⟩ := exists_largest hlaws hk f
  have hone : (Scalar.exp (f i - largest k f) : α) = 1 := by
    rw [hlargest, sub_self, exp_zero hlaws]
  rw [shiftedExp_range]
  show 1 ≤ sumTo k fun i => Scalar.exp (f i - largest k f)
  rw [sumTo_eq_sum, ← hone]
  exact single_le_sum (f := fun i => (Scalar.exp (f i - largest k f) : α))
    (fun i _ => (hlaws.exp_pos _).le) (mem_range.2 hi)

theorem sum_exp_pos (hk : 0 < k) (f : Nat → α) :
    0 < ∑ i ∈ range k, (Scalar.exp (f i) : α) :=
  sum_pos (fun _ _ => hlaws.exp_pos _) ⟨0, mem_range.2 hk⟩

theorem plainSoftmax_pos (hk : 0 < k) (f : Nat → α) (z : Nat) :
    0 < plainSoftmax k f z :=
  div_pos (hlaws.exp_pos _) (sum_exp_pos hlaws hk f)

theorem sum_plainSoftmax (hk : 0 < k) (f : Nat → α) :
    ∑ z ∈ range k, plainSoftmax k f z = 1 := by
  unfold plainSoftmax
  rw [← sum_div]
  exact div_self (sum_exp_pos hlaws hk f).ne'

-- ==================================================== shifts and exchanges

omit [LinearOrder α] [IsStrictOrderedRing α] hlaws in
/-- The formula looks at the values of the row alone. -/
theorem plainSoftmax_congr (h : ∀ i < k, f i = g i) {z : Nat} (hz : z < k) :
    plainSoftmax k f z = plainSoftmax k g z := by
  unfold plainSoftmax
  rw [h z hz]
  refine congrArg _ (sum_congr rfl fun i hi => ?_)
  rw [h i (mem_range.1 hi)]

omit [IsStrictOrderedRing α] in
theorem exp_add (x a : α) :
    (Scalar.exp (x + a) : α) = Scalar.exp x * Scalar.exp a := by
  have hsub := hlaws.exp_sub (x + a) a
  rw [add_sub_cancel_right] at hsub
  exact ((eq_div_iff (hlaws.exp_pos a).ne').1 hsub).symm

omit [IsStrictOrderedRing α] in
/-- A shift is a factor of the numerator and of every term of the sum. -/
theorem plainSoftmax_shift (f : Nat → α) (a : α) (z : Nat) :
    plainSoftmax k (fun i => f i + a) z = plainSoftmax k f z := by
  unfold plainSoftmax
  simp only [exp_add hlaws]
  rw [← sum_mul]
  exact mul_div_mul_right _ _ (hlaws.exp_pos a).ne'

omit [LinearOrder α] [IsStrictOrderedRing α] hlaws in
/-- Exchanged elements are exchanged terms of the sum. -/
theorem plainSoftmax_perm (σ : Equiv.Perm (Fin k))
    (h : ∀ i : Fin k, g i = f (σ i)) (z : Fin k) :
    plainSoftmax k g z = plainSoftmax k f (σ z) := by
  have hsum : ∑ i ∈ range k, (Scalar.exp (g i) : α)
      = ∑ i ∈ range k, Scalar.exp (f i) := by
    rw [sum_range, sum_range]
    simp only [h]
    exact Equiv.sum_comp σ fun i => (Scalar.exp (f i) : α)
  unfold plainSoftmax
  rw [hsum, h z]

-- =============================================================== the tensor

omit [IsStrictOrderedRing α] in
theorem softmax_sheet {lead : Shape} {w : Nat} {f : Nat → Nat → α} :
    Activation.softmax.apply (sheet lead w f)
      = sheet lead w fun x => plainSoftmax w (f x) := by
  rw [Activation.apply_sheet]
  exact sheet_congr fun x z _ _ => softmaxAt_eq_plain hlaws (f x) z

/-- The largest element can be looked for from below every one. -/
theorem divided (hw : 0 < w) (row : Nat → α) :
    ∃ m s, Divided ((List.range w).map row) m s := by
  refine ⟨largest w row, _, ?_, rfl, one_le_divisor hlaws hw row, ?_⟩
  · obtain ⟨k, rfl⟩ := Nat.exists_eq_add_of_le' hw
    rw [List.range_succ_eq_map, List.map_cons, foldl_max_bot,
      ← rowMax_eq hlaws, List.map_map]
    rfl
  · rw [softmaxRow, normalizeRow, shiftedExp_range, List.map_map, List.map_map]
    rfl

/-- In an ordered field, for tensors with any number of axes whose last one is
not empty: every row is one of those that are computed on, its exponentials
are shifted by the largest element and divided by at least one, and what
comes out are the exponentials of the row's elements divided by their sum, all
positive and together one. A common shift of the row leaves its outputs
alone, an exchange of its elements exchanges them, and what the other rows
hold does not matter. -/
theorem softmax_is_plain {x : Tensor α} {lead : Shape} {w : Nat}
    (hshape : x.shape = lead ++ [w]) (hw : 0 < w) :
    (Activation.softmax.apply x).shape = x.shape
      ∧ ∀ c, lead.Contains c → ∃ row : Nat → α, x.HasRow c row
        ∧ (List.range w).map row ∈ x.rows
        ∧ (∃ m s, Divided ((List.range w).map row) m s)
        ∧ (Activation.softmax.apply x).HasRow c (plainSoftmax w row)
        ∧ (∀ z < w, 0 < plainSoftmax w row z)
        ∧ ∑ z ∈ range w, plainSoftmax w row z = 1
        ∧ ∀ x' : Tensor α, x'.shape = x.shape →
          (∀ a : α, x'.HasRow c (fun z => row z + a) →
            SameRow c (Activation.softmax.apply x)
              (Activation.softmax.apply x'))
          ∧ (∀ σ : Equiv.Perm (Fin w),
            (∀ z : Fin w, x'.get (c ++ [z.val]) = x.get (c ++ [(σ z).val])) →
            ∀ z : Fin w, (Activation.softmax.apply x').get (c ++ [z.val])
              = (Activation.softmax.apply x).get (c ++ [(σ z).val]))
          ∧ (SameRow c x x' →
            SameRow c (Activation.softmax.apply x)
              (Activation.softmax.apply x')) := by
  obtain ⟨f, rfl⟩ := exists_sheet hshape
  refine ⟨shape_apply .softmax _, fun c hc => ?_⟩
  have hrow : (List.range w).map (f (Shape.dot c lead.strides))
      ∈ (sheet lead w f).rows := by
    rw [rows_sheet, if_neg hw.ne']
    exact List.mem_map.2 ⟨_, List.mem_range.2 hc.dot_lt, rfl⟩
  refine ⟨f (Shape.dot c lead.strides), hasRow_sheet.2 fun _ z _ => rfl, hrow,
    divided hlaws hw _, ?_, fun z _ => plainSoftmax_pos hlaws hw _ z,
    sum_plainSoftmax hlaws hw _, fun x' hx' => ?_⟩
  · rw [softmax_sheet hlaws]
    exact hasRow_sheet.2 fun _ z _ => rfl
  -- another tensor with a shifted, a permuted or the same row
  · obtain ⟨g, rfl⟩ := exists_sheet hx'
    rw [softmax_sheet hlaws, softmax_sheet hlaws]
    refine ⟨fun a hshift => ?_, fun σ hσ z => ?_, fun hsame => ?_⟩
    · have hshift := hasRow_sheet.1 hshift hc
      refine sameRow_sheet.2 fun _ z hz => ?_
      rw [plainSoftmax_congr hshift hz, plainSoftmax_shift hlaws]
    · have hvalues : ∀ i : Fin w,
          g (Shape.dot c lead.strides) i = f (Shape.dot c lead.strides) (σ i) := by
        intro i
        have hi := hσ i
        rw [get_sheet hc i.isLt, get_sheet hc (σ i).isLt] at hi
        exact Except.ok.inj hi
      rw [get_sheet hc z.isLt, get_sheet hc (σ z).isLt,
        plainSoftmax_perm σ hvalues]
    · have hsame := sameRow_sheet.1 hsame hc
      exact sameRow_sheet.2 fun _ z hz => plainSoftmax_congr hsame hz

end

-- ========================================================== real numbers

/-- The functions that exact arithmetic on the real numbers brings along. -/
noncomputable instance : Transcendental ℝ where
  exp := Real.exp
  tanh := Real.tanh
  max := max
  isFinite _ := true
  ofFloat := realOfFloat

theorem exponentialLaws_real : ExponentialLaws ℝ where
  exp_pos := Real.exp_pos
  exp_sub := Real.exp_sub
  max_eq _ _ := rfl

/-- Two rows over the real numbers. The elements of the first are exchanged,
and the second is kept. -/
theorem softmax_is_plain_two_rows :
    let x : Tensor ℝ := .rowMajor [2, 2] #[0, 1, 5, 3] rfl
    let x' : Tensor ℝ := .rowMajor [2, 2] #[1, 0, 5, 3] rfl
    ExponentialLaws ℝ ∧ x.shape = [2] ++ [2] ∧ 0 < 2
      ∧ (∃ row, x.HasRow [0] row
        ∧ (Activation.softmax.apply x).HasRow [0] (plainSoftmax 2 row)
        ∧ ∑ z ∈ range 2, plainSoftmax 2 row z = 1)
      ∧ (Activation.softmax.apply x').get [0, 0]
        = (Activation.softmax.apply x).get [0, 1]
      ∧ SameRow [1] (Activation.softmax.apply x)
          (Activation.softmax.apply x') := by
  intro x x'
  have hshape : x.shape = [2] ++ [2] := rfl
  obtain ⟨-, hrows⟩ := softmax_is_plain exponentialLaws_real hshape two_pos
  obtain ⟨row, hrow, -, -, hplain, -, hsum, hother⟩ :=
    hrows [0] ⟨two_pos, trivial⟩
  obtain ⟨-, hexchange, -⟩ := hother x' rfl
  obtain ⟨_, -, -, -, -, -, -, hother⟩ := hrows [1] ⟨one_lt_two, trivial⟩
  obtain ⟨-, -, hkept⟩ := hother x' rfl
  refine ⟨exponentialLaws_real, hshape, two_pos, ⟨row, hrow, hplain, hsum⟩,
    ?_, ?_⟩
  · refine hexchange (Equiv.swap 0 1) (fun z => ?_) 0
    match z with
    | 0 => rfl
    | 1 => rfl
  · refine hkept ⟨rfl, fun z hz => ?_⟩
    match z, hz.2.1 with
    | 0, _ => rfl
    | 1, _ => rfl

end MixtureAttention
