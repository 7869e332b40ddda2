/-
Tensors as functions. Every buffer of a layer has four axes of which the
second has extent one, so its elements are given by a function of three
coordinates, and the tensor is the cube of that function over its extents.
Each tensor of such a shape is a cube (`eq_cube`), and the operations on
tensors become operations on functions: where an axis of extent one is
stretched, the function is read at coordinate zero.

An operation computes its elements from flat positions. `gather_cube` and
`fetch_cube` say it in coordinates, and no proof below them divides.
-/
import MixtureAttention.Proofs.Sequencing
import MixtureAttention.Tensor.Activation
import MixtureAttention.Tensor.Arithmetic

namespace MixtureAttention

variable {α β γ : Type}

-- ======================================================== flat positions

theorem div_position {a k z : Nat} (hz : z < k) : (a * k + z) / k = a := by
  rw [Nat.mul_comm, Nat.mul_add_div (by omega), Nat.div_eq_of_lt hz,
    Nat.add_zero]

theorem mod_position {a k z : Nat} (hz : z < k) : (a * k + z) % k = z := by
  rw [Nat.mul_comm, Nat.mul_add_mod, Nat.mod_eq_of_lt hz]

/-- Coordinates within their extents lie within the buffer. -/
theorem position_lt {a b k z : Nat} (ha : a < b) (hz : z < k) :
    a * k + z < b * k := by
  have h : (a + 1) * k ≤ b * k := Nat.mul_le_mul_right k ha
  rw [Nat.succ_mul] at h
  omega

/-- Every position has its coordinates. -/
theorem exists_position {b l k i : Nat} (hi : i < b * l * k) :
    i / k / l < b ∧ i / k % l < l ∧ i % k < k
      ∧ (i / k / l * l + i / k % l) * k + i % k = i := by
  have hk : 0 < k := Nat.pos_of_ne_zero fun h => by simp [h] at hi
  have hrow : i / k < b * l := (Nat.div_lt_iff_lt_mul hk).2 hi
  have hl : 0 < l := Nat.pos_of_ne_zero fun h => by simp [h] at hrow
  refine ⟨(Nat.div_lt_iff_lt_mul hl).2 hrow, Nat.mod_lt _ hl,
    Nat.mod_lt _ hk, ?_⟩
  rw [Nat.mul_comm (i / k / l), Nat.div_add_mod, Nat.mul_comm,
    Nat.div_add_mod]

-- ================================================================== sums

/-- The sum of the first `n` terms, added from left to right starting at
zero. -/
def sumTo [Zero α] [Add α] (n : Nat) (term : Nat → α) : α :=
  ((List.range n).map term).foldl (· + ·) 0

/-- Only the terms below the bound are looked at. -/
theorem sumTo_congr [Zero α] [Add α] {n : Nat} {s t : Nat → α}
    (h : ∀ i, i < n → s i = t i) : sumTo n s = sumTo n t := by
  rw [sumTo, List.map_congr_left fun i hi => h i (List.mem_range.1 hi)]
  rfl

/-- The last term is added last. -/
theorem sumTo_succ [Zero α] [Add α] (n : Nat) (term : Nat → α) :
    sumTo (n + 1) term = sumTo n term + term n := by
  rw [sumTo, List.range_succ, List.map_append, List.foldl_append]
  rfl

namespace Tensor

-- ================================================================= cubes

/-- The tensor of shape `b, 1, l, k` whose elements are given by their
coordinates. -/
def cube (b l k : Nat) (f : Nat → Nat → Nat → α) : Tensor α where
  shape := [b, 1, l, k]
  data := ((List.range (b * l * k)).map fun i =>
    f (i / k / l) (i / k % l) (i % k)).toArray
  size_eq := by simp [Nat.mul_assoc]

variable {b l k : Nat} {f g : Nat → Nat → Nat → α}

@[simp] theorem shape_cube : (cube b l k f).shape = [b, 1, l, k] := rfl

/-- There is an element for each of the three coordinates. -/
@[simp] theorem size_cube : (cube b l k f).data.size = b * l * k := by
  simp [cube]

/-- A cube depends on its function within the extents alone. -/
theorem cube_congr
    (h : ∀ x y z, x < b → y < l → z < k → f x y z = g x y z) :
    cube b l k f = cube b l k g := by
  refine Tensor.ext rfl ?_
  refine congrArg List.toArray (List.map_congr_left fun i hi => ?_)
  obtain ⟨hx, hy, hz, -⟩ := exists_position (List.mem_range.1 hi)
  exact h _ _ _ hx hy hz

/-- Each element stands where the row-major order puts it. -/
theorem getElem?_cube {x y z : Nat} (hx : x < b) (hy : y < l) (hz : z < k) :
    (cube b l k f).data[(x * l + y) * k + z]? = some (f x y z) := by
  have hi : (x * l + y) * k + z < b * l * k :=
    position_lt (position_lt hx hy) hz
  rw [cube, List.getElem?_toArray, List.getElem?_map, List.getElem?_range hi,
    Option.map_some, div_position hz, mod_position hz, div_position hy,
    mod_position hy]

/-- So a checked read finds it. -/
theorem fetch_cube {x y z : Nat} (hx : x < b) (hy : y < l) (hz : z < k) :
    Flat.fetch (cube b l k f).data ((x * l + y) * k + z)
      = .ok (f x y z) := by
  rw [Flat.fetch, getElem?_cube hx hy hz]

/-- Elements that are computed from their coordinates make a cube. -/
theorem gather_cube {h : Nat → Except Flat.Error α} {n : Nat}
    (hn : n = b * l * k)
    (hf : ∀ x y z, x < b → y < l → z < k →
      h ((x * l + y) * k + z) = .ok (f x y z)) :
    Flat.gather n h = .ok (cube b l k f).data := by
  refine Flat.gather_ok (fun i => f (i / k / l) (i / k % l) (i % k))
    (fun i hi => ?_) |>.trans (by rw [hn]; rfl)
  obtain ⟨hx, hy, hz, heq⟩ := exists_position (hn ▸ hi)
  rw [← hf _ _ _ hx hy hz, heq]

/-- A tensor of given elements has these elements and the given shape. -/
theorem of_ofArray_ok {data : Array α} {shape : Shape} {t : Tensor α}
    (h : ofArray data shape = .ok t) : t.shape = shape ∧ t.data = data := by
  unfold ofArray at h
  split at h
  · cases h
    exact ⟨rfl, rfl⟩
  · cases h

/-- The elements of a cube have its shape. -/
theorem ofArray_cube :
    ofArray (cube b l k f).data [b, 1, l, k] = .ok (cube b l k f) :=
  dif_pos (cube b l k f).size_eq

/-- An operation that gathers its elements and gives them their shape. -/
theorem gather_ofArray_cube {h : Nat → Except Flat.Error α} {n : Nat}
    {shape : Shape} (hshape : shape = [b, 1, l, k]) (hn : n = b * l * k)
    (hf : ∀ x y z, x < b → y < l → z < k →
      h ((x * l + y) * k + z) = .ok (f x y z)) :
    (do
      let data ← Flat.gather n h
      ofArray data shape : Except TensorError (Tensor α))
      = .ok (cube b l k f) := by
  rw [gather_cube hn hf, liftFlat_ok, ok_bind, hshape, ofArray_cube]

/-- The element at three coordinates, zero outside the buffer. -/
def elem [Zero α] (t : Tensor α) (x y z : Nat) : α :=
  (t.data[(x * t.extent 2 + y) * t.extent 3 + z]?).getD 0

/-- Every tensor of such a shape is the cube of its elements. -/
theorem eq_cube [Zero α] {t : Tensor α} (h : t.shape = [b, 1, l, k]) :
    t = cube b l k t.elem := by
  have hsize : t.data.size = b * l * k := by
    rw [t.size_eq, h]
    simp [Nat.mul_assoc]
  refine Tensor.ext h (Array.ext ?_ fun i hi hi' => ?_)
  · rw [hsize, size_cube]
  · rw [size_cube] at hi'
    obtain ⟨hx, hy, hz, heq⟩ := exists_position hi'
    have hcube := getElem?_cube (f := t.elem) hx hy hz
    rw [heq, Array.getElem?_eq_getElem (by rw [size_cube]; exact hi')]
      at hcube
    injection hcube with hcube
    rw [hcube, elem, extent, extent, h]
    show t.data[i] = (t.data[(i / k / l * l + i / k % l) * k + i % k]?).getD 0
    rw [heq, Array.getElem?_eq_getElem hi, Option.getD_some]

/-- The element at three coordinates. -/
theorem elem_cube [Zero α] {x y z : Nat} (hx : x < b) (hy : y < l)
    (hz : z < k) : (cube b l k f).elem x y z = f x y z := by
  show ((cube b l k f).data[(x * l + y) * k + z]?).getD 0 = _
  rw [getElem?_cube hx hy hz, Option.getD_some]

-- ======================================================= one by one

/-- A function of the elements is a function of the formula. -/
theorem map_cube (op : α → β) :
    (cube b l k f).map op = cube b l k fun x y z => op (f x y z) := by
  refine Tensor.ext rfl ?_
  simp [map, cube, Function.comp_def]

/-- Negation takes each element from zero. -/
theorem neg_cube [Zero α] [Sub α] :
    (cube b l k f).neg = cube b l k fun x y z => 0 - f x y z := map_cube _

/-- Zeros are a cube of zeros. -/
theorem zeros_cube [Zero α] :
    (zeros [b, 1, l, k] : Tensor α) = cube b l k fun _ _ _ => 0 := by
  refine Tensor.ext rfl ?_
  simp [zeros, full, cube, Nat.mul_assoc, List.map_const']

/-- A grid whose rows are constant is a cube of one entry. -/
theorem rowGrid_cube (row : Nat → α) :
    rowGrid l k row = cube 1 l k fun _ y _ => row y := by
  refine Tensor.ext rfl (Array.ext ?_ fun i hi hi' => ?_)
  · simp [rowGrid]
  · rw [size_cube, Nat.one_mul] at hi'
    obtain ⟨-, hy, -, -⟩ := exists_position (b := 1) (by simpa using hi')
    have hrow : i / k < l := Nat.div_lt_of_lt_mul (by rwa [Nat.mul_comm])
    simp [rowGrid, cube, Nat.mod_eq_of_lt hrow]

-- ============================================================ stretching

/-- A coordinate along an axis that may be stretched. -/
def pick (d x : Nat) : Nat := if d = 1 then 0 else x

@[simp] theorem pick_one (x : Nat) : pick 1 x = 0 := rfl

/-- A coordinate of an axis that is not stretched is itself. -/
theorem pick_of_lt {d x : Nat} (h : x < d) : pick d x = x := by
  unfold pick
  split <;> omega

/-- The coordinate that is looked at is below its extent, stretched or not. -/
theorem pick_lt {d e x : Nat} (hx : x < e) (hd : d = e ∨ d = 1) :
    pick d x < d := by
  unfold pick
  split <;> omega

/-- An axis that is joined with another has its extent or extent one. -/
theorem joinAxis_cases {a b d : Nat} (h : Shape.joinAxis a b = some d) :
    (a = d ∨ a = 1) ∧ (b = d ∨ b = 1) := by
  unfold Shape.joinAxis at h
  split at h
  · injection h with h
    omega
  · split at h
    · injection h with h
      omega
    · split at h
      · injection h with h
        omega
      · cases h

/-- Two axes of one extent share it. -/
theorem joinAxis_self (a : Nat) : Shape.joinAxis a a = some a := by
  rw [Shape.joinAxis, if_pos rfl]

/-- An axis of a single element takes the other's extent. -/
theorem joinAxis_one_left (a : Nat) : Shape.joinAxis 1 a = some a := by
  unfold Shape.joinAxis
  split
  · next h => rw [h]
  · rfl

/-- On either side. -/
theorem joinAxis_one_right (a : Nat) : Shape.joinAxis a 1 = some a := by
  unfold Shape.joinAxis
  split
  · rfl
  · exact if_pos rfl

variable {b₁ l₁ k₁ b₂ l₂ k₂ : Nat}

/-- Cubes are joined axis by axis. -/
theorem joinShapes_cube (hb : Shape.joinAxis b₁ b₂ = some b)
    (hl : Shape.joinAxis l₁ l₂ = some l)
    (hk : Shape.joinAxis k₁ k₂ = some k) :
    Flat.joinShapes [b₁, 1, l₁, k₁] [b₂, 1, l₂, k₂]
      = .ok [b, 1, l, k] := by
  simp [Flat.joinShapes, Shape.join, hb, hl, hk, joinAxis_self]

/-- A stride that a stretched axis gets is passed over as often as the
coordinate of the stretched axis says. -/
theorem mul_stretched {d e x n : Nat} (hx : x < e) :
    (x * if d = 1 ∧ e ≠ 1 then 0 else n) = pick d x * n := by
  unfold pick
  by_cases hone : d = 1
  · by_cases he : e = 1
    · have hzero : x = 0 := by omega
      simp [hone, he, hzero]
    · simp [hone, he]
  · simp [hone]

/-- Where an element of a stretched buffer lies, in coordinates. -/
theorem stretchedPosition_cube {x y z : Nat} (hx : x < b) (hy : y < l)
    (hz : z < k) :
    Flat.stretchedPosition [b₁, 1, l₁, k₁] [b, 1, l, k]
        ((x * l + y) * k + z)
      = (pick b₁ x * l₁ + pick l₁ y) * k₁ + pick k₁ z := by
  have hrow : y * k + z < l * k := position_lt hy hz
  have hflat : (x * l + y) * k + z = x * (l * k) + (y * k + z) := by
    rw [Nat.add_mul, Nat.mul_assoc, Nat.add_assoc]
  rw [Flat.stretchedPosition, Shape.sweepStrides_eq, Shape.project]
  simp only [Shape.strides, Shape.stretch, Shape.coordinates, Shape.dot,
    Shape.size_cons, Shape.size_nil, Nat.mul_one, Nat.one_mul, Nat.add_zero,
    Nat.div_one]
  rw [hflat, div_position hrow, mod_position hrow, Nat.div_eq_of_lt hrow,
    Nat.mod_eq_of_lt hrow, div_position hz, mod_position hz,
    mul_stretched hx, mul_stretched hy, mul_stretched hz]
  rw [Nat.zero_mul, Nat.zero_add, Nat.mul_one, Nat.add_mul, Nat.mul_assoc,
    Nat.add_assoc]

/-- A stretched read finds the element at the coordinates that are picked. -/
theorem fetch_stretched (hb : b₁ = b ∨ b₁ = 1) (hl : l₁ = l ∨ l₁ = 1)
    (hk : k₁ = k ∨ k₁ = 1) {x y z : Nat} (hx : x < b) (hy : y < l)
    (hz : z < k) :
    Flat.fetch (cube b₁ l₁ k₁ f).data (Flat.stretchedPosition
        [b₁, 1, l₁, k₁] [b, 1, l, k] ((x * l + y) * k + z))
      = .ok (f (pick b₁ x) (pick l₁ y) (pick k₁ z)) := by
  rw [stretchedPosition_cube hx hy hz]
  exact fetch_cube (pick_lt hx hb) (pick_lt hy hl) (pick_lt hz hk)

/-- Cubes of one shape are combined element by element. -/
theorem combinePairwise_cube [Zero γ] (op : α → β → γ)
    {f : Nat → Nat → Nat → α} {g : Nat → Nat → Nat → β} {n : Nat}
    (hn : n = b * l * k) :
    Flat.combinePairwise op (cube b l k f).data (cube b l k g).data n
      = (cube b l k fun x y z => op (f x y z) (g x y z)).data := by
  subst hn
  refine Array.ext (by simp [Flat.combinePairwise]) fun i hi hi' => ?_
  rw [size_cube] at hi'
  obtain ⟨hx, hy, hz, heq⟩ := exists_position hi'
  have hf := getElem?_cube (f := f) hx hy hz
  have hg := getElem?_cube (f := g) hx hy hz
  have hfg := getElem?_cube (f := fun x y z => op (f x y z) (g x y z)) hx hy hz
  rw [heq] at hf hg hfg
  rw [Array.getElem?_eq_getElem (by rw [size_cube]; exact hi')] at hfg
  injection hfg with hfg
  rw [hfg]
  simp only [Flat.combinePairwise, Array.getElem_ofFn, hf, hg]

/-- Two cubes combined, each stretched where it has extent one. -/
theorem combine_cube [Zero α] (op : α → α → α)
    (hb : Shape.joinAxis b₁ b₂ = some b)
    (hl : Shape.joinAxis l₁ l₂ = some l)
    (hk : Shape.joinAxis k₁ k₂ = some k) :
    (cube b₁ l₁ k₁ f).combine op (cube b₂ l₂ k₂ g)
      = .ok (cube b l k fun x y z =>
          op (f (pick b₁ x) (pick l₁ y) (pick k₁ z))
            (g (pick b₂ x) (pick l₂ y) (pick k₂ z))) := by
  have hb' := joinAxis_cases hb
  have hl' := joinAxis_cases hl
  have hk' := joinAxis_cases hk
  rw [combine, Flat.combine, shape_cube, shape_cube,
    joinShapes_cube hb hl hk, ok_bind]
  by_cases hsame : [b₁, 1, l₁, k₁] = [b₂, 1, l₂, k₂]
  · -- equal shapes are combined pairwise, and nothing is stretched
    simp only [List.cons.injEq, and_true, true_and] at hsame
    obtain ⟨rfl, rfl, rfl⟩ := hsame
    rw [joinAxis_self] at hb hl hk
    injection hb with hb
    injection hl with hl
    injection hk with hk
    subst hb hl hk
    rw [if_pos rfl, combinePairwise_cube _ (by simp [Nat.mul_assoc])]
    refine Eq.trans (ofArray_cube ..) (congrArg _ (cube_congr ?_))
    intro x y z hx hy hz
    rw [pick_of_lt hx, pick_of_lt hy, pick_of_lt hz]
  · rw [if_neg hsame]
    have hgather := gather_cube (b := b) (l := l) (k := k) (f := fun x y z =>
        op (f (pick b₁ x) (pick l₁ y) (pick k₁ z))
          (g (pick b₂ x) (pick l₂ y) (pick k₂ z)))
      (h := fun i => do
        let a ← Flat.fetch (cube b₁ l₁ k₁ f).data
          (Flat.stretchedPosition [b₁, 1, l₁, k₁] [b, 1, l, k] i)
        let c ← Flat.fetch (cube b₂ l₂ k₂ g).data
          (Flat.stretchedPosition [b₂, 1, l₂, k₂] [b, 1, l, k] i)
        return op a c)
      (n := Shape.size [b, 1, l, k]) (by simp [Nat.mul_assoc]) ?_
    · rw [hgather]
      exact ofArray_cube
    · intro x y z hx hy hz
      rw [fetch_stretched hb'.1 hl'.1 hk'.1 hx hy hz,
        fetch_stretched hb'.2 hl'.2 hk'.2 hx hy hz]
      rfl

/-- Two cubes of one shape. -/
theorem combine_same [Zero α] (op : α → α → α) :
    (cube b l k f).combine op (cube b l k g)
      = .ok (cube b l k fun x y z => op (f x y z) (g x y z)) := by
  rw [combine_cube op (joinAxis_self b) (joinAxis_self l) (joinAxis_self k)]
  refine congrArg _ (cube_congr fun x y z hx hy hz => ?_)
  rw [pick_of_lt hx, pick_of_lt hy, pick_of_lt hz]

/-- A cube and one matrix that serves the whole batch. -/
theorem combine_shared [Zero α] (op : α → α → α) :
    (cube b l k f).combine op (cube 1 l k g)
      = .ok (cube b l k fun x y z => op (f x y z) (g 0 y z)) := by
  rw [combine_cube op (joinAxis_one_right b) (joinAxis_self l)
    (joinAxis_self k)]
  refine congrArg _ (cube_congr fun x y z hx hy hz => ?_)
  rw [pick_of_lt hx, pick_of_lt hy, pick_of_lt hz, pick_one]

/-- A cube and one row for each batch entry. -/
theorem combine_row [Zero α] (op : α → α → α) :
    (cube b l k f).combine op (cube b 1 k g)
      = .ok (cube b l k fun x y z => op (f x y z) (g x 0 z)) := by
  rw [combine_cube op (joinAxis_self b) (joinAxis_one_right l)
    (joinAxis_self k)]
  refine congrArg _ (cube_congr fun x y z hx hy hz => ?_)
  rw [pick_of_lt hx, pick_of_lt hy, pick_of_lt hz, pick_one]

/-- One matrix for the whole batch, and one row for each batch entry. -/
theorem combine_cross [Zero α] (op : α → α → α) :
    (cube 1 l k f).combine op (cube b 1 k g)
      = .ok (cube b l k fun x y z => op (f 0 y z) (g x 0 z)) := by
  rw [combine_cube op (joinAxis_one_left b) (joinAxis_one_right l)
    (joinAxis_self k)]
  refine congrArg _ (cube_congr fun x y z hx hy hz => ?_)
  rw [pick_of_lt hx, pick_of_lt hy, pick_of_lt hz, pick_one, pick_one]

/-- A column stretched over the last axis. -/
theorem broadcastTo_cube :
    (cube b l 1 f).broadcastTo [b, 1, l, k]
      = .ok (cube b l k fun x y _ => f x y 0) := by
  rw [broadcastTo, Flat.expand, shape_cube, joinShapes_cube (joinAxis_self b)
    (joinAxis_self l) (joinAxis_one_left k), ok_bind, if_neg (fun h => h rfl)]
  refine gather_ofArray_cube rfl (by simp [Nat.mul_assoc]) ?_
  intro x y z hx hy hz
  rw [fetch_stretched (.inl rfl) (.inl rfl) (.inr rfl) hx hy hz,
    pick_of_lt hx, pick_of_lt hy, pick_one]

-- ============================================================ reductions

variable [Zero α] [Add α]

/-- A sum that runs over a buffer. -/
theorem total_eq_sumTo {n : Nat} {h : Nat → Except Flat.Error α}
    {term : Nat → α} (hterm : ∀ i, i < n → h i = .ok (term i)) :
    Flat.total n h = .ok (sumTo n term) := Flat.total_ok term hterm

/-- The sum over the batch. -/
theorem sumBatch_cube :
    (cube b l k f).sumAxis 0
      = .ok (cube 1 l k fun _ y z => sumTo b fun x => f x y z) := by
  refine gather_ofArray_cube rfl (by simp) ?_
  intro x y z hx hy hz
  refine total_eq_sumTo fun j hj => ?_
  have hinner : Shape.size (List.drop (0 + 1) [b, 1, l, k]) = l * k := by simp
  have hx : x = 0 := by omega
  have hrow : y * k + z < l * k := position_lt hy hz
  rw [shape_cube, hinner, hx, Nat.zero_mul, Nat.zero_add,
    Nat.div_eq_of_lt hrow, Nat.mod_eq_of_lt hrow, Nat.zero_mul, Nat.zero_mul,
    Nat.zero_add, ← fetch_cube hj hy hz, Nat.add_mul, Nat.mul_assoc,
    Nat.add_assoc]

/-- The sum along the axis of extent one, which has a single term. -/
theorem sumUnit_cube :
    (cube b l k f).sumAxis 1
      = .ok (cube b l k fun x y z => sumTo 1 fun _ => f x y z) := by
  refine gather_ofArray_cube rfl (by simp [Nat.mul_assoc]) ?_
  intro x y z hx hy hz
  refine total_eq_sumTo fun j hj => ?_
  have hinner : Shape.size (List.drop (1 + 1) [b, 1, l, k]) = l * k := by simp
  have hj : j = 0 := by omega
  have hrow : y * k + z < l * k := position_lt hy hz
  have hflat : (x * l + y) * k + z = x * (l * k) + (y * k + z) := by
    rw [Nat.add_mul, Nat.mul_assoc, Nat.add_assoc]
  rw [shape_cube, hinner, hj, ← fetch_cube hx hy hz, hflat,
    div_position hrow, mod_position hrow]
  simp

/-- The sum over the rows of an entry. -/
theorem sumRows_cube :
    (cube b l k f).sumAxis 2
      = .ok (cube b 1 k fun x _ z => sumTo l fun y => f x y z) := by
  refine gather_ofArray_cube rfl (by simp) ?_
  intro x y z hx hy hz
  refine total_eq_sumTo fun j hj => ?_
  have hinner : Shape.size (List.drop (2 + 1) [b, 1, l, k]) = k := by simp
  have hy : y = 0 := by omega
  rw [shape_cube, hinner, hy, Nat.mul_one, Nat.add_zero, div_position hz,
    mod_position hz, ← fetch_cube hx hj hz, Nat.add_mul]

/-- The sum over the columns of a row. -/
theorem sumColumns_cube :
    (cube b l k f).sumAxis 3
      = .ok (cube b l 1 fun x y _ => sumTo k fun z => f x y z) := by
  refine gather_ofArray_cube rfl (by simp) ?_
  intro x y z hx hy hz
  refine total_eq_sumTo fun j hj => ?_
  have hinner : Shape.size (List.drop (3 + 1) [b, 1, l, k]) = 1 := rfl
  have hz : z = 0 := by omega
  rw [shape_cube, hinner, hz, ← fetch_cube hx hy hj]
  simp [Nat.mod_one]

/-- A sum along one axis, as a list of one. -/
theorem sumAxes_single (t : Tensor α) (axis : Nat) :
    t.sumAxes [axis] = t.sumAxis axis := by
  rw [sumAxes, List.foldlM_cons]
  cases t.sumAxis axis <;> rfl

-- ============================================================== new shapes

omit [Zero α] [Add α]

/-- A column laid out as a row. -/
theorem reshape_row :
    (cube b l 1 f).reshape [b, 1, 1, l]
      = .ok (cube b 1 l fun x _ z => f x z 0) := by
  have hsize : (cube b l 1 f).shape.size = Shape.size [b, 1, 1, l] := by simp
  rw [reshape, dif_pos hsize]
  refine congrArg _ (Tensor.ext rfl ?_)
  refine congrArg List.toArray ?_
  rw [Nat.mul_one, Nat.mul_one]
  refine List.map_congr_left fun i _ => ?_
  rw [Nat.div_one, Nat.mod_one, Nat.div_one]

/-- A row laid out as a column. -/
theorem reshape_column :
    (cube b 1 l f).reshape [b, 1, l, 1]
      = .ok (cube b l 1 fun x y _ => f x 0 y) := by
  have hsize : (cube b 1 l f).shape.size = Shape.size [b, 1, l, 1] := by simp
  rw [reshape, dif_pos hsize]
  refine congrArg _ (Tensor.ext rfl ?_)
  refine congrArg List.toArray ?_
  rw [Nat.mul_one, Nat.mul_one]
  refine List.map_congr_left fun i _ => ?_
  rw [Nat.div_one, Nat.mod_one, Nat.div_one]

end Tensor
end MixtureAttention
