/-
Multi-indices. An element of a row-major buffer is named by one coordinate
for each axis, each below its extent (`Shape.Contains`), and lies at the
`dot` of the coordinates and the strides. Within a shape the coordinates can
be read off the position again and every position has coordinates, so a
statement about all multi-indices is one about all elements.

Through a larger shape a buffer is read at the same coordinates, except that
an axis of extent one is read at zero (`Shape.pinned`). That is all the
stretched strides say (`Stretches.project_dot`).
-/
import MixtureAttention.Proofs.Tensor.Acceptance

namespace MixtureAttention

variable {α : Type}

namespace Shape

variable {s t lead : Shape} {c : List Nat} {m n y z : Nat}

-- ============================================ coordinates and positions

theorem Contains.length : ∀ {s : Shape} {c : List Nat}, s.Contains c →
    c.length = s.length
  | [], [], _ => rfl
  | _ :: _, _ :: _, h => congrArg Nat.succ (Contains.length h.2)

/-- A multi-index names an element within the buffer. -/
theorem Contains.dot_lt : ∀ {s : Shape} {c : List Nat}, s.Contains c →
    dot c s.strides < s.size
  | [], [], _ => Nat.one_pos
  | _ :: _, _ :: _, h => position_lt h.1 h.2.dot_lt

/-- The coordinates are read off the position again. -/
theorem Contains.coordinates_dot : ∀ {s : Shape} {c : List Nat},
    s.Contains c → coordinates s.strides (dot c s.strides) = c
  | [], [], _ => rfl
  | d :: ds, i :: is, h => by
      show (i * size ds + dot is (strides ds)) / size ds
        :: coordinates (strides ds)
            ((i * size ds + dot is (strides ds)) % size ds) = i :: is
      rw [div_position h.2.dot_lt, mod_position h.2.dot_lt,
        h.2.coordinates_dot]

/-- Every position of a buffer has coordinates in the shape. -/
theorem contains_coordinates : ∀ {s : Shape} {i : Nat}, i < s.size →
    s.Contains (coordinates s.strides i)
  | [], _, _ => trivial
  | d :: ds, i, h => by
      have hrest : 0 < size ds := Nat.pos_of_ne_zero fun hzero => by
        simp [hzero] at h
      exact ⟨(Nat.div_lt_iff_lt_mul hrest).2 h,
        contains_coordinates (Nat.mod_lt i hrest)⟩

/-- A position is that of its own coordinates. -/
theorem dot_coordinates : ∀ {s : Shape} {i : Nat}, i < s.size →
    dot (coordinates s.strides i) s.strides = i
  | [], i, h => (Nat.lt_one_iff.1 h).symm
  | d :: ds, i, h => by
      have hrest : 0 < size ds := Nat.pos_of_ne_zero fun hzero => by
        simp [hzero] at h
      show i / size ds * size ds
        + dot (coordinates (strides ds) (i % size ds)) (strides ds) = i
      rw [dot_coordinates (Nat.mod_lt i hrest), Nat.div_add_mod']

-- ==================================================== rows and columns

/-- A multi-index for the leading axes, a row and a column. -/
theorem Contains.append : ∀ {lead : Shape} {c : List Nat},
    lead.Contains c → y < m → z < n →
      (lead ++ [m, n]).Contains (c ++ [y, z])
  | [], [], _, hy, hz => ⟨hy, hz, trivial⟩
  | _ :: _, _ :: _, h, hy, hz => ⟨h.1, h.2.append hy hz⟩

/-- The leading axes count the matrices. -/
theorem Contains.dot_append : ∀ {lead : Shape} {c : List Nat},
    lead.Contains c →
      dot (c ++ [y, z]) (strides (lead ++ [m, n]))
        = (dot c lead.strides * m + y) * n + z
  | [], [], _ => by simp [dot, strides]
  | d :: ds, i :: is, h => by
      show i * size (ds ++ [m, n])
          + dot (is ++ [y, z]) (strides (ds ++ [m, n]))
        = ((i * size ds + dot is (strides ds)) * m + y) * n + z
      rw [h.2.dot_append, size_append, size_cons, size_cons, size_nil]
      simp only [Nat.add_mul, Nat.mul_assoc, Nat.mul_one, Nat.add_assoc]

-- ============================================================ stretching

/-- The multi-index with zero along the axes of extent one. -/
def pinned (s : Shape) (c : List Nat) : List Nat :=
  List.zipWith Tensor.pick s c

/-- The element of a stretched buffer at a multi-index is the element of the
buffer at the pinned one. -/
theorem Stretches.dot_stretch (h : Stretches s t) :
    ∀ {c : List Nat}, t.Contains c →
      dot c (stretch s t) = dot (s.pinned c) s.strides := by
  induction h with
  | nil => rintro (_ | _) _ <;> rfl
  | @cons d e ds es _ _ ih =>
      rintro (_ | ⟨i, is⟩) hc
      · exact hc.elim
      · show (i * if d = 1 ∧ e ≠ 1 then 0 else size ds)
            + dot is (stretch ds es)
          = Tensor.pick d i * size ds + dot (pinned ds is) (strides ds)
        rw [Tensor.mul_stretched hc.1, ih hc.2]

theorem Stretches.project_dot (h : Stretches s t) (hc : t.Contains c) :
    Flat.stretchedPosition s t (dot c t.strides)
      = dot (s.pinned c) s.strides := by
  rw [Flat.stretchedPosition, sweepStrides_eq, project, hc.coordinates_dot,
    h.dot_stretch hc]

/-- The pinned multi-index names an element of the buffer. -/
theorem Stretches.contains_pinned (h : Stretches s t) :
    ∀ {c : List Nat}, t.Contains c → s.Contains (s.pinned c) := by
  induction h with
  | nil => rintro (_ | _) _ <;> trivial
  | cons hde _ ih =>
      rintro (_ | ⟨i, is⟩) hc
      · exact hc.elim
      · exact ⟨Tensor.pick_lt hc.1 hde.symm, ih hc.2⟩

/-- Within its own shape a multi-index has zero along the axes of extent one
already. -/
theorem Contains.pinned : ∀ {s : Shape} {c : List Nat}, s.Contains c →
    s.pinned c = c
  | [], [], _ => rfl
  | _ :: _, _ :: _, h =>
      congrArg₂ List.cons (Tensor.pick_of_lt h.1) h.2.pinned

/-- A buffer that is stretched to its own shape is read where it is
written. -/
theorem stretchedPosition_self {i : Nat} (hi : i < s.size) :
    Flat.stretchedPosition s s i = i := by
  have hself : Stretches s s := List.forall₂_same.2 fun _ _ => .inr rfl
  have hc := contains_coordinates hi
  have hproject := hself.project_dot hc
  rwa [hc.pinned, dot_coordinates hi] at hproject

-- ============================================== coordinates in their range

theorem Contains.inRange : ∀ {s : Shape} {c : List Nat}, s.Contains c →
    s.inRange c = true
  | [], [], _ => rfl
  | _ :: _, _ :: _, h =>
      Bool.and_eq_true_iff.2 ⟨decide_eq_true h.1, h.2.inRange⟩

/-- With one coordinate for each axis, those that the range check lets
through name an element. -/
theorem contains_of_inRange : ∀ {s : Shape} {c : List Nat},
    c.length = s.length → s.inRange c = true → s.Contains c
  | [], [], _, _ => trivial
  | d :: ds, j :: js, hlen, h => by
      have hboth : j < d ∧ Shape.inRange ds js = true := by
        simpa [inRange] using h
      exact ⟨hboth.1, contains_of_inRange (Nat.succ.inj hlen) hboth.2⟩

/-- What the range check refuses has a coordinate that reaches its extent. -/
theorem inRange_eq_false_iff {cs : List Nat} : s.inRange cs = false ↔
    ∃ axis j d : Nat, cs[axis]? = some j ∧ s[axis]? = some d ∧ d ≤ j := by
  rw [inRange, List.all_eq_false]
  constructor
  · rintro ⟨⟨j, d⟩, hmem, hle⟩
    obtain ⟨axis, haxis⟩ := List.mem_iff_getElem?.1 hmem
    obtain ⟨hj, hd⟩ := List.getElem?_zip_eq_some.1 haxis
    exact ⟨axis, j, d, hj, hd, by simpa using hle⟩
  · rintro ⟨axis, j, d, hj, hd, hle⟩
    exact ⟨(j, d), List.mem_iff_getElem?.2
      ⟨axis, List.getElem?_zip_eq_some.2 ⟨hj, hd⟩⟩, by simpa using hle⟩

end Shape

-- ============================================================== elements

namespace Flat

/-- The element of a buffer of some shape at a multi-index. -/
def element? (data : Array α) (s : Shape) (c : List Nat) : Option α :=
  data[Shape.dot c s.strides]?

end Flat

namespace Tensor

variable {t u : Tensor α} {c : List Nat}

/-- Within the shape a tensor is read at the position of the multi-index. -/
theorem get_eq_ok (hc : t.shape.Contains c) {x : α} :
    t.get c = .ok x ↔ t.data[Shape.dot c t.shape.strides]? = some x := by
  have hlt : Shape.dot c t.shape.strides < t.data.size :=
    t.size_eq.symm ▸ hc.dot_lt
  rw [get, if_pos hc.inRange, t.strides_eq, Flat.fetch_of_lt hlt, liftFlat_ok,
    Array.getElem?_eq_getElem hlt, Except.ok.injEq, Option.some.injEq]

theorem exists_get (hc : t.shape.Contains c) : ∃ x, t.get c = .ok x := by
  have hlt : Shape.dot c t.shape.strides < t.data.size :=
    t.size_eq.symm ▸ hc.dot_lt
  exact ⟨_, (get_eq_ok hc).2 (Array.getElem?_eq_getElem hlt)⟩

/-- Tensors of one shape are told apart by an element. -/
theorem ext_get (hs : t.shape = u.shape)
    (h : ∀ c, t.shape.Contains c → t.get c = u.get c) : t = u := by
  refine Tensor.ext hs (Array.ext ?_ fun i hi hi' => ?_)
  · rw [t.size_eq, u.size_eq, hs]
  · have hlt : i < t.shape.size := t.size_eq ▸ hi
    have hc := Shape.contains_coordinates hlt
    obtain ⟨x, hx⟩ := exists_get hc
    have ht := (get_eq_ok hc).1 hx
    have hu := (get_eq_ok (hs ▸ hc)).1 ((h _ hc).symm.trans hx)
    rw [Shape.dot_coordinates hlt, Array.getElem?_eq_getElem hi] at ht
    rw [← hs, Shape.dot_coordinates hlt, Array.getElem?_eq_getElem hi'] at hu
    exact Option.some.inj (ht.trans hu.symm)

end Tensor
end MixtureAttention
