/-
Combining two buffers is stretching both to the shape that they share and
then combining them position by position. The code takes one of two paths:
equal shapes are combined pairwise, and otherwise every element is looked up
through stretched strides (`combineStretched`). Both paths compute each
element from the operands' elements at the same multi-index, with zero along
the axes of extent one, so on buffers as long as their shapes say they
cannot be told apart (`combine_stretched`).

Which shapes are refused, and in which words, is part of the statements, as
are extents of zero: a shared shape without elements asks for none.
-/
import MixtureAttention.Proofs.Tensor.Positions

namespace MixtureAttention

variable {α β γ : Type}

namespace Flat

-- ==================================================== elements of gathers

theorem fetch_eq_ok {data : Array α} {i : Nat} {x : α} :
    fetch data i = .ok x ↔ data[i]? = some x := by
  unfold fetch
  cases data[i]? with
  | none => exact ⟨nofun, nofun⟩
  | some y => simp

/-- A gather whose every element is computed holds these elements. -/
theorem gather_elements {n : Nat} {f : Nat → Except Error α}
    (h : ∀ i, i < n → ∃ x, f i = .ok x) :
    Returns (fun data => data.size = n
        ∧ ∀ i, i < n → ∃ x, f i = .ok x ∧ data[i]? = some x)
      (gather n f) := by
  rcases Nat.eq_zero_or_pos n with rfl | hn
  · exact .of_ok ⟨rfl, nofun⟩
  · obtain ⟨x₀, -⟩ := h 0 hn
    have : Nonempty α := ⟨x₀⟩
    choose! g hg using h
    rw [gather_ok g hg]
    refine .of_ok ⟨by simp, fun i hi => ⟨g i, hg i hi, ?_⟩⟩
    simp [hi]

-- ============================================================== two paths

/-- Every element is computed from the operands' elements at its stretched
positions, whether or not the shapes are equal. -/
def combineStretched (op : α → β → γ) (left : Array α) (right : Array β)
    (s t target : Shape) : Except Error (Array γ) :=
  gather target.size fun i => do
    let a ← fetch left (stretchedPosition s target i)
    let b ← fetch right (stretchedPosition t target i)
    return op a b

variable {target : Shape}

/-- A tensor has an element at every position of its shape. -/
theorem exists_element (t : Tensor α) {i : Nat} (hi : i < t.shape.size) :
    ∃ x, t.data[i]? = some x :=
  ⟨_, Array.getElem?_eq_getElem (t.size_eq.symm ▸ hi)⟩

/-- A buffer stretched to a shape, position by position. -/
theorem expand_elements (t : Tensor α) (h : t.shape.Stretches target) :
    Returns (fun wide => wide.size = target.size
        ∧ ∀ i, i < target.size → ∃ x,
          t.data[stretchedPosition t.shape target i]? = some x
            ∧ wide[i]? = some x)
      (expand t.data t.shape target) := by
  obtain ⟨hjoin, hshared⟩ := Shape.stretches_iff.1 h
  rw [expand, Tensor.joinShapes_ok hjoin, ok_bind,
    if_neg (not_not_intro hshared)]
  refine (gather_elements fun i hi =>
    Tensor.fetch_stretched_returns t h hi).mono fun wide hwide => ?_
  refine ⟨hwide.1, fun i hi => ?_⟩
  obtain ⟨x, hx, hget⟩ := hwide.2 i hi
  exact ⟨x, fetch_eq_ok.1 hx, hget⟩

/-- An expanded buffer holds the elements of its source, by multi-indices. -/
theorem expand_at {t : Tensor α} (h : t.shape.Stretches target)
    {wide : Array α} (hwide : expand t.data t.shape target = .ok wide)
    {c : List Nat} (hc : target.Contains c) :
    ∃ x, element? t.data t.shape (t.shape.pinned c) = some x
      ∧ element? wide target c = some x := by
  obtain ⟨x, hx, hget⟩ :=
    ((expand_elements t h).ensures wide hwide).2 _ hc.dot_lt
  rw [h.project_dot hc] at hx
  exact ⟨x, hx, hget⟩

/-- A target that a buffer cannot be stretched to is refused. -/
theorem expand_refused {t : Tensor α} (h : ¬ t.shape.Stretches target)
    (hrank : t.shape.length = target.length) :
    expand t.data t.shape target
      = .error (.broadcastMismatch t.shape target) := by
  rw [Shape.stretches_iff] at h
  by_cases hjoin : t.shape.Joinable target
  · rw [expand, Tensor.joinShapes_ok hjoin, ok_bind,
      if_pos fun hshared => h ⟨hjoin, hshared⟩]
    rfl
  · rw [expand, joinShapes, if_neg (not_not_intro hrank),
      Shape.join_of_not_joinable hjoin]
    rfl

/-- So is one of another rank. -/
theorem expand_other_rank {t : Tensor α}
    (hrank : t.shape.length ≠ target.length) :
    expand t.data t.shape target
      = .error (.rankMismatch t.shape.length target.length) := by
  rw [expand, joinShapes, if_pos hrank]
  rfl

/-- So exactly the stretchable targets are accepted. -/
theorem expand_ok_iff {t : Tensor α} :
    (∃ wide, expand t.data t.shape target = .ok wide)
      ↔ t.shape.Stretches target := by
  constructor
  · rintro ⟨wide, hwide⟩
    by_contra h
    by_cases hrank : t.shape.length = target.length
    · rw [expand_refused h hrank] at hwide
      cases hwide
    · rw [expand_other_rank hrank] at hwide
      cases hwide
  · intro h
    obtain ⟨wide, hwide, -⟩ := expand_elements t h
    exact ⟨wide, hwide⟩

variable (op : α → β → γ) (s : Tensor α) (t : Tensor β)

theorem combineStretched_elements (hs : s.shape.Stretches target)
    (ht : t.shape.Stretches target) :
    Returns (fun data => data.size = target.size
        ∧ ∀ i, i < target.size → ∃ a b,
          s.data[stretchedPosition s.shape target i]? = some a
            ∧ t.data[stretchedPosition t.shape target i]? = some b
            ∧ data[i]? = some (op a b))
      (combineStretched op s.data t.data s.shape t.shape target) := by
  have hterm : ∀ i, i < target.size → ∃ a b,
      s.data[stretchedPosition s.shape target i]? = some a
        ∧ t.data[stretchedPosition t.shape target i]? = some b := by
    intro i hi
    obtain ⟨a, ha⟩ := exists_element s (hs.position_lt hi)
    obtain ⟨b, hb⟩ := exists_element t (ht.position_lt hi)
    exact ⟨a, b, ha, hb⟩
  unfold combineStretched
  refine (gather_elements fun i hi => ?_).mono fun data hdata =>
    ⟨hdata.1, fun i hi => ?_⟩
  · obtain ⟨a, b, ha, hb⟩ := hterm i hi
    exact ⟨op a b, by rw [fetch_eq_ok.2 ha, ok_bind, fetch_eq_ok.2 hb]; rfl⟩
  · obtain ⟨a, b, ha, hb⟩ := hterm i hi
    obtain ⟨x, hx, hget⟩ := hdata.2 i hi
    rw [fetch_eq_ok.2 ha, ok_bind, fetch_eq_ok.2 hb] at hx
    cases hx
    exact ⟨a, b, ha, hb, hget⟩

/-- At each position the stretched copies of both operands hold what the
stretched positions are computed from. -/
theorem combineStretched_copies (hs : s.shape.Stretches target)
    (ht : t.shape.Stretches target) {wideS : Array α} {wideT : Array β}
    (hwideS : expand s.data s.shape target = .ok wideS)
    (hwideT : expand t.data t.shape target = .ok wideT) :
    combineStretched op s.data t.data s.shape t.shape target
      = .ok (Array.zipWith op wideS wideT) := by
  obtain ⟨data, hdata, hsize, helements⟩ :=
    combineStretched_elements op s t hs ht
  obtain ⟨hsizeS, hS⟩ := (expand_elements s hs).ensures wideS hwideS
  obtain ⟨hsizeT, hT⟩ := (expand_elements t ht).ensures wideT hwideT
  rw [hdata]
  refine congrArg Except.ok
    (Array.ext (by simp [hsize, hsizeS, hsizeT]) fun i hi hi' => ?_)
  obtain ⟨a, b, ha, hb, hget⟩ := helements i (hsize ▸ hi)
  obtain ⟨a', ha', hgetS⟩ := hS i (hsize ▸ hi)
  obtain ⟨b', hb', hgetT⟩ := hT i (hsize ▸ hi)
  obtain rfl : a = a' := Option.some.inj (ha.symm.trans ha')
  obtain rfl : b = b' := Option.some.inj (hb.symm.trans hb')
  have hzip : (Array.zipWith op wideS wideT)[i]? = some (op a b) := by
    simp [Array.getElem?_zipWith, hgetS, hgetT]
  rw [Array.getElem?_eq_getElem hi'] at hzip
  rw [Array.getElem?_eq_getElem hi] at hget
  exact Option.some.inj (hget.trans hzip.symm)

/-- Equal shapes: what is combined pairwise is what the stretched positions
would have given, since nothing is stretched. -/
theorem combineStretched_same [Zero γ] (hsame : s.shape = t.shape) :
    combineStretched op s.data t.data s.shape t.shape s.shape
      = .ok (combinePairwise op s.data t.data s.shape.size) := by
  have hself : s.shape.Stretches s.shape :=
    List.forall₂_same.2 fun _ _ => .inr rfl
  obtain ⟨data, hdata, hsize, helements⟩ :=
    combineStretched_elements op s t hself (hsame ▸ hself)
  rw [hdata]
  refine congrArg Except.ok (Array.ext ?_ fun i hi _ => ?_)
  · simp [hsize, combinePairwise]
  · rw [hsize] at hi
    obtain ⟨a, b, ha, hb, hget⟩ := helements i hi
    rw [Shape.stretchedPosition_self hi] at ha
    rw [← hsame, Shape.stretchedPosition_self hi] at hb
    rw [Array.getElem?_eq_getElem (by rwa [hsize])] at hget
    injection hget with hget
    simp [hget, combinePairwise, ha, hb]

/-- Whichever path is taken, the elements are those of the stretched
positions. -/
theorem combine_stretched [Zero γ] (h : s.shape.Joinable t.shape) :
    combine op s.data t.data s.shape t.shape
      = (combineStretched op s.data t.data s.shape t.shape
          (s.shape.joined t.shape)).map fun data =>
            (data, s.shape.joined t.shape) := by
  rw [combine, Tensor.joinShapes_ok h, ok_bind]
  by_cases hsame : s.shape = t.shape
  · have hjoined : s.shape.joined t.shape = s.shape := by
      rw [← hsame]
      exact (Shape.stretches_iff.1
        (List.forall₂_same.2 fun _ _ => .inr rfl)).2
    rw [if_pos hsame, hjoined, combineStretched_same op s t hsame]
    rfl
  · rw [if_neg hsame]
    show (combineStretched op s.data t.data s.shape t.shape _ >>= _) = _
    cases combineStretched op s.data t.data s.shape t.shape
      (s.shape.joined t.shape) <;> rfl

/-- Shapes with an axis pair that is neither equal nor holds a one are
refused, and both are named. -/
theorem combine_refused [Zero γ] (h : ¬ s.shape.Joinable t.shape)
    (hrank : s.shape.length = t.shape.length) :
    combine op s.data t.data s.shape t.shape
      = .error (.broadcastMismatch s.shape t.shape) := by
  rw [combine, joinShapes, if_neg (not_not_intro hrank),
    Shape.join_of_not_joinable h]
  rfl

end Flat
end MixtureAttention
