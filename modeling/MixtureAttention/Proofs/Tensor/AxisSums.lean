/-
Sums over axes. A tensor is given by a function of multi-indices
(`Tensor.Holds`), and summing it along an axis replaces the function by its
sum along that axis (`Holds.sumAxis`). Axis after axis this makes every
element a sum over the multi-indices of the source that agree with its own
beyond the axes summed so far; in the induction the axis that is summed first
is split off these multi-indices (`sum_agreeing`). What is left at the end
mentions the axes as a set, so neither their order nor a repetition matters,
although each step looks at a buffer of another shape.
-/
import Mathlib.Algebra.BigOperators.Group.Finset.Sigma
import MixtureAttention.Proofs.Tensor.Adjoints
import MixtureAttention.Proofs.Tensor.Stretching

namespace MixtureAttention

open Finset

namespace Shape

variable {s pre post : Shape} {p q u v : List Nat} {a e i j k len : Nat}

-- ========================================================== multi-indices

/-- The multi-indices of a shape. -/
def indices (s : Shape) : Finset (List Nat) :=
  (range s.size).image (coordinates s.strides)

@[simp] theorem mem_indices : p ∈ s.indices ↔ s.Contains p := by
  rw [indices, mem_image]
  constructor
  · rintro ⟨i, hi, rfl⟩
    exact contains_coordinates (mem_range.1 hi)
  · intro hp
    exact ⟨_, mem_range.2 hp.dot_lt, hp.coordinates_dot⟩

/-- Two multi-indices agree beyond the given axes. -/
def AgreeOff (axes : List Nat) (p q : List Nat) : Prop :=
  ∀ a < p.length, a ∉ axes → p[a]? = q[a]?

instance (axes p q : List Nat) : Decidable (AgreeOff axes p q) :=
  inferInstanceAs (Decidable (∀ a < p.length, a ∉ axes → p[a]? = q[a]?))

theorem AgreeOff.set {axes : List Nat} (h : AgreeOff axes p q) (j : Nat) :
    AgreeOff (a :: axes) p (q.set a j) := by
  intro b hb hout
  rw [List.mem_cons, not_or] at hout
  rw [List.getElem?_set_ne (Ne.symm hout.1)]
  exact h b hb hout.2

/-- Where both have zero along an axis they agree along it. -/
theorem AgreeOff.unset {axes : List Nat} (h : AgreeOff (a :: axes) p q)
    (hlen : p.length = q.length) (hp : p[a]? = some 0) :
    AgreeOff axes p (q.set a 0) := by
  intro b hb hout
  by_cases hba : b = a
  · subst hba
    rw [hp, List.getElem?_set_self (hlen ▸ hb)]
  · rw [List.getElem?_set_ne (Ne.symm hba)]
    exact h b hb (by simp [hba, hout])

/-- Beyond no axis they agree in every coordinate. -/
theorem AgreeOff.eq (h : AgreeOff [] p q) (hlen : p.length = q.length) :
    p = q := by
  refine List.ext_getElem? fun a => ?_
  by_cases ha : a < p.length
  · exact h a ha List.not_mem_nil
  · rw [List.getElem?_eq_none (Nat.le_of_not_lt ha),
      List.getElem?_eq_none (hlen ▸ Nat.le_of_not_lt ha)]

theorem agreeOff_nil (hp : s.Contains p) :
    {q ∈ s.indices | AgreeOff [] p q} = {p} := by
  ext q
  rw [mem_filter, mem_indices, mem_singleton]
  constructor
  · rintro ⟨hq, hagree⟩
    exact (hagree.eq (hp.length.trans hq.length.symm)).symm
  · rintro rfl
    exact ⟨hp, fun _ _ _ => rfl⟩

/-- A coordinate is below the extent of its axis. -/
theorem Contains.lt : ∀ {s : Shape} {p : List Nat} {a i e : Nat},
    s.Contains p → p[a]? = some i → s[a]? = some e → i < e
  | _ :: _, _ :: _, 0, _, _, h, hi, he => by
      cases hi
      cases he
      exact h.1
  | _ :: _, _ :: _, _ + 1, _, _, h, hi, he => h.2.lt hi he

/-- Every axis has a coordinate, below its extent. -/
theorem Contains.exists_lt (hp : s.Contains p) (hs : s[a]? = some e) :
    ∃ i < e, p[a]? = some i := by
  obtain ⟨ha, -⟩ := List.getElem?_eq_some_iff.1 hs
  have hget := List.getElem?_eq_getElem (hp.length.symm ▸ ha : a < p.length)
  exact ⟨_, hp.lt hget hs, hget⟩

/-- A shape with an empty axis has no multi-indices. -/
theorem indices_of_empty (hs : s[a]? = some 0) : s.indices = ∅ := by
  refine eq_empty_of_forall_notMem fun p hp => ?_
  obtain ⟨_, hi, -⟩ := (mem_indices.1 hp).exists_lt hs
  exact Nat.not_lt_zero _ hi

/-- Along an axis of extent one it is zero. -/
theorem Contains.eq_zero (hp : s.Contains p) (hs : s[a]? = some 1) :
    p[a]? = some 0 := by
  obtain ⟨i, hi, hget⟩ := hp.exists_lt hs
  rw [hget, Nat.lt_one_iff.1 hi]

/-- A list with the entry that it has already. -/
theorem set_of_getElem? {l : List Nat} {x : Nat} (h : l[a]? = some x) :
    l.set a x = l := by
  obtain ⟨ha, rfl⟩ := List.getElem?_eq_some_iff.1 h
  exact List.set_getElem_self ha

/-- Another coordinate along one axis, within another extent. -/
theorem Contains.set (hj : j < e) : ∀ {s : Shape} {p : List Nat} {a : Nat},
    s.Contains p → Contains (s.set a e) (p.set a j)
  | [], [], _, _ => trivial
  | _ :: _, _ :: _, 0, h => ⟨hj, h.2⟩
  | _ :: _, _ :: _, _ + 1, h => ⟨h.1, h.2.set hj⟩

/-- The extents before an axis, along it and after it. -/
theorem exists_split (hs : s[a]? = some e) :
    ∃ pre post : Shape, s = pre ++ e :: post ∧ pre.length = a
      ∧ s.set a 1 = pre ++ 1 :: post := by
  obtain ⟨ha, rfl⟩ := List.getElem?_eq_some_iff.1 hs
  exact List.exists_of_set ha

/-- The coordinates before an axis, along it and after it. -/
theorem Contains.split : ∀ {pre : Shape} {p : List Nat},
    Contains (pre ++ e :: post) p →
      ∃ u i v, p = u ++ i :: v ∧ pre.Contains u ∧ i < e ∧ post.Contains v
  | [], i :: v, h => ⟨[], i, v, rfl, trivial, h.1, h.2⟩
  | _ :: _, k :: _, h => by
      obtain ⟨u, i, v, rfl, hu, hi, hv⟩ := Contains.split h.2
      exact ⟨k :: u, i, v, rfl, ⟨h.1, hu⟩, hi, hv⟩

/-- Their position, axis group by axis group. -/
theorem Contains.dot_split : ∀ {pre : Shape} {u : List Nat},
    pre.Contains u →
      dot (u ++ i :: v) (strides (pre ++ e :: post))
        = (dot u pre.strides * e + i) * post.size + dot v post.strides
  | [], [], _ => by simp [dot, strides]
  | d :: ds, k :: u, h => by
      show k * size (ds ++ e :: post)
          + dot (u ++ i :: v) (strides (ds ++ e :: post))
        = ((k * size ds + dot u (strides ds)) * e + i) * post.size
          + dot v post.strides
      rw [h.2.dot_split, size_append, size_cons]
      ring

end Shape

namespace Tensor

open Shape

variable {α : Type} {s pre post : Shape} {f g : List Nat → α} {t u : Tensor α}
  {axes : List Nat} {a len : Nat}

-- ======================================== tensors by their multi-indices

/-- The tensor has this shape and these elements. -/
structure Holds (t : Tensor α) (s : Shape) (f : List Nat → α) : Prop where
  shape : t.shape = s
  get : ∀ p, s.Contains p → t.get p = .ok (f p)

theorem exists_holds [Zero α] (t : Tensor α) : ∃ f, t.Holds t.shape f := by
  refine ⟨fun p => t.data[dot p t.shape.strides]?.getD 0, rfl,
    fun p hp => ?_⟩
  obtain ⟨x, hx⟩ := exists_get hp
  rw [(get_eq_ok hp).1 hx]
  exact hx

/-- Nothing else determines a tensor. -/
theorem Holds.unique (ht : t.Holds s f) (hu : u.Holds s g)
    (h : ∀ p, s.Contains p → f p = g p) : t = u := by
  refine ext_get (ht.shape.trans hu.shape.symm) fun p hp => ?_
  have hp : s.Contains p := ht.shape ▸ hp
  rw [ht.get p hp, hu.get p hp, h p hp]

-- ================================================================ one axis

section

variable [Zero α] [Add α]

/-- What a sum along an axis of extent `len` puts at position `i`, where the
later axes have `inner` elements. -/
def axisTotal (data : Array α) (len inner i : Nat) : Except Flat.Error α :=
  Flat.total len fun j =>
    Flat.fetch data (i / inner * len * inner + j * inner + i % inner)

theorem flatSumAxis_append {data : Array α} :
    Flat.sumAxis data (pre ++ len :: post) pre.length
      = Flat.gather (pre.size * Shape.size post)
          (axisTotal data len (Shape.size post)) := by
  unfold Flat.sumAxis
  simp only [List.getElem?_append_right (Nat.le_refl _), Nat.sub_self,
    List.getElem?_cons_zero, List.take_left', List.drop_length_add_append,
    List.drop_succ_cons, List.drop_zero]
  rfl

end

variable [AddCommMonoid α]

/-- Its terms are found where they lie. -/
theorem Holds.axisTotal (ht : t.Holds (pre ++ len :: post) f)
    {p : List Nat} (hp : Contains (pre ++ 1 :: post) p) :
    Tensor.axisTotal t.data len (Shape.size post)
        (dot p (Shape.strides (pre ++ 1 :: post)))
      = .ok (∑ j ∈ range len, f (p.set pre.length j)) := by
  obtain ⟨u, k, v, rfl, hu, hk, hv⟩ := hp.split
  have hk : k = 0 := Nat.lt_one_iff.1 hk
  unfold Tensor.axisTotal
  rw [hu.dot_split, hk, Nat.mul_one, Nat.add_zero, div_position hv.dot_lt,
    mod_position hv.dot_lt, ← sumTo_eq_sum]
  refine total_eq_sumTo fun j hj => ?_
  have hset : (u ++ 0 :: v).set pre.length j = u ++ j :: v := by
    rw [← hu.length]
    simp
  have hterm : Contains (pre ++ len :: post) (u ++ j :: v) := by
    have hcontains := (hk ▸ hp).set (a := pre.length) hj
    rw [hset] at hcontains
    simpa using hcontains
  have hget := ht.get _ hterm
  rw [get_eq_ok (ht.shape ▸ hterm), ht.shape, hu.dot_split] at hget
  rw [hset, ← Nat.add_mul]
  exact Flat.fetch_eq_ok.2 hget

theorem Holds.sumAxis (ht : t.Holds s f) (hlen : s[a]? = some len) :
    ∃ out, t.sumAxis a = .ok out
      ∧ out.Holds (s.set a 1) fun p => ∑ j ∈ range len, f (p.set a j) := by
  obtain ⟨pre, post, rfl, rfl, hset⟩ := exists_split hlen
  rw [hset]
  have hrun : Flat.sumAxis t.data t.shape pre.length
      = Flat.gather (Shape.size (pre ++ 1 :: post))
          (Tensor.axisTotal t.data len (Shape.size post)) := by
    rw [ht.shape, flatSumAxis_append, size_append, size_cons, Nat.one_mul]
  -- every position of the result has a multi-index
  have hterms : ∀ i < Shape.size (pre ++ 1 :: post), ∃ x,
      Tensor.axisTotal t.data len (Shape.size post) i = .ok x := by
    intro i hi
    rw [← dot_coordinates hi]
    exact ⟨_, ht.axisTotal (contains_coordinates hi)⟩
  obtain ⟨data, hdata, hsize, helements⟩ := Flat.gather_elements hterms
  refine ⟨.rowMajor _ data hsize, ?_, rfl, fun p hp => ?_⟩
  · unfold Tensor.sumAxis
    rw [hrun, hdata, liftFlat_ok, ok_bind, ht.shape, hset]
    exact dif_pos hsize
  · obtain ⟨x, hx, hget⟩ := helements _ hp.dot_lt
    rw [ht.axisTotal hp] at hx
    cases hx
    exact (get_eq_ok hp).2 hget

-- =============================================================== all axes

/-- The multi-indices that agree beyond `a` and other axes are those that
agree beyond the others, with every coordinate along `a`. -/
theorem sum_agreeing (hlen : s[a]? = some len) {p : List Nat}
    (hp : Contains (s.summed (a :: axes)) p) :
    ∑ q ∈ indices (s.set a 1) with AgreeOff axes p q,
        ∑ j ∈ range len, f (q.set a j)
      = ∑ q ∈ indices s with AgreeOff (a :: axes) p q, f q := by
  obtain ⟨ha, -⟩ := List.getElem?_eq_some_iff.1 hlen
  have hpa : p[a]? = some 0 := hp.eq_zero (by simp [summed, hlen])
  have hlength : ∀ {q : List Nat}, s.Contains q → p.length = q.length :=
    fun hq => by rw [hp.length, hq.length, length_summed]
  have hone : (s.set a 1)[a]? = some 1 := List.getElem?_set_self ha
  rw [← sum_product']
  -- a multi-index is one with zero along the axis, and a coordinate
  refine sum_bij' (fun x _ => x.1.set a x.2)
    (fun q _ => (q.set a 0, q.getD a 0)) ?_ ?_ ?_ ?_ fun _ _ => rfl
  · rintro ⟨q, j⟩ hq
    simp only [mem_product, mem_filter, mem_indices, mem_range] at hq ⊢
    obtain ⟨⟨hq, hagree⟩, hj⟩ := hq
    have hback := hq.set (a := a) hj
    rw [List.set_set, set_of_getElem? hlen] at hback
    exact ⟨hback, hagree.set j⟩
  · intro q hq
    simp only [mem_product, mem_filter, mem_indices, mem_range] at hq ⊢
    obtain ⟨hq, hagree⟩ := hq
    obtain ⟨j, hj, hget⟩ := hq.exists_lt hlen
    rw [List.getD_eq_getElem?_getD, hget]
    exact ⟨⟨hq.set Nat.one_pos, hagree.unset (hlength hq) hpa⟩, hj⟩
  · rintro ⟨q, j⟩ hq
    simp only [mem_product, mem_filter, mem_indices, mem_range] at hq
    have hqa : a < q.length := by rwa [hq.1.1.length, List.length_set]
    rw [List.set_set, set_of_getElem? (hq.1.1.eq_zero hone),
      List.getD_eq_getElem?_getD, List.getElem?_set_self hqa]
    rfl
  · intro q hq
    rw [mem_filter, mem_indices] at hq
    obtain ⟨j, -, hget⟩ := hq.1.exists_lt hlen
    rw [List.set_set, List.getD_eq_getElem?_getD, hget]
    exact set_of_getElem? hget

/-- Summing along axes one after the other gives sums over the multi-indices
that agree beyond them. -/
theorem Holds.sumAxes (axes : List Nat) :
    ∀ {t : Tensor α} {s : Shape} {f : List Nat → α}, t.Holds s f →
      (∀ a ∈ axes, a < s.length) → ∃ out, t.sumAxes axes = .ok out
        ∧ out.Holds (s.summed axes) fun p =>
            ∑ q ∈ s.indices with AgreeOff axes p q, f q := by
  -- for every tensor at once: the later axes are summed of another one
  induction axes with
  | nil =>
      intro t s f ht _
      refine ⟨t, rfl, ht.shape.trans s.summed_nil.symm, fun p hp => ?_⟩
      rw [summed_nil] at hp
      rw [agreeOff_nil hp, sum_singleton]
      exact ht.get p hp
  | cons a axes ih =>
      intro t s f ht haxes
      rw [List.forall_mem_cons] at haxes
      have hlen := List.getElem?_eq_getElem haxes.1
      obtain ⟨mid, hmid, hholds⟩ := ht.sumAxis hlen
      obtain ⟨out, hout, hsums⟩ := ih hholds (by simpa using haxes.2)
      refine ⟨out, ?_, ?_, fun p hp => ?_⟩
      · rw [sumAxes_cons, hmid]
        exact hout
      · rw [← summed_set]
        exact hsums.shape
      · rw [← sum_agreeing hlen hp]
        exact hsums.get p (by rwa [summed_set])

end Tensor
end MixtureAttention
