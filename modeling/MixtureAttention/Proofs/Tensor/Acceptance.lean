/-
Which operands an operation accepts. An operation on tensors of any rank is
decided by the shapes of its operands (`Decided`): either they meet its
condition and the result has a shape that they determine, or it is refused,
and then in words about shapes, never for an element that is not there.

The second half of that is about positions. Whatever an operation computes
an element from lies within its operands, also where axes are stretched
(`project_lt`), so a gather never meets the end of a buffer
(`gather_returns`). Extents may be zero throughout; no position is asked for
then.
-/
import Mathlib.Data.List.Forall2
import MixtureAttention.Proofs.Tensor.Stack
import MixtureAttention.Tensor.Columns

namespace MixtureAttention

variable {α β γ : Type}

-- ======================================================== whole gathers

namespace Flat

/-- Elements that are all computed are all appended. -/
theorem extend_returns {f : Nat → Except Error α} :
    ∀ (n : Nat) (data : Array α),
      (∀ i, data.size ≤ i → i < data.size + n → ∃ x, f i = .ok x) →
      Returns (fun d => d.size = data.size + n) (extend f n data)
  | 0, data, _ => .of_ok rfl
  | n + 1, data, h => by
      obtain ⟨x, hx⟩ := h data.size (by omega) (by omega)
      have hrest := extend_returns (f := f) n (data.push x)
        fun i hi hn => by
          rw [Array.size_push] at hi hn
          exact h i (by omega) (by omega)
      rw [extend, hx]
      refine hrest.mono fun d hd => ?_
      rw [hd, Array.size_push]
      omega

/-- A gather whose elements are all there gives as many as were asked for. -/
theorem gather_returns {n : Nat} {f : Nat → Except Error α}
    (h : ∀ i, i < n → ∃ x, f i = .ok x) :
    Returns (fun d => d.size = n) (gather n f) := by
  have hall := extend_returns (f := f) n #[] fun i _ hi =>
    h i (by simpa using hi)
  simpa [gather] using hall

/-- A sum whose terms are all there is computed, wherever it starts. -/
theorem accumulate_returns [Add α] {f : Nat → Except Error α} :
    ∀ (n i : Nat) (sum : α), (∀ j, i ≤ j → j < i + n → ∃ x, f j = .ok x) →
      ∃ x, accumulate f n i sum = .ok x
  | 0, _, sum, _ => ⟨sum, rfl⟩
  | n + 1, i, sum, h => by
      obtain ⟨x, hx⟩ := h i (by omega) (by omega)
      rw [accumulate, hx]
      exact accumulate_returns n (i + 1) (sum + x) fun j hj hn =>
        h j (by omega) (by omega)

/-- So is the sum of the first `n` terms. -/
theorem total_returns [Zero α] [Add α] {n : Nat} {f : Nat → Except Error α}
    (h : ∀ i, i < n → ∃ x, f i = .ok x) : ∃ x, total n f = .ok x :=
  accumulate_returns n 0 0 fun j _ hj => h j (by omega)

/-- There is an element at every position below the size. -/
theorem fetch_returns {data : Array α} {i : Nat} (h : i < data.size) :
    ∃ x, fetch data i = .ok x := ⟨_, fetch_of_lt h⟩

end Flat

-- ======================================================= shapes by axes

namespace Shape

variable {s t u lead : Shape} {w len axis : Nat}

/-- The step along an axis is the number of elements of the later axes. -/
theorem getElem?_strides :
    ∀ {s : Shape} {axis : Nat}, axis < s.length →
      s.strides[axis]? = some (Shape.size (s.drop (axis + 1)))
  | d :: ds, 0, _ => by simp [strides]
  | d :: ds, axis + 1, h => by
      have h : axis < ds.length := Nat.lt_of_succ_lt_succ h
      simpa [strides] using getElem?_strides h

@[simp] theorem width_concat : width (lead ++ [w]) = w := by
  simp [width]

@[simp] theorem withWidth_concat : withWidth (lead ++ [w]) len
    = lead ++ [len] := by
  simp [withWidth]

@[simp] theorem rowCount_concat : rowCount (lead ++ [w]) = lead.size := by
  simp [rowCount]

/-- A shape with a last axis. -/
theorem exists_concat {r : Nat} (h : s.length = r + 1) :
    ∃ lead w, s = lead ++ [w] := by
  have hne : s ≠ [] := List.ne_nil_of_length_pos (by omega)
  exact ⟨_, _, (List.dropLast_concat_getLast hne).symm⟩

/-- A shape with rows and columns. -/
theorem exists_append_two {r : Nat} (h : s.length = r + 2) :
    ∃ lead m n, s = lead ++ [m, n] ∧ lead.length = r := by
  obtain ⟨init, n, rfl⟩ := exists_concat h
  obtain ⟨lead, m, rfl⟩ := exists_concat (s := init) (r := r) (by
    simpa using h)
  exact ⟨lead, m, n, by simp, by simpa using h⟩

/-- All axes but the last, and the extent of that. -/
theorem eq_append_two {m n : Nat} (hdrop : s.dropLast = lead ++ [m])
    (hwidth : s.width = n) : s = lead ++ [m, n] := by
  have hne : s ≠ [] := by
    rintro rfl
    simp at hdrop
  rw [← List.dropLast_concat_getLast hne, hdrop, List.append_assoc,
    ← hwidth, width, List.getLast?_eq_some_getLast hne]
  rfl

/-- Two shapes can be stretched to each other: axis by axis the extents are
equal or one of them is one. -/
def Joinable (s t : Shape) : Prop :=
  List.Forall₂ (fun a b => a = b ∨ a = 1 ∨ b = 1) s t

/-- The shape that joinable shapes share. -/
def joined (s t : Shape) : Shape :=
  List.zipWith (fun a b => if a = 1 then b else a) s t

/-- A shape can be stretched to another: axis by axis its extent is one or
the other's. -/
def Stretches (s t : Shape) : Prop :=
  List.Forall₂ (fun a b => a = 1 ∨ a = b) s t

/-- The shape with the given axes of extent one. -/
def summed (s : Shape) (axes : List Nat) : Shape :=
  s.mapIdx fun i d => if i ∈ axes then 1 else d

/-- The extent that two axes share, in one formula. -/
theorem joinAxis_eq {a b : Nat} :
    joinAxis a b = if a = b ∨ a = 1 ∨ b = 1 then
      some (if a = 1 then b else a) else none := by
  unfold joinAxis
  by_cases hab : a = b
  · simp [hab]
  · by_cases ha : a = 1
    · simp [ha]
    · by_cases hb : b = 1 <;> simp [hab, ha, hb]

/-- Shapes that fit each other axis by axis are joined. -/
theorem Joinable.join (h : Joinable s t) :
    Shape.join s t = some (joined s t) := by
  induction h with
  | nil => rfl
  | cons hab _ ih =>
      rw [Shape.join, joinAxis_eq, if_pos hab, ih]
      rfl

/-- Other shapes have nothing in common. -/
theorem join_of_not_joinable :
    ∀ {s t : Shape}, ¬ Joinable s t → Shape.join s t = none
  | [], [], h => absurd .nil h
  | [], _ :: _, _ => rfl
  | _ :: _, [], _ => rfl
  | a :: as, b :: bs, h => by
      rw [Shape.join, joinAxis_eq]
      by_cases hab : a = b ∨ a = 1 ∨ b = 1
      · rw [if_pos hab, join_of_not_joinable fun hrest => h (.cons hab hrest)]
        rfl
      · rw [if_neg hab]
        rfl

/-- They have the same rank. -/
theorem Joinable.length (h : Joinable s t) : s.length = t.length :=
  List.Forall₂.length_eq h

/-- The shape that two shapes share has their number of axes. -/
theorem Joinable.length_joined (h : Joinable s t) :
    (joined s t).length = s.length := by
  rw [joined, List.length_zipWith, ← h.length, Nat.min_self]

/-- Both shapes stretch to the one they share. -/
theorem Joinable.stretches (h : Joinable s t) :
    Stretches s (joined s t) ∧ Stretches t (joined s t) := by
  induction h with
  | nil => exact ⟨.nil, .nil⟩
  | @cons a b _ _ hab _ ih =>
      refine ⟨.cons ?_ ih.1, .cons ?_ ih.2⟩
      · by_cases ha : a = 1
        · exact .inl ha
        · exact .inr (if_neg ha).symm
      · by_cases ha : a = 1
        · exact .inr (if_pos ha).symm
        · show b = 1 ∨ b = if a = 1 then b else a
          rw [if_neg ha]
          omega

/-- To be stretched to a shape is to be joined with it and to share it. -/
theorem stretches_iff :
    ∀ {s t : Shape}, Stretches s t ↔ Joinable s t ∧ joined s t = t
  | [], [] => ⟨fun _ => ⟨.nil, rfl⟩, fun _ => .nil⟩
  | [], _ :: _ => ⟨nofun, fun h => nomatch h.1⟩
  | _ :: _, [] => ⟨nofun, fun h => nomatch h.1⟩
  | a :: as, b :: bs => by
      have ih := stretches_iff (s := as) (t := bs)
      unfold Stretches Joinable joined at ih ⊢
      rw [List.forall₂_cons, List.forall₂_cons, List.zipWith_cons_cons,
        List.cons.injEq, ih]
      by_cases ha : a = 1
      · simp [ha]
      · simp only [ha, false_or, if_false]
        constructor
        · rintro ⟨hab, hjoin, hrest⟩
          exact ⟨⟨.inl hab, hjoin⟩, hab, hrest⟩
        · rintro ⟨⟨-, hjoin⟩, hab, hrest⟩
          exact ⟨hab, hjoin, hrest⟩

/-- An element of a stretched buffer stems from an element of the buffer. -/
theorem Stretches.project_lt (h : Stretches s t) :
    ∀ i, i < t.size → project (strides t) (stretch s t) i < s.size := by
  induction h with
  | nil => exact fun i _ => Nat.one_pos
  | @cons d e ds es hde _ ih =>
      intro i hi
      have hes : 0 < size es := Nat.pos_of_ne_zero fun hzero => by
        simp [hzero] at hi
      have hhead : i / size es < e := Nat.div_lt_of_lt_mul (by
        rwa [Nat.mul_comm])
      have hrest := ih (i % size es) (Nat.mod_lt _ hes)
      show i / size es * (if d = 1 ∧ e ≠ 1 then 0 else size ds)
        + project (strides es) (stretch ds es) (i % size es) < d * size ds
      rw [Tensor.mul_stretched hhead]
      exact position_lt (Tensor.pick_lt hhead (by omega)) hrest

/-- Every element of the stretched shape is one of the original's elements. -/
theorem Stretches.position_lt (h : Stretches s t) {i : Nat}
    (hi : i < t.size) : Flat.stretchedPosition s t i < s.size := by
  rw [Flat.stretchedPosition, sweepStrides_eq]
  exact h.project_lt i hi

/-- Nothing is summed along no axes. -/
theorem summed_nil (s : Shape) : s.summed [] = s :=
  List.ext_getElem? fun i => by simp [summed]

/-- Axes are summed one after the other. -/
theorem summed_set (s : Shape) (axis : Nat) (axes : List Nat) :
    Shape.summed (s.set axis 1) axes = s.summed (axis :: axes) := by
  refine List.ext_getElem? fun i => ?_
  unfold summed
  rw [List.getElem?_mapIdx, List.getElem?_mapIdx, List.getElem?_set]
  by_cases hi : axis = i
  · subst hi
    by_cases hlen : axis < s.length <;> simp [hlen]
  · simp [hi, Ne.symm hi]

/-- Summed axes stay, with a single element. -/
@[simp] theorem length_summed (s : Shape) (axes : List Nat) :
    (s.summed axes).length = s.length := by
  simp [summed]

end Shape

-- ====================================================== decided by shapes

/-- The error is an answer to the caller: neither was an element missing nor
did an assertion fail. -/
def TensorError.IsRefusal : TensorError → Prop
  | .overrun | .asserted _ _ => False
  | _ => True

namespace Tensor

/-- The operation succeeds with a result of the given shape if the condition
holds, and is refused otherwise; neither a missing element nor a failed
assertion is what it is refused for. -/
structure Decided (c : Prop) (shape : Shape)
    (r : Except TensorError (Tensor α)) : Prop where
  accepted : c → Returns (fun v => v.shape = shape) r
  refused : ¬ c → ∃ e, r = .error e ∧ e.IsRefusal

namespace Decided

variable {c c' : Prop} {shape : Shape} {r : Except TensorError (Tensor α)}

/-- What is always computed is decided by nothing. -/
theorem of_returns (h : Returns (fun v => v.shape = shape) r) :
    Decided True shape r :=
  ⟨fun _ => h, fun hc => absurd trivial hc⟩

/-- The condition may be put in other words. -/
theorem congr (h : Decided c shape r) (hc : c' ↔ c) : Decided c' shape r :=
  ⟨fun h' => h.accepted (hc.1 h'), fun h' => h.refused fun hp => h' (hc.2 hp)⟩

/-- What succeeded was decided so. -/
theorem of_ok (h : Decided c shape r) {v : Tensor α} (hv : r = .ok v) :
    c ∧ v.shape = shape := by
  by_cases hc : c
  · exact ⟨hc, (h.accepted hc).ensures v hv⟩
  · obtain ⟨e, he, -⟩ := h.refused hc
    rw [he] at hv
    cases hv

/-- What fails was refused. -/
theorem refusal (h : Decided c shape r) {e : TensorError}
    (hr : r = .error e) : e.IsRefusal := by
  by_cases hc : c
  · obtain ⟨v, hv, -⟩ := h.accepted hc
    rw [hr] at hv
    cases hv
  · obtain ⟨e', he, hanswer⟩ := h.refused hc
    rw [hr] at he
    cases he
    exact hanswer

end Decided

/-- A mismatch of shapes is a refusal in words about shapes. -/
theorem mismatch_refused (expected got : List Nat) :
    ∃ e, (.error (.shapeMismatch expected got)
        : Except TensorError (Tensor α)) = .error e ∧ e.IsRefusal :=
  ⟨_, rfl, trivial⟩

/-- Elements are given a shape exactly if there are as many as it says. -/
theorem decided_ofArray (data : Array α) (shape : Shape) :
    Decided (data.size = shape.size) shape (ofArray data shape) := by
  unfold ofArray
  refine ⟨fun h => ?_, fun h => ?_⟩
  · rw [dif_pos h]
    exact .of_ok rfl
  · rw [dif_neg h]
    exact mismatch_refused _ _

/-- A shape is exchanged exactly for one of the same size. -/
theorem decided_reshape (t : Tensor α) (shape : Shape) :
    Decided (t.shape.size = shape.size) shape (t.reshape shape) := by
  unfold reshape
  refine ⟨fun h => ?_, fun h => ?_⟩
  · rw [dif_pos h]
    exact .of_ok rfl
  · rw [dif_neg h]
    exact mismatch_refused _ _

/-- As many elements as the shape has, computed flat, are a tensor. -/
theorem returns_ofArray {r : Except Flat.Error (Array α)} {shape : Shape}
    (h : Returns (fun data => data.size = shape.size) r) :
    Returns (fun v : Tensor α => v.shape = shape)
      (do
        let data ← r
        ofArray data shape : Except TensorError (Tensor α)) := by
  obtain ⟨data, rfl, hsize⟩ := h
  exact (decided_ofArray data shape).accepted hsize

variable {t u : Tensor α} {lead lead' : Shape} {m k k' n w : Nat}

-- =========================================================== element-wise

/-- A tensor that is stretched has an element for every position. -/
theorem fetch_stretched_returns {target : Shape} (t : Tensor α)
    (h : Shape.Stretches t.shape target) {i : Nat} (hi : i < target.size) :
    ∃ x, Flat.fetch t.data (Flat.stretchedPosition t.shape target i)
      = .ok x :=
  Flat.fetch_returns (t.size_eq.symm ▸ h.position_lt hi)

/-- Shapes that fit each other are joined by the checked operation too. -/
theorem joinShapes_ok {s s' : Shape} (h : s.Joinable s') :
    Flat.joinShapes s s' = .ok (s.joined s') := by
  rw [Flat.joinShapes, if_neg (not_not_intro h.length), h.join]

/-- And what does not fit is refused before an element is looked at. -/
theorem joinShapes_refused {s s' : Shape} (h : ¬ s.Joinable s') :
    ∃ e, Flat.joinShapes s s' = .error e ∧ e ≠ .overrun := by
  unfold Flat.joinShapes
  split
  · exact ⟨_, rfl, nofun⟩
  · rw [Shape.join_of_not_joinable h]
    exact ⟨_, rfl, nofun⟩

/-- A flat refusal becomes the refusal of the tensor operation. -/
theorem refused_of_flat {r : Except Flat.Error β}
    {f : β → Except TensorError γ} {e : Flat.Error} (hr : r = .error e)
    (he : e ≠ .overrun) :
    ∃ e' : TensorError,
      ((liftM r : Except TensorError β) >>= f) = .error e'
        ∧ e'.IsRefusal := by
  subst hr
  refine ⟨TensorError.ofFlat e, rfl, ?_⟩
  cases e <;> first | exact absurd rfl he | exact trivial

/-- Two tensors are combined exactly if their shapes fit each other. -/
theorem decided_combine [Zero α] (op : α → α → α) (t u : Tensor α) :
    Decided (t.shape.Joinable u.shape) (t.shape.joined u.shape)
      (t.combine op u) := by
  constructor
  · intro h
    obtain ⟨hleft, hright⟩ := h.stretches
    have hflat : Returns (fun r => r.2 = t.shape.joined u.shape
        ∧ r.1.size = (t.shape.joined u.shape).size)
        (Flat.combine op t.data u.data t.shape u.shape) := by
      unfold Flat.combine
      rw [joinShapes_ok h, ok_bind]
      by_cases hsame : t.shape = u.shape
      · rw [if_pos hsame]
        exact .of_ok ⟨rfl, by simp [Flat.combinePairwise]⟩
      · rw [if_neg hsame]
        refine .bind (Flat.gather_returns fun i hi => ?_) fun data hdata =>
          .of_ok ⟨rfl, hdata⟩
        obtain ⟨x, hx⟩ := fetch_stretched_returns t hleft hi
        obtain ⟨y, hy⟩ := fetch_stretched_returns u hright hi
        exact ⟨op x y, by rw [hx, ok_bind, hy]; rfl⟩
    obtain ⟨⟨data, shape⟩, hr, rfl, hsize⟩ := hflat
    rw [combine, hr]
    exact (decided_ofArray data _).accepted hsize
  · intro h
    obtain ⟨e, he, hne⟩ := joinShapes_refused h
    refine refused_of_flat ?_ hne
    rw [Flat.combine, he]
    rfl

/-- A tensor is stretched exactly to the shapes that its own stretches to. -/
theorem decided_broadcastTo (t : Tensor α) (shape : Shape) :
    Decided (t.shape.Stretches shape) shape (t.broadcastTo shape) := by
  unfold broadcastTo
  constructor
  · intro h
    refine returns_ofArray ?_
    obtain ⟨hjoin, hsame⟩ := Shape.stretches_iff.1 h
    rw [Flat.expand, joinShapes_ok hjoin, ok_bind,
      if_neg (not_not_intro hsame)]
    exact Flat.gather_returns fun i hi => fetch_stretched_returns t h hi
  · intro h
    rw [Shape.stretches_iff] at h
    by_cases hjoin : t.shape.Joinable shape
    · have hother : t.shape.joined shape ≠ shape := fun hsame =>
        h ⟨hjoin, hsame⟩
      refine refused_of_flat (e := .broadcastMismatch t.shape shape) ?_
        (by simp)
      rw [Flat.expand, joinShapes_ok hjoin, ok_bind, if_pos hother]
      rfl
    · obtain ⟨e, he, hne⟩ := joinShapes_refused hjoin
      refine refused_of_flat ?_ hne
      rw [Flat.expand, he]
      rfl

/-- An activation is derived exactly if both tensors have one shape. -/
theorem decided_backward [Scalar α] (act : Activation) (t u : Tensor α) :
    Decided (t.shape = u.shape) t.shape (act.backward t u) := by
  unfold Activation.backward
  refine ⟨fun h => ?_, fun h => ?_⟩
  · rw [dif_pos h]
    cases act with
    | tanh => exact .of_ok rfl
    | sigmoid => exact .of_ok rfl
    | softmax =>
        refine .of_ok ?_
        unfold zipRows
        split <;> rfl
  · rw [dif_neg h]
    exact mismatch_refused _ _

/-- An activation keeps the shape. -/
theorem shape_apply [Scalar α] (act : Activation) (t : Tensor α) :
    (act.apply t).shape = t.shape := by
  cases act with
  | tanh => rfl
  | sigmoid => rfl
  | softmax =>
      show (t.mapRows softmaxRow length_softmaxRow).shape = t.shape
      unfold mapRows
      split <;> rfl

-- ================================================================== sums

section

variable [Zero α] [Add α]

/-- A sum needs an axis that is there. -/
theorem decided_sumAxis (t : Tensor α) (axis : Nat) :
    Decided (axis < t.shape.length) (t.shape.set axis 1)
      (t.sumAxis axis) := by
  unfold sumAxis
  constructor
  · intro h
    obtain ⟨len, hlen⟩ : ∃ len, t.shape[axis]? = some len :=
      ⟨_, List.getElem?_eq_getElem h⟩
    have hsize : t.shape.size = Shape.size (t.shape.take axis) * len
        * Shape.size (t.shape.drop (axis + 1)) := by
      obtain ⟨_, rfl⟩ := List.getElem?_eq_some_iff.1 hlen
      rw [Nat.mul_assoc, ← Shape.size_cons, ← Shape.size_append]
      simp
    have hset : t.shape.set axis 1
        = t.shape.take axis ++ 1 :: t.shape.drop (axis + 1) :=
      List.set_eq_take_append_cons_drop.trans (if_pos h)
    refine returns_ofArray ?_
    rw [Flat.sumAxis, hlen]
    refine (Flat.gather_returns fun i hi => Flat.total_returns fun j hj =>
      Flat.fetch_returns ?_).mono fun data hdata => ?_
    · -- the position of term `j` is that of its outer, own and inner parts
      have hinner : 0 < Shape.size (t.shape.drop (axis + 1)) :=
        Nat.pos_of_ne_zero fun hzero => by simp [hzero] at hi
      have houter := (Nat.div_lt_iff_lt_mul hinner).2 hi
      rw [t.size_eq, hsize, ← Nat.add_mul]
      exact position_lt (position_lt houter hj) (Nat.mod_lt _ hinner)
    · rw [hdata, hset, Shape.size_append, Shape.size_cons, Nat.one_mul]
  · intro h
    refine refused_of_flat (e := .invalidAxis axis t.shape.length) ?_
      (by simp)
    rw [Flat.sumAxis, List.getElem?_eq_none (Nat.not_lt.1 h)]

/-- Sums along several axes are taken one after the other. -/
theorem sumAxes_cons (t : Tensor α) (axis : Nat) (axes : List Nat) :
    t.sumAxes (axis :: axes) = t.sumAxis axis >>= fun t => t.sumAxes axes := by
  rw [sumAxes, List.foldlM_cons]
  rfl

/-- A sum over axes is decided by whether all of them are there. -/
theorem decided_sumAxes (axes : List Nat) :
    ∀ t : Tensor α, Decided (∀ axis ∈ axes, axis < t.shape.length)
      (t.shape.summed axes) (t.sumAxes axes) := by
  induction axes with
  | nil =>
      intro t
      rw [Shape.summed_nil]
      exact (Decided.of_returns (.of_ok rfl)).congr (by simp)
  | cons axis axes ih =>
      intro t
      have hfirst := decided_sumAxis t axis
      rw [sumAxes_cons, List.forall_mem_cons]
      by_cases haxis : axis < t.shape.length
      · obtain ⟨v, hv, hshape⟩ := hfirst.accepted haxis
        have hrest := ih v
        rw [hshape, Shape.summed_set, List.length_set] at hrest
        rw [hv]
        exact hrest.congr (and_iff_right haxis)
      · obtain ⟨e, he, hne⟩ := hfirst.refused haxis
        refine ⟨fun h => absurd h.1 haxis, fun _ => ⟨e, ?_, hne⟩⟩
        rw [he]
        rfl

end

-- =============================================================== segments

/-- Columns that end within the last axis pass the check. -/
theorem checkSegment_ok {offset len : Nat} (ht : t.shape = lead ++ [w])
    (h : offset + len ≤ w) : checkSegment t.shape offset len = .ok () := by
  rw [checkSegment, ht, Shape.width_concat, if_neg (Nat.not_lt.2 h)]

/-- All others are reported with both ends. -/
theorem checkSegment_refused {offset len : Nat}
    (ht : t.shape = lead ++ [w]) (h : ¬ offset + len ≤ w) :
    checkSegment t.shape offset len
      = .error (.indexOutOfBounds [offset, offset + len] t.shape) := by
  rw [checkSegment, ht, Shape.width_concat, if_pos (Nat.not_le.1 h)]

/-- Columns are read exactly if they lie within the last axis. -/
theorem decided_columns (ht : t.shape = lead ++ [w]) (offset len : Nat) :
    Decided (offset + len ≤ w) (lead ++ [len]) (t.columns offset len) := by
  unfold columns
  constructor
  · intro h
    rw [checkSegment_ok ht h, ok_bind, ht, Shape.width_concat,
      Shape.rowCount_concat, Shape.withWidth_concat]
    refine returns_ofArray ((Flat.gather_returns fun i hi =>
      Flat.fetch_returns ?_).mono fun data hdata => ?_)
    · have hlen : 0 < len := Nat.pos_of_ne_zero fun hzero => by
        simp [hzero] at hi
      have hrow := (Nat.div_lt_iff_lt_mul hlen).2 hi
      have hcol := Nat.mod_lt i hlen
      rw [t.size_eq, ht, Shape.size_append, Shape.size_cons, Shape.size_nil,
        Nat.mul_one, Nat.add_assoc]
      exact position_lt hrow (by omega)
    · rw [hdata]
      simp
  · intro h
    rw [checkSegment_refused ht h]
    exact ⟨_, rfl, trivial⟩

/-- They are overwritten exactly if what is written is as wide as they are,
too. -/
theorem decided_setColumns (ht : t.shape = lead ++ [w]) (offset len : Nat)
    (u : Tensor α) :
    Decided (offset + len ≤ w ∧ u.shape = lead ++ [len]) (lead ++ [w])
      (t.setColumns offset len u) := by
  unfold setColumns
  have hwith : t.shape.withWidth len = lead ++ [len] := by
    rw [ht, Shape.withWidth_concat]
  constructor
  · rintro ⟨h, hu⟩
    rw [checkSegment_ok ht h, ok_bind, hwith, if_neg (not_not_intro hu), ht,
      Shape.width_concat]
    refine returns_ofArray (Flat.gather_returns fun i hi => ?_)
    dsimp only
    split
    · next hin =>
        rw [Shape.size_append, Shape.size_cons, Shape.size_nil,
          Nat.mul_one] at hi
        have hw : 0 < w := Nat.pos_of_ne_zero fun hzero => by
          simp [hzero] at hi
        have hrow := (Nat.div_lt_iff_lt_mul hw).2 hi
        refine Flat.fetch_returns ?_
        rw [u.size_eq, hu, Shape.size_append, Shape.size_cons,
          Shape.size_nil, Nat.mul_one]
        exact position_lt hrow (by omega)
    · exact Flat.fetch_returns (by rwa [t.size_eq, ht])
  · intro h
    by_cases hseg : offset + len ≤ w
    · rw [checkSegment_ok ht hseg, ok_bind, hwith,
        if_pos fun hu => h ⟨hseg, hu⟩]
      exact mismatch_refused _ _
    · rw [checkSegment_refused ht hseg]
      exact ⟨_, rfl, trivial⟩

-- =============================================================== products

/-- A tensor with two axes can always be transposed. -/
theorem decided_transpose [Zero α] (ht : t.shape = lead ++ [m, n]) :
    Decided True (lead ++ [n, m]) t.transpose := by
  obtain ⟨f, rfl⟩ := exists_stack ht
  rw [transpose_stack]
  exact .of_returns (.of_ok rfl)

/-- Shapes of two factors that have no product are refused as shapes. -/
theorem productPlan_refused
    (h : ¬ (k = k' ∧ Shape.Serves lead' lead)) :
    ∃ e, Flat.ProductPlan.of (lead ++ [m, k]) (lead' ++ [k', n]) = .error e
      ∧ e ≠ .overrun := by
  unfold Flat.ProductPlan.of
  rw [Shape.matrix?_append, Shape.matrix?_append]
  dsimp only
  split
  · exact ⟨_, rfl, nofun⟩
  · next hlen =>
      split
      · exact ⟨_, rfl, nofun⟩
      · next hk =>
          have hk : k = k' := Decidable.not_not.1 hk
          split
          · next hsame => exact absurd ⟨hk, .inl hsame.symm⟩ h
          · split
            · next hones =>
                have hlen : lead'.length = lead.length := by
                  simpa using hlen
                exact absurd ⟨hk, .inr ⟨hlen, by simpa using hones⟩⟩ h
            · exact ⟨_, rfl, nofun⟩

variable [Zero α] [Add α] [Mul α]

/-- Two tensors are multiplied exactly if the contracted axes agree and the
right one's leading axes serve the left one's. -/
theorem decided_matmul (ht : t.shape = lead ++ [m, k])
    (hu : u.shape = lead' ++ [k', n]) :
    Decided (k = k' ∧ Shape.Serves lead' lead) (lead ++ [m, n])
      (t.matmul u) := by
  constructor
  · rintro ⟨rfl, hserves⟩
    obtain ⟨f, rfl⟩ := exists_stack ht
    obtain ⟨g, rfl⟩ := exists_stack hu
    rw [matmul_stack hserves]
    exact .of_ok rfl
  · intro h
    obtain ⟨e, he, hne⟩ := productPlan_refused (m := m) (n := n) h
    unfold matmul
    refine refused_of_flat ?_ hne
    rw [Flat.multiply, ht, hu, he]
    rfl

/-- The same holds for the adjoint of the left factor, with the roles of two
axes exchanged. -/
theorem decided_matmulGradLeft (ht : t.shape = lead ++ [m, n])
    (hu : u.shape = lead' ++ [k, k']) :
    Decided (n = k' ∧ Shape.Serves lead' lead) (lead ++ [m, k])
      (t.matmulGradLeft u) := by
  obtain ⟨v, hv, hshape⟩ := (decided_transpose hu).accepted trivial
  rw [matmulGradLeft, hv]
  exact decided_matmul ht hshape

/-- The two shapes that are compared have one rank. -/
theorem decided_matmulGradRight (ht : t.shape = lead ++ [m, k])
    (hrank : lead'.length = lead.length) (u : Tensor α) :
    Decided (k' = k ∧ u.shape = lead ++ [m, n] ∧ Shape.Serves lead' lead)
      (lead' ++ [k', n]) (t.matmulGradRight .release u (lead' ++ [k', n])) := by
  constructor
  · rintro ⟨rfl, hu, hserves⟩
    obtain ⟨f, rfl⟩ := exists_stack ht
    obtain ⟨g, rfl⟩ := exists_stack hu
    by_cases hsame : lead' = lead
    · subst hsame
      rw [matmulGradRight_stack_batch]
      exact .of_ok rfl
    · rw [matmulGradRight_stack_shared hsame (hserves.ones hsame)]
      exact .of_ok rfl
  · intro h
    unfold matmulGradRight
    rw [ht, Shape.width_append, Shape.dropLast_append_two,
      Shape.lastTwo_append, Shape.lead_append, Shape.lead_append]
    dsimp only
    split
    · exact mismatch_refused _ _
    · next hdrop =>
        split
        · exact mismatch_refused _ _
        · next htwo =>
            have htwo := Decidable.not_not.1 htwo
            have hdrop : u.shape.dropLast = lead ++ [m] :=
              Decidable.not_not.1 hdrop
            rw [List.cons.injEq, List.cons.injEq] at htwo
            have hu : u.shape = lead ++ [m, n] :=
              Shape.eq_append_two hdrop htwo.2.1.symm
            have hnot : ¬ Shape.Serves lead' lead := fun hserves =>
              h ⟨htwo.1, hu, hserves⟩
            have hother : lead' ≠ lead := fun hsame => hnot (.inl hsame)
            have hmany : lead'.any (· ≠ 1) = true :=
              Decidable.byContradiction fun hones =>
                hnot (.inr ⟨hrank, by simpa using hones⟩)
            rw [if_neg hother, if_pos hmany]
            exact mismatch_refused _ _

end Tensor
end MixtureAttention
