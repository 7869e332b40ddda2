/-
What the flat operations compute on a machine. The loops take every step on
shapes that the machine can address, and come to the answers of the
operations (`Answers`), so what is said of an operation is said of its
loops: combining is stretching first (`combine_stretches_first`), and the
product runs over batches in both ways of sharing (`multiply_batches`).

The operands of an addressable result need not be mentioned: a shape is as
large as those that are stretched to it. A product can be smaller than its
factors, so there all three are.
-/
import MixtureAttention.Proofs.Flat.Ranges

namespace MixtureAttention.Flat

open Machine

variable {α β γ : Type}

-- ============================================================= stretching

section Stretching

variable (op : α → β → γ) (s : Tensor α) (t : Tensor β)

/-- Combining is stretching first. Two tensors of one rank whose shapes can
be stretched to each other are combined over the shape that they share: the
element at a multi-index is the operation on the operands' elements at the
same multi-index with zero along their axes of extent one. The result is the
same as stretching both operands and combining the copies position by
position, and the same as the path through stretched strides would have
given, also where the shapes are equal. Other shapes of one rank are refused
with both named, and a tensor is stretched to a shape exactly if each of its
extents is one or the shape's. On a machine that can address the resulting
shapes the loops answer so. -/
theorem combine_stretches_first [Zero γ]
    (hrank : s.shape.length = t.shape.length)
    (haddress : s.shape.Joinable t.shape →
      (s.shape.joined t.shape).Addressable) :
    Loop.combine op s.data t.data s.shape t.shape
        = answer (combine op s.data t.data s.shape t.shape)
      ∧ (s.shape.Joinable t.shape → ∃ shared data wideS wideT,
        shared = s.shape.joined t.shape
          ∧ combine op s.data t.data s.shape t.shape = .ok (data, shared)
          ∧ data.size = shared.size
          ∧ (∀ c, shared.Contains c → ∃ a b,
              element? s.data s.shape (s.shape.pinned c) = some a
                ∧ element? t.data t.shape (t.shape.pinned c) = some b
                ∧ element? data shared c = some (op a b))
          ∧ expand s.data s.shape shared = .ok wideS
          ∧ expand t.data t.shape shared = .ok wideT
          ∧ wideS.size = shared.size ∧ wideT.size = shared.size
          ∧ data = Array.zipWith op wideS wideT
          ∧ combineStretched op s.data t.data s.shape t.shape shared
              = .ok data)
      ∧ (¬ s.shape.Joinable t.shape →
          combine op s.data t.data s.shape t.shape
            = .error (.broadcastMismatch s.shape t.shape))
      ∧ ∀ target : Shape, (s.shape.Stretches target → target.Addressable) →
          Loop.expand s.data s.shape target
              = answer (expand s.data s.shape target)
            ∧ ((∃ wide, expand s.data s.shape target = .ok wide)
              ↔ s.shape.Stretches target)
            ∧ (s.shape.length = target.length → ¬ s.shape.Stretches target →
                expand s.data s.shape target
                  = .error (.broadcastMismatch s.shape target)) := by
  refine ⟨(Loop.combine_answers op s t haddress).eq_answer, fun h => ?_,
    fun h => combine_refused op s t h hrank, fun target htarget =>
      ⟨(Loop.expand_answers s target htarget).eq_answer, expand_ok_iff,
        fun hlen h => expand_refused h hlen⟩⟩
  obtain ⟨hs, ht⟩ := h.stretches
  obtain ⟨data, hdata, hsize, helements⟩ :=
    combineStretched_elements op s t hs ht
  obtain ⟨wideS, hwideS, hsizeS, -⟩ := expand_elements s hs
  obtain ⟨wideT, hwideT, hsizeT, -⟩ := expand_elements t ht
  have hcopies := combineStretched_copies op s t hs ht hwideS hwideT
  refine ⟨s.shape.joined t.shape, data, wideS, wideT, rfl, ?_, hsize,
    fun c hc => ?_, hwideS, hwideT, hsizeS, hsizeT,
    Except.ok.inj (hdata.symm.trans hcopies), hdata⟩
  · rw [combine_stretched op s t h, hdata]
    rfl
  · obtain ⟨a, b, ha, hb, hget⟩ := helements _ hc.dot_lt
    rw [hs.project_dot hc] at ha
    rw [ht.project_dot hc] at hb
    exact ⟨a, b, ha, hb, hget⟩

end Stretching

/-- A column minus a row is their table of differences. -/
theorem combine_stretches_first_table :
    Shape.Addressable [2, 3] ∧ ∃ data wideS wideT,
      Loop.combine (· - ·) #[10, 20] #[1, 2, 3] [2, 1] [1, 3]
          = .ok (data, [2, 3])
        ∧ expand #[10, 20] [2, 1] [2, 3] = .ok wideS
        ∧ expand #[1, 2, 3] [1, 3] [2, 3] = .ok wideT
        ∧ data = Array.zipWith (· - · : Float → Float → Float) wideS
            wideT := by
  have hjoin : Shape.Joinable [2, 1] [1, 3] :=
    .cons (.inr (.inr rfl)) (.cons (.inr (.inl rfl)) .nil)
  obtain ⟨hloops, hcombined, -⟩ :=
    combine_stretches_first (· - · : Float → Float → Float)
      (.rowMajor [2, 1] #[10, 20] rfl) (.rowMajor [1, 3] #[1, 2, 3] rfl) rfl
      (fun _ => by decide)
  obtain ⟨_, data, wideS, wideT, rfl, hdata, -, -, hwideS, hwideT, -, -,
    hzip, -⟩ := hcombined hjoin
  exact ⟨by decide, data, wideS, wideT,
    hloops.trans (congrArg answer hdata), hwideS, hwideT, hzip⟩

-- ==================================================== products of batches

section Products

variable [Zero α] [Add α] [Mul α] {left right : Tensor α}
  {lead lead' : Shape} {m k k' n : Nat}

/-- The product of two batches of matrices, in both ways of sharing, on a
machine that can address the shapes of the factors and of the product, if there
is one. With equal contracted extents, and right leading axes that are the left
ones or all one, there is a product; the leading axes are the left ones. Each
element is the sum, from left to right starting at zero, of the products of a
left row's elements and a right column's, where the right matrix is the one at
the same leading coordinates, or the single one. Without a contracted extent
all elements are zero. The product is that with the right factor stretched to
the left leading axes, element for element. Other shapes of one rank are
refused as shapes. -/
theorem multiply_batches (hleft : left.shape = lead ++ [m, k])
    (hright : right.shape = lead' ++ [k', n])
    (hrank : lead'.length = lead.length)
    (haddress : left.shape.Addressable) (haddress' : right.shape.Addressable)
    (hfits : k = k' → (lead' = lead ∨ ∀ d ∈ lead', d = 1) →
      Shape.Addressable (lead ++ [m, n])) :
    (k = k' → (lead' = lead ∨ ∀ d ∈ lead', d = 1) → ∃ out,
      Loop.multiply left.data right.data left.shape right.shape = .ok out
        ∧ multiply left.data right.data left.shape right.shape = .ok out
        ∧ out.size = lead.size * m * n
        ∧ (∀ c i j, lead.Contains c → i < m → j < n → ∃ f g : Nat → α,
            (∀ l, l < k →
              element? left.data left.shape (c ++ [i, l]) = some (f l))
            ∧ (lead' = lead → ∀ l, l < k →
              element? right.data right.shape (c ++ [l, j]) = some (g l))
            ∧ ((∀ d ∈ lead', d = 1) → ∀ l, l < k →
              element? right.data right.shape
                (List.replicate c.length 0 ++ [l, j]) = some (g l))
            ∧ element? out (lead ++ [m, n]) (c ++ [i, j])
                = some (sumTo k fun l => f l * g l))
        ∧ (k = 0 → out = Array.replicate (lead.size * m * n) 0)
        ∧ (∃ product, left.matmul right = .ok product
            ∧ product.shape = lead ++ [m, n] ∧ product.data = out)
        ∧ (Shape.Addressable (lead ++ [k, n]) → ∃ wide,
            right.broadcastTo (lead ++ [k, n]) = .ok wide
              ∧ wide.shape = lead ++ [k, n]
              ∧ Loop.expand right.data right.shape (lead ++ [k, n])
                  = .ok wide.data
              ∧ Loop.multiply left.data wide.data left.shape wide.shape
                  = .ok out
              ∧ multiply left.data wide.data left.shape wide.shape
                  = .ok out))
      ∧ (k ≠ k' →
          Loop.multiply left.data right.data left.shape right.shape
              = refuse (.shapeMismatch [k] [k'])
            ∧ multiply left.data right.data left.shape right.shape
              = .error (.shapeMismatch [k] [k']))
      ∧ (k = k' → ¬ (lead' = lead ∨ ∀ d ∈ lead', d = 1) →
          Loop.multiply left.data right.data left.shape right.shape
              = refuse (.shapeMismatch left.shape right.shape)
            ∧ multiply left.data right.data left.shape right.shape
              = .error (.shapeMismatch left.shape right.shape)) := by
  have hserves : lead'.Serves lead ↔ lead' = lead ∨ ∀ d ∈ lead', d = 1 :=
    or_congr_right (and_iff_right hrank)
  rw [← hserves]
  refine ⟨?_, fun h => ?_, ?_⟩
  · rintro rfl h
    have hout := hfits rfl (hserves.1 h)
    rw [hleft] at haddress
    rw [hright] at haddress'
    obtain ⟨a, rfl⟩ := Tensor.exists_stack hleft
    obtain ⟨b, rfl⟩ := Tensor.exists_stack hright
    simp only [Tensor.shape_stack]
    refine ⟨_, Loop.multiply_stack_ok h haddress haddress' hout,
      Tensor.multiply_stack h, Tensor.size_stack,
      fun c i j hc hi hj => ?_, ?_, ⟨_, Tensor.matmul_stack h, rfl, rfl⟩,
      fun hwide => ⟨_, Tensor.broadcastTo_stack h, rfl, ?_, ?_, ?_⟩⟩
    · refine ⟨a (Shape.dot c lead.strides) i,
        fun l => b (Tensor.pick lead'.size (Shape.dot c lead.strides)) l j,
        fun l hl => Tensor.element?_stack hc hi hl, ?_, ?_,
        Tensor.element?_stack hc hi hj⟩
      · rintro rfl l hl
        rw [Tensor.pick_of_lt hc.dot_lt]
        exact Tensor.element?_stack hc hl hj
      -- a single matrix is the one at the index of zeros
      · intro hones l hl
        have hpinned := Shape.pinned_of_ones
          (hrank.trans hc.length.symm) hones
        rw [← hpinned, ← h.dot_pinned hc]
        exact Tensor.element?_stack (h.stretches.contains_pinned hc) hl hj
    · rintro rfl
      refine Array.ext (by simp) fun i hi _ => ?_
      simp [Tensor.data_stack, Tensor.cube, sumTo]
    · have hexpand := (Loop.expand_answers (.stack lead' k n b)
        (lead ++ [k, n]) fun _ => hwide).eq_answer
      rwa [Tensor.expand_of_broadcastTo (Tensor.broadcastTo_stack h)]
        at hexpand
    · rw [Tensor.shape_stack,
        Loop.multiply_stack_ok (.inl rfl) haddress hwide hout]
      exact congrArg Except.ok (congrArg Tensor.data
        (Tensor.stack_congr fun x y z hx _ _ => by
          rw [Tensor.pick_of_lt hx]))
    · rw [Tensor.shape_stack, Tensor.multiply_widened h,
        Tensor.multiply_stack h]
  · rw [hleft, hright, Loop.multiply_append hrank, if_pos h]
    refine ⟨rfl, ?_⟩
    rw [multiply, ProductPlan.inner_refused hrank h]
    rfl
  · rintro rfl h
    rw [hleft, hright, Loop.multiply_append hrank,
      if_neg (not_not_intro rfl), Loop.sharing_refused hrank h]
    refine ⟨rfl, ?_⟩
    rw [multiply, ProductPlan.lead_refused hrank h]
    rfl

end Products

/-- Two rows against one matrix. The element at the second row and the
second column, and the product with two copies of the matrix. -/
theorem multiply_batches_shared :
    Shape.Addressable [2, 1, 2] ∧ Shape.Addressable [1, 2, 2]
      ∧ Shape.Addressable [2, 2, 2] ∧ ∃ out : Array Float,
        Loop.multiply #[1, 2, 3, 4] #[1, 0, 5, 7] [2, 1, 2] [1, 2, 2]
            = .ok out
          ∧ out.size = 4
          ∧ (∃ f g : Nat → Float,
              (∀ l, l < 2 →
                element? #[1, 2, 3, 4] [2, 1, 2] [1, 0, l] = some (f l))
              ∧ (∀ l, l < 2 →
                element? #[1, 0, 5, 7] [1, 2, 2] [0, l, 1] = some (g l))
              ∧ element? out [2, 1, 2] [1, 0, 1]
                  = some (sumTo 2 fun l => f l * g l))
          ∧ ∃ wide, Loop.expand #[1, 0, 5, 7] [1, 2, 2] [2, 2, 2] = .ok wide
              ∧ Loop.multiply #[1, 2, 3, 4] wide [2, 1, 2] [2, 2, 2]
                  = .ok out := by
  let left : Tensor Float := .rowMajor [2, 1, 2] #[1, 2, 3, 4] rfl
  let right : Tensor Float := .rowMajor [1, 2, 2] #[1, 0, 5, 7] rfl
  obtain ⟨out, hout, -, hsize, helements, -, -, hcopies⟩ :=
    (multiply_batches (show left.shape = [2] ++ [1, 2] from rfl)
      (show right.shape = [1] ++ [2, 2] from rfl) rfl (by decide) (by decide)
      fun _ _ => by decide).1 rfl (.inr (by decide))
  obtain ⟨wide, -, hshape, hwide, hsame, -⟩ := hcopies (by decide)
  obtain ⟨f, g, hf, -, hg, helement⟩ :=
    helements [1] 0 1 ⟨by decide, trivial⟩ (by decide) (by decide)
  rw [hshape] at hsame
  exact ⟨by decide, by decide, by decide, out, hout, hsize,
    ⟨f, g, hf, hg (by decide), helement⟩, wide.data, hwide, hsame⟩

end MixtureAttention.Flat
