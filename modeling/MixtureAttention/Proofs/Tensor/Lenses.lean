/-
Spans of the last axis as lenses. A span is read out and overwritten in every
row at once, whatever the leading axes are; a refused overwrite leaves the
tensor as it was. On sheets an overwrite pastes one function into another
(`overwrite_sheet`), and each law of a lens is an equation of two functions
of a row and a column, decided by which columns the spans cover.

Spans are apart when no column lies in both. An overwrite of one is then
invisible through the other, so by induction on the overwrites, the latest
one first, each span reads as it was last written (`reads_after`). Spans that
cover every column show the whole tensor (`eq_of_reads`). The parts of a
packed row are the case of three spans of one length.
-/
import Mathlib.Data.List.Induction
import MixtureAttention.Layer.Slots
import MixtureAttention.Proofs.Tensor.Rows

namespace MixtureAttention

open Tensor

variable {α : Type}

/-- Consecutive columns of the last axis: `len` of them, from `offset` on. -/
structure Span where
  offset : Nat
  len : Nat
deriving DecidableEq, Repr

namespace Span

/-- The column lies in the span. -/
def Covers (s : Span) (z : Nat) : Prop :=
  s.offset ≤ z ∧ z < s.offset + s.len

instance (s : Span) (z : Nat) : Decidable (s.Covers z) :=
  inferInstanceAs (Decidable (_ ∧ _))

/-- The span ends within rows of the given width. -/
def Within (s : Span) (width : Nat) : Prop := s.offset + s.len ≤ width

/-- No column lies in both spans. A span of no columns is apart from every
span, wherever it starts. -/
def Apart (s r : Span) : Prop := ∀ z, s.Covers z → ¬ r.Covers z

/-- The part has the shape of the span: the tensor's, with the span's length
on the last axis. -/
def Fits (s : Span) (t part : Tensor α) : Prop :=
  part.shape = t.shape.withWidth s.len

/-- Reads the columns out of every row. -/
def read (s : Span) (t : Tensor α) : Except TensorError (Tensor α) :=
  t.columns s.offset s.len

/-- Overwrites the columns of every row, in place. A refused part leaves the
tensor as it was. -/
def overwrite (s : Span) (part : Tensor α) :
    EStateM TensorError (Tensor α) Unit := fun t =>
  match t.setColumns s.offset s.len part with
  | .ok t' => .ok () t'
  | .error e => .error e t

/-- Overwrites spans of a family one after the other. -/
def overwriteAll {ι : Type} (span : ι → Span) (ws : List (ι × Tensor α)) :
    EStateM TensorError (Tensor α) Unit :=
  forM ws fun p => (span p.1).overwrite p.2

-- ============================================================= on sheets

/-- One function in the columns of a span, another one beside it. -/
def paste (s : Span) (g f : Nat → Nat → α) (x z : Nat) : α :=
  if s.Covers z then g x (z - s.offset) else f x z

variable {s r : Span} {lead : Shape} {w : Nat} {f g h : Nat → Nat → α}

/-- Inside the columns the part is seen. -/
theorem paste_of_covers {x z : Nat} (hz : s.Covers z) :
    s.paste g f x z = g x (z - s.offset) := if_pos hz

/-- And outside what was there before. -/
theorem paste_of_not_covers {x z : Nat} (hz : ¬ s.Covers z) :
    s.paste g f x z = f x z := if_neg hz

/-- The columns cover their offset and what follows. -/
theorem covers_add {z : Nat} (hz : z < s.len) : s.Covers (s.offset + z) :=
  ⟨Nat.le_add_right _ _, Nat.add_lt_add_left hz _⟩

theorem Apart.symm (ha : s.Apart r) : r.Apart s :=
  fun z hr hs => ha z hs hr

/-- Reading takes the columns of each row. -/
theorem read_sheet (hs : s.Within w) :
    s.read (sheet lead w f)
      = .ok (sheet lead s.len fun x z => f x (s.offset + z)) :=
  columns_sheet hs

/-- Overwriting replaces the columns of each row. -/
theorem overwrite_sheet (hs : s.Within w) :
    s.overwrite (sheet lead s.len g) (sheet lead w f)
      = .ok () (sheet lead w (s.paste g f)) := by
  unfold overwrite
  rw [setColumns_sheet hs]
  rfl

/-- A part of another shape is refused. -/
theorem overwrite_refused {t part : Tensor α} (ht : t.shape = lead ++ [w])
    (hs : s.Within w) (hpart : ¬ s.Fits t part) :
    s.overwrite part t
      = .error (.shapeMismatch (t.shape.withWidth s.len) part.shape) t := by
  have hshape : part.shape ≠ t.shape.withWidth s.len := hpart
  unfold overwrite
  rw [setColumns, checkSegment_ok ht hs, ok_bind, if_pos hshape]
  rfl

/-- What can be written is as wide as the columns, whatever stands in the rows.
-/
theorem fits_iff {t part : Tensor α} (ht : t.shape = lead ++ [w]) :
    s.Fits t part ↔ part.shape = lead ++ [s.len] := by
  rw [Fits, ht, Shape.withWidth_concat]

-- ======================================================= laws of one span

/-- What is in a tensor once a span of it was overwritten. -/
structure Wrote (s : Span) (t part t' : Tensor α) : Prop where
  shape : t'.shape = t.shape
  strides : t'.strides = t.strides
  /-- The part is read back. -/
  readBack : s.read t' = .ok part
  /-- The elements beside the span are those from before. -/
  beside : ∀ c z, t.shape.Contains (c ++ [z]) → ¬ s.Covers z →
    t'.get (c ++ [z]) = t.get (c ++ [z])
  /-- Another overwrite of the span finds what it would have found before. -/
  again : ∀ part', s.Fits t part' → s.overwrite part' t' = s.overwrite part' t

/-- Reading and overwriting a span of one tensor. -/
structure Lawful (s : Span) (t : Tensor α) : Prop where
  /-- The columns are read out in their order. Written back they change
  nothing. -/
  read : ∃ part, s.read t = .ok part ∧ s.Fits t part
    ∧ (∀ c z, t.shape.Contains (c ++ [s.offset + z]) → z < s.len →
        part.get (c ++ [z]) = t.get (c ++ [s.offset + z]))
    ∧ s.overwrite part t = .ok () t
  /-- A part of the span's shape is written. -/
  accepted : ∀ part, s.Fits t part →
    ∃ t', s.overwrite part t = .ok () t' ∧ s.Wrote t part t'
  /-- A part of any other shape is refused, and the tensor stays. -/
  refused : ∀ part, ¬ s.Fits t part →
    s.overwrite part t
      = .error (.shapeMismatch (t.shape.withWidth s.len) part.shape) t

/-- What is read of a function is pasted back where it was. -/
theorem paste_read (f : Nat → Nat → α) :
    s.paste (fun x z => f x (s.offset + z)) f = f := by
  funext x z
  by_cases hz : s.Covers z
  · rw [paste_of_covers hz, Nat.add_sub_cancel' hz.1]
  · rw [paste_of_not_covers hz]

/-- The later of two pastes into one span is the only one that is seen. -/
theorem paste_paste (g h f : Nat → Nat → α) :
    s.paste h (s.paste g f) = s.paste h f := by
  funext x z
  by_cases hz : s.Covers z
  · rw [paste_of_covers hz, paste_of_covers hz]
  · rw [paste_of_not_covers hz, paste_of_not_covers hz, paste_of_not_covers hz]

/-- Two pastes into spans that do not meet. -/
theorem Apart.paste_comm (ha : s.Apart r) (g h f : Nat → Nat → α) :
    r.paste h (s.paste g f) = s.paste g (r.paste h f) := by
  funext x z
  by_cases hs : s.Covers z
  · rw [paste_of_not_covers (ha z hs), paste_of_covers hs, paste_of_covers hs]
  · by_cases hr : r.Covers z
    · rw [paste_of_covers hr, paste_of_not_covers hs, paste_of_covers hr]
    · rw [paste_of_not_covers hr, paste_of_not_covers hs,
        paste_of_not_covers hs, paste_of_not_covers hr]

/-- What is accepted is passed on to the next step. -/
theorem bind_of_wrote {t t' : Tensor α}
    {m m' : EStateM TensorError (Tensor α) Unit} (h : m t = .ok () t') :
    (do m; m') t = m' t' := by
  show EStateM.bind m (fun _ => m') t = m' t'
  rw [EStateM.bind, h]

/-- The last of several overwrites comes after the others. -/
theorem overwriteAll_concat {ι : Type} (span : ι → Span)
    (ws : List (ι × Tensor α)) (p : ι × Tensor α) :
    overwriteAll span (ws ++ [p])
      = overwriteAll span ws >>= fun _ => (span p.1).overwrite p.2 := by
  unfold overwriteAll
  rw [List.forM_append, List.forM_cons, List.forM_nil]
  simp only [bind_pure_unit]

section

variable [Zero α] {t u : Tensor α}

/-- What an overwrite leaves of a sheet is what a write is asked for. -/
theorem wrote_sheet (hs : s.Within w) :
    s.Wrote (sheet lead w f) (sheet lead s.len g)
      (sheet lead w (s.paste g f)) where
  shape := rfl
  strides := rfl
  readBack := by
    rw [read_sheet hs]
    refine congrArg Except.ok (sheet_congr fun x z _ hz => ?_)
    rw [paste_of_covers (covers_add hz), Nat.add_sub_cancel_left]
  beside := by
    intro c z hc hz
    obtain ⟨hc, hw⟩ := Shape.contains_concat.1 hc
    rw [get_sheet hc hw, get_sheet hc hw, paste_of_not_covers hz]
  again := by
    intro part hpart
    obtain ⟨h, rfl⟩ := exists_sheet ((fits_iff rfl).1 hpart)
    rw [overwrite_sheet hs, overwrite_sheet hs, paste_paste]

/-- Columns within the last axis satisfy the laws of a lens. -/
theorem lawful (ht : t.shape = lead ++ [w]) (hs : s.Within w) :
    s.Lawful t where
  read := by
    obtain ⟨f, rfl⟩ := exists_sheet ht
    refine ⟨_, read_sheet hs, (fits_iff rfl).2 rfl, fun c z hc hz => ?_, ?_⟩
    · obtain ⟨hc, hw⟩ := Shape.contains_concat.1 hc
      rw [get_sheet hc hz, get_sheet hc hw]
    · rw [overwrite_sheet hs, paste_read]
  accepted := by
    intro part hpart
    obtain ⟨f, rfl⟩ := exists_sheet ht
    obtain ⟨g, rfl⟩ := exists_sheet ((fits_iff rfl).1 hpart)
    exact ⟨_, overwrite_sheet hs, wrote_sheet hs⟩
  refused := fun _ => overwrite_refused ht hs

-- ============================================================= spans apart

/-- Overwrites of two spans of one tensor that do not meet. -/
structure Independent (s r : Span) (t : Tensor α) : Prop where
  /-- Either may come first. -/
  commute : ∀ u v, s.Fits t u → r.Fits t v → ∃ t',
    (do s.overwrite u; r.overwrite v) t = .ok () t'
      ∧ (do r.overwrite v; s.overwrite u) t = .ok () t'
  /-- Neither is seen through the other. -/
  unseen : ∀ u t', s.Fits t u → s.overwrite u t = .ok () t' →
    r.read t' = r.read t

/-- Columns that are apart do not interfere. -/
theorem independent (ht : t.shape = lead ++ [w]) (hs : s.Within w)
    (hr : r.Within w) (ha : s.Apart r) : s.Independent r t where
  commute := by
    intro u v hu hv
    obtain ⟨f, rfl⟩ := exists_sheet ht
    obtain ⟨g, rfl⟩ := exists_sheet ((fits_iff rfl).1 hu)
    obtain ⟨h, rfl⟩ := exists_sheet ((fits_iff rfl).1 hv)
    refine ⟨sheet lead w (r.paste h (s.paste g f)), ?_, ?_⟩
    · rw [bind_of_wrote (overwrite_sheet hs), overwrite_sheet hr]
    · rw [bind_of_wrote (overwrite_sheet hr), overwrite_sheet hs,
        ha.paste_comm]
  unseen := by
    intro u t' hu hwrite
    obtain ⟨f, rfl⟩ := exists_sheet ht
    obtain ⟨g, rfl⟩ := exists_sheet ((fits_iff rfl).1 hu)
    rw [overwrite_sheet hs] at hwrite
    cases hwrite
    rw [read_sheet hr, read_sheet hr]
    refine congrArg Except.ok (sheet_congr fun x z _ hz => ?_)
    rw [paste_of_not_covers (ha.symm _ (covers_add hz))]

-- ================================================================ families

variable {ι : Type} {span : ι → Span}

/-- The spans of a family end within rows of the given width and do not
meet. -/
structure Separate (span : ι → Span) (width : Nat) : Prop where
  within : ∀ i, (span i).Within width
  apart : ∀ i j, i ≠ j → (span i).Apart (span j)

/-- After any overwrites, each span of a family reads as it was last written,
and a span that was not written as it did before. -/
theorem reads_after [DecidableEq ι] (hspan : Separate span w)
    (ht : t.shape = lead ++ [w]) (ws : List (ι × Tensor α)) :
    (∀ p ∈ ws, (span p.1).Fits t p.2) →
      ∃ t', overwriteAll span ws t = .ok () t' ∧ t'.shape = t.shape
        ∧ ∀ i, (span i).read t'
            = (ws.reverse.lookup i).elim ((span i).read t) .ok := by
  -- on the overwrites from the last one back: what the earlier ones left is
  -- what the last one finds
  induction ws using List.reverseRecOn with
  | nil => exact fun _ => ⟨t, rfl, rfl, fun _ => rfl⟩
  | append_singleton ws p ih =>
      intro hfits
      obtain ⟨mid, hmid, hshape, hreads⟩ :=
        ih fun q hq => hfits q (List.mem_append_left _ hq)
      have hfits : (span p.1).Fits mid p.2 := by
        rw [Fits, hshape]
        exact hfits p (by simp)
      have hmidShape := hshape.trans ht
      obtain ⟨t', hlast, hwrote⟩ :=
        (lawful hmidShape (hspan.within p.1)).accepted p.2 hfits
      refine ⟨t', ?_, hwrote.shape.trans hshape, fun i => ?_⟩
      · rw [overwriteAll_concat, bind_of_wrote hmid, hlast]
      · rw [List.reverse_append, List.reverse_singleton,
          List.singleton_append, List.lookup_cons]
        by_cases hi : i = p.1
        · subst hi
          simpa using hwrote.readBack
        · rw [beq_false_of_ne hi]
          have hapart := independent hmidShape (hspan.within p.1)
            (hspan.within i) (hspan.apart p.1 i (Ne.symm hi))
          rw [hapart.unseen p.2 t' hfits hlast]
          exact hreads i

/-- Spans that cover every column determine a tensor. -/
theorem eq_of_reads (ht : t.shape = lead ++ [w]) (hu : u.shape = lead ++ [w])
    (hcover : ∀ z < w, ∃ i, (span i).Within w ∧ (span i).Covers z)
    (hreads : ∀ i, (span i).read u = (span i).read t) : u = t := by
  refine ext_get (hu.trans ht.symm) fun p hp => ?_
  obtain ⟨c, z, rfl, hc, hz⟩ := (hu ▸ hp : (lead ++ [w]).Contains p).of_concat
  obtain ⟨i, hwithin, hcovers⟩ := hcover z hz
  -- the element is one of the part that is read of the span that covers it
  obtain ⟨part, hpart, -, hget, -⟩ := (lawful ht hwithin).read
  obtain ⟨part', hpart', -, hget', -⟩ := (lawful hu hwithin).read
  obtain rfl : part' = part :=
    Except.ok.inj (hpart'.symm.trans ((hreads i).trans hpart))
  have hcolumn : (span i).offset + (z - (span i).offset) = z :=
    Nat.add_sub_cancel' hcovers.1
  have hlen : z - (span i).offset < (span i).len := by
    have hlow := hcovers.1
    have hhigh := hcovers.2
    omega
  have ht' := hget c (z - (span i).offset)
    (by rw [hcolumn, ht]; exact hc.concat hz) hlen
  have hu' := hget' c (z - (span i).offset)
    (by rw [hcolumn, hu]; exact hc.concat hz) hlen
  rw [hcolumn] at ht' hu'
  exact hu'.symm.trans ht'

end

end Span

-- ============================================================ packed rows

namespace Segment

variable {k : Nat}

/-- The columns of a part of a packed row. -/
def span (k : Nat) (seg : Segment) : Span := ⟨seg.offset k, k⟩

/-- The three thirds of a packed row are apart and lie within it. -/
theorem separate_span : Span.Separate (span k) (3 * k) where
  within := by
    intro seg
    show seg.offset k + k ≤ 3 * k
    cases seg <;> simp only [offset] <;> omega
  apart := by
    rintro seg seg' hne z ⟨hlow, hhigh⟩ ⟨hlow', hhigh'⟩
    cases seg <;> cases seg' <;> simp only [span, offset] at * <;>
      first | exact hne rfl | omega

/-- Of parts that are written in some order, each is the latest of its
kind. -/
theorem lookup_parts {β : Type} (parts : Segment → β) {seg : Segment} :
    ∀ {order : List Segment}, seg ∈ order →
      (order.map fun seg => (seg, parts seg)).lookup seg = some (parts seg)
  | first :: order, h => by
      rw [List.map_cons, List.lookup_cons]
      by_cases hfirst : seg = first
      · subst hfirst
        simp
      · rw [beq_false_of_ne hfirst]
        exact lookup_parts parts
          ((List.mem_cons.1 h).resolve_left hfirst)

/-- A column of a packed row belongs to one of the parts. -/
theorem exists_covers {z : Nat} (hz : z < 3 * k) :
    ∃ seg, (span k seg).Covers z := by
  by_cases hstep : z < k
  · exact ⟨.step, Nat.zero_le z, by simpa [span, offset] using hstep⟩
  · by_cases hscale : z < 2 * k
    · exact ⟨.scale, Nat.not_lt.1 hstep, by
        simp only [span, offset]
        omega⟩
    · exact ⟨.share, Nat.not_lt.1 hscale, by
        simp only [span, offset]
        omega⟩

end Segment

namespace Span

/-- Within the last axis of a tensor with any number of axes, each span reads
back what was written to it, keeps what is written back, forgets all writes
but the latest, leaves everything beside it and refuses parts of another
shape without a change; spans apart from each other are written in either
order and not seen through each other. So each span of a family reads as it
was last written, whatever was written in between; the three parts of a
packed row read back in whatever order they were written, and together they
determine the packed buffer. -/
theorem spans_are_lenses [Zero α] {t : Tensor α} (hrank : 1 ≤ t.rank) :
    (∀ s : Span, s.Within t.shape.width → s.Lawful t)
      ∧ (∀ s r : Span, s.Within t.shape.width → r.Within t.shape.width →
          s.Apart r → s.Independent r t)
      ∧ (∀ {ι : Type} [DecidableEq ι] (span : ι → Span)
          (ws : List (ι × Tensor α)), Separate span t.shape.width →
          (∀ p ∈ ws, (span p.1).Fits t p.2) →
          ∃ t', overwriteAll span ws t = .ok () t' ∧ t'.shape = t.shape
            ∧ ∀ i, (span i).read t'
                = (ws.reverse.lookup i).elim ((span i).read t) .ok)
      ∧ ∀ k, t.shape.width = 3 * k →
          (∀ (parts : Segment → Tensor α) (order : List Segment),
            (∀ seg, (parts seg).shape = t.shape.withWidth k) →
            (∀ seg, seg ∈ order) →
            ∃ t', overwriteAll (Segment.span k)
                (order.map fun seg => (seg, parts seg)) t = .ok () t'
              ∧ t'.shape = t.shape
              ∧ ∀ seg : Segment, seg.read k t' = .ok (parts seg))
          ∧ ∀ u : Tensor α, u.rank = t.rank → u.shape.width = 3 * k →
              (∀ seg : Segment, seg.read k u = seg.read k t) → u = t := by
  obtain ⟨r, hr⟩ := Nat.exists_eq_add_of_le' hrank
  obtain ⟨lead, w, ht⟩ := Shape.exists_concat hr
  have hwidth : t.shape.width = w := by rw [ht, Shape.width_concat]
  rw [hwidth]
  refine ⟨fun s => lawful ht, fun s r => independent ht,
    fun span ws hspan => reads_after hspan ht ws, ?_⟩
  rintro k rfl
  constructor
  · intro parts order hparts hall
    have hfits : ∀ p ∈ order.map fun seg => (seg, parts seg),
        (Segment.span k p.1).Fits t p.2 := by
      intro p hp
      obtain ⟨seg, -, rfl⟩ := List.mem_map.1 hp
      exact hparts seg
    obtain ⟨t', hrun, hshape, hreads⟩ :=
      reads_after Segment.separate_span ht _ hfits
    refine ⟨t', hrun, hshape, fun seg => ?_⟩
    have hlatest : (order.map fun seg => (seg, parts seg)).reverse.lookup seg
        = some (parts seg) := by
      rw [← List.map_reverse]
      exact Segment.lookup_parts parts (List.mem_reverse.2 (hall seg))
    have hread := hreads seg
    rw [hlatest] at hread
    exact hread
  · intro u hurank huwidth hreads
    obtain ⟨lead', w', hu⟩ := Shape.exists_concat (hurank.trans hr)
    rw [hu, Shape.width_concat] at huwidth
    subst huwidth
    -- a part that is read has the leading axes of its buffer
    have hlead : lead' = lead := by
      have hwithin := (Segment.separate_span (k := k)).within .step
      obtain ⟨part, hpart, hfits, -⟩ := (lawful ht hwithin).read
      obtain ⟨part', hpart', hfits', -⟩ := (lawful hu hwithin).read
      obtain rfl : part' = part :=
        Except.ok.inj (hpart'.symm.trans ((hreads .step).trans hpart))
      have hshape := ((fits_iff hu).1 hfits').symm.trans ((fits_iff ht).1 hfits)
      exact (List.append_inj' hshape rfl).1
    subst hlead
    have hreads : ∀ seg, (Segment.span k seg).read u
        = (Segment.span k seg).read t := hreads
    refine eq_of_reads ht hu ?_ hreads
    intro z hz
    obtain ⟨seg, hseg⟩ := Segment.exists_covers hz
    exact ⟨seg, Segment.separate_span.within seg, hseg⟩

/-- Two packed rows of one component, `1 2 3` and `4 5 6`: the middle column
is overwritten, a part as wide as the rows is refused, and the three parts
are written from the last to the first. -/
theorem spans_are_lenses_two_rows :
    let packed : Tensor Int := .rowMajor [2, 3] #[1, 2, 3, 4, 5, 6] rfl
    let column : Int → Int → Tensor Int := fun x y => .rowMajor [2, 1] #[x, y] rfl
    let parts : Segment → Tensor Int := fun
      | .step => column 7 8
      | .scale => column 9 10
      | .share => column 11 12
    let middle : Span := ⟨1, 1⟩
    1 ≤ packed.rank
      ∧ (∃ t', middle.overwrite (column 7 8) packed = .ok () t'
        ∧ middle.read t' = .ok (column 7 8) ∧ t'.get [1, 2] = .ok 6)
      ∧ middle.overwrite packed packed
        = .error (.shapeMismatch [2, 1] [2, 3]) packed
      ∧ ∃ t', overwriteAll (Segment.span 1)
            ([.share, .scale, .step].map fun seg => (seg, parts seg)) packed
          = .ok () t'
        ∧ ∀ seg : Segment, seg.read 1 t' = .ok (parts seg) := by
  intro packed column parts middle
  have hrank : 1 ≤ packed.rank := by decide
  obtain ⟨hlawful, -, -, hpacked⟩ := spans_are_lenses hrank
  have hmiddle := hlawful middle (by show 1 + 1 ≤ 3; omega)
  refine ⟨hrank, ?_, ?_, ?_⟩
  · obtain ⟨t', hwrite, hwrote⟩ := hmiddle.accepted (column 7 8) rfl
    refine ⟨t', hwrite, hwrote.readBack, ?_⟩
    exact (hwrote.beside [1] 2 ⟨by decide, by decide, trivial⟩
      (by decide)).trans rfl
  · have hshape : packed.shape ≠ [2, 1] := by decide
    exact hmiddle.refused packed hshape
  · obtain ⟨t', hrun, -, hreads⟩ := (hpacked 1 rfl).1 parts
      [.share, .scale, .step] (by intro seg; cases seg <;> rfl)
      (by intro seg; cases seg <;> decide)
    exact ⟨t', hrun, hreads⟩

end Span
end MixtureAttention
