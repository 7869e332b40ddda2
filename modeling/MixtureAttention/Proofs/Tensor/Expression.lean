/-
Expressions over tensors, and the shapes that they have. An expression is
built from every way of making a tensor and every operation on tensors; its
rank is known beforehand, its extents are not. `Fits` gives an expression
its shape, one rule for each operation, from the shapes of the operands
alone and without computing an element.

The rules are exact: an expression that fits a shape evaluates to a tensor
of that shape (`Fits.evaluates`), and one that evaluates fits the shape that
comes out (`exact_eval`). No operation meets the end of a buffer, extents of
zero included. The one exception is the write of a single element, whose
position is the caller's business.
-/
import MixtureAttention.Proofs.Tensor.Acceptance

namespace MixtureAttention

variable {α : Type} {r : Nat}

/-- The extents of a tensor with `r` axes. -/
abbrev Extents (r : Nat) := { s : Shape // s.length = r }

/-- A tensor of rank `r`, as it was computed. The matrix operations need two
axes and the segments one. -/
inductive Expression (α : Type) : Nat → Type
  | ofArray {r : Nat} (data : Array α) (shape : Extents r) : Expression α r
  | full {r : Nat} (shape : Extents r) (x : α) : Expression α r
  | rowGrid (len width : Nat) (row : Nat → α) : Expression α 4
  | reshape {q r : Nat} (e : Expression α q) (shape : Extents r) :
      Expression α r
  | map {r : Nat} (f : α → α) (e : Expression α r) : Expression α r
  /-- The function applied in place. -/
  | update {r : Nat} (f : α → α) (e : Expression α r) : Expression α r
  /-- The arithmetic operators, by what they do to two elements. -/
  | combine {r : Nat} (op : α → α → α) (e e' : Expression α r) :
      Expression α r
  | neg {r : Nat} (e : Expression α r) : Expression α r
  | broadcastTo {r : Nat} (e : Expression α r) (shape : Extents r) :
      Expression α r
  | sumAxes {r : Nat} (e : Expression α r) (axes : List Nat) :
      Expression α r
  | matmul {r : Nat} (left right : Expression α (r + 2)) :
      Expression α (r + 2)
  | transpose {r : Nat} (e : Expression α (r + 2)) : Expression α (r + 2)
  | matmulGradLeft {r : Nat} (dout right : Expression α (r + 2)) :
      Expression α (r + 2)
  | matmulGradRight {r : Nat} (left dout : Expression α (r + 2))
      (shape : Extents (r + 2)) : Expression α (r + 2)
  | columns {r : Nat} (e : Expression α (r + 1)) (offset len : Nat) :
      Expression α (r + 1)
  | setColumns {r : Nat} (e : Expression α (r + 1)) (offset len : Nat)
      (part : Expression α (r + 1)) : Expression α (r + 1)
  | write {r : Nat} (e : Expression α r) (i : Nat) (x : α) : Expression α r
  | activate {r : Nat} (act : Activation) (e : Expression α (r + 1)) :
      Expression α (r + 1)
  | backward {r : Nat} (act : Activation) (y dy : Expression α (r + 1)) :
      Expression α (r + 1)

namespace Expression

/-- The tensor, or the first refusal on the way to it. -/
def eval [Scalar α] {r : Nat} :
    Expression α r → Except TensorError (Tensor α)
  | ofArray data shape => Tensor.ofArray data shape
  | full shape x => .ok (.full shape x)
  | rowGrid len width row => .ok (.rowGrid len width row)
  | reshape e shape => do (← e.eval).reshape shape
  | map f e | update f e => do return (← e.eval).map f
  | combine op e e' => do (← e.eval).combine op (← e'.eval)
  | neg e => do return (← e.eval).neg
  | broadcastTo e shape => do (← e.eval).broadcastTo shape
  | sumAxes e axes => do (← e.eval).sumAxes axes
  | matmul left right => do (← left.eval).matmul (← right.eval)
  | transpose e => do (← e.eval).transpose
  | matmulGradLeft dout right => do
      (← dout.eval).matmulGradLeft (← right.eval)
  | matmulGradRight left dout shape => do
      (← left.eval).matmulGradRight .release (← dout.eval) shape
  | columns e offset len => do (← e.eval).columns offset len
  | setColumns e offset len part => do
      (← e.eval).setColumns offset len (← part.eval)
  | write e i x => do (← e.eval).write i x
  | activate act e => do return act.apply (← e.eval)
  | backward act y dy => do act.backward (← y.eval) (← dy.eval)

/-- The expression has a shape, by the shapes of what it is made of. -/
inductive Fits : {r : Nat} → Expression α r → Shape → Prop
  | ofArray {r : Nat} {data : Array α} {shape : Extents r} :
      data.size = shape.1.size → Fits (.ofArray data shape) shape
  | full {r : Nat} {shape : Extents r} {x : α} : Fits (.full shape x) shape
  | rowGrid {len width : Nat} {row : Nat → α} :
      Fits (.rowGrid len width row) [1, 1, len, width]
  | reshape {q r : Nat} {e : Expression α q} {shape : Extents r}
      {s : Shape} : Fits e s → s.size = shape.1.size →
      Fits (.reshape e shape) shape
  | map {r : Nat} {f : α → α} {e : Expression α r} {s : Shape} :
      Fits e s → Fits (.map f e) s
  | update {r : Nat} {f : α → α} {e : Expression α r} {s : Shape} :
      Fits e s → Fits (.update f e) s
  | combine {r : Nat} {op : α → α → α} {e e' : Expression α r}
      {s s' : Shape} : Fits e s → Fits e' s' → s.Joinable s' →
      Fits (.combine op e e') (s.joined s')
  | neg {r : Nat} {e : Expression α r} {s : Shape} :
      Fits e s → Fits (.neg e) s
  | broadcastTo {r : Nat} {e : Expression α r} {shape : Extents r}
      {s : Shape} : Fits e s → s.Stretches shape →
      Fits (.broadcastTo e shape) shape
  | sumAxes {r : Nat} {e : Expression α r} {axes : List Nat} {s : Shape} :
      Fits e s → (∀ axis ∈ axes, axis < s.length) →
      Fits (.sumAxes e axes) (s.summed axes)
  | matmul {r : Nat} {left right : Expression α (r + 2)}
      {lead lead' : Shape} {m k n : Nat} : Fits left (lead ++ [m, k]) →
      Fits right (lead' ++ [k, n]) → lead'.Serves lead →
      Fits (.matmul left right) (lead ++ [m, n])
  | transpose {r : Nat} {e : Expression α (r + 2)} {lead : Shape}
      {m n : Nat} : Fits e (lead ++ [m, n]) →
      Fits (.transpose e) (lead ++ [n, m])
  | matmulGradLeft {r : Nat} {dout right : Expression α (r + 2)}
      {lead lead' : Shape} {m k n : Nat} : Fits dout (lead ++ [m, n]) →
      Fits right (lead' ++ [k, n]) → lead'.Serves lead →
      Fits (.matmulGradLeft dout right) (lead ++ [m, k])
  | matmulGradRight {r : Nat} {left dout : Expression α (r + 2)}
      {shape : Extents (r + 2)} {lead lead' : Shape} {m k n : Nat} :
      Fits left (lead ++ [m, k]) → Fits dout (lead ++ [m, n]) →
      shape.1 = lead' ++ [k, n] → lead'.Serves lead →
      Fits (.matmulGradRight left dout shape) shape
  | columns {r : Nat} {e : Expression α (r + 1)} {offset len : Nat}
      {lead : Shape} {w : Nat} : Fits e (lead ++ [w]) → offset + len ≤ w →
      Fits (.columns e offset len) (lead ++ [len])
  | setColumns {r : Nat} {e part : Expression α (r + 1)}
      {offset len : Nat} {lead : Shape} {w : Nat} : Fits e (lead ++ [w]) →
      offset + len ≤ w → Fits part (lead ++ [len]) →
      Fits (.setColumns e offset len part) (lead ++ [w])
  | write {r : Nat} {e : Expression α r} {i : Nat} {x : α} {s : Shape} :
      Fits e s → i < s.size → Fits (.write e i x) s
  | activate {r : Nat} {act : Activation} {e : Expression α (r + 1)}
      {s : Shape} : Fits e s → Fits (.activate act e) s
  | backward {r : Nat} {act : Activation} {y dy : Expression α (r + 1)}
      {s : Shape} : Fits y s → Fits dy s → Fits (.backward act y dy) s

/-- Somewhere in the expression a single element is written past the end. -/
def WritesPast {r : Nat} : Expression α r → Prop
  | ofArray _ _ | full _ _ | rowGrid _ _ _ => False
  | reshape e _ | map _ e | update _ e | neg e | broadcastTo e _ | sumAxes e _
  | transpose e | columns e _ _ | activate _ e => e.WritesPast
  | combine _ e e' | matmul e e' | matmulGradLeft e e'
  | matmulGradRight e e' _ | setColumns e _ _ e' | backward _ e e' =>
      e.WritesPast ∨ e'.WritesPast
  | write e i _ => e.WritesPast ∨ ∃ s, e.Fits s ∧ s.size ≤ i

-- ============================================================ the rules

/-- A shape that an expression fits has as many axes as its rank. -/
theorem Fits.length {e : Expression α r} {s : Shape} (h : e.Fits s) :
    s.length = r := by
  induction h with
  | @ofArray _ _ shape _ => exact shape.2
  | @full _ shape _ => exact shape.2
  | rowGrid => rfl
  | @reshape _ _ _ shape _ _ _ _ => exact shape.2
  | map _ ih => exact ih
  | update _ ih => exact ih
  | combine _ _ hjoin ih _ => exact hjoin.length_joined.trans ih
  | neg _ ih => exact ih
  | @broadcastTo _ _ shape _ _ _ _ => exact shape.2
  | sumAxes _ _ ih => exact (Shape.length_summed ..).trans ih
  | matmul _ _ _ ih _ => simpa using ih
  | transpose _ ih => simpa using ih
  | matmulGradLeft _ _ _ ih _ => simpa using ih
  | @matmulGradRight _ _ _ shape _ _ _ _ _ _ _ _ _ _ _ => exact shape.2
  | columns _ _ ih => simpa using ih
  | setColumns _ _ _ ih _ => exact ih
  | write _ _ ih => exact ih
  | activate _ ih => exact ih
  | backward _ _ ih _ => exact ih

variable [Scalar α]

open Tensor

/-- An expression that fits a shape evaluates to a tensor of that shape. -/
theorem Fits.evaluates {e : Expression α r} {s : Shape} (h : e.Fits s) :
    Returns (fun v => v.shape = s) e.eval := by
  induction h with
  | ofArray hsize => exact (decided_ofArray _ _).accepted hsize
  | full => exact .of_ok rfl
  | rowGrid => exact .of_ok rfl
  | reshape _ hsize ih =>
      refine .bind ih fun v hv => (decided_reshape v _).accepted ?_
      rw [hv, hsize]
  | map _ ih => exact .bind ih fun v hv => .of_ok hv
  | update _ ih => exact .bind ih fun v hv => .of_ok hv
  | combine _ _ hjoin ih ih' =>
      refine .bind ih fun v hv => .bind ih' fun v' hv' => ?_
      subst hv hv'
      exact (decided_combine _ v v').accepted hjoin
  | neg _ ih => exact .bind ih fun v hv => .of_ok hv
  | broadcastTo _ hstretch ih =>
      refine .bind ih fun v hv => (decided_broadcastTo v _).accepted ?_
      rwa [hv]
  | sumAxes _ haxes ih =>
      refine .bind ih fun v hv => ?_
      subst hv
      exact (decided_sumAxes _ v).accepted haxes
  | matmul _ _ hserves ih ih' =>
      exact .bind ih fun v hv => .bind ih' fun v' hv' =>
        (decided_matmul hv hv').accepted ⟨rfl, hserves⟩
  | transpose _ ih =>
      exact .bind ih fun v hv => (decided_transpose hv).accepted trivial
  | matmulGradLeft _ _ hserves ih ih' =>
      exact .bind ih fun v hv => .bind ih' fun v' hv' =>
        (decided_matmulGradLeft hv hv').accepted ⟨rfl, hserves⟩
  | matmulGradRight _ _ hshape hserves ih ih' =>
      refine .bind ih fun v hv => .bind ih' fun v' hv' => ?_
      rw [hshape]
      exact (decided_matmulGradRight hv hserves.length v').accepted
        ⟨rfl, hv', hserves⟩
  | columns _ hseg ih =>
      exact .bind ih fun v hv => (decided_columns hv _ _).accepted hseg
  | setColumns _ hseg _ ih ih' =>
      exact .bind ih fun v hv => .bind ih' fun v' hv' =>
        (decided_setColumns hv _ _ v').accepted ⟨hseg, hv'⟩
  | write _ hi ih =>
      refine .bind ih fun v hv => ?_
      rw [Tensor.write, if_pos (by rwa [v.size_eq, hv])]
      exact .of_ok hv
  | activate _ ih =>
      exact .bind ih fun v hv => .of_ok ((shape_apply _ v).trans hv)
  | backward _ _ ih ih' =>
      refine .bind ih fun v hv => .bind ih' fun v' hv' => ?_
      rw [← hv]
      exact (decided_backward _ v v').accepted (hv.trans hv'.symm)

-- ============================================================ exactness

/-- If the computation succeeds, its value has the property; and only if
some write is past the end does it fail otherwise than by a refusal. -/
structure Exact (P : Tensor α → Prop) (past : Prop)
    (r : Except TensorError (Tensor α)) : Prop where
  ensures : Ensures P r
  refusal : ∀ e, r = .error e → e.IsRefusal ∨ past

namespace Exact

variable {P Q : Tensor α → Prop} {past past' : Prop}
  {c : Except TensorError (Tensor α)}

omit [Scalar α] in
theorem bind {f : Tensor α → Except TensorError (Tensor α)}
    (hc : Exact P past c) (hf : ∀ v, P v → Exact Q past (f v)) :
    Exact Q past (c >>= f) := by
  cases c with
  | error e =>
      refine ⟨nofun, fun e' h => hc.refusal e' ?_⟩
      injection h with h
      rw [h]
  | ok v => exact hf v (hc.ensures v rfl)

omit [Scalar α] in
theorem mono (h : Exact P past c) (hpast : past → past') :
    Exact P past' c :=
  ⟨h.ensures, fun e he => (h.refusal e he).imp_right hpast⟩

omit [Scalar α] in
theorem ok {v : Tensor α} (h : P v) : Exact P past (.ok v) :=
  ⟨fun _ hv => Except.ok.inj hv ▸ h, nofun⟩

omit [Scalar α] in
/-- An operation that is decided by shapes. -/
theorem decided {cond : Prop} {shape : Shape} (h : Decided cond shape c)
    (hP : ∀ v, cond → v.shape = shape → P v) : Exact P past c :=
  ⟨fun v hv => hP v (h.of_ok hv).1 (h.of_ok hv).2,
    fun _ he => .inl (h.refusal he)⟩

omit [Scalar α] in
/-- An element is missing only if some write is past the end. -/
theorem past_of_overrun (h : Exact P past c) (hc : c = .error .overrun) :
    past :=
  (h.refusal _ hc).resolve_left nofun

end Exact

/-- What an expression evaluates to, it fits. -/
theorem exact_eval (e : Expression α r) :
    Exact (fun v => e.Fits v.shape) e.WritesPast e.eval := by
  -- on the expression, one decision lemma for each operation
  induction e with
  | ofArray data shape =>
      refine .decided (decided_ofArray _ _) fun v hsize hv => ?_
      rw [hv]
      exact .ofArray hsize
  | full shape x => exact .ok .full
  | rowGrid len width row => exact .ok .rowGrid
  | reshape e shape ih =>
      refine ih.bind fun v hv => .decided (decided_reshape v _) ?_
      intro u hsize hu
      rw [hu]
      exact .reshape hv hsize
  | map f e ih => exact ih.bind fun v hv => .ok (.map hv)
  | update f e ih => exact ih.bind fun v hv => .ok (.update hv)
  | combine op e e' ih ih' =>
      refine (ih.mono .inl).bind fun v hv => (ih'.mono .inr).bind
        fun v' hv' => .decided (decided_combine op v v') ?_
      intro u hjoin hu
      rw [hu]
      exact .combine hv hv' hjoin
  | neg e ih => exact ih.bind fun v hv => .ok (.neg hv)
  | broadcastTo e shape ih =>
      refine ih.bind fun v hv => .decided (decided_broadcastTo v _) ?_
      intro u hstretch hu
      rw [hu]
      exact .broadcastTo hv hstretch
  | sumAxes e axes ih =>
      refine ih.bind fun v hv => .decided (decided_sumAxes axes v) ?_
      intro u haxes hu
      rw [hu]
      exact .sumAxes hv haxes
  | matmul left right ih ih' =>
      refine (ih.mono .inl).bind fun v hv => (ih'.mono .inr).bind
        fun v' hv' => ?_
      obtain ⟨lead, m, k, hs, -⟩ := Shape.exists_append_two hv.length
      obtain ⟨lead', k', n, hs', -⟩ := Shape.exists_append_two hv'.length
      refine .decided (decided_matmul hs hs') fun u hfit hu => ?_
      obtain ⟨rfl, hserves⟩ := hfit
      rw [hu]
      exact .matmul (hs ▸ hv) (hs' ▸ hv') hserves
  | transpose e ih =>
      refine ih.bind fun v hv => ?_
      obtain ⟨lead, m, n, hs, -⟩ := Shape.exists_append_two hv.length
      refine .decided (decided_transpose hs) fun u _ hu => ?_
      rw [hu]
      exact .transpose (hs ▸ hv)
  | matmulGradLeft dout right ih ih' =>
      refine (ih.mono .inl).bind fun v hv => (ih'.mono .inr).bind
        fun v' hv' => ?_
      obtain ⟨lead, m, n, hs, -⟩ := Shape.exists_append_two hv.length
      obtain ⟨lead', k, n', hs', -⟩ := Shape.exists_append_two hv'.length
      refine .decided (decided_matmulGradLeft hs hs') fun u hfit hu => ?_
      obtain ⟨rfl, hserves⟩ := hfit
      rw [hu]
      exact .matmulGradLeft (hs ▸ hv) (hs' ▸ hv') hserves
  | matmulGradRight left dout shape ih ih' =>
      refine (ih.mono .inl).bind fun v hv => (ih'.mono .inr).bind
        fun v' hv' => ?_
      obtain ⟨lead, m, k, hs, hrank⟩ := Shape.exists_append_two hv.length
      obtain ⟨lead', k', n, hshape, hrank'⟩ :=
        Shape.exists_append_two shape.2
      rw [hshape]
      refine .decided (decided_matmulGradRight hs
        (hrank'.trans hrank.symm) v') fun u hfit hu => ?_
      obtain ⟨rfl, hs', hserves⟩ := hfit
      rw [hu, ← hshape]
      exact .matmulGradRight (hs ▸ hv) (hs' ▸ hv') hshape hserves
  | columns e offset len ih =>
      refine ih.bind fun v hv => ?_
      obtain ⟨lead, w, hs⟩ := Shape.exists_concat hv.length
      refine .decided (decided_columns hs offset len) fun u hseg hu => ?_
      rw [hu]
      exact .columns (hs ▸ hv) hseg
  | setColumns e offset len part ih ih' =>
      refine (ih.mono .inl).bind fun v hv => (ih'.mono .inr).bind
        fun v' hv' => ?_
      obtain ⟨lead, w, hs⟩ := Shape.exists_concat hv.length
      refine .decided (decided_setColumns hs offset len v')
        fun u hfit hu => ?_
      rw [hu]
      exact .setColumns (hs ▸ hv) hfit.1 (hfit.2 ▸ hv')
  | write e i x ih =>
      refine (ih.mono .inl).bind fun v hv => ?_
      rw [Tensor.write]
      by_cases hi : i < v.data.size
      · rw [if_pos hi]
        exact .ok (.write hv (v.size_eq ▸ hi))
      · rw [if_neg hi]
        exact ⟨nofun, fun _ _ => .inr <| .inr ⟨v.shape, hv, by
          rw [← v.size_eq]
          exact Nat.not_lt.1 hi⟩⟩
  | activate act e ih =>
      refine ih.bind fun v hv => .ok ?_
      rw [shape_apply]
      exact .activate hv
  | backward act y dy ih ih' =>
      refine (ih.mono .inl).bind fun v hv => (ih'.mono .inr).bind
        fun v' hv' => .decided (decided_backward act v v') ?_
      intro u hsame hu
      rw [hu]
      exact .backward hv (hsame ▸ hv')

end Expression
end MixtureAttention
