/-
Expressions on the machine. An expression is run on stored tensors, one
operation after the other, each step by step. As long as the machine can
address the shapes that are named and the shapes that come out
(`Expression.Addressable`), the run mirrors the evaluation
(`mirrors_run`): so it succeeds exactly if the rules give the expression a
shape, what it stores is laid out as that shape says, and it comes to no step
that cannot be taken but the write past an end.

Not every shape that comes out has to be asked about. Transposing, summing,
cutting out columns and working element by element make no tensor that is
larger than the one they start from (`Fits.addressable`).
-/
import MixtureAttention.Proofs.Machine.RowOperations
import MixtureAttention.Proofs.Tensor.Expression

namespace MixtureAttention.Expression

open Machine

variable {α : Type} {r : Nat}

/-- The stored tensor, or what ends the run on the way to it. -/
def run [Scalar α] {r : Nat} : Expression α r → Run TensorError (Stored α)
  | ofArray data shape => Stored.ofArray data shape
  | full shape x => Stored.full shape x
  | rowGrid len width row => Stored.rowGrid len width row
  | reshape e shape => do (← e.run).reshape shape
  | map f e => do (← e.run).map f
  | update f e => do return (← e.run).update f
  | combine op e e' => do (← e.run).combine op (← e'.run)
  | neg e => do (← e.run).map (0 - ·)
  | broadcastTo e shape => do (← e.run).broadcastTo shape
  | sumAxes e axes => do (← e.run).sumAxes axes
  | matmul left right => do (← left.run).matmul (← right.run)
  | transpose e => do (← e.run).transpose
  | matmulGradLeft dout right => do
      (← dout.run).matmulGradLeft (← right.run)
  | matmulGradRight left dout shape => do
      (← left.run).matmulGradRight (← dout.run) shape
  | columns e offset len => do (← e.run).columns offset len
  | setColumns e offset len part => do
      (← e.run).setColumns offset len (← part.run)
  | write e i x => do (← e.run).write i x
  | activate act e => do Stored.activate act (← e.run)
  | backward act y dy => do Stored.backward act (← y.run) (← dy.run)

/-- The machine can address the shapes that are named, and those that come
out where an operation can make a tensor larger than its operands. -/
def Addressable {r : Nat} : Expression α r → Prop
  | ofArray _ shape | full shape _ => shape.1.Addressable
  | rowGrid len width _ => Shape.Addressable [1, 1, len, width]
  | reshape e shape => e.Addressable ∧ shape.1.Addressable
  | map _ e | update _ e | neg e | sumAxes e _ | transpose e | write e _ _
  | activate _ e => e.Addressable
  | backward _ y dy => y.Addressable ∧ dy.Addressable
  | combine op e e' => e.Addressable ∧ e'.Addressable
      ∧ ∀ s, (combine op e e').Fits s → s.Addressable
  | broadcastTo e shape => e.Addressable
      ∧ ∀ s, (broadcastTo e shape).Fits s → s.Addressable
  | matmul left right => left.Addressable ∧ right.Addressable
      ∧ ∀ s, (matmul left right).Fits s → s.Addressable
  | matmulGradLeft dout right => dout.Addressable ∧ right.Addressable
      ∧ ∀ s, (matmulGradLeft dout right).Fits s → s.Addressable
  | matmulGradRight left dout shape => left.Addressable ∧ dout.Addressable
      ∧ ∀ s, (matmulGradRight left dout shape).Fits s → s.Addressable
  | columns e offset len => e.Addressable ∧ offset + len < words
  | setColumns e offset len part =>
      e.Addressable ∧ part.Addressable ∧ offset + len < words

/-- What comes out is addressable. -/
theorem Fits.addressable {e : Expression α r} {s : Shape} (h : e.Fits s) :
    e.Addressable → s.Addressable := by
  induction h with
  | ofArray _ => exact id
  | full => exact id
  | rowGrid => exact id
  | reshape _ _ _ => exact And.right
  | map _ ih => exact ih
  | update _ ih => exact ih
  | combine he he' hjoin _ _ => exact fun h => h.2.2 _ (.combine he he' hjoin)
  | neg _ ih => exact ih
  | broadcastTo he hstretch _ => exact fun h => h.2 _ (.broadcastTo he hstretch)
  | sumAxes _ _ ih => exact fun h => (ih h).summed _
  | matmul he he' hserves _ _ => exact fun h => h.2.2 _ (.matmul he he' hserves)
  | transpose _ ih => exact fun h => Shape.addressable_swap.1 (ih h)
  | matmulGradLeft he he' hserves _ _ =>
      exact fun h => h.2.2 _ (.matmulGradLeft he he' hserves)
  | matmulGradRight he he' hshape hserves _ _ =>
      exact fun h => h.2.2 _ (.matmulGradRight he he' hshape hserves)
  | columns _ hseg ih => exact fun h => (ih h.1).withWidth (by omega)
  | setColumns _ _ _ ih _ => exact fun h => ih h.1
  | write _ _ ih => exact ih
  | activate _ ih => exact ih
  | backward _ _ ih _ => exact fun h => ih h.1

variable [Scalar α]

/-- A term that fits evaluates to a tensor that fits. -/
theorem result {e : Expression α r} (h : e.Addressable)
    {v : Tensor α} (hv : e.eval = .ok v) :
    e.Fits v.shape ∧ v.shape.Addressable :=
  have hfits := (exact_eval e).ensures v hv
  ⟨hfits, hfits.addressable h⟩

/-- The run of an expression ends as its evaluation does. -/
theorem mirrors_run (e : Expression α r) (h : e.Addressable) :
    Stored.Mirrors e.run e.eval := by
  -- on the expression, one mirror lemma for each operation
  induction e with
  | ofArray data shape => exact Stored.mirrors_ofArray h
  | full shape x =>
      rw [run, Stored.full_ok h]
      exact .ok _
  | rowGrid len width row =>
      rw [run, Stored.rowGrid_ok h]
      exact .ok _
  | reshape e shape ih =>
      exact (ih h.1).bind fun v hv => Stored.mirrors_reshape (result h.1 hv).2 h.2
  | map f e ih =>
      refine (ih h).bind fun v hv => ?_
      rw [Stored.map_ok (result (e := e) h hv).2]
      exact .ok _
  | update f e ih =>
      refine (ih h).bind fun v hv => ?_
      rw [Stored.update_of]
      exact .ok _
  | combine op e e' ih ih' =>
      refine (ih h.1).bind fun v hv => (ih' h.2.1).bind fun v' hv' =>
        Stored.mirrors_combine op fun hjoin => h.2.2 _ ?_
      exact .combine (result h.1 hv).1 (result h.2.1 hv').1 hjoin
  | neg e ih =>
      refine (ih h).bind fun v hv => ?_
      rw [Stored.map_ok (result (e := e) h hv).2]
      exact .ok _
  | broadcastTo e shape ih =>
      refine (ih h.1).bind fun v hv => Stored.mirrors_broadcastTo fun hstretch =>
        h.2 _ ?_
      exact .broadcastTo (result h.1 hv).1 hstretch
  | sumAxes e axes ih =>
      exact (ih h).bind fun v hv => Stored.mirrors_sumAxes axes
        (result (e := e) h hv).2
  | matmul left right ih ih' =>
      refine (ih h.1).bind fun v hv => (ih' h.2.1).bind fun v' hv' => ?_
      obtain ⟨hfits, hv⟩ := result h.1 hv
      obtain ⟨hfits', hv'⟩ := result h.2.1 hv'
      obtain ⟨lead, m, k, hs, -⟩ := Shape.exists_append_two hfits.length
      obtain ⟨lead', k', n, hs', -⟩ := Shape.exists_append_two hfits'.length
      refine Stored.mirrors_matmul hs hs' hv hv' ?_
      rintro ⟨rfl, hserves⟩
      exact h.2.2 _ (.matmul (hs ▸ hfits) (hs' ▸ hfits') hserves)
  | transpose e ih =>
      refine (ih h).bind fun v hv => ?_
      obtain ⟨hfits, hv⟩ := result (e := e) h hv
      obtain ⟨lead, m, n, hs, -⟩ := Shape.exists_append_two hfits.length
      exact Stored.mirrors_transpose hs hv
  | matmulGradLeft dout right ih ih' =>
      refine (ih h.1).bind fun v hv => (ih' h.2.1).bind fun v' hv' => ?_
      obtain ⟨hfits, hv⟩ := result h.1 hv
      obtain ⟨hfits', hv'⟩ := result h.2.1 hv'
      obtain ⟨lead, m, n, hs, -⟩ := Shape.exists_append_two hfits.length
      obtain ⟨lead', k, n', hs', -⟩ := Shape.exists_append_two hfits'.length
      refine Stored.mirrors_matmulGradLeft hs hs' hv hv' ?_
      rintro ⟨rfl, hserves⟩
      exact h.2.2 _ (.matmulGradLeft (hs ▸ hfits) (hs' ▸ hfits') hserves)
  | matmulGradRight left dout shape ih ih' =>
      refine (ih h.1).bind fun v hv => (ih' h.2.1).bind fun v' hv' => ?_
      obtain ⟨hfits, hv⟩ := result h.1 hv
      obtain ⟨hfits', hv'⟩ := result h.2.1 hv'
      obtain ⟨lead, m, k, hs, hrank⟩ := Shape.exists_append_two hfits.length
      obtain ⟨lead', k', n, hshape, hrank'⟩ :=
        Shape.exists_append_two shape.2
      rw [hshape]
      refine Stored.mirrors_matmulGradRight hs (hrank'.trans hrank.symm) hv hv' ?_
      rintro ⟨rfl, hs', hserves⟩
      exact hshape ▸ h.2.2 _
        (.matmulGradRight (hs ▸ hfits) (hs' ▸ hfits') hshape hserves)
  | columns e offset len ih =>
      refine (ih h.1).bind fun v hv => ?_
      obtain ⟨hfits, hv⟩ := result h.1 hv
      obtain ⟨lead, w, hs⟩ := Shape.exists_concat hfits.length
      exact Stored.mirrors_columns hs hv h.2
  | setColumns e offset len part ih ih' =>
      refine (ih h.1).bind fun v hv => (ih' h.2.1).bind fun v' hv' => ?_
      obtain ⟨lead, w, hs⟩ :=
        Shape.exists_concat (result h.1 hv).1.length
      exact Stored.mirrors_setColumns hs h.2.2
  | write e i x ih => exact (ih h).bind fun v hv => Stored.mirrors_write v i x
  | activate act e ih =>
      refine (ih h).bind fun v hv => ?_
      obtain ⟨hfits, hv⟩ := result (e := e) h hv
      obtain ⟨lead, w, hs⟩ := Shape.exists_concat hfits.length
      rw [Stored.activate_ok act hs hv]
      exact .ok _
  | backward act y dy ih ih' =>
      refine (ih h.1).bind fun v hv => (ih' h.2).bind fun v' hv' => ?_
      obtain ⟨hfits, hv⟩ := result h.1 hv
      obtain ⟨lead, w, hs⟩ := Shape.exists_concat hfits.length
      exact Stored.mirrors_backward act hs hv

/-- Every tensor that is computed is what its shape says. On a machine that
can address the shapes, an expression runs to an end without a step that
cannot be taken exactly if the rules give it a shape, and then a tensor of
that shape is stored, which has as many axes as the rank, as many elements as
the product of its extents, also as that is computed, and row-major strides;
it is the tensor that the expression evaluates to. An expression that does
not run to an end is refused in the words of its evaluation, by an operation
that found shapes that do not fit. No step of any operation is one that
cannot be taken but a write past the end. -/
theorem evaluates_iff_fits (e : Expression α r) (h : e.Addressable) :
    (∀ s, (∃ v, e.run = .ok v ∧ v.shape = s) ↔ e.Fits s)
      ∧ (∀ v, e.run = .ok v →
        v.shape.length = r ∧ v.data.size = v.shape.size
          ∧ (v.size : Run TensorError Nat) = .ok v.data.size
          ∧ v.strides.length = r
          ∧ (∀ axis, axis < r →
            v.strides[axis]? = some (Shape.size (v.shape.drop (axis + 1))))
          ∧ ∃ t, e.eval = .ok t ∧ v = .of t)
      ∧ (∀ refusal, e.run = .error (.refused refusal) →
        e.eval = .error refusal ∧ refusal.IsRefusal)
      ∧ ∀ violation, e.run = .error (.violated violation) →
        e.WritesPast := by
  have hexact := exact_eval e
  have hmirrors := mirrors_run e h
  generalize hrun : e.run = run at hmirrors ⊢
  generalize heval : e.eval = result at hmirrors ⊢
  cases hmirrors with
  | ok t =>
      obtain ⟨hfits, haddress⟩ := result h heval
      refine ⟨fun s => ⟨?_, fun hs => ?_⟩, fun v hv => ?_, nofun, nofun⟩
      · rintro ⟨v, hv, rfl⟩
        exact Except.ok.inj hv ▸ hfits
      · obtain ⟨t', ht', hshape⟩ := hs.evaluates
        rw [heval] at ht'
        exact ⟨_, rfl, Except.ok.inj ht' ▸ hshape⟩
      · obtain rfl : Stored.of t = v := Except.ok.inj hv
        refine ⟨hfits.length, t.size_eq, Stored.size_of haddress, ?_,
          fun axis haxis => ?_, t, rfl, rfl⟩
        · rw [Stored.strides_of, t.strides_eq, Shape.length_strides,
            hfits.length]
        · rw [Stored.strides_of, t.strides_eq]
          exact Shape.getElem?_strides (by rwa [hfits.length])
  | refused hrefusal =>
      refine ⟨fun s => ⟨nofun, fun hs => ?_⟩, nofun, fun refusal hv => ?_, nofun⟩
      · obtain ⟨t, ht, -⟩ := hs.evaluates
        rw [heval] at ht
        cases ht
      · cases hv
        exact ⟨rfl, hrefusal⟩
  | past v =>
      refine ⟨fun s => ⟨nofun, fun hs => ?_⟩, nofun, nofun,
        fun _ _ => hexact.past_of_overrun heval⟩
      obtain ⟨t, ht, -⟩ := hs.evaluates
      rw [heval] at ht
      cases ht

/-- The gradient of a matrix that was shared by an empty batch. -/
def emptyBatch : Expression Float 3 :=
  .matmulGradRight (.full ⟨[0, 3, 2], rfl⟩ 1) (.full ⟨[0, 3, 4], rfl⟩ 1)
    ⟨[1, 2, 4], rfl⟩

/-- Nothing is added up, but there are eight sums. -/
theorem evaluates_iff_fits_empty_batch :
    emptyBatch.Addressable ∧ ∃ v, emptyBatch.run = .ok v
      ∧ v.shape = [1, 2, 4] ∧ v.data.size = 8 ∧ v.strides[0]? = some 8 := by
  have hleft : Fits (.full ⟨[0, 3, 2], rfl⟩ (1 : Float)) ([0] ++ [3, 2]) :=
    .full
  have hdout : Fits (.full ⟨[0, 3, 4], rfl⟩ (1 : Float)) ([0] ++ [3, 4]) :=
    .full
  have hserves : Shape.Serves [1] [0] := .inr ⟨rfl, by simp⟩
  have hfits : emptyBatch.Fits [1, 2, 4] :=
    .matmulGradRight hleft hdout rfl hserves
  have haddress : emptyBatch.Addressable := by
    have hout : Shape.Addressable [1, 2, 4] := by decide
    refine ⟨(by decide : Shape.Addressable [0, 3, 2]),
      (by decide : Shape.Addressable [0, 3, 4]), fun s hs => ?_⟩
    cases hs
    exact hout
  obtain ⟨hiff, hlaid, -⟩ := evaluates_iff_fits emptyBatch haddress
  obtain ⟨v, hv, hshape⟩ := (hiff [1, 2, 4]).2 hfits
  obtain ⟨-, hsize, -, -, hstrides, -⟩ := hlaid v hv
  rw [hshape] at hsize hstrides
  exact ⟨haddress, v, hv, hshape, hsize, hstrides 0 (by decide)⟩

end MixtureAttention.Expression
