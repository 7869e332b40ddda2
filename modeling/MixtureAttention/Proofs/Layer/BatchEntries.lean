/-
A batch entry on its own. Every formula of the layer is by batch entry and
reads no other, so whatever the operations on elements are, entry `b` of
each batched buffer is what the layer computes from entry `b` as a batch of
one, although it computes it in another way there: at a batch of one some
products are shared that are batched otherwise, and some sums have one term.

Only the gradients of the weights mix the entries. Each of them is a sum
over the batch, and as a batch of one adds its only term to zero, the sum of
their contributions is the gradient of the batch once zero is a unit.
-/
import MixtureAttention.Proofs.Layer.BackwardPass

namespace MixtureAttention

open Tensor Workspace

variable {α : Type}

-- ========================================================= taking an entry

/-- A batch entry of a tensor with four axes, as a batch of one. -/
def Tensor.entry [Zero α] (t : Tensor α) (b : Nat) : Tensor α :=
  cube 1 (t.extent 2) (t.extent 3) fun _ y z => t.elem b y z

theorem Tensor.entry_cube [Zero α] {n l k b : Nat} (hb : b < n)
    (f : Nat → Nat → Nat → α) :
    (cube n l k f).entry b = cube 1 l k fun _ => f b := by
  refine cube_congr fun x y z _ hy hz => ?_
  exact elem_cube hb hy hz

/-- A batch entry of the inputs, with the same weights. -/
def Given.entry (c : Given α) (b : Nat) : Given α :=
  { c with
    query := fun _ => c.query b
    value := fun _ => c.value b
    state := fun _ => c.state b }

/-- The plan for a batch of one. -/
def SetupPlan.single (p : SetupPlan) : SetupPlan := { p with batch := 1 }

theorem SetupPlan.batch_single (p : SetupPlan) : p.single.batch = 1 := rfl

-- ================================================================ buffers

/-- What is read from the buffers with one entry for each entry of the
batch: the nine scratch buffers, the output, the packed derivative and the
derivatives with respect to the three inputs. -/
def batchedReads (s : Slots) (w : Workspace α) :
    List (Except LayerError (Tensor α)) :=
  s.scratch.map w.scratchValue
    ++ [w.output 0, w.scratchGrad s.packed]
    ++ [s.query, s.value, s.state].map w.outgoingAt

/-- The handles of the three weights. -/
def weightHandles : List (Slots → WeightHandle) :=
  [Slots.hiddenWeight, Slots.hiddenBias, Slots.packedWeight]

namespace Given

variable [Scalar α]

section

variable (c : Given α) (p : SetupPlan) (g : Nat → Nat → α)

/-- The batched buffers in formulas. -/
def batchedBuffers : List (Tensor α) :=
  let v := c.values p
  let r := c.gradient p g
  [v.hiddenSum, v.hidden, v.packed, v.scores, v.mass, v.upper, v.lower,
    v.lowerEdge, v.upperEdge, v.output,
    cube p.batch 1 (3 * p.mixtures) fun b _ => c.dLogit p g b,
    cube p.batch 1 p.queryWidth fun b _ => r.query b,
    cube p.batch p.positions p.valueWidth r.value,
    cube p.batch 1 p.mixtures fun b _ => r.state b]

/-- The formulas of an entry do not look at the others. -/
theorem entry_batchedBuffers {b : Nat} (hb : b < p.batch) :
    (c.batchedBuffers p g).map (·.entry b)
      = (c.entry b).batchedBuffers p.single fun _ => g b := by
  simp only [batchedBuffers, values, List.map_cons, List.map_nil,
    entry_cube hb]
  rfl

end

variable {c : Given α} {p : SetupPlan} {g : Nat → Nat → α} {s : Slots}
  {w : Workspace α}

theorem Differentiated.batchedReads (h : c.Differentiated p g s w) :
    batchedReads s w = (c.batchedBuffers p g).map .ok := by
  unfold MixtureAttention.batchedReads batchedBuffers
  simp only [Slots.scratch, List.map_cons, List.map_nil, List.cons_append,
    List.nil_append, h.filled.hiddenSum, h.filled.hidden, h.filled.packed,
    h.filled.scores, h.filled.mass, h.filled.upper, h.filled.lower,
    h.filled.lowerEdge, h.filled.upperEdge, h.output, h.stored.query,
    h.stored.value, h.stored.state]
  rw [show w.scratchGrad s.packed = _ from h.packed]

/-- A single term is added to zero. -/
theorem sumTo_one (hzero : ∀ a : α, 0 + a = a) (term : Nat → α) :
    sumTo 1 term = term 0 := hzero _

/-- The gradient of each weight, and what each entry contributes. -/
theorem Differentiated.weightGrad (hzero : ∀ a : α, 0 + a = a)
    (h : c.Differentiated p g s w) {slots : Nat → Slots}
    {one : Nat → Workspace α}
    (hone : ∀ b < p.batch, (c.entry b).Differentiated p.single
      (fun _ => g b) (slots b) (one b)) :
    ∀ handle ∈ weightHandles, ∃ l k, ∃ part : Nat → Nat → Nat → α,
      w.weightGrad (handle s)
          = .ok (cube 1 l k fun _ y z => sumTo p.batch fun b => part b y z)
        ∧ ∀ b < p.batch, (one b).weightGrad (handle (slots b))
          = .ok (cube 1 l k fun _ => part b) := by
  let part := fun b => (c.entry b).gradient p.single fun _ => g b
  simp only [weightHandles, List.forall_mem_cons]
  refine ⟨⟨_, _, fun b => (part b).hiddenWeight, ?_, fun b hb =>
      (hone b hb).stored.hiddenWeight⟩,
    ⟨_, _, fun b _ => (part b).hiddenBias, ?_, fun b hb =>
      (hone b hb).stored.hiddenBias⟩,
    ⟨_, _, fun b => (part b).packedWeight, ?_, fun b hb =>
      (hone b hb).stored.packedWeight⟩, nofun⟩
  · rw [h.stored.hiddenWeight]
    refine congrArg _ (cube_congr fun _ i u _ _ _ => ?_)
    simp only [part, gradient, p.batch_single, sumTo_one hzero]
    rfl
  · rw [h.stored.hiddenBias]
    refine congrArg _ (cube_congr fun _ _ u _ _ _ => ?_)
    simp only [part, gradient, p.batch_single, sumTo_one hzero]
    rfl
  · rw [h.stored.packedWeight]
    refine congrArg _ (cube_congr fun _ u j _ _ _ => ?_)
    simp only [part, gradient, p.batch_single, sumTo_one hzero]
    rfl

end Given

namespace Layer

variable [Scalar α]

/-- No batch entry leaks into another. After a forward pass and both
gradient procedures entry `b` of each batched buffer is what the same calls
leave when entry `b` of the inputs and of the derivative with respect to the
output is the whole batch and the weights are the same. And where zero is a
unit of addition, the gradient of each weight is the sum of those that the
batches of one leave. -/
theorem batch_entries_apart {c : Given α} {p : SetupPlan} {s : Slots}
    {g : Nat → Nat → α} {st : Session α} {slots : Nat → Slots}
    {one : Nat → Session α} (hst : Supplied c p s g st)
    (hone : ∀ b < p.batch,
      Supplied (c.entry b) p.single (slots b) (fun _ => g b) (one b)) :
    ∃ (st' : Session α) (one' : Nat → Session α)
        (buffers : List (Tensor α)),
      forwardBackward st = .ok () st'
        ∧ (∀ b < p.batch, forwardBackward (one b) = .ok () (one' b))
        ∧ (∀ t ∈ buffers, ∃ l k, t.shape = [p.batch, 1, l, k])
        ∧ batchedReads s st'.workspace = buffers.map .ok
        ∧ (∀ b < p.batch, batchedReads (slots b) (one' b).workspace
            = buffers.map fun t => .ok (t.entry b))
        ∧ ((∀ a : α, 0 + a = a) → ∀ handle ∈ weightHandles,
            ∃ l k, ∃ part : Nat → Nat → Nat → α,
              st'.workspace.weightGrad (handle s)
                  = .ok (cube 1 l k fun _ y z =>
                      sumTo p.batch fun b => part b y z)
                ∧ ∀ b < p.batch,
                    (one' b).workspace.weightGrad (handle (slots b))
                      = .ok (cube 1 l k fun _ => part b)) := by
  obtain ⟨hrun, hleft⟩ := hst.forwardBackward
  have hrunOne := fun b hb => (hone b hb).forwardBackward
  refine ⟨_, fun b => Procedure.final forwardBackward (one b),
    c.batchedBuffers p g, hrun, fun b hb => (hrunOne b hb).1, ?_,
    hleft.batchedReads, fun b hb => ?_, fun hzero => ?_⟩
  · simp [Given.batchedBuffers, Given.values]
  · rw [(hrunOne b hb).2.batchedReads, ← c.entry_batchedBuffers p g hb,
      List.map_map]
    rfl
  · exact hleft.weightGrad hzero fun b hb => (hrunOne b hb).2

/-- The theorem at a batch of two entries, three positions and two
components, in binary64: entry 1 of the output. -/
theorem batch_entries_apart_small :
    let p : SetupPlan := ⟨2, 3, 3, 1, 2, 2⟩
    let c : Given Float := {
      query := fun b i => (b + i : Nat)
      value := fun b h _ => (b * h : Nat)
      state := fun b k => (b + k : Nat)
      hiddenWeight := fun i u => (i + u : Nat)
      hiddenBias := fun u => (u : Nat)
      packedWeight := fun u j => (u * j : Nat) }
    let g : Nat → Nat → Float := fun b _ => (b : Nat)
    ∃ st' st₁ : Session Float, ∃ output : Tensor Float,
      forwardBackward (Session.stocked p c g) = .ok () st'
        ∧ forwardBackward
            (Session.stocked p.single (c.entry 1) fun _ => g 1)
          = .ok () st₁
        ∧ st'.workspace.output 0 = .ok output
        ∧ st₁.workspace.output 0 = .ok (output.entry 1) := by
  intro p c g
  have hone : ∀ b < p.batch, Supplied (c.entry b) p.single (.startingAt 0 0)
      (fun _ => g b)
      (Session.stocked p.single (c.entry b) fun _ => g b) :=
    fun b _ => Session.stocked_supplied (by decide) (by decide) _ _
  obtain ⟨st', one', buffers, hrun, hrunOne, -, hreads, hreadsOne, -⟩ :=
    batch_entries_apart (Session.stocked_supplied (p := p) (by decide)
      (by decide) c g) hone
  have houtput := congrArg (·[9]?) hreads
  have houtputOne := congrArg (·[9]?) (hreadsOne 1 (by decide))
  rw [List.getElem?_map] at houtput houtputOne
  cases hb : buffers[9]? with
  | none =>
      rw [hb] at houtput
      cases houtput
  | some output =>
      rw [hb] at houtput houtputOne
      injection houtput with houtput
      injection houtputOne with houtputOne
      exact ⟨st', one' 1, output, hrun, hrunOne 1 (by decide), houtput,
        houtputOne⟩

end Layer
end MixtureAttention
