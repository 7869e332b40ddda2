/-
Room for the buffers of a registry. Everything that is declared or requested
on a blueprint is allocated when a workspace is built, and a scratch buffer
is allocated again for another batch extent. The machine has room for a
buffer if it can address its shape (`HasRoom.allocates`), so what has to be
asked of a blueprint is one condition on each of its extents
(`Blueprint.Addressable`), and of another batch extent the same condition on
one of them.

A workspace whose tensors were replaced need not look like its blueprint.
There the condition is on the extents of the tensors that are stored, in any
combination that a call can bring about (`Workspace.HasRoom`).
-/
import MixtureAttention.Proofs.Machine.Mirrors
import MixtureAttention.Registry.Workspace

namespace MixtureAttention

open Machine

variable {α : Type}

namespace Machine

/-- The machine can hold a buffer of each of the extents. -/
def HasRoom (ds : List Dims) : Prop := ∀ d ∈ ds, d.toShape.Addressable

instance (ds : List Dims) : Decidable (HasRoom ds) :=
  inferInstanceAs (Decidable (∀ d ∈ ds, d.toShape.Addressable))

/-- The zeros of each buffer are allocated, step by step. -/
def Allocates (α : Type) [Zero α] (ds : List Dims) : Prop :=
  ∀ d ∈ ds, (Stored.full d.toShape 0 : Run TensorError (Stored α))
    = .ok (.of (.zeros d.toShape))

/-- Tensors with room are all allocated. -/
theorem HasRoom.allocates [Zero α] {ds : List Dims} (h : HasRoom ds) :
    Allocates α ds :=
  fun d hd => Stored.full_ok (h d hd) 0

/-- Fewer tensors need no more room. -/
theorem HasRoom.mono {ds ds' : List Dims} (h : HasRoom ds) (hsub : ds' ⊆ ds) :
    HasRoom ds' :=
  fun d hd => h d (hsub hd)

end Machine

/-- The request for a buffer with another batch extent. -/
def ScratchDecl.atBatch (d : ScratchDecl) (n : Nat) : ScratchDecl :=
  { d with dims := { d.dims with batch := n } }

namespace Blueprint

/-- The extents of everything that is declared or requested. -/
def dims (b : Blueprint) : List Dims :=
  b.inputs ++ b.outputs ++ b.weights.map (·.dims) ++ b.scratch.map (·.dims)

/-- The machine can hold every buffer. -/
def Addressable (b : Blueprint) : Prop := HasRoom b.dims

instance (b : Blueprint) : Decidable b.Addressable :=
  inferInstanceAs (Decidable (HasRoom b.dims))

variable {b : Blueprint}

/-- A blueprint is addressable if each tensor that it asks for is. -/
theorem addressable_iff : b.Addressable ↔
    (∀ d ∈ b.inputs, d.toShape.Addressable)
      ∧ (∀ d ∈ b.outputs, d.toShape.Addressable)
      ∧ (∀ d ∈ b.weights, d.dims.toShape.Addressable)
      ∧ ∀ d ∈ b.scratch, d.dims.toShape.Addressable := by
  simp only [Addressable, HasRoom, dims, List.forall_mem_append, List.forall_mem_map,
    and_assoc]

end Blueprint

namespace Workspace

/-- The workspace with another batch extent of a scratch buffer, if the
machine has room for the buffer then. The gradient is as large. -/
def resized? [Zero α] (w : Workspace α) (h : ScratchHandle) (n : Nat) :
    Option (Workspace α) :=
  match w.scratch[h.index]? with
  | none => none
  | some e =>
      match (Stored.full (e.decl.atBatch n).dims.toShape 0
          : Run TensorError (Stored α)) with
      | .ok _ =>
          some { w with scratch := w.scratch.modify h.index (·.resize n) }
      | .error _ => none

/-- A resize has the memory it needs if the new extents are addressable. -/
theorem resized?_of_addressable [Zero α] {w : Workspace α}
    {h : ScratchHandle} {n : Nat} {e : Scratch α}
    (he : w.scratch[h.index]? = some e)
    (hfits : (e.decl.atBatch n).dims.toShape.Addressable) :
    w.resized? h n
      = some { w with scratch := w.scratch.modify h.index (·.resize n) } := by
  rw [resized?, he]
  dsimp only
  rw [Stored.full_ok hfits]

/-- Every tensor that a call for gradients can look at. -/
def tensors (w : Workspace α) : List (Tensor α) :=
  w.inputs ++ w.incoming ++ w.weights.map (·.value)
    ++ w.scratch.map (·.value) ++ w.scratch.filterMap (·.grad)

/-- The extents of these tensors on an axis, and one. -/
def extents (w : Workspace α) (axis : Nat) : List Nat :=
  1 :: w.tensors.map (·.extent axis)

/-- What the last two axes of a result can be, if it is computed with `k`
components: as long as the last axes of the tensors, which are exchanged at
times, or as wide as a packed row or a part of it. -/
def lastExtents (k : Nat) (w : Workspace α) : List Nat :=
  k :: 3 * k :: (w.extents 2 ++ w.extents 3)

/-- The machine can hold whatever a call computes from the tensors with `k`
components. -/
def HasRoom (k : Nat) (w : Workspace α) : Prop :=
  ∀ batch ∈ w.extents 0, ∀ channel ∈ w.extents 1,
    ∀ height ∈ w.lastExtents k, ∀ width ∈ w.lastExtents k,
      Shape.Addressable [batch, channel, height, width]

variable {w : Workspace α} {t : Tensor α}

/-- An extent of one of the tensors occurs. -/
theorem extent_mem (ht : t ∈ w.tensors) (axis : Nat) :
    t.extent axis ∈ w.extents axis :=
  List.mem_cons_of_mem _ (List.mem_map_of_mem ht)

/-- The tensors themselves are among what there is room for. -/
theorem HasRoom.addressable {k : Nat} (h : w.HasRoom k) (ht : t ∈ w.tensors)
    (hfour : t.shape.length = 4) : t.shape.Addressable := by
  have hheight : t.extent 2 ∈ w.lastExtents k := by
    simp [lastExtents, extent_mem ht 2]
  have hwidth : t.extent 3 ∈ w.lastExtents k := by
    simp [lastExtents, extent_mem ht 3]
  have hextents := h _ (extent_mem ht 0) _ (extent_mem ht 1) _ hheight _ hwidth
  unfold Tensor.extent at hextents
  generalize t.shape = s at hfour hextents ⊢
  match s, hfour with
  | [_, _, _, _], _ => exact hextents

/-- Where no extent is above a bound it is enough to look at the bound. -/
theorem hasRoom_of_le {k n : Nat}
    (hle : ∀ t ∈ w.tensors, ∀ d ∈ t.shape, d ≤ n) (hn : 1 ≤ n)
    (hk : 3 * k ≤ n) (hfits : Shape.Addressable [n, n, n, n]) :
    w.HasRoom k := by
  have hextents : ∀ axis, ∀ d ∈ w.extents axis, d ≤ n := by
    intro axis d hd
    rcases List.mem_cons.1 hd with rfl | hd
    · exact hn
    · obtain ⟨t, ht, rfl⟩ := List.mem_map.1 hd
      rw [Tensor.extent, List.getD_eq_getElem?_getD]
      cases hd : t.shape[axis]? with
      | none => exact Nat.zero_le n
      | some d => exact hle t ht d (List.mem_of_getElem? hd)
  have hlast : ∀ d ∈ w.lastExtents k, d ≤ n := by
    intro d hd
    simp only [lastExtents, List.mem_cons, List.mem_append] at hd
    rcases hd with rfl | rfl | hd | hd
    · omega
    · exact hk
    · exact hextents 2 d hd
    · exact hextents 3 d hd
  intro batch hbatch channel hchannel height hheight width hwidth
  have hone : ∀ {x : Nat}, x ≤ n → max x 1 ≤ max n 1 := by omega
  refine hfits.of_span_le ?_
  simp only [Shape.span_cons]
  exact Nat.mul_le_mul (hone (hextents 0 batch hbatch))
    (Nat.mul_le_mul (hone (hextents 1 channel hchannel))
      (Nat.mul_le_mul (hone (hlast height hheight))
        (Nat.mul_le_mul_right _ (hone (hlast width hwidth)))))

end Workspace
end MixtureAttention
