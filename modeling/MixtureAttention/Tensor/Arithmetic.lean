/-
Element-wise arithmetic of tensors with stretching of axes of extent one,
and sums over axes.
-/
import MixtureAttention.Flat.Broadcast
import MixtureAttention.Flat.Sum
import MixtureAttention.Tensor.Basic

namespace MixtureAttention.Tensor

variable {α : Type}

-- =========================================================== element-wise

/-- Combines two tensors over the shape that they share. -/
def combine [Zero α] (op : α → α → α) (s t : Tensor α) :
    Except TensorError (Tensor α) := do
  let (data, shape) ← Flat.combine op s.data t.data s.shape t.shape
  ofArray data shape

def add [Zero α] [Add α] (s t : Tensor α) := combine (· + ·) s t

def sub [Zero α] [Sub α] (s t : Tensor α) := combine (· - ·) s t

def mul [Zero α] [Mul α] (s t : Tensor α) := combine (· * ·) s t

def div [Zero α] [Div α] (s t : Tensor α) := combine (· / ·) s t

/-- Every element taken from zero. -/
def neg [Zero α] [Sub α] (t : Tensor α) : Tensor α := t.map (0 - ·)

/-- The tensor stretched to a shape of the same rank. -/
def broadcastTo (t : Tensor α) (shape : Shape) :
    Except TensorError (Tensor α) := do
  let data ← Flat.expand t.data t.shape shape
  ofArray data shape

-- ============================================================= reduction

/-- Sums along one axis, which keeps extent one. -/
def sumAxis [Zero α] [Add α] (t : Tensor α) (axis : Nat) :
    Except TensorError (Tensor α) := do
  let data ← Flat.sumAxis t.data t.shape axis
  ofArray data (t.shape.set axis 1)

/-- Sums along each of the given axes in turn. An axis that was summed
before has extent one and is left as it is. -/
def sumAxes [Zero α] [Add α] (t : Tensor α) (axes : List Nat) :
    Except TensorError (Tensor α) :=
  axes.foldlM sumAxis t

end MixtureAttention.Tensor
