/-
Tensors: row-major buffers that know their shape and keep its strides. A
tensor has exactly as many elements as its shape says, and strides that
step over the elements of the later axes; the type carries the proofs, so
the operations on tensors never meet a buffer that is too short. The rank
is the length of the shape and differs from tensor to tensor.

Whoever makes a tensor fills its strides in from its shape
(`Shape.filledStrides`), and an operation that writes into a tensor leaves
the ones it has.
-/
import MixtureAttention.Scalar
import MixtureAttention.Flat.Gather
import MixtureAttention.Tensor.Error

namespace MixtureAttention

variable {α : Type}

structure Tensor (α : Type) where
  shape : Shape
  /-- How far apart neighbours along each axis lie. -/
  strides : List Nat := shape.filledStrides
  /-- The elements, the last axis moving fastest. -/
  data : Array α
  strides_eq : strides = shape.strides := by
    exact MixtureAttention.Shape.filledStrides_eq _
  size_eq : data.size = shape.size

namespace Tensor

/-- The strides are settled by the shape, so shape and elements tell tensors
apart. -/
@[ext] theorem ext {s t : Tensor α} (hs : s.shape = t.shape)
    (hd : s.data = t.data) : s = t := by
  obtain ⟨s, ss, d, h, hsize⟩ := s
  obtain ⟨s', ss', d', h', hsize'⟩ := t
  cases hs
  cases hd
  cases h.trans h'.symm
  rfl

-- ============================================================== creation

/-- The tensor of as many elements as its shape has. -/
def rowMajor (shape : Shape) (data : Array α) (h : data.size = shape.size) :
    Tensor α where
  shape
  data
  size_eq := h

@[simp] theorem shape_rowMajor {shape : Shape} {data : Array α}
    (h : data.size = shape.size) : (rowMajor shape data h).shape = shape :=
  rfl

@[simp] theorem data_rowMajor {shape : Shape} {data : Array α}
    (h : data.size = shape.size) : (rowMajor shape data h).data = data := rfl

/-- A tensor of given elements, whose number must fit the shape. -/
def ofArray (data : Array α) (shape : Shape) :
    Except TensorError (Tensor α) :=
  if h : data.size = shape.size then .ok (rowMajor shape data h)
  else .error (.shapeMismatch [shape.size] [data.size])

/-- A tensor with one value throughout. -/
def full (shape : Shape) (x : α) : Tensor α :=
  rowMajor shape (Array.replicate shape.size x) Array.size_replicate

def zeros [Zero α] (shape : Shape) : Tensor α := full shape 0

def ones [One α] (shape : Shape) : Tensor α := full shape 1

/-- A tensor of shape `1, 1, len, width` whose row `h` holds `f h` in every
column. -/
def rowGrid (len width : Nat) (f : Nat → α) : Tensor α where
  shape := [1, 1, len, width]
  data := Array.ofFn fun i : Fin (len * width) => f (i.val / width)
  size_eq := by simp

/-- The elements under another shape of the same size. -/
def reshape (t : Tensor α) (shape : Shape) : Except TensorError (Tensor α) :=
  if h : t.shape.size = shape.size then
    .ok (rowMajor shape t.data (t.size_eq.trans h))
  else .error (.shapeMismatch [t.shape.size] [shape.size])

-- =============================================================== reading

/-- The number of elements. -/
def size (t : Tensor α) : Nat := t.shape.size

/-- The number of axes. -/
def rank (t : Tensor α) : Nat := t.shape.length

/-- An extent of the shape; an axis that is not there has extent zero. -/
def extent (t : Tensor α) (axis : Nat) : Nat := t.shape.getD axis 0

/-- The element at a multi-index with one coordinate for each axis. -/
def get (t : Tensor α) (index : List Nat) : Except TensorError α := do
  if Shape.inRange t.shape index then
    Flat.fetch t.data (Shape.dot index t.strides)
  else throw (.indexOutOfBounds index t.shape)

/-- A copy of the tensor with another element at a flat position. -/
def write (t : Tensor α) (i : Nat) (x : α) : Except TensorError (Tensor α) :=
  if i < t.data.size then
    .ok
      { t with
        data := t.data.setIfInBounds i x
        size_eq := by simpa using t.size_eq }
  else .error .overrun

/-- Whether no element is infinite or not a number. -/
def allFinite [Scalar α] (t : Tensor α) : Bool :=
  t.data.all Scalar.isFinite

/-- Tensors are equal when their shapes are and their elements compare
equal pairwise, so that a tensor holding a number that differs from itself
differs from itself. -/
instance [BEq α] : BEq (Tensor α) where
  beq s t := s.shape == t.shape && s.data == t.data

/-- A short description: the shape, and how many elements are held. -/
def describe (t : Tensor α) : String :=
  "Tensor \x7b shape: " ++ Shape.text t.shape ++ ", data_len: "
    ++ Natural.text t.data.size ++ " \x7d"

-- ============================================================== elements

/-- Applies a function to every element. -/
def map {β : Type} (f : α → β) (t : Tensor α) : Tensor β :=
  rowMajor t.shape (t.data.map f) (by simpa using t.size_eq)

end Tensor
end MixtureAttention
