/-
Tensors as the machine stores them: a shape, strides and elements side by
side. Nothing says that the three agree, so whoever makes a tensor has to see
to it: strides are filled in from the shape by a loop of their own, elements
are counted before they are taken, and a result computed elsewhere is given
its shape only if there are as many elements as that.

The operations are those on tensors, step by step. Sizes and positions are
counted in words, buffers are allocated, rows are chunks of a buffer, and
each step that cannot be taken ends the run. What the flat operations are
asked for, their loops are.
-/
import MixtureAttention.Proofs.Flat.Loops
import MixtureAttention.Tensor.Activation
import MixtureAttention.Tensor.Arithmetic
import MixtureAttention.Tensor.Columns
import MixtureAttention.Tensor.Product

namespace MixtureAttention

/-- A flat operation inside a tensor operation. -/
instance : MonadLift (Machine.Run Flat.Error) (Machine.Run TensorError) where
  monadLift r := r.mapError (Machine.Halt.map TensorError.ofFlat)

structure Stored (α : Type) where
  shape : Shape
  strides : List Nat
  data : Array α

namespace Stored

open Machine

variable {ε α : Type}

/-- A tensor as it is stored. -/
def of (t : Tensor α) : Stored α := ⟨t.shape, t.strides, t.data⟩

@[simp] theorem shape_of (t : Tensor α) : (of t).shape = t.shape := rfl

@[simp] theorem strides_of (t : Tensor α) : (of t).strides = t.strides := rfl

@[simp] theorem data_of (t : Tensor α) : (of t).data = t.data := rfl

/-- The number of elements, from the shape. -/
def size (t : Stored α) : Run ε Nat := product t.shape

-- =============================================================== creation

/-- Writes the strides of the first axes, given the one of the last of
them. -/
def fillStrides (shape : Shape) : Nat → List Nat → Nat → Run ε (List Nat)
  | 0, filled, _ => .ok filled
  | axis + 1, filled, step => do
      let filled ← assign filled axis step
      fillStrides shape axis filled (← times step (← item shape axis))

/-- The strides, written in place from the last axis to the first. -/
def filledStrides (shape : Shape) : Run ε (List Nat) :=
  fillStrides shape shape.length (List.replicate shape.length 0) 1

/-- Elements beside their shape, however many there are. -/
def beside (shape : Shape) (data : Array α) : Run ε (Stored α) := do
  return ⟨shape, ← filledStrides shape, data⟩

def ofArray (data : Array α) (shape : Shape) :
    Run TensorError (Stored α) := do
  let size ← product shape
  if data.size ≠ size then refuse (.shapeMismatch [size] [data.size])
  else beside shape data

def full (shape : Shape) (x : α) : Run TensorError (Stored α) := do
  let size ← product shape
  reserve size
  beside shape (Array.replicate size x)

def rowGrid (len width : Nat) (row : Nat → α) :
    Run TensorError (Stored α) := do
  reserve (← times len width)
  let rows := (List.range len).map fun h => List.replicate width (row h)
  beside [1, 1, len, width] rows.flatten.toArray

def reshape (t : Stored α) (shape : Shape) : Run TensorError (Stored α) := do
  let count ← t.size
  let size ← product shape
  if count ≠ size then refuse (.shapeMismatch [count] [size])
  else beside shape t.data

-- ================================================================ reading

/-- The position of a multi-index: coordinates times strides, added up from
zero. -/
def position (index strides : List Nat) : Run ε Nat :=
  (index.zip strides).foldlM (fun sum (i, s) => do plus sum (← times i s)) 0

def get (t : Stored α) (index : List Nat) : Run TensorError α :=
  if Shape.inRange t.shape index then do
    item t.data.toList (← position index t.strides)
  else refuse (.indexOutOfBounds index t.shape)

def write (t : Stored α) (i : Nat) (x : α) : Run TensorError (Stored α) := do
  let data ← assign t.data.toList i x
  return { t with data := data.toArray }

-- =============================================================== elements

section

variable [Zero α]

/-- Zeros, overwritten as far as both buffers reach. -/
def zipWith (f : α → α → α) (shape : Shape) (left right : Array α) :
    Run TensorError (Stored α) := do
  let out ← full shape 0
  return { out with
    data := Flat.combinePairwise f left right out.data.size }

def map (f : α → α) (t : Stored α) : Run TensorError (Stored α) :=
  zipWith (fun x _ => f x) t.shape t.data t.data

/-- The function applied in place. -/
def update (f : α → α) (t : Stored α) : Stored α :=
  { t with data := t.data.map f }

def combine (op : α → α → α) (t u : Stored α) :
    Run TensorError (Stored α) := do
  let (data, shape) ← Flat.Loop.combine op t.data u.data t.shape u.shape
  ofArray data shape

def broadcastTo (t : Stored α) (shape : Shape) :
    Run TensorError (Stored α) := do
  let data ← Flat.Loop.expand t.data t.shape shape
  ofArray data shape

-- =================================================== sums and products

variable [Add α]

/-- The elements and the shape, after a sum along each of the axes. -/
def sumEach : List Nat → Array α × Shape → Run TensorError (Array α × Shape)
  | [], sums => .ok sums
  | axis :: axes, (data, shape) => do
      let data ← Flat.Loop.sumAxis data shape axis
      sumEach axes (data, shape.set axis 1)

def sumAxes (t : Stored α) (axes : List Nat) :
    Run TensorError (Stored α) := do
  let (data, shape) ← sumEach axes (t.data, t.shape)
  ofArray data shape

omit [Zero α] [Add α] in
def transpose (t : Stored α) : Run TensorError (Stored α) := do
  let data ← Flat.Loop.transpose t.data t.shape
  ofArray data t.shape.transposed

variable [Mul α]

def matmul (left right : Stored α) : Run TensorError (Stored α) := do
  let data ← Flat.Loop.multiply left.data right.data left.shape right.shape
  ofArray data (left.shape.withWidth right.shape.width)

def matmulGradLeft (dout right : Stored α) : Run TensorError (Stored α) := do
  dout.matmul (← right.transpose)

def matmulGradRight (left dout : Stored α) (rightShape : Shape) :
    Run TensorError (Stored α) :=
  let inner := left.shape.width
  let cols := dout.shape.width
  if dout.shape.dropLast ≠ left.shape.dropLast then
    refuse (.shapeMismatch left.shape.dropLast dout.shape.dropLast)
  else if rightShape.lastTwo ≠ [inner, cols] then
    refuse (.shapeMismatch [inner, cols] rightShape.lastTwo)
  else if rightShape.lead = left.shape.lead then do
    (← left.transpose).matmul dout
  else if rightShape.lead.any (· ≠ 1) then
    refuse (.shapeMismatch left.shape rightShape)
  else do
    let rows ← divide (← left.size) (max inner 1)
    let flipped ← Flat.Loop.transpose left.data [rows, inner]
    let data ← Flat.Loop.multiply flipped dout.data [inner, rows] [rows, cols]
    ofArray data rightShape

omit [Zero α] [Add α] [Mul α] in
/-- What a debug build does before the rows of a batch are run through: both
counts of them are worked out, and compared. -/
def assertRows (t : Stored α) : Run TensorError Unit := do
  let filled ← divide (← t.size) (max t.shape.width 1)
  let stated ← times (← product t.shape.lead) (Shape.width t.shape.dropLast)
  answer (Build.debug.assertEq filled stated)

end

-- =================================================================== rows

/-- The rows along the last axis. Empty rows are not cut. -/
def rows (t : Stored α) : Run ε (List (List α)) :=
  if t.shape.width = 0 then .ok [] else chunks t.data.toList t.shape.width

/-- The columns must end within the last axis; the column behind them. -/
def checkSegment (shape : Shape) (offset len : Nat) :
    Run TensorError Nat := do
  let stop ← plus offset len
  if shape.width < stop then
    refuse (.indexOutOfBounds [offset, stop] shape)
  else return stop

def columns (t : Stored α) (offset len : Nat) :
    Run TensorError (Stored α) := do
  let stop ← checkSegment t.shape offset len
  let parts ← (← t.rows).mapM fun row => cut row offset stop
  beside (t.shape.withWidth len) parts.flatten.toArray

/-- Overwrites a range of each row with a part of its own, as far as there
are parts. -/
def overwriteRows (start stop : Nat) :
    List (List α) → List (List α) → Run ε (List (List α))
  | row :: rows, part :: parts => do
      let row ← overwrite row start stop part
      return row :: (← overwriteRows start stop rows parts)
  | rows, _ => .ok rows

def setColumns (t : Stored α) (offset len : Nat) (part : Stored α) :
    Run TensorError (Stored α) := do
  let stop ← checkSegment t.shape offset len
  if part.shape ≠ t.shape.withWidth len then
    refuse (.shapeMismatch (t.shape.withWidth len) part.shape)
  else if len = 0 then return t
  else do
    let rows ← chunks t.data.toList t.shape.width
    let parts ← chunks part.data.toList len
    let rows ← overwriteRows offset stop rows parts
    return { t with data := rows.flatten.toArray }

variable [Scalar α]

def activate : Activation → Stored α → Run TensorError (Stored α)
  | .tanh, t => t.map Scalar.tanh
  | .sigmoid, t => t.map sigmoid
  | .softmax, t => do
      if t.shape.width = 0 then return t
      else
        let rows ← t.rows
        return { t with data := (rows.map softmaxRow).flatten.toArray }

def backward (act : Activation) (y dy : Stored α) :
    Run TensorError (Stored α) :=
  if y.shape ≠ dy.shape then refuse (.shapeMismatch y.shape dy.shape)
  else
    match act with
    | .tanh => zipWith (fun y g => g * (1 - y * y)) y.shape y.data dy.data
    | .sigmoid => zipWith (fun y g => g * y * (1 - y)) y.shape y.data dy.data
    | .softmax => do
        let dx ← full y.shape 0
        if y.shape.width = 0 then return dx
        else
          let rows := List.zipWith softmaxRowBackward (← y.rows) (← dy.rows)
          return { dx with data := rows.flatten.toArray }

end Stored
end MixtureAttention
