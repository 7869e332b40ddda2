/-
The flat operations as the loops that fill a buffer, step by step on a
machine. Sizes are multiplied up axis by axis, room is reserved for the
result, it is cut into chunks, a chunk is written from slices of the
operands, and the number of a chunk is taken apart by division and
remainder. Each of these steps can be impossible (`Machine.Violation`), apart
from the answers by which an operation refuses its operands.

The steps are those of a loop written out in place. Which chunk is written
first does not matter, since none of them reads what another one writes.
-/
import MixtureAttention.Flat.Broadcast
import MixtureAttention.Proofs.Machine.Steps

namespace MixtureAttention.Flat.Loop

open Machine

variable {ε α β γ : Type}

-- ================================================================ strides

/-- One turn of the loop over the axes: the stride of an axis is filled in,
and the extents met so far are multiplied by its extent. -/
def fillStride (shape : Shape) (filled : List Nat × Nat) (axis : Nat) :
    Run ε (List Nat × Nat) := do
  let strides ← assign filled.1 axis filled.2
  let step ← times filled.2 (← item shape axis)
  return (strides, step)

/-- The strides, from the last axis to the first. -/
def strides (shape : Shape) : Run ε (List Nat) := do
  let filled ← (List.range shape.length).reverse.foldlM (fillStride shape)
    (List.replicate shape.length 0, 1)
  return filled.1

/-- The strides through a larger shape. -/
def stretch (shape target : Shape) : Run ε (List Nat) := do
  let steps ← strides shape
  return ((shape.zip target).zip steps).map fun ((d, t), step) =>
    if d = 1 ∧ t ≠ 1 then 0 else step

/-- The position under the strides `source` of the element at position
`linear` under the strides `target`. -/
def locate : List Nat → List Nat → Nat → Nat → Run ε Nat
  | t :: target, s :: source, linear, position => do
      let i ← divide linear t
      let linear ← modulo linear t
      let position ← plus position (← times i s)
      locate target source linear position
  | _, _, _, position => .ok position

/-- The element of a buffer at such a position. -/
def itemThrough (data : Array α) (target source : List Nat) (i : Nat) :
    Run ε α := do
  item data.toList (← locate target source i 0)

-- ============================================================= operations

def combine [Zero γ] (op : α → β → γ) (left : Array α) (right : Array β)
    (leftShape rightShape : Shape) : Run Error (Array γ × Shape) := do
  let shape ← answer (joinShapes leftShape rightShape)
  let size ← product shape
  reserve size
  if leftShape = rightShape then
    return (combinePairwise op left right size, shape)
  else
    let target ← strides shape
    let leftSteps ← stretch leftShape shape
    let rightSteps ← stretch rightShape shape
    let data ← inElements size fun i => do
      let a ← itemThrough left target leftSteps i
      let b ← itemThrough right target rightSteps i
      return op a b
    return (data, shape)

def expand (data : Array α) (shape target : Shape) :
    Run Error (Array α) := do
  let joined ← answer (joinShapes shape target)
  if joined ≠ target then refuse (.broadcastMismatch shape target)
  else
    let size ← product target
    let targetSteps ← strides target
    let steps ← stretch shape target
    reserve size
    inElements size (itemThrough data targetSteps steps)

/-- Chunk `i` of the transpose is a column of the buffer. -/
def transpose (data : Array α) (shape : Shape) : Run Error (Array α) :=
  if shape.length < 2 then refuse (.rankMismatch 2 shape.length)
  else do
    let m ← item shape (← minus shape.length 2)
    let n ← item shape (← minus shape.length 1)
    let size ← product shape
    if data.size ≠ size then refuse (.shapeMismatch [size] [data.size])
    else
      reserve size
      if size = 0 then return #[]
      else inChunks size m fun i width => do
        let entry ← divide i n
        let col ← modulo i n
        let start ← times (← times entry m) n
        (List.range width).mapM fun r => do
          item data.toList (← plus (← plus start (← times r n)) col)

section

variable [Zero α] [Add α]

/-- Adds the elements of a row to those of a list, as far as both reach. -/
def addRow : List α → List α → List α
  | x :: xs, y :: ys => (x + y) :: addRow xs ys
  | xs, _ => xs

/-- Row `j` of the block that starts at `base`. -/
def blockRow (data : Array α) (base inner j : Nat) : Run Error (List α) := do
  let start ← plus base (← times j inner)
  let stop ← plus base (← times (← plus j 1) inner)
  cut data.toList start stop

/-- Chunk `o` of the sums starts at zero and has the rows of its block added
to it. -/
def sumAxis (data : Array α) (shape : Shape) (axis : Nat) :
    Run Error (Array α) :=
  if shape.length ≤ axis then refuse (.invalidAxis axis shape.length)
  else do
    let outer ← product (← cut shape 0 axis)
    let len ← item shape axis
    let inner ← product (← cut shape (axis + 1) shape.length)
    let size ← times outer inner
    reserve size
    if size = 0 then return #[]
    else inChunks size inner fun o width => do
      let base ← times (← times o len) inner
      (List.range len).foldlM (fun sums j => do
        let row ← blockRow data base inner j
        return addRow sums row) (List.replicate width 0)

variable [Mul α]

/-- The sum of the products of two rows, as far as both reach. -/
def meet (a b : List α) : α := (List.zipWith (· * ·) a b).foldl (· + ·) 0

/-- Where the matrix of a batch entry starts in the transposed right
buffer. -/
def matrixStart (shared : Bool) (entry n k : Nat) : Run Error Nat :=
  if shared then .ok 0 else do times (← times entry n) k

/-- Row `g` of the product, counted through the whole batch: the same row of
the left buffer meets the rows of a matrix of the transposed right one. -/
def productRow (left flipped : Array α) (m k n : Nat) (shared : Bool)
    (g width : Nat) : Run Error (List α) := do
  let entry ← divide g m
  let row ← modulo g m
  let start ← plus (← times (← times entry m) k) (← times row k)
  let a ← cut left.toList start (← plus start k)
  let offset ← matrixStart shared entry n k
  (List.range width).mapM fun col => do
    let start ← plus offset (← times col k)
    let b ← cut flipped.toList start (← plus start k)
    return meet a b

/-- Whether one right matrix serves every batch entry. -/
def sharing (left right : Shape) : Run Error Bool := do
  let leftLead ← cut left 0 (← minus left.length 2)
  let rightLead ← cut right 0 (← minus left.length 2)
  if leftLead = rightLead then return false
  else if rightLead.all (· = 1) then return true
  else refuse (.shapeMismatch left right)

/-- The chunks of the product are its rows. -/
def multiply (left right : Array α) (leftShape rightShape : Shape) :
    Run Error (Array α) :=
  let rank := leftShape.length
  if rank < 2 then refuse (.rankMismatch 2 rank)
  else if rightShape.length ≠ rank then
    refuse (.rankMismatch rank rightShape.length)
  else do
    let m ← item leftShape (← minus rank 2)
    let k ← item leftShape (← minus rank 1)
    let n ← item rightShape (← minus rank 1)
    let k' ← item rightShape (← minus rank 2)
    if k ≠ k' then refuse (.shapeMismatch [k] [k'])
    else
      let shared ← sharing leftShape rightShape
      let batch ← product (← cut leftShape 0 (← minus rank 2))
      let size ← times (← times batch m) n
      reserve size
      if size = 0 then return #[]
      else
        let flipped ← transpose right rightShape
        inChunks size n (productRow left flipped m k n shared)

end

end MixtureAttention.Flat.Loop
