/-
The matrix product over the last two axes. Leading axes are a flat batch.
The right operand has the same leading axes, one matrix for each batch
entry, or leading axes of extent one throughout, and then its single
matrix meets every entry.
-/
import MixtureAttention.Flat.Gather

namespace MixtureAttention.Flat

variable {α : Type} [Zero α] [Add α] [Mul α]

/-- The extents that a product runs over. -/
structure ProductPlan where
  batch : Nat
  rows : Nat
  inner : Nat
  cols : Nat
  /-- Whether one right matrix serves every batch entry. -/
  shared : Bool
deriving DecidableEq, Repr

/-- Checks two shapes against each other: ranks first, then the contracted
extent, then the leading axes. -/
def ProductPlan.of (left right : Shape) : Except Error ProductPlan :=
  match left.matrix? with
  | none => .error (.rankMismatch 2 left.length)
  | some (leftLead, rows, inner) =>
      if right.length ≠ left.length then
        .error (.rankMismatch left.length right.length)
      else
        match right.matrix? with
        | none => .error (.rankMismatch left.length right.length)
        | some (rightLead, inner', cols) =>
            if inner ≠ inner' then
              .error (.shapeMismatch [inner] [inner'])
            else if leftLead = rightLead then
              .ok ⟨leftLead.size, rows, inner, cols, false⟩
            else if rightLead.all (· = 1) then
              .ok ⟨leftLead.size, rows, inner, cols, true⟩
            else .error (.shapeMismatch left right)

/-- The position in the left buffer of factor `l` of output element `i`,
whose row, counted through the whole batch, is `i / cols`. -/
def ProductPlan.leftPosition (p : ProductPlan) (i l : Nat) : Nat :=
  i / p.cols * p.inner + l

/-- The position in the right buffer of factor `l` of output element
`i`. -/
def ProductPlan.rightPosition (p : ProductPlan) (i l : Nat) : Nat :=
  (if p.shared then 0 else i / p.cols / p.rows * p.inner * p.cols)
    + l * p.cols + i % p.cols

/-- The product of two buffers. An empty product needs no elements and
looks at none; otherwise the right buffer must be exactly as long as its
shape says, and the left one long enough. -/
def multiply (left right : Array α) (leftShape rightShape : Shape) :
    Except Error (Array α) := do
  let p ← ProductPlan.of leftShape rightShape
  let count := p.batch * p.rows * p.cols
  if count = 0 then
    return #[]
  if right.size ≠ rightShape.size then
    throw (.shapeMismatch [rightShape.size] [right.size])
  gather count fun i => total p.inner fun l => do
    let a ← fetch left (p.leftPosition i l)
    let b ← fetch right (p.rightPosition i l)
    return a * b

end MixtureAttention.Flat
