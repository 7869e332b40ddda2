/-
Shapes of row-major buffers: how many elements a shape has, where a
multi-index lies in the flat buffer, and which shape two shapes share
when axes of extent one are stretched.

The strides are written three times. `strides` says what a stride is, the
number of elements that the later axes span, and is what lemmas use;
`sweepStrides` multiplies the extents up in one pass from the last axis,
and is what the flat operations run; `filledStrides` writes them in place,
axis by axis, and is what a tensor keeps. `sweepStrides_eq` and
`filledStrides_eq` say that they agree.
-/
import MixtureAttention.Text.Natural

namespace MixtureAttention

/-- The extents of a buffer, outermost axis first. The rank is the length,
and a shape without axes has one element. -/
abbrev Shape := List Nat

namespace Shape

-- ====================================================== size and strides

/-- The number of elements. -/
def size : Shape → Nat
  | [] => 1
  | d :: ds => d * size ds

@[simp] theorem size_nil : size [] = 1 := rfl

@[simp] theorem size_cons (d : Nat) (ds : Shape) :
    size (d :: ds) = d * size ds := rfl

@[simp] theorem size_append (s t : Shape) :
    size (s ++ t) = size s * size t := by
  induction s with
  | nil => simp
  | cons d ds ih => simp [ih, Nat.mul_assoc]

/-- One step along an axis passes over every element of the later axes. -/
def strides : Shape → List Nat
  | [] => []
  | _ :: ds => size ds :: strides ds

/-- The strides gathered from the last axis to the first, with the product
of the extents met so far beside them. -/
def sweep (s : Shape) : List Nat × Nat :=
  s.foldr (fun d acc => (acc.2 :: acc.1, d * acc.2)) ([], 1)

/-- The strides, computed in one pass. -/
def sweepStrides (s : Shape) : List Nat := (sweep s).1

/-- One sweep from the last axis gives strides and size. -/
theorem sweep_eq (s : Shape) : sweep s = (strides s, size s) := by
  induction s with
  | nil => rfl
  | cons d ds ih =>
    have h : sweep (d :: ds) = ((sweep ds).2 :: (sweep ds).1, d * (sweep ds).2) :=
      rfl
    rw [h, ih]
    rfl

/-- So its first component is the strides. -/
theorem sweepStrides_eq (s : Shape) : sweepStrides s = strides s := by
  simp [sweepStrides, sweep_eq]

/-- Writes the strides of the first axes, given the one of the last of
them. -/
def fillStrides (s : Shape) : Nat → List Nat → Nat → List Nat
  | 0, filled, _ => filled
  | axis + 1, filled, step =>
      fillStrides s axis (filled.set axis step) (step * s.getD axis 0)

/-- The strides, written in place from the last axis to the first. -/
def filledStrides (s : Shape) : List Nat :=
  fillStrides s s.length (List.replicate s.length 0) 1

/-- One more axis: the extents behind an axis, times its own. -/
theorem size_drop {s : Shape} {axis : Nat} (h : axis < s.length) :
    size (s.drop (axis + 1)) * s[axis] = size (s.drop axis) := by
  rw [List.drop_eq_getElem_cons h, size_cons, Nat.mul_comm]

/-- One more axis: its stride is written where a zero stood. -/
theorem set_strides {s : Shape} {axis : Nat} (h : axis < s.length) :
    (List.replicate (axis + 1) 0 ++ strides (s.drop (axis + 1))).set axis
        (size (s.drop (axis + 1)))
      = List.replicate axis 0 ++ strides (s.drop axis) := by
  rw [List.drop_eq_getElem_cons h, List.replicate_succ']
  simp [strides]

/-- The strides of the later axes stand, and zeros before them. -/
theorem fillStrides_eq (s : Shape) : ∀ axis, axis ≤ s.length →
    fillStrides s axis (List.replicate axis 0 ++ strides (s.drop axis))
        (size (s.drop axis)) = strides s
  | 0, _ => by simp [fillStrides]
  | axis + 1, h => by
    have hextent : s.getD axis 0 = s[axis] := by
      simp [List.getD, List.getElem?_eq_getElem h]
    rw [fillStrides, set_strides h, hextent, size_drop h]
    exact fillStrides_eq s axis (Nat.le_of_succ_le h)

/-- The stride array filled from the back is the list of strides. -/
theorem filledStrides_eq (s : Shape) : filledStrides s = strides s := by
  have hlast := fillStrides_eq s s.length (Nat.le_refl _)
  rw [List.drop_length] at hlast
  simpa [filledStrides, strides] using hlast

/-- There is one stride for each axis. -/
@[simp] theorem length_strides (s : Shape) : (strides s).length = s.length := by
  induction s with
  | nil => rfl
  | cons d ds ih => simp [strides, ih]

-- ============================================== multi-index and position

/-- The position of a multi-index under given strides. -/
def dot : List Nat → List Nat → Nat
  | i :: is, s :: ss => i * s + dot is ss
  | _, _ => 0

/-- The multi-index of a position: each stride in turn is divided out and
the remainder goes on to the later axes. -/
def coordinates : List Nat → Nat → List Nat
  | [], _ => []
  | s :: ss, i => i / s :: coordinates ss (i % s)

/-- The multi-index names an element of the shape. -/
def Contains : Shape → List Nat → Prop
  | [], [] => True
  | d :: ds, i :: is => i < d ∧ Contains ds is
  | _, _ => False

/-- Whether each coordinate that meets an axis stays below its extent. -/
def inRange (s : Shape) (index : List Nat) : Bool :=
  (index.zip s).all fun (i, d) => i < d

-- ========================================================== broadcasting

/-- The extent that two axes share: equal extents, or the other extent
when one of them is one. Extent zero is an extent like any other. -/
def joinAxis (a b : Nat) : Option Nat :=
  if a = b then some a
  else if a = 1 then some b
  else if b = 1 then some a
  else none

/-- The shape that two shapes of equal rank share, axis by axis. -/
def join : Shape → Shape → Option Shape
  | a :: as, b :: bs => do
      let d ← joinAxis a b
      let ds ← join as bs
      some (d :: ds)
  | [], [] => some []
  | _, _ => none

/-- The strides of `s` seen through a larger shape of the same rank: along
an axis that is stretched the position does not move. -/
def stretch : Shape → Shape → List Nat
  | d :: ds, t :: ts =>
      (if d = 1 ∧ t ≠ 1 then 0 else size ds) :: stretch ds ts
  | _, _ => []

/-- The position in a buffer with strides `source` of the element whose
position is `i` under the strides `target`. -/
def project (target source : List Nat) (i : Nat) : Nat :=
  dot (coordinates target i) source

-- ============================================= matrices in the last axes

/-- The leading axes, the rows and the columns of a shape whose last two
axes are read as a matrix. -/
def matrix? (s : Shape) : Option (Shape × Nat × Nat) :=
  match s.reverse with
  | cols :: rows :: lead => some (lead.reverse, rows, cols)
  | _ => none

/-- The extent of the last axis. -/
def width (s : Shape) : Nat := s.getLast?.getD 0

/-- The shape with another extent on its last axis. -/
def withWidth (s : Shape) (len : Nat) : Shape := s.dropLast ++ [len]

/-- The number of rows along the last axis. -/
def rowCount (s : Shape) : Nat := size s.dropLast

/-- How many rows of the last extent the elements fill. Rows of extent
zero leave no trace in the elements, and none of them is counted, however
many the shape has. -/
def filledRows (s : Shape) : Nat := size s / max s.width 1

-- ================================================================== text

/-- Extents between brackets, a comma and a blank after each but the
last. -/
def text (s : List Nat) : String :=
  "[" ++ String.intercalate ", " (s.map Natural.text) ++ "]"

example : text [2, 0, 13] = "[2, 0, 13]" := by decide +kernel

end Shape
end MixtureAttention
