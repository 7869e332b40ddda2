/-
The machine that everything is computed on. Sizes, strides and positions
are words, and a buffer has at most so many bytes as a signed word counts.
The library computes with natural numbers, and that is what the machine
computes as long as no number leaves its range.

`Shape.Addressable` is the condition for it: the extents multiplied, empty
axes left out, stay below the number of elements that a buffer may have.
Empty axes are left out because they do not keep a product small while it
is being computed: the extents before an empty one are multiplied first,
and a stride is the product of the extents behind its axis alone. With this
condition every product of some of the extents, in whatever order they are
multiplied, is a word, and every buffer of the shape can be allocated. What
other buffers take up at the same time is not counted.
-/
import MixtureAttention.Shape

namespace MixtureAttention

namespace Machine

/-- Sizes, strides and positions are below it. -/
def words : Nat := Nat.pow 2 64

/-- A buffer has fewer elements: it has fewer than `2 ^ 63` bytes, and the
widest elements have eight. -/
def capacity : Nat := Nat.pow 2 60

end Machine

namespace Shape

/-- The product of the extents that are not zero. -/
def span : Shape → Nat
  | [] => 1
  | d :: ds => max d 1 * span ds

/-- The machine can hold buffers of the shape, and count through them. -/
def Addressable (s : Shape) : Prop := s.span < Machine.capacity

instance (s : Shape) : Decidable s.Addressable :=
  inferInstanceAs (Decidable (s.span < Machine.capacity))

/-- Two empty axes do not hide one that is too long. -/
example : ¬ Addressable [0, 2 ^ 60, 0] ∧ Addressable [0, 2 ^ 59, 0] := by
  decide

end Shape
end MixtureAttention
