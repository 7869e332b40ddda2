/-
Loops step by step on a machine. A gather says what each element of a result
is; how a buffer comes to be filled is another matter. Room is reserved for
it, it is cut into chunks, chunks are written from slices of the operands,
and sizes and positions are added up, multiplied and taken apart by division
and remainder. Each of these steps can be impossible: a number can be too
large for a word, a buffer too large to be allocated, a divisor or a chunk
length zero, a position or a range outside its buffer, a difference below
zero. Here every such step is one that can stop the run (`Violation`), apart
from the answers by which an operation refuses its operands.

A run stops where a debug build does. A release build goes on after a sum or
a product that is too large, with its remainder, and with numbers that mean
nothing any more. A run that has no violation is the run of either build.

The lemmas say when a step can be taken, and what it gives.
-/
import MixtureAttention.Machine
import MixtureAttention.Proofs.Machine.Spans

namespace MixtureAttention.Machine

variable {ε ε' α β γ : Type}

-- =================================================================== runs

/-- A step that cannot be taken. -/
inductive Violation
  /-- A sum or a product that is no word. -/
  | overflow (value : Nat)
  /-- More elements than a buffer can have. -/
  | capacity (size : Nat)
  /-- A division or a remainder by zero. -/
  | divisor (dividend : Nat)
  /-- A position past the end of a list. -/
  | position (i length : Nat)
  /-- A range that runs backwards, or past the end of a list. -/
  | range (start stop length : Nat)
  /-- Chunks of length zero. -/
  | chunks
  /-- A difference below zero. -/
  | difference (a b : Nat)
  /-- A range that is overwritten by a list of another length. -/
  | lengths (expected got : Nat)
deriving DecidableEq, Repr

/-- What ends a run: an answer to the caller, or a step that cannot be
taken. -/
inductive Halt (ε : Type)
  | refused (e : ε)
  | violated (v : Violation)
deriving DecidableEq, Repr

/-- The same end, with the answer to the caller in other words. -/
def Halt.map (f : ε → ε') : Halt ε → Halt ε'
  | .refused e => .refused (f e)
  | .violated v => .violated v

abbrev Run (ε : Type) := Except (Halt ε)

def refuse (e : ε) : Run ε α := .error (.refused e)

/-- An answer found without any such step. -/
def answer (r : Except ε α) : Run ε α := r.mapError .refused

@[simp] theorem answer_ok (x : α) : (answer (.ok x) : Run ε α) = .ok x := rfl

-- ================================================================ numbers

def word (n : Nat) : Run ε Nat :=
  if n < words then .ok n else .error (.violated (.overflow n))

def plus (a b : Nat) : Run ε Nat := word (a + b)

def times (a b : Nat) : Run ε Nat := word (a * b)

def minus (a b : Nat) : Run ε Nat :=
  if a < b then .error (.violated (.difference a b)) else .ok (a - b)

def divide (a b : Nat) : Run ε Nat :=
  if b = 0 then .error (.violated (.divisor a)) else .ok (a / b)

def modulo (a b : Nat) : Run ε Nat :=
  if b = 0 then .error (.violated (.divisor a)) else .ok (a % b)

/-- The extents multiplied one after the other. -/
def product (s : Shape) : Run ε Nat := s.foldlM times 1

/-- Room for a buffer. -/
def reserve (size : Nat) : Run ε Unit :=
  if size < capacity then .ok () else .error (.violated (.capacity size))

section Numbers

variable {a b : Nat}

/-- A sum below the word size does not wrap. -/
theorem plus_ok (h : a + b < words) :
    (plus a b : Run ε Nat) = .ok (a + b) :=
  if_pos h

/-- A product below the word size does not wrap. -/
theorem times_ok (h : a * b < words) :
    (times a b : Run ε Nat) = .ok (a * b) :=
  if_pos h

/-- A difference does not wrap if the second operand is the smaller. -/
theorem minus_ok (h : b ≤ a) : (minus a b : Run ε Nat) = .ok (a - b) :=
  if_neg (Nat.not_lt.2 h)

/-- A division by what is positive does not stop. -/
theorem divide_ok (hb : 0 < b) : (divide a b : Run ε Nat) = .ok (a / b) :=
  if_neg (Nat.ne_of_gt hb)

/-- A remainder by what is positive does not stop. -/
theorem modulo_ok (hb : 0 < b) : (modulo a b : Run ε Nat) = .ok (a % b) :=
  if_neg (Nat.ne_of_gt hb)

/-- A factor goes along: the product so far times what is still to come
bounds every product on the way. -/
theorem foldlM_times : ∀ {s : Shape} {factor : Nat},
    factor * s.span < words →
      (s.foldlM times factor : Run ε Nat) = .ok (factor * s.size)
  | [], factor, _ => by simp; rfl
  | d :: ds, factor, h => by
      have hstep : factor * d * Shape.span ds ≤ factor * Shape.span (d :: ds) := by
        rw [Shape.span_cons, ← Nat.mul_assoc]
        exact Nat.mul_le_mul_right _
          (Nat.mul_le_mul_left _ (Nat.le_max_left d 1))
      have hfactor : factor * d ≤ factor * d * Shape.span ds :=
        Nat.le_mul_of_pos_right _ (Shape.one_le_span ds)
      rw [List.foldlM_cons, times_ok (by omega), ok_bind,
        foldlM_times (Nat.lt_of_le_of_lt hstep h), Shape.size_cons,
        Nat.mul_assoc]

/-- A product of extents does not wrap if the span stays within a word. -/
theorem product_ok {s : Shape} (h : s.span < words) :
    (product s : Run ε Nat) = .ok s.size := by
  rw [product, foldlM_times (by rwa [Nat.one_mul]), Nat.one_mul]

/-- Memory below the limit is there. -/
theorem reserve_ok {n : Nat} (h : n < capacity) :
    (reserve n : Run ε Unit) = .ok () :=
  if_pos h

end Numbers

-- ================================================================= buffers

def item (l : List α) (i : Nat) : Run ε α :=
  match l[i]? with
  | some x => .ok x
  | none => .error (.violated (.position i l.length))

def assign (l : List α) (i : Nat) (x : α) : Run ε (List α) :=
  if i < l.length then .ok (l.set i x)
  else .error (.violated (.position i l.length))

/-- The elements from `start` up to `stop`. -/
def cut (l : List α) (start stop : Nat) : Run ε (List α) :=
  if start ≤ stop ∧ stop ≤ l.length then .ok ((l.take stop).drop start)
  else .error (.violated (.range start stop l.length))

/-- The list cut into chunks of `width` elements, the last one as long as it
comes. -/
def chunks (l : List α) (width : Nat) : Run ε (List (List α)) :=
  if width = 0 then .error (.violated .chunks)
  else .ok ((List.range ((l.length + width - 1) / width)).map fun i =>
    (l.drop (i * width)).take width)

/-- The list with a range of it overwritten by a list of the same length. -/
def overwrite (l : List α) (start stop : Nat) (part : List α) :
    Run ε (List α) := do
  let old ← cut l start stop
  if old.length ≠ part.length then
    .error (.violated (.lengths old.length part.length))
  else return l.take start ++ part ++ l.drop stop

/-- A buffer written element by element. -/
def inElements (size : Nat) (write : Nat → Run ε α) : Run ε (Array α) := do
  let elements ← (List.range size).mapM write
  return elements.toArray

/-- A buffer written chunk by chunk. The chunks have `width` elements, the
last one as many as are left; a chunk is written given its number and its
length. -/
def inChunks (size width : Nat) (write : Nat → Nat → Run ε (List α)) :
    Run ε (Array α) :=
  if width = 0 then .error (.violated .chunks)
  else do
    let chunks ← (List.range ((size + width - 1) / width)).mapM fun i =>
      write i (min width (size - i * width))
    return chunks.flatten.toArray

section Buffers

variable {a b i start n size : Nat} {l : List α}

/-- An element within the list is read. -/
theorem item_ok {x : α} (h : l[i]? = some x) :
    (item l i : Run ε α) = .ok x := by
  rw [item, h]

/-- The first part of a list is cut off. -/
theorem cut_front {l' : List α} :
    (cut (l ++ l') 0 l.length : Run ε (List α)) = .ok l := by
  rw [cut, if_pos ⟨Nat.zero_le _, by simp⟩, List.take_left, List.drop_zero]

/-- The last part of a list is cut off. -/
theorem cut_back {l' : List α} :
    (cut (l ++ l') l.length (l ++ l').length : Run ε (List α)) = .ok l' := by
  rw [cut, if_pos ⟨by simp, Nat.le_refl _⟩, List.take_length, List.drop_left]

/-- A range of a list that is given by a function. -/
theorem cut_range (g : Nat → α) (h : start + n ≤ size) :
    (cut ((List.range size).map g) start (start + n) : Run ε (List α))
      = .ok ((List.range n).map fun z => g (start + z)) := by
  rw [cut, if_pos ⟨Nat.le_add_right start n, by simpa using h⟩,
    ← List.map_take, ← List.map_drop, List.take_range, Nat.min_eq_left h,
    List.range_add, List.drop_left' List.length_range, List.map_map]
  rfl

/-- A loop whose steps do not stop does not stop. -/
theorem mapM_ok {f : β → Run ε α} {g : β → α} : ∀ {l : List β},
    (∀ i ∈ l, f i = .ok (g i)) → l.mapM f = .ok (l.map g)
  | [], _ => rfl
  | i :: l, h => by
      rw [List.mapM_cons, h i List.mem_cons_self, ok_bind,
        mapM_ok fun j hj => h j (List.mem_cons_of_mem i hj)]
      rfl

/-- A buffer each of whose elements is written. -/
theorem inElements_ok {data : Array α} {write : Nat → Run ε α}
    (hsize : data.size = size)
    (h : ∀ i, i < size → ∃ x, write i = .ok x ∧ data[i]? = some x) :
    inElements size write = .ok data := by
  rcases Nat.eq_zero_or_pos size with rfl | hpos
  · exact congrArg Except.ok (Array.eq_empty_of_size_eq_zero hsize).symm
  · obtain ⟨x₀, -⟩ := h 0 hpos
    have : Nonempty α := ⟨x₀⟩
    choose! g hwrite hget using h
    rw [inElements, mapM_ok fun i hi => hwrite i (List.mem_range.1 hi)]
    refine congrArg Except.ok (Array.ext (by simp [hsize]) fun i _ hi => ?_)
    have hget := hget i (hsize ▸ hi)
    rw [Array.getElem?_eq_getElem hi] at hget
    simpa using (Option.some.inj hget).symm

end Buffers

end MixtureAttention.Machine
