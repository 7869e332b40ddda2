/-
Building a buffer element by element. Every flat operation is a `gather`:
it says how many elements there are and how each one is computed from its
position, reading its operands through `fetch`, which refuses a position
past the end. Both loops stop at the first element that is refused, so a
shape that speaks of far more elements than there are costs nothing.
`gather_ok` and `total_ok` turn a statement about a whole buffer, or about
a whole sum, into one about each element.
-/
import MixtureAttention.Flat.Error

namespace MixtureAttention.Flat

variable {α : Type}

/-- The element at a position. -/
def fetch (data : Array α) (i : Nat) : Except Error α :=
  match data[i]? with
  | some x => .ok x
  | none => .error .overrun

/-- Appends `n` elements to a buffer, each computed from the position that
it takes. -/
def extend (f : Nat → Except Error α) :
    Nat → Array α → Except Error (Array α)
  | 0, data => .ok data
  | n + 1, data =>
      match f data.size with
      | .ok x => extend f n (data.push x)
      | .error e => .error e

/-- The buffer of `n` elements whose element `i` is `f i`. -/
def gather (n : Nat) (f : Nat → Except Error α) : Except Error (Array α) :=
  extend f n #[]

/-- Adds `n` terms to a sum, from term `i` on. -/
def accumulate [Add α] (f : Nat → Except Error α) :
    Nat → Nat → α → Except Error α
  | 0, _, sum => .ok sum
  | n + 1, i, sum =>
      match f i with
      | .ok x => accumulate f n (i + 1) (sum + x)
      | .error e => .error e

/-- The sum of `n` terms, added from left to right starting at zero. -/
def total [Zero α] [Add α] (n : Nat) (f : Nat → Except Error α) :
    Except Error α :=
  accumulate f n 0 0

-- ================================================== elements of a gather

theorem fetch_of_lt {data : Array α} {i : Nat} (h : i < data.size) :
    fetch data i = .ok data[i] := by
  simp [fetch, h]

/-- Elements that are all computed are appended in order. -/
theorem extend_ok {f : Nat → Except Error α} (g : Nat → α) :
    ∀ (n : Nat) (data : Array α),
      (∀ i, data.size ≤ i → i < data.size + n → f i = .ok (g i)) →
      extend f n data =
        .ok (data ++ ((List.range' data.size n).map g).toArray)
  | 0, data, _ => by simp [extend]
  | n + 1, data, h => by
    have hrest := extend_ok (f := f) g n (data.push (g data.size))
      fun i hi hn => by
        rw [Array.size_push] at hi hn
        exact h i (by omega) (by omega)
    rw [extend, h data.size (by omega) (by omega)]
    simp [hrest, List.range'_succ]

/-- A gather whose every element is computed succeeds with those
elements. -/
theorem gather_ok {n : Nat} {f : Nat → Except Error α} (g : Nat → α)
    (h : ∀ i, i < n → f i = .ok (g i)) :
    gather n f = .ok ((List.range n).map g).toArray := by
  have hall := extend_ok (f := f) g n #[] fun i _ hi =>
    h i (by simpa using hi)
  simpa [gather, List.range_eq_range'] using hall

/-- Terms that are all computed are added in order. -/
theorem accumulate_ok [Add α] {f : Nat → Except Error α} (g : Nat → α) :
    ∀ (n i : Nat) (sum : α),
      (∀ j, i ≤ j → j < i + n → f j = .ok (g j)) →
      accumulate f n i sum =
        .ok (((List.range' i n).map g).foldl (· + ·) sum)
  | 0, _, _, _ => rfl
  | n + 1, i, sum, h => by
    have hrest := accumulate_ok (f := f) g n (i + 1) (sum + g i)
      fun j hj hn => h j (by omega) (by omega)
    rw [accumulate, h i (by omega) (by omega)]
    simp [hrest, List.range'_succ]

/-- A sum whose every term is computed is the left fold of its terms. -/
theorem total_ok [Zero α] [Add α] {n : Nat} {f : Nat → Except Error α}
    (g : Nat → α) (h : ∀ i, i < n → f i = .ok (g i)) :
    total n f = .ok (((List.range n).map g).foldl (· + ·) 0) := by
  rw [total, accumulate_ok (f := f) g n 0 0 fun i _ hi => h i (by omega),
    List.range_eq_range']

end MixtureAttention.Flat
