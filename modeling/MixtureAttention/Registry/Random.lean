/-
Generators of random weights. A generator is a state that starts from a
seed and one draw at a time from an interval around zero; nothing else is
asked of it. `splitMix` is the generator that workspaces use by default.
-/

namespace MixtureAttention

structure Generator where
  State : Type
  /-- The state that a seed starts from. -/
  start : UInt64 → State
  /-- A number from the interval from `-limit` up to `limit`, and the next
  state. -/
  draw : Float → State → Float × State

namespace Generator

/-- The next `n` draws, in order. -/
def draws (g : Generator) (limit : Float) :
    Nat → g.State → List Float × g.State
  | 0, s => ([], s)
  | n + 1, s =>
      let (x, s) := g.draw limit s
      let (xs, s) := g.draws limit n s
      (x :: xs, s)

/-- As many numbers are drawn as are asked for. -/
@[simp] theorem length_draws (g : Generator) (limit : Float) (n : Nat)
    (s : g.State) : (g.draws limit n s).1.length = n := by
  induction n generalizing s with
  | zero => rfl
  | succ n ih => simp [draws, ih]

/-- A counter that advances by a fixed odd step, with its bits mixed twice
by shifts and multiplications. Fifty-three of the mixed bits are a
fraction of one, spread over the interval. -/
def splitMix : Generator where
  State := UInt64
  start seed := seed
  draw limit s :=
    let s := s + 0x9e3779b97f4a7c15
    let z := (s ^^^ (s >>> 30)) * 0xbf58476d1ce4e5b9
    let z := (z ^^^ (z >>> 27)) * 0x94d049bb133111eb
    let z := z ^^^ (z >>> 31)
    let fraction := (z >>> 11).toFloat / 9007199254740992.0
    (fraction * (2.0 * limit) - limit, s)

end Generator
end MixtureAttention
