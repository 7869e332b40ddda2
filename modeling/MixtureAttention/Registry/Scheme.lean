/-
How weights start out and how they are penalised. Both are named in
settings by fixed words, read without regard to case or to blanks around
them.
-/
import MixtureAttention.Text.Blank
import MixtureAttention.Registry.Error

namespace MixtureAttention

/-- The extents of a four-axis buffer. -/
structure Dims where
  batch : Nat
  channel : Nat
  height : Nat
  width : Nat
deriving DecidableEq, Repr

/-- The extents as a shape. -/
def Dims.toShape (d : Dims) : Shape := [d.batch, d.channel, d.height, d.width]

-- ======================================================== initial values

/-- How a weight is filled. The three random schemes draw every element
uniformly from an interval around zero. -/
inductive Initializer
  | zeros
  | ones
  | xavierUniform
  | heUniform
  | lecunUniform
deriving DecidableEq, Repr

namespace Initializer

def name : Initializer → String
  | zeros => "zeros"
  | ones => "ones"
  | xavierUniform => "xavier_uniform"
  | heUniform => "he_uniform"
  | lecunUniform => "lecun_uniform"

def all : List Initializer :=
  [zeros, ones, xavierUniform, heUniform, lecunUniform]

/-- The scheme that a word names. -/
def ofName? (s : String) : Option Initializer :=
  all.find? fun i => i.name = Text.normalize s

/-- Reads a scheme; another word is an invalid value. -/
def read (s : String) : Except LayerError Initializer :=
  match ofName? s with
  | some i => .ok i
  | none => .error (.invalidProperty "initializer" s)

/-- The half-width of the interval that a random scheme draws from. The
last two extents are the numbers of units that feed a unit and that a
unit feeds; an empty axis counts as one. The other two schemes draw
nothing. -/
def limit? (i : Initializer) (d : Dims) : Option Float :=
  let fanIn := Float.ofNat (max d.height 1)
  let fanOut := Float.ofNat (max d.width 1)
  match i with
  | zeros => none
  | ones => none
  | xavierUniform => some (Float.sqrt (6.0 / (fanIn + fanOut)))
  | heUniform => some (Float.sqrt (6.0 / fanIn))
  | lecunUniform => some (Float.sqrt (3.0 / fanIn))

end Initializer

-- ============================================================== penalties

/-- A penalty on the values of a weight. -/
inductive Regularizer
  | none
  /-- Half the constant times the sum of squares. -/
  | l2
deriving DecidableEq, Repr

namespace Regularizer

def name : Regularizer → String
  | none => "none"
  | l2 => "l2norm"

/-- The penalty that a word names. -/
def ofName? (s : String) : Option Regularizer :=
  [Regularizer.none, l2].find? fun r => r.name = Text.normalize s

/-- Reads a penalty; another word is an invalid value. -/
def read (s : String) : Except LayerError Regularizer :=
  match ofName? s with
  | some r => .ok r
  | Option.none => .error (.invalidProperty "regularizer" s)

end Regularizer
end MixtureAttention
