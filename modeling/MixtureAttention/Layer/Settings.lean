/-
Settings of a layer, as a value and as `key=value` text. Keys are read
without regard to case, and blanks around keys and values are dropped.
Loading a list of entries applies them in order and stops at the first
that is refused; a refused entry changes nothing, and the entries before
it stay applied. `entries` lists the settings in a form that loads back.
-/
import MixtureAttention.Decimal.Reader
import MixtureAttention.Registry.Scheme

namespace MixtureAttention

/-- What can be set. -/
inductive Property
  | unit
  | mixtures
  | weightInitializer
  | biasInitializer
  | weightRegularizer
  | penaltyConstant
deriving DecidableEq, Repr

namespace Property

/-- The key of a property, in normal form. -/
def key : Property → String
  | unit => "unit"
  | mixtures => "mol_k"
  | weightInitializer => "weight_initializer"
  | biasInitializer => "bias_initializer"
  | weightRegularizer => "weight_regularizer"
  | penaltyConstant => "weight_regularizer_constant"

/-- All properties, in the order in which they are listed. -/
def all : List Property :=
  [unit, mixtures, weightInitializer, biasInitializer, weightRegularizer,
    penaltyConstant]

/-- The property that a key in normal form names. -/
def ofKey? (key : String) : Option Property := all.find? fun p => p.key = key

end Property

/-- The settings of a layer. The hidden width and the number of mixture
components have no default and must be set before a layer is set up. -/
structure Settings where
  /-- The width of the hidden projection. -/
  unit : Option Nat := none
  /-- The number of mixture components. -/
  mixtures : Option Nat := none
  weightInitializer : Initializer := .xavierUniform
  biasInitializer : Initializer := .zeros
  weightRegularizer : Regularizer := .none
  penaltyConstant : Float := 1.0
deriving BEq

namespace Settings

def withUnit (s : Settings) (unit : Nat) : Settings :=
  { s with unit := some unit }

def withMixtures (s : Settings) (mixtures : Nat) : Settings :=
  { s with mixtures := some mixtures }

-- =============================================================== reading

/-- Reads a count above zero. -/
def readPositive? (value : String) : Option Nat :=
  (Natural.read? value.toList).filter (0 < ·)

/-- Reads a finite number that is not below zero; minus zero is not. -/
def readConstant? (value : String) : Option Float :=
  (Decimal.read? value).filter fun c => c.isFinite && 0.0 ≤ c

/-- The settings with one property read from a value, if it can be. -/
def assign? (s : Settings) (p : Property) (value : String) :
    Option Settings :=
  match p with
  | .unit => (readPositive? value).map fun n => { s with unit := some n }
  | .mixtures =>
      (readPositive? value).map fun n => { s with mixtures := some n }
  | .weightInitializer =>
      (Initializer.ofName? value).map fun i =>
        { s with weightInitializer := i }
  | .biasInitializer =>
      (Initializer.ofName? value).map fun i => { s with biasInitializer := i }
  | .weightRegularizer =>
      (Regularizer.ofName? value).map fun r =>
        { s with weightRegularizer := r }
  | .penaltyConstant =>
      (readConstant? value).map fun c => { s with penaltyConstant := c }

/-- The settings after one assignment. -/
def assign (s : Settings) (key value : String) :
    Except LayerError Settings :=
  let key := Text.normalize key
  let value := Text.trim value
  match Property.ofKey? key with
  | none => .error (.unknownProperty key)
  | some p =>
      match s.assign? p value with
      | some s => .ok s
      | none => .error (.invalidProperty key value)

/-- The settings after one entry, which is split at its first equals
sign. -/
def applyEntry (s : Settings) (entry : String) :
    Except LayerError Settings :=
  match Text.splitFirst? '=' entry with
  | none => .error (.invalidProperty (Text.trim entry) "")
  | some (key, value) => s.assign key value

/-- A change of settings that may be refused. -/
abbrev Change := EStateM LayerError Settings Unit

/-- Sets one property. -/
def set (key value : String) : Change := fun s =>
  match s.assign key value with
  | .ok s => .ok () s
  | .error e => .error e s

/-- Applies a list of entries, up to the first that is refused. -/
def load : List String → Change
  | [], s => .ok () s
  | entry :: rest, s =>
      match s.applyEntry entry with
      | .ok s => load rest s
      | .error e => .error e s

-- =============================================================== listing

/-- The text of a property's value, if it has one. -/
def valueText? (s : Settings) : Property → Option String
  | .unit => s.unit.map Natural.text
  | .mixtures => s.mixtures.map Natural.text
  | .weightInitializer => some s.weightInitializer.name
  | .biasInitializer => some s.biasInitializer.name
  | .weightRegularizer => some s.weightRegularizer.name
  | .penaltyConstant => some (Decimal.text s.penaltyConstant)

/-- The keys and values of all properties that are set. -/
def listing (s : Settings) : List (String × String) :=
  Property.all.filterMap fun p => (s.valueText? p).map fun v => (p.key, v)

/-- The listing as entries. -/
def entries (s : Settings) : List String :=
  s.listing.map fun (key, value) => key ++ "=" ++ value

end Settings
end MixtureAttention
