import Feedforward.Value.Text

/-!
# Presets

Three blueprints that are always at hand: a chain of layers, a diamond in which two layers share
their input, and a network with two sources.
-/

namespace Feedforward

inductive PresetError where
  | unknown (name : Value)
  /-- Lists and mappings are no names. -/
  | notAKey

def PresetError.kind : PresetError → ErrorKind
  | .unknown _ => .key
  | .notAKey => .type

namespace Preset

def source (name : String) (cardinality : Nat) : Value :=
  .record [("name", .str name), ("cardinality", .int cardinality)]

def layer (name : String) (cardinality : Nat) (activation : String) (inputs : List String) :
    Value :=
  .record [("name", .str name), ("cardinality", .int cardinality), ("activation", .str activation),
    ("inputs", .list (inputs.map fun (name : String) => .str name))]

/-- A blueprint with a seed. -/
def blueprint (seed : Nat) (output : String) (layers : List Value) : Fields :=
  [(.str "seed", .int seed), (.str "output", .str output), (.str "layers", .list layers)]

/-- The presets by name. -/
def all : List (String × Fields) := [
  ("linear-3-2-1", blueprint 0 "out" [
    source "in" 3,
    layer "hidden" 2 "linear" ["in"],
    layer "out" 1 "linear" ["hidden"]]),
  ("diamond", blueprint 0 "merge" [
    source "in" 4,
    layer "left" 3 "relu" ["in"],
    layer "right" 2 "tanh" ["in"],
    layer "merge" 1 "sigmoid" ["left", "right"]]),
  ("two-inputs", blueprint 7 "out" [
    source "image" 8,
    source "context" 2,
    layer "features" 4 "relu" ["image"],
    layer "out" 2 "linear" ["features", "context"]])]

/-- The preset that is taken when none is named. -/
def defaultName : String := "linear-3-2-1"

/-- The names in alphabetical order. -/
def names : List String := (all.map (·.1)).mergeSort fun a b => decide (a ≤ b)

def find (name : Value) : Except PresetError Fields :=
  match name.toKey? with
  | none => .error .notAKey
  | some (.str (.string s)) => match all.lookup s with
    | some config => .ok config
    | none => .error (.unknown name)
  | some _ => .error (.unknown name)

end Preset

def PresetError.message? : PresetError → Option String
  | .unknown name =>
    some ("Unknown preset " ++ name.quoted ++ ". Available presets: " ++
      ", ".intercalate Preset.names)
  | .notAKey => none

end Feedforward
