import Feedforward.Activation
import Feedforward.Value.Text

/-!
# Graphs of neuron groups

A group consists of neurons of one kind: it has a cardinality, an activation and the list of groups
that it reads from. Groups are known by handles, which a graph hands out one after the other. A
declaration that is refused uses up its handle all the same.

Groups are made by `Graph.declare`, which lets a group read from groups of the graph, and by
`Graph.connect`, which copies a group and puts one more input in front. Neither changes a group that
exists; `Graph.rewire` does, and is the only way to make a cycle.
-/

namespace Feedforward

/-- The identity of a group: its place in the graph. -/
abbrev Handle := Nat

/-- A group of neurons that share their inputs. -/
structure Group (A : Type) where
  cardinality : Nat
  activation : Activation A
  /-- The groups that are read from, in edge order. A group may occur more than once. -/
  inputs : List Handle
  /-- The name, which may be any value. -/
  name : Option Value

/-- A graph of groups. A place without a group belongs to a declaration that was refused. -/
structure Graph (A : Type) where
  places : Array (Option (Group A))

/-- The number of neurons that is asked for: an integer, or something of another kind. -/
inductive Requested where
  | int (n : Int)
  | other (kind : String)
  deriving DecidableEq

inductive GroupError where
  | notAnInteger (kind : String)
  | negative (n : Int)
  deriving DecidableEq

def GroupError.kind : GroupError → ErrorKind
  | .notAnInteger _ => .type
  | .negative _ => .value

/-- The wording of an error. It shows the number that is refused, if the number has a text. -/
def GroupError.message : GroupError → String
  | .notAnInteger kind => "cardinality must be an int, got " ++ kind
  | .negative n =>
    if Text.isWritable n then "cardinality must be non-negative, got " ++ toString n
    else Text.digitLimitText

namespace Requested

/-- A configuration value as the number of neurons; truth values are no numbers. -/
def ofValue : Value → Requested
  | .int n => .int n
  | v => .other v.kind

def check : Requested → Except GroupError Nat
  | .int n => if n < 0 then .error (.negative n) else .ok n.toNat
  | .other kind => .error (.notAnInteger kind)

end Requested

namespace Graph

variable {A : Type}

def empty : Graph A := ⟨#[]⟩

def next (g : Graph A) : Handle := g.places.size

def group? (g : Graph A) (h : Handle) : Option (Group A) := g.places[h]?.join

/-- The groups that a group reads from, in edge order. -/
def inputs (g : Graph A) (h : Handle) : List Handle := (g.group? h).elim [] (·.inputs)

def cardinality (g : Graph A) (h : Handle) : Nat := (g.group? h).elim 0 (·.cardinality)

def isSource (g : Graph A) (h : Handle) : Bool := (g.inputs h).isEmpty

/-- The number of neurons that a group reads from, counted once per edge. -/
def inputSize (g : Graph A) (h : Handle) : Nat := ((g.inputs h).map g.cardinality).sum

def add (g : Graph A) (group : Group A) : Handle × Graph A :=
  (g.next, ⟨g.places.push (some group)⟩)

/-- Declares a group with the given inputs. -/
def declare (g : Graph A) (cardinality : Requested) (activation : Activation A)
    (inputs : List Handle) (name : Option Value) : Except GroupError Handle × Graph A :=
  match cardinality.check with
  | .error e => (.error e, ⟨g.places.push none⟩)
  | .ok n => (.ok g.next, (g.add ⟨n, activation, inputs, name⟩).2)

/-- Copies `target` with `source` in front of its inputs. -/
def connect (g : Graph A) (source target : Handle) : Handle × Graph A :=
  match g.group? target with
  | none => (target, g)
  | some t => g.add { t with inputs := source :: t.inputs }

/-- Gives an existing group other inputs. -/
def rewire (g : Graph A) (h : Handle) (inputs : List Handle) : Graph A :=
  match g.group? h with
  | none => g
  | some t => ⟨g.places.setIfInBounds h (some { t with inputs })⟩

def label (g : Graph A) (h : Handle) : String :=
  match g.group? h with
  | none => "#" ++ toString h
  | some t =>
    "Neurons(" ++ t.name.elim ("#" ++ toString h) (·.text.shown) ++
      ", cardinality=" ++ toString t.cardinality ++ ", activator=" ++ t.activation.name ++
      ", inputs=" ++ toString t.inputs.length ++ ")"

def labels (g : Graph A) (hs : List Handle) : String :=
  "[" ++ ", ".intercalate (hs.map g.label) ++ "]"

end Graph

end Feedforward
