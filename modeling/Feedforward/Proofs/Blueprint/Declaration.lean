import Mathlib.Data.List.Nodup
import Mathlib.Logic.Relation
import Feedforward.Value.Text

/-!
# What a blueprint declares

A blueprint declares its layers one after the other. `Declaration` is what it says of a layer once
everything is spelled out: a layer without a name is named after its position, one without an
activation is linear, and one without inputs is a source. Names and activations are the texts of the
values that stand there, inputs are the names of other layers.

Nothing is said here of groups and handles. What a blueprint means is what the names mean:
`Declaration.Reached` are the layers that the output reads from, directly or through others.
-/

namespace Feedforward

/-- A layer as a blueprint declares it. -/
structure Declaration where
  name : Text
  cardinality : Nat
  activation : Text
  /-- The names of the layers that are read from, in edge order. -/
  inputs : List Text
  deriving DecidableEq

/-- The natural number that a value is. Truth values are no numbers. -/
def Value.toNat? : Value → Option Nat
  | .int n => if n < 0 then none else some n.toNat
  | _ => none

def Value.toText? : Value → Option Text
  | .str t => some t
  | _ => none

namespace Declaration

/-- The layer that entries declare at a position. -/
def ofFields? (position : Nat) (layer : Fields) : Option Declaration := do
  let cardinality ← (← layer.at? "cardinality").toNat?
  let sources ← (layer.at? "inputs").elim (some []) Value.elements?
  let inputs ← sources.mapM Value.toText?
  return {
    name := (layer.at? "name").elim (.string ("layer" ++ toString position)) Value.text
    cardinality
    activation := (layer.at? "activation").elim (.string "linear") Value.text
    inputs }

/-- The layer that a value declares at a position. -/
def ofValue? (position : Nat) : Value → Option Declaration
  | .map layer => ofFields? position layer
  | _ => none

/-- The layers that values declare, the first of which stands at the given position. -/
def ofValues? : (position : Nat) → List Value → Option (List Declaration)
  | _, [] => some []
  | position, layer :: rest => do
    return (← ofValue? position layer) :: (← ofValues? (position + 1) rest)

/-- The layer with the first name reads from the one with the second. -/
def Reads (ds : List Declaration) (n m : Text) : Prop := ∃ d ∈ ds, d.name = n ∧ m ∈ d.inputs

/-- The output reads from the layer with the name, directly or through others, or is this layer. -/
def Reached (ds : List Declaration) (output n : Text) : Prop :=
  Relation.ReflTransGen (Reads ds) output n

def cardinalityOf (ds : List Declaration) (n : Text) : Nat :=
  (ds.find? (·.name = n)).elim 0 (·.cardinality)

/-- The number of neurons that a layer reads from, counted once per input. -/
def inputSize (ds : List Declaration) (d : Declaration) : Nat :=
  (d.inputs.map (cardinalityOf ds)).sum

/-- Among declarations with different names, the name tells the declaration. -/
theorem eq_of_name_eq {ds : List Declaration} (hnodup : (ds.map (·.name)).Nodup)
    {d e : Declaration} (hd : d ∈ ds) (he : e ∈ ds) (hname : d.name = e.name) : d = e :=
  List.inj_on_of_nodup_map hnodup hd he hname

/-- The cardinality that is found under the name of a declaration is its own. -/
theorem cardinalityOf_name {ds : List Declaration} (hnodup : (ds.map (·.name)).Nodup)
    {d : Declaration} (hd : d ∈ ds) : cardinalityOf ds d.name = d.cardinality := by
  match hfind : ds.find? (·.name = d.name) with
  | none => simpa using List.find?_eq_none.mp hfind d hd
  | some e =>
      have hname : e.name = d.name := by simpa using List.find?_some hfind
      rw [cardinalityOf, hfind, eq_of_name_eq hnodup (List.mem_of_find?_eq_some hfind) hd hname]
      rfl

end Declaration

namespace Value

def entry? (name : String) : Value → Option Value
  | .map entries => Fields.at? entries name
  | _ => none

def declarations? (config : Value) : Option (List Declaration) :=
  match config.entry? "layers" with
  | some (.list layers) => Declaration.ofValues? 0 layers
  | _ => none

def outputName? (config : Value) : Option Text := (config.entry? "output").map Value.text

end Value

end Feedforward
