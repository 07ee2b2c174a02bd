import Feedforward.Network.Basic

/-!
# The layout of a network

The layout describes a network without its numbers: for each layer the name, size and activation of
its group, the positions that it reads from and the shape of its weights.
-/

namespace Feedforward

structure LayerLayout where
  index : Nat
  name : Option Value
  cardinality : Nat
  activation : String
  /-- The positions of the layers that are read from, in edge order. -/
  inputs : List Nat
  weightShape : Option (List Nat)

structure Layout where
  layers : List LayerLayout
  /-- The number of weights. -/
  parameters : Nat

namespace Network

variable {A : Type} [Arithmetic A]

def parameterCount (net : Network A) : Nat :=
  (net.layers.toList.map fun layer => layer.weights.elim 0 Arithmetic.size).sum

def layerLayout (net : Network A) (g : Graph A) (i : Nat) (layer : Layer A) :
    Except NetworkError LayerLayout := do
  let inputs ← net.inputPositions g layer.group
  match g.group? layer.group with
  | none => .error (.notMember layer.group)
  | some t =>
    return { index := i, name := t.name, cardinality := t.cardinality,
             activation := t.activation.name, inputs,
             weightShape := layer.weights.map Arithmetic.shape }

def layout (net : Network A) (g : Graph A) : Except NetworkError Layout := do
  let layers ← net.layers.toList.zipIdx.mapM fun (layer, i) => net.layerLayout g i layer
  return ⟨layers, net.parameterCount⟩

end Network

/-- A list of sizes or positions as a value. -/
def Value.ofNats (ns : List Nat) : Value := .list (ns.map fun (n : Nat) => .int n)

def LayerLayout.toValue (l : LayerLayout) : Value :=
  .record [
    ("index", .int l.index),
    ("name", l.name.getD .null),
    ("cardinality", .int l.cardinality),
    ("activator", .str l.activation),
    ("inputs", .ofNats l.inputs),
    ("weight_shape", l.weightShape.elim .null .ofNats)]

def Layout.fields (l : Layout) : List (String × Value) := [
  ("layers", .list (l.layers.map LayerLayout.toValue)),
  ("num_layers", .int l.layers.length),
  ("parameters", .int l.parameters)]

def Layout.toValue (l : Layout) : Value := .record l.fields

end Feedforward
