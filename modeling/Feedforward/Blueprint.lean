import Feedforward.Graph.Basic
import Feedforward.Value.Text

/-!
# Blueprints

A blueprint is a value that describes a network: a mapping with the keys `layers` and `output`.
Every layer has a cardinality and may have a name, an activation and a list of the layers that it
reads from; these must stand before it. `Graph.build` declares the groups of a blueprint in a graph,
layer after layer. Names may be any values and are compared by their texts; references are compared
as they are, so that only a text refers to a layer.

A layer is declared without inputs at first, and then each input is put in front by a copy. All
these groups stay in the graph, also when a later layer is refused.
-/

namespace Feedforward

inductive BlueprintError where
  /-- The blueprint has no keys at all. -/
  | notAMapping
  /-- Something that is to be a key or a name is a list or a mapping. -/
  | notAKey
  /-- Something that is to be a list of inputs has no elements. -/
  | notAList
  /-- Something that is to be shown or to be a name has no text. -/
  | noText
  | missingKeys (names : List String)
  /-- The layers are no list, or an empty one. -/
  | noLayers
  | layerNotAMapping (position : Nat)
  | duplicateName (name : Text)
  | missingCardinality (name : Text)
  | unknownActivation (name : Text) (available : List String)
  | group (e : GroupError)
  | unknownLayer (name : Text) (source : Value)
  /-- A layer reads from an integer that has no text. -/
  | unknownNumber (name : Text)
  | undeclaredOutput (name : Text)

def BlueprintError.kind : BlueprintError → ErrorKind
  | .notAMapping | .notAKey | .notAList | .layerNotAMapping _ => .type
  | .missingKeys _ | .missingCardinality _ | .unknownActivation _ _ | .unknownLayer _ _ => .key
  | .undeclaredOutput _ => .key
  | .noLayers | .duplicateName _ | .noText | .unknownNumber _ => .value
  | .group e => e.kind

def BlueprintError.message? : BlueprintError → Option String
  | .notAMapping | .notAKey | .notAList | .noText => none
  | .missingKeys names =>
    some ("Network config is missing required keys: " ++ ", ".intercalate names)
  | .noLayers => some "Network config 'layers' must be a non-empty list"
  | .layerNotAMapping i => some ("Layer " ++ toString i ++ " must be a mapping")
  | .duplicateName name => some ("Duplicate layer name: " ++ name.quoted)
  | .missingCardinality name =>
    some ("Layer " ++ name.quoted ++ " missing field 'cardinality'")
  | .unknownActivation name available =>
    some ("Unknown activator " ++ name.quoted ++ ". Available activators: " ++
      ", ".intercalate available)
  | .group e => some e.message
  | .unknownLayer name source =>
    some ("Layer " ++ name.quoted ++ " reads from unknown layer " ++ source.quoted)
  | .unknownNumber _ => some Text.digitLimitText
  | .undeclaredOutput name => some ("Output layer " ++ name.quoted ++ " is not declared")

/-- The groups of layers by their names, latest first. -/
abbrev Declared := List (Text × Handle)

structure Built where
  layers : Declared
  /-- The name of the output layer. -/
  name : Text
  output : Handle

def requiredKeys : List String := ["layers", "output"]

/-- The keys of a value; those of a list are its items, those of a text its characters. -/
def Value.keys (v : Value) : Except BlueprintError (List Key) :=
  match v.elements? with
  | none => .error .notAMapping
  | some items => match items.mapM Value.toKey? with
    | none => .error .notAKey
    | some keys => .ok keys

/-- The entries of a blueprint, if the required keys are among them. -/
def Value.blueprint (config : Value) : Except BlueprintError Fields := do
  let keys ← config.keys
  let missing := requiredKeys.filter fun (name : String) => !keys.any (·.same (.str name))
  if !missing.isEmpty then .error (.missingKeys missing)
  match config with
  | .map entries => return entries
  | _ => .error .notAMapping

def Fields.layers (config : Fields) : Except BlueprintError (List Value) :=
  match config.at? "layers" with
  | some (.list (layer :: rest)) => .ok (layer :: rest)
  | _ => .error .noLayers

/-- The text of the value at a key, or a default where there is none. -/
def Fields.textAt (m : Fields) (name default : String) : Except BlueprintError Text :=
  match m.at? name with
  | none => .ok default
  | some v => if v.hasText then .ok v.text else .error .noText

/-- The name of a layer, which may be left out. -/
def Fields.layerName (layer : Fields) (position : Nat) : Except BlueprintError Text :=
  layer.textAt "name" ("layer" ++ toString position)

def Fields.activationName (layer : Fields) : Except BlueprintError Text :=
  layer.textAt "activation" "linear"

/-- The references of a layer to its inputs, in edge order. -/
def Fields.references (layer : Fields) : Except BlueprintError (List Value) :=
  match layer.at? "inputs" with
  | none => .ok []
  | some v => match v.elements? with
    | none => .error .notAList
    | some items => .ok items

/-- A layer as it is described, before its group exists. -/
structure LayerPlan (A : Type) where
  name : Text
  cardinality : Requested
  activation : Activation A
  fields : Fields

def LayerPlan.ofFields {A : Type} (registry : Registry A) (declared : Declared) (position : Nat)
    (layer : Fields) : Except BlueprintError (LayerPlan A) := do
  let name ← layer.layerName position
  if (declared.lookup name).isSome then .error (.duplicateName name)
  match layer.at? "cardinality" with
  | none => .error (.missingCardinality name)
  | some cardinality =>
    let activationName ← layer.activationName
    match activationName.string?.bind registry.find? with
    | none => .error (.unknownActivation activationName registry.names)
    | some activation => return ⟨name, .ofValue cardinality, activation, layer⟩

def LayerPlan.ofValue {A : Type} (registry : Registry A) (declared : Declared) (position : Nat) :
    Value → Except BlueprintError (LayerPlan A)
  | .map layer => ofFields registry declared position layer
  | _ => .error (.layerNotAMapping position)

/-- The group that a reference in the layer with the given name means. -/
def Declared.resolve (declared : Declared) (name : Text) (source : Value) :
    Except BlueprintError Handle :=
  match source.toKey? with
  | none => .error .notAKey
  | some (.str t) => match declared.lookup t with
    | some h => .ok h
    | none => .error (.unknownLayer name source)
  | some key => .error (if key.hasText then .unknownLayer name source else .unknownNumber name)

namespace Graph

variable {A : Type}

/-- Puts inputs in front of a group one after the other. -/
def connectAll (g : Graph A) (declared : Declared) (name : Text) :
    List Value → Handle → Except BlueprintError Handle × Graph A
  | [], h => (.ok h, g)
  | source :: rest, h => match declared.resolve name source with
    | .error e => (.error e, g)
    | .ok s =>
      let (h, g) := g.connect s h
      connectAll g declared name rest h

/-- Declares the group of a layer. -/
def addLayer (g : Graph A) (declared : Declared) (plan : LayerPlan A) :
    Except BlueprintError Declared × Graph A :=
  match g.declare plan.cardinality plan.activation [] (some (.str plan.name)) with
  | (.error e, g) => (.error (.group e), g)
  | (.ok h, g) => match plan.fields.references with
    | .error e => (.error e, g)
    | .ok sources => match g.connectAll declared plan.name sources.reverse h with
      | (.error e, g) => (.error e, g)
      | (.ok h, g) => (.ok ((plan.name, h) :: declared), g)

/-- Declares the groups of layers one after the other, the first of which stands at the given
position. -/
def addLayers (g : Graph A) (registry : Registry A) :
    List Value → (position : Nat) → Declared → Except BlueprintError Declared × Graph A
  | [], _, declared => (.ok declared, g)
  | layer :: rest, position, declared =>
    match LayerPlan.ofValue registry declared position layer with
    | .error e => (.error e, g)
    | .ok plan => match g.addLayer declared plan with
      | (.error e, g) => (.error e, g)
      | (.ok declared, g) => addLayers g registry rest (position + 1) declared

/-- The output of a blueprint among the declared layers. -/
def selectOutput (config : Fields) (declared : Declared) : Except BlueprintError Built := do
  let name ← config.textAt "output" ""
  match declared.lookup name with
  | some h => return ⟨declared, name, h⟩
  | none => .error (.undeclaredOutput name)

/-- Builds the network that a blueprint describes, with activations from a registry. -/
def build (g : Graph A) (registry : Registry A) (config : Value) :
    Except BlueprintError Built × Graph A :=
  match config.blueprint with
  | .error e => (.error e, g)
  | .ok fields => match fields.layers with
    | .error e => (.error e, g)
    | .ok layers => match g.addLayers registry layers 0 [] with
      | (.error e, g) => (.error e, g)
      | (.ok declared, g) => (selectOutput fields declared, g)

end Graph

end Feedforward
