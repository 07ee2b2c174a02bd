import Feedforward.Graph.Order
import Feedforward.Network.Position
import Feedforward.Stream.Weight

/-!
# Networks

A network is a sequence of layers. Each layer belongs to a group of a graph and owns three buffers:
the weights of its inputs, the signal that it sends on, and its error. A network that is put
together by hand may lack some of them. A layer reads from the layers of the groups that its group
reads from; a group is looked up by its handle, and of several layers of one group the last is
meant. The positions of the groups are kept in a table (`position?_eq`).
-/

namespace Feedforward

structure Layer (A : Type) where
  group : Handle
  /-- The weights, one row per neuron and one column per input; sources have none. -/
  weights : Option A
  signal : Option A
  error : Option A

inductive Buffer where
  | weights
  | signal
  | error
  deriving DecidableEq

namespace Layer

variable {A : Type}

def buffer (layer : Layer A) : Buffer → Option A
  | .weights => layer.weights
  | .signal => layer.signal
  | .error => layer.error

/-- The layer with another content of a buffer. -/
def setBuffer (layer : Layer A) (b : Buffer) (content : Option A) : Layer A :=
  match b with
  | .weights => { layer with weights := content }
  | .signal => { layer with signal := content }
  | .error => { layer with error := content }

@[simp] theorem group_setBuffer (layer : Layer A) (b : Buffer) (content : Option A) :
    (layer.setBuffer b content).group = layer.group := by cases b <;> rfl

@[simp] theorem buffer_setBuffer (layer : Layer A) (b : Buffer) (content : Option A) :
    (layer.setBuffer b content).buffer b = content := by cases b <;> rfl

end Layer

/-- A network: its layers in the order in which they run, and the positions of their groups. -/
structure Network (A : Type) where
  layers : Array (Layer A)
  positions : PositionTable
  positions_eq : positions = positionTable (layers.toList.map (·.group))

/-- Where two sizes disagree. -/
inductive Place where
  /-- The number of vectors that are handed to a network. -/
  | networkInputs
  /-- What a layer reads, against the columns of its weights. -/
  | layerInputs (i : Nat)
  /-- What a layer computes, against its signal buffer. -/
  | signal (i : Nat)
  /-- What a learning rule is given as inputs, against the columns of the weights. -/
  | learnerInputs
  deriving DecidableEq

def Place.text : Place → String
  | .networkInputs => "network inputs"
  | .layerInputs i => "inputs of layer " ++ toString i
  | .signal i => "impulse of layer " ++ toString i
  | .learnerInputs => "learner inputs"

inductive NetworkError where
  | array (fault : ArrayFault)
  /-- Two sizes disagree. -/
  | mismatch (place : Place) (expected actual : Nat)
  /-- A group has no layer in the network. -/
  | notMember (group : Handle)
  /-- A layer reads from a group that has no layer in the network. -/
  | inputNotMember (group : Handle)
  /-- Vectors are given for groups that have inputs of their own. -/
  | notSources (groups : List Handle)
  /-- No vectors are given for these sources. -/
  | missingInputs (groups : List Handle)
  /-- There is no layer at this position. -/
  | noLayer (i : Int)
  /-- The layer at this position is a source. -/
  | sourceLayer (i : Int)
  /-- A layer with inputs has no weights. -/
  | noWeights (i : Nat)
  /-- A signal or an error that is to be used is missing. -/
  | noBuffer
  /-- What a layer computes does not fit its signal buffer, which has no axes. -/
  | flatSignal (i : Nat)
  /-- The error of a layer has no components. -/
  | emptyError
  /-- A network without layers has no output. -/
  | noOutput
  /-- Lists that describe the same layers have different lengths. -/
  | unequalLengths
  deriving DecidableEq

def NetworkError.kind : NetworkError → ErrorKind
  | .array fault => fault.kind
  | .mismatch _ _ _ => .dimensionMismatch
  | .notMember _ | .missingInputs _ | .inputNotMember _ => .key
  | .notSources _ | .sourceLayer _ | .emptyError | .unequalLengths => .value
  | .noLayer _ | .noOutput | .flatSignal _ => .index
  | .noWeights _ | .noBuffer => .attribute

/-- The wording of a network error. Faults of arrays and positions have none of their own. -/
def NetworkError.message? {A : Type} (g : Graph A) : NetworkError → Option String
  | .mismatch place expected actual =>
    some ("incompatible dimensions for " ++ place.text ++ ": expected " ++ toString expected ++
      ", got " ++ toString actual)
  | .notMember h => some (g.label h ++ " is not part of this compiled network")
  | .notSources hs => some ("inputs given for non-source neurons " ++ g.labels hs)
  | .missingInputs hs => some ("missing inputs for " ++ g.labels hs)
  | .sourceLayer i => some ("layer " ++ toString i ++ " is a network input and has no weights")
  | .emptyError => some "error vector must not be empty"
  | .flatSignal _ => some "tuple index out of range"
  | .unequalLengths => some "nodes, weights, impulses and errors must have the same length"
  | .array _ | .inputNotMember _ | .noLayer _ | .noWeights _ | .noBuffer | .noOutput => none

/-- A fault of an array as an error of a network. -/
def ofArray {α : Type} : Except ArrayFault α → Except NetworkError α
  | .error fault => .error (.array fault)
  | .ok a => .ok a

/-- A buffer that must not be missing. -/
def present {A : Type} : Option A → Except NetworkError A
  | none => .error .noBuffer
  | some a => .ok a

namespace Network

variable {A : Type}

def ofLayers (layers : List (Layer A)) : Network A where
  layers := layers.toArray
  positions := positionTable (layers.map (·.group))
  positions_eq := rfl

/-- Networks with the same layers are the same. -/
theorem eq_of_layers_eq {net other : Network A} (h : net.layers = other.layers) : net = other := by
  obtain ⟨layers, positions, hp⟩ := net
  obtain ⟨layers', positions', hp'⟩ := other
  cases h
  cases hp
  cases hp'
  rfl

def size (net : Network A) : Nat := net.layers.size

def groups (net : Network A) : List Handle := net.layers.toList.map (·.group)

def position? (net : Network A) (h : Handle) : Option Nat := net.positions[h]?

theorem position?_eq (net : Network A) (h : Handle) :
    net.position? h = lastPosition? h net.groups := by
  rw [position?, net.positions_eq, getElem?_positionTable, groups]

/-- The position of a group's layer; a group without a layer is an error. -/
def index (net : Network A) (h : Handle) : Except NetworkError Nat :=
  match net.position? h with
  | some i => .ok i
  | none => .error (.notMember h)

/-- The layer at a position that may count from the end. -/
def resolve (net : Network A) (i : Int) : Except NetworkError (Nat × Layer A) :=
  let n := if i < 0 then i + net.size else i
  match net.layers[n.toNat]? with
  | some layer => if n < 0 then .error (.noLayer i) else .ok (n.toNat, layer)
  | none => .error (.noLayer i)

/-- The positions of the layers that a group reads from, in edge order. -/
def inputPositions (net : Network A) (g : Graph A) (h : Handle) : Except NetworkError (List Nat) :=
  (g.inputs h).mapM fun u => match net.position? u with
    | some i => .ok i
    | none => .error (.inputNotMember u)

/-- The positions of the layers whose groups have no inputs. -/
def sources (net : Network A) (g : Graph A) : List Nat :=
  (List.range net.size).filter fun i => (net.layers[i]?).any (g.isSource ·.group)

/-- The signals of layers, joined; what is missing has no axis to be joined along. -/
def joinSignals [Arithmetic A] (layers : List (Layer A)) : Except NetworkError A :=
  match layers.mapM (·.signal) with
  | none => .error (.array .shapeMisfit)
  | some signals => ofArray (Arithmetic.join signals)

/-- The signals that a layer reads, joined in edge order. -/
def gather [Arithmetic A] (net : Network A) (g : Graph A) (layer : Layer A) :
    Except NetworkError A := do
  let positions ← net.inputPositions g layer.group
  if positions.isEmpty then return Arithmetic.emptyLike (← present layer.signal)
  joinSignals (positions.filterMap (net.layers[·]?))

theorem map_group_modify (layers : List (Layer A)) (i : Nat) (b : Buffer) (content : Option A) :
    (layers.modify i (·.setBuffer b content)).map (·.group) = layers.map (·.group) := by
  refine List.ext_getElem? fun j => ?_
  rw [List.getElem?_map, List.getElem?_map, List.getElem?_modify]
  cases layers[j]? with
  | none => rfl
  | some layer => by_cases h : i = j <;> simp [h]

/-- The network with another content of a buffer of the layer at a position. -/
def setBuffer (net : Network A) (i : Nat) (b : Buffer) (content : Option A) : Network A where
  layers := net.layers.modify i (·.setBuffer b content)
  positions := net.positions
  positions_eq := by rw [Array.toList_modify, map_group_modify, net.positions_eq]

@[simp] theorem groups_setBuffer (net : Network A) (i : Nat) (b : Buffer) (content : Option A) :
    (net.setBuffer i b content).groups = net.groups := by
  rw [groups, groups, setBuffer, Array.toList_modify, map_group_modify]

/-- The group of the last layer. -/
def output (net : Network A) : Except NetworkError Handle :=
  match net.layers.back? with
  | some layer => .ok layer.group
  | none => .error .noOutput

/-- The network with the given layers, described by four lists of the same length. -/
def assemble (groups : List Handle) (weights signals errors : List (Option A)) :
    Except NetworkError (Network A) :=
  if groups.length = weights.length && groups.length = signals.length &&
      groups.length = errors.length then
    .ok <| ofLayers <| (groups.zip weights).zipWith (fun (group, weights) (signal, error) =>
      ⟨group, weights, signal, error⟩) (signals.zip errors)
  else .error .unequalLengths

end Network

end Feedforward
