import Feedforward.Network.Basic

/-!
# Running a network

`Network.run` sends vectors through a network. The layers run in order: a source takes the vector
given for it, any other layer multiplies its weights with the signals that it reads, and both pass
the result through the group's activation into the signal buffer. A layer whose result does not fit
its buffer ends the run; the buffers before it keep their new signals, it and the ones behind it
their old ones.
-/

namespace Feedforward

inductive Feed (V : Type) where
  /-- One for each source, in the order of the sources. -/
  | aligned (values : List V)
  /-- By group. A later vector for a group takes the place of an earlier one. -/
  | keyed (entries : List (Handle × V))

namespace Network

variable {A V : Type}

/-- Puts a vector at a position, in the place of one that is there. -/
def give (given : List (Nat × V)) (i : Nat) (v : V) : List (Nat × V) :=
  match given with
  | [] => [(i, v)]
  | (j, w) :: rest => if j = i then (i, v) :: rest else (j, w) :: give rest i v

def locate (net : Network A) : List (Handle × V) → Except NetworkError (List (Nat × V))
  | entries => entries.foldlM (fun given (h, v) => return give given (← net.index h) v) []

def groupsAt (net : Network A) (is : List Nat) : List Handle :=
  is.filterMap fun i => net.layers[i]?.map (·.group)

/-- The vector for each source, by position. Vectors must be given for all sources and for nothing
else. -/
def accept (net : Network A) (g : Graph A) : Feed V → Except NetworkError (List (Nat × V))
  | .aligned values =>
    let sources := net.sources g
    if values.length = sources.length then .ok (sources.zip values)
    else .error (.mismatch .networkInputs sources.length values.length)
  | .keyed entries => do
    let sources := net.sources g
    let given ← net.locate entries
    let extra := (given.map (·.1)).filter (· ∉ sources)
    if !extra.isEmpty then .error (.notSources (net.groupsAt extra))
    let missing := sources.filter (· ∉ given.map (·.1))
    if !missing.isEmpty then .error (.missingInputs (net.groupsAt missing))
    return given

variable [Arithmetic A] [Readable V A]

/-- The value of a layer before it is stored. -/
def layerValue (net : Network A) (g : Graph A) (given : List (Nat × V)) (i : Nat)
    (layer : Layer A) : Except NetworkError A := do
  let activate (a : A) : Except NetworkError A := match g.group? layer.group with
    | none => .error (.notMember layer.group)
    | some t => ofArray (t.activation.evaluate a)
  if g.isSource layer.group then
    match given.lookup i with
    | none => .error (.missingInputs [layer.group])
    | some v => activate (← ofArray (Readable.read (← present layer.signal) v))
  else
    let x ← net.gather g layer
    match layer.weights with
    | none => .error (.noWeights i)
    | some w =>
      let expected ← ofArray (Arithmetic.axis 1 w)
      let actual ← ofArray (Arithmetic.axis 0 x)
      if expected ≠ actual then .error (.mismatch (.layerInputs i) expected actual)
      activate (← ofArray (Arithmetic.product w x))

/-- The value as the content of a signal buffer, if its shape is that of the buffer. -/
def fitSignal (i : Nat) (buffer : Option A) (value : A) : Except NetworkError A := do
  let buffer ← present buffer
  if Arithmetic.shape value ≠ Arithmetic.shape buffer then
    match Arithmetic.shape buffer with
    | [] => .error (.flatSignal i)
    | expected :: _ => .error (.mismatch (.signal i) expected (Arithmetic.size value))
  return Arithmetic.convert buffer value

/-- The signal that the layer at a position sends on. -/
def newSignal (net : Network A) (g : Graph A) (given : List (Nat × V)) (i : Nat) :
    Except NetworkError A :=
  match net.layers[i]? with
  | none => .error (.noLayer i)
  | some layer => do fitSignal i layer.signal (← net.layerValue g given i layer)

/-- Runs layers one after the other, up to the first that fails. -/
def steps (g : Graph A) (given : List (Nat × V)) : List Nat → Network A →
    Except NetworkError Unit × Network A
  | [], net => (.ok (), net)
  | i :: rest, net => match net.newSignal g given i with
    | .error e => (.error e, net)
    | .ok signal => steps g given rest (net.setBuffer i .signal (some signal))

/-- Runs the network and answers with the signal of the last layer. -/
def run (net : Network A) (g : Graph A) (feed : Feed V) : Except NetworkError A × Network A :=
  match net.accept g feed with
  | .error e => (.error e, net)
  | .ok given => match steps g given (List.range net.size) net with
    | (.error e, net) => (.error e, net)
    | (.ok (), net) => match net.layers.back? with
      | none => (.error .noOutput, net)
      | some layer => (present layer.signal, net)

end Network

end Feedforward
