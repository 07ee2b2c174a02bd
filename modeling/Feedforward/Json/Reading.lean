import Feedforward.Json.Token

/-!
# Reading JSON

`Json.read` reads one value from a text. A machine takes the tokens one by one; its state says what
is due next and carries the lists and mappings that are still open, of which there may be a limited
number. In a mapping the last value of a repeated key counts.
-/

namespace Feedforward.Json

inductive ReadError where
  | malformed
  /-- An integer has too many digits. -/
  | oversized
  /-- Lists and mappings are nested too deeply. -/
  | tooDeep
  deriving DecidableEq

def ReadError.kind : ReadError → ErrorKind
  | .malformed => .jsonDecoding
  | .oversized => .value
  | .tooDeep => .recursion

/-- The most lists and mappings that may be open. -/
def depthLimit : Nat := 990

/-- A list or a mapping that is still open. -/
inductive Frame where
  /-- A list, with its items so far, latest first. -/
  | list (items : List Value)
  /-- A mapping, with its entries so far and the key whose value is being read. -/
  | map (entries : Fields) (name : Key)

/-- What is due next, inside which frames. -/
inductive State where
  | value (outer : List Frame)
  /-- The first item of a list, or its end. -/
  | firstItem (outer : List Frame)
  /-- A comma in a list, or its end. -/
  | nextItem (items : List Value) (outer : List Frame)
  /-- The first key of a mapping, or its end. -/
  | firstKey (outer : List Frame)
  | key (entries : Fields) (outer : List Frame)
  | colon (entries : Fields) (name : Key) (outer : List Frame)
  /-- A comma in a mapping, or its end. -/
  | nextEntry (entries : Fields) (outer : List Frame)
  /-- Nothing: the value is complete. -/
  | finish (v : Value)

namespace State

/-- The state once a value is complete. -/
def accept (v : Value) : List Frame → State
  | [] => finish v
  | .list items :: outer => nextItem (v :: items) outer
  | .map entries name :: outer => nextEntry (entries.put name v) outer

/-- The state inside a list or a mapping that begins, unless too many are open. -/
def descend (inner : State) (outer : List Frame) : Except ReadError State :=
  if depthLimit ≤ outer.length then .error .tooDeep else .ok inner

/-- The state once the first token of a value is read. -/
def enter (outer : List Frame) : Token → Except ReadError State
  | .openList => descend (firstItem outer) outer
  | .openMap => descend (firstKey outer) outer
  | .text t => .ok (accept (.str t) outer)
  | .atom v => .ok (accept v outer)
  | .oversized => .error .oversized
  | _ => .error .malformed

def step : State → Token → Except ReadError State
  | value outer, t => enter outer t
  | firstItem outer, .closeList => .ok (accept (.list []) outer)
  | firstItem outer, t => enter (.list [] :: outer) t
  | nextItem items outer, .comma => .ok (value (.list items :: outer))
  | nextItem items outer, .closeList => .ok (accept (.list items.reverse) outer)
  | firstKey outer, .closeMap => .ok (accept (.map []) outer)
  | firstKey outer, .text t => .ok (colon [] (.str t) outer)
  | key entries outer, .text t => .ok (colon entries (.str t) outer)
  | colon entries name outer, .colon => .ok (value (.map entries name :: outer))
  | nextEntry entries outer, .comma => .ok (key entries outer)
  | nextEntry entries outer, .closeMap => .ok (accept (.map entries) outer)
  | _, _ => .error .malformed

def run (s : State) (ts : List Token) : Except ReadError State := ts.foldlM step s

def result : State → Except ReadError Value
  | finish v => .ok v
  | _ => .error .malformed

end State

def read (s : String) : Except ReadError Value := do
  (← State.run (.value []) (Token.scan s)).result

end Feedforward.Json
