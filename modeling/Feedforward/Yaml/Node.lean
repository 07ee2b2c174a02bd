import Feedforward.Yaml.Token

/-!
# The nodes of a YAML document

`Node.ofTokens` reads the one document that a text may hold. A machine takes the tokens one by one;
its state says what is open around the current place and what may come next. Where a node is due,
nothing may stand in its stead before certain tokens (`Frame.omits`), and an empty scalar is read.

Lists and mappings can be nested to a limited depth only.

The items of a list that is the key or the value of a block mapping may stand in the column of the
mapping. Such a list has no token at its end: it ends where no further item comes.
-/

namespace Feedforward.Yaml

inductive Node where
  | scalar (s : Scalar)
  | list (items : List Node)
  | map (pairs : List (Node × Node))

def Node.nothing : Node := .scalar (.plain "")

inductive NodeError where
  | scan (f : ScanFault)
  | malformed
  /-- A second document follows the first. -/
  | secondDocument
  /-- Lists and mappings are nested too deeply. -/
  | tooDeep
  deriving DecidableEq

def NodeError.kind : NodeError → ErrorKind
  | .scan f => f.kind
  | .malformed => .yamlParser
  | .secondDocument => .yamlComposer
  | .tooDeep => .recursion

/-- What a node that is due will be part of. -/
inductive Frame where
  /-- An item of a block list. -/
  | item (items : List Node)
  /-- An item of a list that stands in the column of the mapping around it. -/
  | alignedItem (items : List Node)
  /-- A key of a block mapping. -/
  | key (pairs : List (Node × Node))
  /-- The value of a key of a block mapping. -/
  | value (pairs : List (Node × Node)) (key : Node)
  /-- An item between brackets. -/
  | flowItem (items : List Node)
  /-- The key of a mapping of one pair that is an item between brackets. -/
  | pairKey (items : List Node)
  | pairValue (items : List Node) (key : Node)
  /-- A key between braces. -/
  | flowKey (pairs : List (Node × Node))
  | flowValue (pairs : List (Node × Node)) (key : Node)
  /-- A key between braces that no colon follows. -/
  | flowBare (pairs : List (Node × Node))

/-- What may come next, inside which frames. -/
inductive State where
  /-- A document or a separator. -/
  | document
  /-- The content of a document behind its separator. -/
  | content
  /-- A node. -/
  | due (f : Frame) (outer : List Frame)
  /-- An item of a block list, or its end. -/
  | nextItem (items : List Node) (outer : List Frame)
  | nextAlignedItem (items : List Node) (outer : List Frame)
  /-- A key of a block mapping, or its end. -/
  | nextKey (pairs : List (Node × Node)) (outer : List Frame)
  /-- The colon behind a key of a block mapping. -/
  | colon (pairs : List (Node × Node)) (key : Node) (outer : List Frame)
  /-- An item between brackets, or the closing bracket. -/
  | firstFlowItem (items : List Node) (outer : List Frame)
  /-- A comma between brackets, or the closing bracket. -/
  | nextFlowItem (items : List Node) (outer : List Frame)
  | pairColon (items : List Node) (key : Node) (outer : List Frame)
  /-- A key between braces, or the closing brace. -/
  | firstFlowKey (pairs : List (Node × Node)) (outer : List Frame)
  /-- A comma between braces, or the closing brace. -/
  | nextFlowKey (pairs : List (Node × Node)) (outer : List Frame)
  | flowColon (pairs : List (Node × Node)) (key : Node) (outer : List Frame)
  /-- The end of the text. -/
  | closed (n : Node)
  | finish (n : Option Node)

/-- Nothing stands in the place of the node that is due if this token comes. -/
def Frame.omits : Frame → Token → Bool
  | .item _, .item | .item _, .blockEnd => true
  | .alignedItem _, .item | .alignedItem _, .key | .alignedItem _, .value
  | .alignedItem _, .blockEnd => true
  | .key _, .key | .key _, .value | .key _, .blockEnd => true
  | .value _ _, .key | .value _ _, .value | .value _ _, .blockEnd => true
  | .pairKey _, .value | .pairKey _, .comma | .pairKey _, .closeList => true
  | .pairValue _ _, .comma | .pairValue _ _, .closeList => true
  | .flowKey _, .value | .flowKey _, .comma | .flowKey _, .closeMap => true
  | .flowValue _ _, .comma | .flowValue _ _, .closeMap => true
  | _, _ => false

/-- A block may stand in the frame. -/
def Frame.admitsBlock : Frame → Bool
  | .item _ | .alignedItem _ | .key _ | .value _ _ => true
  | _ => false

/-- A list may stand in the frame in the column of the mapping around it. -/
def Frame.admitsAligned : Frame → Bool
  | .key _ | .value _ _ => true
  | _ => false

/-- The lists and mappings that a node in the frame stands in. A mapping of one pair between
brackets is one of its own. -/
def Frame.depth : Frame → Nat
  | .pairKey _ | .pairValue _ _ => 2
  | _ => 1

/-- The most lists and mappings that a list or a mapping may stand in. -/
def depthLimit : Nat := 490

def Node.pair (key value : Node) : Node := .map [(key, value)]

namespace State

/-- The state once the node of a frame is read. -/
def fill (n : Node) (outer : List Frame) : Frame → State
  | .item items => nextItem (items ++ [n]) outer
  | .alignedItem items => nextAlignedItem (items ++ [n]) outer
  | .key pairs => colon pairs n outer
  | .value pairs key => nextKey (pairs ++ [(key, n)]) outer
  | .flowItem items => nextFlowItem (items ++ [n]) outer
  | .pairKey items => pairColon items n outer
  | .pairValue items key => nextFlowItem (items ++ [.pair key n]) outer
  | .flowKey pairs => flowColon pairs n outer
  | .flowValue pairs key => nextFlowKey (pairs ++ [(key, n)]) outer
  | .flowBare pairs => nextFlowKey (pairs ++ [(n, .nothing)]) outer

/-- The state once a node is read. -/
def complete (n : Node) : List Frame → State
  | [] => closed n
  | f :: outer => fill n outer f

/-- The state inside a list or a mapping that begins, unless it is nested too deeply. -/
def descend (inner : State) (outer : List Frame) : Except NodeError State :=
  if depthLimit < (outer.map Frame.depth).sum then .error .tooDeep else .ok inner

/-- The state once the first token of a node is read. -/
def enter (block aligned : Bool) (outer : List Frame) : Token → Except NodeError State
  | .scalar s => .ok (complete (.scalar s) outer)
  | .openList => descend (firstFlowItem [] outer) outer
  | .openMap => descend (firstFlowKey [] outer) outer
  | .blockList => if block then descend (nextItem [] outer) outer else .error .malformed
  | .blockMapping => if block then descend (nextKey [] outer) outer else .error .malformed
  | .item => if aligned then descend (due (.alignedItem []) outer) outer else .error .malformed
  | _ => .error .malformed

/-! ### Tokens between nodes -/

/-- A token where a document is complete. -/
def stepClosed (n : Node) : Token → Except NodeError State
  | .documentEnd => .ok (closed n)
  | .finish => .ok (finish (some n))
  | .documentStart => .error .secondDocument
  | _ => .error .malformed

/-- A token where a key of a block mapping may come. -/
def stepNextKey (pairs : List (Node × Node)) (outer : List Frame) : Token → Except NodeError State
  | .key => .ok (due (.key pairs) outer)
  | .blockEnd => .ok (complete (.map pairs) outer)
  | _ => .error .malformed

/-- A token behind a key of a block mapping. Without a colon the key has no value. -/
def stepColon (pairs : List (Node × Node)) (key : Node) (outer : List Frame) :
    Token → Except NodeError State
  | .value => .ok (due (.value pairs key) outer)
  | t => stepNextKey (pairs ++ [(key, .nothing)]) outer t

/-- A token where an item of an aligned list may come. Any other token belongs to the mapping
around. -/
def stepNextAlignedItem (items : List Node) (outer : List Frame) :
    Token → Except NodeError State
  | .item => .ok (due (.alignedItem items) outer)
  | t => match outer with
    | .key pairs :: outer => stepColon pairs (.list items) outer t
    | .value pairs key :: outer => stepNextKey (pairs ++ [(key, .list items)]) outer t
    | _ => .error .malformed

/-- A token where a comma may come between brackets. -/
def stepNextFlowItem (items : List Node) (outer : List Frame) : Token → Except NodeError State
  | .comma => .ok (firstFlowItem items outer)
  | .closeList => .ok (complete (.list items) outer)
  | _ => .error .malformed

/-- A token behind a key between brackets. -/
def stepPairColon (items : List Node) (key : Node) (outer : List Frame) :
    Token → Except NodeError State
  | .value => .ok (due (.pairValue items key) outer)
  | t => stepNextFlowItem (items ++ [.pair key .nothing]) outer t

/-- A token where a comma may come between braces. -/
def stepNextFlowKey (pairs : List (Node × Node)) (outer : List Frame) :
    Token → Except NodeError State
  | .comma => .ok (firstFlowKey pairs outer)
  | .closeMap => .ok (complete (.map pairs) outer)
  | _ => .error .malformed

/-- A token behind a key between braces. -/
def stepFlowColon (pairs : List (Node × Node)) (key : Node) (outer : List Frame) :
    Token → Except NodeError State
  | .value => .ok (due (.flowValue pairs key) outer)
  | t => stepNextFlowKey (pairs ++ [(key, .nothing)]) outer t

/-- A token in front of which a node was left out. -/
def stepOmitted (outer : List Frame) (t : Token) : Frame → Except NodeError State
  | .item items => match t with
    | .item => .ok (due (.item (items ++ [.nothing])) outer)
    | .blockEnd => .ok (complete (.list (items ++ [.nothing])) outer)
    | _ => .error .malformed
  | .alignedItem items => stepNextAlignedItem (items ++ [.nothing]) outer t
  | .key pairs => stepColon pairs .nothing outer t
  | .value pairs key => stepNextKey (pairs ++ [(key, .nothing)]) outer t
  | .pairKey items => stepPairColon items .nothing outer t
  | .pairValue items key => stepNextFlowItem (items ++ [.pair key .nothing]) outer t
  | .flowKey pairs => stepFlowColon pairs .nothing outer t
  | .flowValue pairs key => stepNextFlowKey (pairs ++ [(key, .nothing)]) outer t
  | .flowItem _ | .flowBare _ => .error .malformed

/-! ### All tokens -/

def step (s : State) (t : Token) : Except NodeError State :=
  match t with
  | .fault f => .error (.scan f)
  | t => match s with
    | document => match t with
      | .documentStart => .ok content
      | .finish => .ok (finish none)
      | t => enter true false [] t
    | content => match t with
      | .documentStart => stepClosed .nothing t
      | .documentEnd => stepClosed .nothing t
      | .finish => stepClosed .nothing t
      | t => enter true false [] t
    | due f outer =>
      if f.omits t then stepOmitted outer t f
      else enter f.admitsBlock f.admitsAligned (f :: outer) t
    | nextItem items outer => match t with
      | .item => .ok (due (.item items) outer)
      | .blockEnd => .ok (complete (.list items) outer)
      | _ => .error .malformed
    | nextAlignedItem items outer => stepNextAlignedItem items outer t
    | nextKey pairs outer => stepNextKey pairs outer t
    | colon pairs key outer => stepColon pairs key outer t
    | firstFlowItem items outer => match t with
      | .key => .ok (due (.pairKey items) outer)
      | .closeList => .ok (complete (.list items) outer)
      | t => enter false false (.flowItem items :: outer) t
    | nextFlowItem items outer => stepNextFlowItem items outer t
    | pairColon items key outer => stepPairColon items key outer t
    | firstFlowKey pairs outer => match t with
      | .key => .ok (due (.flowKey pairs) outer)
      | .closeMap => .ok (complete (.map pairs) outer)
      | t => enter false false (.flowBare pairs :: outer) t
    | nextFlowKey pairs outer => stepNextFlowKey pairs outer t
    | flowColon pairs key outer => stepFlowColon pairs key outer t
    | closed n => stepClosed n t
    | finish _ => .error .malformed

def run (s : State) (ts : List Token) : Except NodeError State := ts.foldlM step s

def result : State → Except NodeError (Option Node)
  | finish n => .ok n
  | _ => .error .malformed

end State

/-- Reads the document that a text may hold. -/
def Node.ofTokens (ts : List Token) : Except NodeError (Option Node) := do
  (← State.run .document ts).result

end Feedforward.Yaml
