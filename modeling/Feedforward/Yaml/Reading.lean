import Feedforward.Yaml.Node
import Feedforward.Yaml.Plain

/-!
# Reading YAML

A run can be given any reader of YAML (`Reader`). `Yaml.read` is one: it reads the value of the one
document that a text may hold. It knows block and flow collections and plain and quoted scalars, and
refuses the rest of the language: directives, anchors, tags and block scalars. A text without a
document is null. In a mapping the last value of a repeated key counts, and keys are neither lists
nor mappings. Of several errors the outermost counts, and among those the first (`Node.errors`).
-/

namespace Feedforward.Yaml

inductive ReadError where
  /-- The text holds a character that no text may hold. -/
  | notAllowed
  | node (e : NodeError)
  | plain (e : PlainError)
  /-- A list or a mapping is a key. -/
  | notAKey
  /-- A plain equals sign, which is a text as a key alone, stands elsewhere. -/
  | notAValue
  /-- An error of another reader. -/
  | other (kind : ErrorKind)
  deriving DecidableEq

def ReadError.kind : ReadError → ErrorKind
  | .notAllowed => .yamlReader
  | .node e => e.kind
  | .plain e => e.kind
  | .notAKey | .notAValue => .yamlConstructor
  | .other kind => kind

/-- A reader of YAML. -/
abbrev Reader := String → Except ReadError Value

def Scalar.value : Scalar → Except ReadError Value
  | .plain s => match plainValue s with
    | .ok v => .ok v
    | .error e => .error (.plain e)
  | .quoted t => .ok (.str t)

/-! ### Errors by their depth -/

/-- The errors of a node as a key. -/
def Node.keyErrors : Node → List ReadError
  | .scalar s => match s.value with
    | .ok _ => []
    | .error e => [e]
  | .list _ | .map _ => [.notAKey]

/-- The errors of a scalar; lists and mappings have none on their own level. -/
def Node.ownErrors : Node → List ReadError
  | .scalar (.plain "=") => [.notAValue]
  | .scalar s => (Node.scalar s).keyErrors
  | .list _ | .map _ => []

/-- Two nodes side by side, level by level. -/
def besides {α : Type} : List (List α) → List (List α) → List (List α)
  | [], ys => ys
  | xs, [] => xs
  | x :: xs, y :: ys => (x ++ y) :: besides xs ys

mutual

/-- The errors below a list or a mapping, level by level. -/
def Node.deepErrors : Node → List (List ReadError)
  | .scalar _ => []
  | .list items => items.flatMap ownErrors :: Node.itemErrors items
  | .map pairs => (pairs.flatMap fun (k, n) => k.keyErrors ++ n.ownErrors) :: Node.pairErrors pairs

def Node.itemErrors : List Node → List (List ReadError)
  | [] => []
  | n :: rest => besides n.deepErrors (Node.itemErrors rest)

def Node.pairErrors : List (Node × Node) → List (List ReadError)
  | [] => []
  | (_, n) :: rest => besides n.deepErrors (Node.pairErrors rest)

end

/-- The errors of a node, the outermost first. -/
def Node.errors (n : Node) : List ReadError := n.ownErrors ++ n.deepErrors.flatten

/-! ### Values -/

mutual

/-- The value of a node without errors. -/
def Node.value : Node → Value
  | .scalar s => s.value.toOption.getD .null
  | .list items => .list (Node.values items)
  | .map pairs => .map (Node.entries pairs [])

def Node.values : List Node → List Value
  | [] => []
  | n :: rest => n.value :: Node.values rest

/-- The entries of a mapping, put behind others. -/
def Node.entries : List (Node × Node) → Fields → Fields
  | [], fields => fields
  | (k, n) :: rest, fields =>
    let fields := match k.value.toKey? with
      | some key => fields.put key n.value
      | none => fields
    Node.entries rest fields

end

def Node.value? (n : Node) : Except ReadError Value :=
  match n.errors with
  | [] => .ok n.value
  | e :: _ => .error e

def read (s : String) : Except ReadError Value :=
  if s.toList.all isAllowed then
    match Node.ofTokens (Token.scan s.toList) with
    | .error e => .error (.node e)
    | .ok none => .ok .null
    | .ok (some n) => n.value?
  else .error .notAllowed

end Feedforward.Yaml
