import Feedforward.ErrorKind
import Feedforward.Number.Binary
import Feedforward.Text.Basic

/-!
# Configuration values

A `Value` is what a configuration document holds: null, booleans, integers of any size, doubles,
texts, lists and mappings. A mapping keeps its entries in the order of their first insertion, and
two keys that are numerically equal are the same key (`Key.same`).

JSON has a form for all of these. A document in another language may hold more: dates, bytes, sets,
or a list that contains itself. Of such a value there is what can be seen of it (`Foreign`).
-/

namespace Feedforward

inductive IntegerError where
  /-- A text that is not the text of an integer, or the undefined number. -/
  | notIntegral
  /-- An infinite number. -/
  | infinite
  /-- Something that is neither a number nor a text. -/
  | notANumber
  deriving DecidableEq

def IntegerError.kind : IntegerError → ErrorKind
  | .notIntegral => .value
  | .infinite => .overflow
  | .notANumber => .type

/-- What any value shows of itself. -/
structure Appearance where
  /-- The word for the kind. -/
  kind : String
  /-- The form in messages. -/
  quoted : String
  text : String
  /-- The value counts as nothing. -/
  isVoid : Bool
  /-- The integer that the value denotes, or why it denotes none. -/
  integer : IntegerError ⊕ Int
  deriving DecidableEq

/-- A key that JSON has no form for, such as a date or a sequence of bytes. -/
structure ForeignKey extends Appearance where
  /-- Two such keys are the same entry if this is equal. -/
  identity : String
  /-- The integers that it runs through, if it does. -/
  integers? : Option (List Int)
  deriving DecidableEq

inductive Key where
  | null
  | bool (b : Bool)
  | int (n : Int)
  | float (x : Binary64)
  | str (t : Text)
  | other (x : ForeignKey)
  deriving DecidableEq

/-- A value that JSON has no form for. -/
structure Foreign extends Appearance where
  /-- The value as a key, if it can serve as one. -/
  key? : Option ForeignKey
  /-- What it runs through, if it does. -/
  elements? : Option (List Key)
  /-- It is a list or a mapping that contains itself, seen from the inside. -/
  isCircular : Bool

/-- The key as a value. -/
def ForeignKey.toForeign (x : ForeignKey) : Foreign where
  toAppearance := x.toAppearance
  key? := some x
  elements? := x.integers?.map (·.map .int)
  isCircular := false

inductive Value where
  | null
  | bool (b : Bool)
  | int (n : Int)
  | float (x : Binary64)
  | str (t : Text)
  | list (items : List Value)
  | map (entries : List (Key × Value))
  | other (x : Foreign)

/-- The entries of a mapping. -/
abbrev Fields := List (Key × Value)

namespace Key

/-- The representative of a key among its equals: a number that is an integer is that integer. -/
def normal : Key → Key
  | .bool b => .int (if b then 1 else 0)
  | .float x => match x.toInt? with
    | some n => .int n
    | none => .float x
  | .other x => .other { x with toAppearance := ⟨"", "", "", false, .inr 0⟩, integers? := none }
  | k => k

/-- Two keys name the same entry. -/
def same (a b : Key) : Bool := a.normal = b.normal

def toValue : Key → Value
  | .null => .null
  | .bool b => .bool b
  | .int n => .int n
  | .float x => .float x
  | .str t => .str t
  | .other x => .other x.toForeign

end Key

namespace Fields

def get? : Fields → Key → Option Value
  | [], _ => none
  | (k, v) :: rest, key => if k.same key then some v else get? rest key

def at? (m : Fields) (name : String) : Option Value := get? m (.str name)

def contains (m : Fields) (key : Key) : Bool := (get? m key).isSome

/-- Puts a value at a key: in the place of the entry there, or else at the end. -/
def put : Fields → Key → Value → Fields
  | [], key, value => [(key, value)]
  | (k, v) :: rest, key, value =>
    if k.same key then (k, value) :: rest else (k, v) :: put rest key value

/-- The mapping that results from putting the entries one after the other. -/
def ofEntries (entries : List (Key × Value)) : Fields :=
  entries.foldl (fun m (k, v) => put m k v) []

end Fields

namespace Value

/-- A mapping with texts as keys. -/
def record (fields : List (String × Value)) : Value :=
  .map (fields.map fun (name, v) => (.str name, v))

/-- The key that a value can serve as; lists and mappings, among others, cannot. -/
def toKey? : Value → Option Key
  | .null => some .null
  | .bool b => some (.bool b)
  | .int n => some (.int n)
  | .float x => some (.float x)
  | .str t => some (.str t)
  | .list _ => none
  | .map _ => none
  | .other x => x.key?.map .other

/-- A value that counts as nothing: null, false, a zero, or something empty. -/
def isVoid : Value → Bool
  | .null => true
  | .bool b => !b
  | .int n => n == 0
  | .float x => x.isZero
  | .str t => t.isEmpty
  | .list items => items.isEmpty
  | .map entries => entries.isEmpty
  | .other x => x.isVoid

/-- The elements that a value runs through: items, characters or keys. Other values have none. -/
def elements? : Value → Option (List Value)
  | .list items => some items
  | .str t => some (t.characters.map .str)
  | .map entries => some (entries.map fun (k, _) => k.toValue)
  | .other x => x.elements?.map (·.map Key.toValue)
  | _ => none

/-- The word for the kind of a value. -/
def kind : Value → String
  | .null => "NoneType"
  | .bool _ => "bool"
  | .int _ => "int"
  | .float _ => "float"
  | .str _ => "str"
  | .list _ => "list"
  | .map _ => "dict"
  | .other x => x.kind

end Value

end Feedforward
