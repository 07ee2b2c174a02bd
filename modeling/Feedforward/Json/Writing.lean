import Feedforward.Json.KeyOrder
import Feedforward.Number.Shortest
import Feedforward.Sorting.Stack
import Feedforward.Text.Digit
import Feedforward.Text.Quoted

/-!
# Writing JSON

`Json.write` writes a value as a JSON text of ASCII characters, with the entries of every mapping in
the order of their keys. Keys that are no texts are written as the texts of their values. A mapping
with keys that have no common order is not written, nor is an integer of too many digits, nor what
is foreign to JSON; of several reasons the one that comes first in the text counts.
-/

namespace Feedforward.Json

inductive WriteError where
  /-- The keys of a mapping have no common order. -/
  | unordered
  /-- An integer has too many digits. -/
  | oversized
  /-- JSON has no form for a value or a key of this kind. -/
  | foreign (kind : String)
  /-- A list or a mapping contains itself. -/
  | circular
  deriving DecidableEq

def WriteError.kind : WriteError → ErrorKind
  | .unordered | .foreign _ => .type
  | .oversized | .circular => .value

/-! ### Texts and numbers -/

/-- A code unit as an escape of four digits. -/
def escapeUnit (n : Nat) : String := "\\u" ++ Text.hexadecimal 4 n

/-- A character inside a written text. -/
def escapeChar (c : Char) : String :=
  if c = '"' then "\\\""
  else if c = '\\' then "\\\\"
  else if c = '\x08' then "\\b"
  else if c = '\x0c' then "\\f"
  else if c = '\n' then "\\n"
  else if c = '\r' then "\\r"
  else if c = '\t' then "\\t"
  else if ' ' ≤ c && c ≤ '~' then c.toString
  else if c.toNat < 0x10000 then escapeUnit c.toNat
  else
    let n := c.toNat - 0x10000
    escapeUnit (0xd800 + n / 0x400) ++ escapeUnit (0xdc00 + n % 0x400)

/-- A code point inside a written text. -/
def escape (n : CodePoint) : String := if n.isHalf then escapeUnit n else escapeChar n.char

/-- A text between quotes. -/
def writeText (t : Text) : String :=
  "\"" ++ String.join (t.codePoints.map escape) ++ "\""

/-- How doubles that no decimal denotes are spelled. -/
def words : SpecialWords := ⟨"Infinity", "NaN"⟩

def writeBool (b : Bool) : String := if b then "true" else "false"

def writeInt (n : Int) : Except WriteError String :=
  if Text.isWritable n then .ok (toString n) else .error .oversized

def keyText : Key → Except WriteError Text
  | .null => .ok "null"
  | .bool b => .ok (writeBool b)
  | .int n => (writeInt n).map .string
  | .float x => .ok (x.text words)
  | .str t => .ok t
  | .other x => .error (.foreign x.kind)

/-! ### Values -/

/-- How lists and mappings are spread over lines: with so many blanks for each level, or not at
all. -/
structure Spread where
  indent : Option Nat

/-- Everything on one line. -/
def Spread.oneLine : Spread := ⟨none⟩

/-- One item or entry to a line. -/
def Spread.lines (indent : Nat) : Spread := ⟨some indent⟩

/-- Items between brackets, at a level. -/
def Spread.enclose (l : Spread) (level : Nat) (opening closing : String) (items : List String) :
    String :=
  if items.isEmpty then opening ++ closing
  else match l.indent with
    | none => opening ++ ", ".intercalate items ++ closing
    | some k =>
      let line (level : Nat) : String := "\n" ++ String.ofList (List.replicate (k * level) ' ')
      opening ++ line (level + 1) ++ ("," ++ line (level + 1)).intercalate items ++ line level ++
        closing

/-- An entry of a mapping, given its key and the text of its value. -/
def writeEntry (key : Key) (value : Except WriteError String) : Except WriteError String :=
  return writeText (← keyText key) ++ ": " ++ (← value)

/-- The entries of a mapping in order, given its keys with the texts of their values. -/
def arrange (entries : List (Key × Except WriteError String)) : Except WriteError (List String) :=
  if ordered (entries.map (·.1)) then
    (Sorting.sortBy (fun a b => keyBefore a.1 b.1) entries).mapM fun (k, text) => writeEntry k text
  else .error .unordered

mutual

def writeAt (l : Spread) (level : Nat) : Value → Except WriteError String
  | .null => .ok "null"
  | .bool b => .ok (writeBool b)
  | .int n => writeInt n
  | .float x => .ok (x.text words)
  | .str t => .ok (writeText t)
  | .list items => do return l.enclose level "[" "]" (← writeItems l (level + 1) items)
  | .map entries => do
    return l.enclose level "\x7b" "\x7d" (← arrange (writeEntries l (level + 1) entries))
  | .other x => .error (if x.isCircular then .circular else .foreign x.kind)

def writeItems (l : Spread) (level : Nat) : List Value → Except WriteError (List String)
  | [] => .ok []
  | v :: rest => do return (← writeAt l level v) :: (← writeItems l level rest)

def writeEntries (l : Spread) (level : Nat) :
    List (Key × Value) → List (Key × Except WriteError String)
  | [] => []
  | (k, v) :: rest => (k, writeAt l level v) :: writeEntries l level rest

end

def write (l : Spread) (v : Value) : Except WriteError String := writeAt l 0 v

end Feedforward.Json
