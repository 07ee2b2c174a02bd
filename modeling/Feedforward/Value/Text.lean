import Feedforward.Number.Shortest
import Feedforward.Text.Digit
import Feedforward.Text.Quoted
import Feedforward.Value.Basic

/-!
# The text of a value

Names in a configuration may be any value; `Value.text` is the text that stands for it, and
`Value.quoted` the form in which messages show it. They differ for texts, which messages show
between quotes, and may differ for foreign values. Integers of very many digits have no text that
may be used, and neither has what holds one (`Value.hasText`).
-/

namespace Feedforward

/-- How doubles are spelled in texts and messages. -/
def plainWords : SpecialWords := ⟨"inf", "nan"⟩

namespace Value

def boolText (b : Bool) : String := if b then "True" else "False"

end Value

def Key.quoted : Key → String
  | .null => "None"
  | .bool b => Value.boolText b
  | .int n => toString n
  | .float x => x.text plainWords
  | .str t => t.quoted
  | .other x => x.quoted

def Key.hasText : Key → Bool
  | .int n => Text.isWritable n
  | _ => true

namespace Value

mutual

def quoted : Value → String
  | .null => "None"
  | .bool b => boolText b
  | .int n => toString n
  | .float x => x.text plainWords
  | .str t => t.quoted
  | .list items => "[" ++ ", ".intercalate (quotedItems items) ++ "]"
  | .map entries => "\x7b" ++ ", ".intercalate (quotedEntries entries) ++ "\x7d"
  | .other x => x.quoted

def quotedItems : List Value → List String
  | [] => []
  | v :: rest => quoted v :: quotedItems rest

def quotedEntries : List (Key × Value) → List String
  | [] => []
  | (k, v) :: rest => (k.quoted ++ ": " ++ quoted v) :: quotedEntries rest

end

/-- The text of a value: a text itself, and the form in messages of what JSON has a form for. -/
def text : Value → Text
  | .str t => t
  | .other x => x.text
  | v => quoted v

mutual

/-- The value has a text: no integer in it has too many digits. -/
def hasText : Value → Bool
  | .int n => Text.isWritable n
  | .list items => haveText items
  | .map entries => entriesHaveText entries
  | _ => true

def haveText : List Value → Bool
  | [] => true
  | v :: rest => hasText v && haveText rest

def entriesHaveText : List (Key × Value) → Bool
  | [] => true
  | (k, v) :: rest => k.hasText && hasText v && entriesHaveText rest

end

end Value

end Feedforward
