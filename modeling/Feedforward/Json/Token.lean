import Feedforward.Number.Reading
import Feedforward.Text.Basic
import Feedforward.Value.Basic

/-!
# The tokens of JSON

`Token.scan` splits a JSON text into brackets, commas, colons, texts and atoms, leaving out the
blanks between them. It goes through the characters once and carries a `Mode`: what it is in the
middle of. Where the text cannot be split any further it ends with the token `invalid`.
-/

namespace Feedforward.Json

inductive Token where
  | openList
  | closeList
  | openMap
  | closeMap
  | comma
  | colon
  | text (t : Text)
  /-- A word or a number. -/
  | atom (v : Value)
  /-- An integer with more digits than are read. -/
  | oversized
  /-- Something that is no token; nothing follows it. -/
  | invalid

/-! ### Atoms -/

def splitDigits (cs : List Char) : List Char × List Char := cs.span Char.isDigit

def natOfDigits (ds : List Char) : Nat := Text.ofDigits 10 (ds.map fun c => c.toNat - '0'.toNat)

/-- Splits off a point and the digits behind it, if there are any. -/
def splitFraction : List Char → Option (List Char) × List Char
  | '.' :: cs => match splitDigits cs with
    | ([], _) => (none, '.' :: cs)
    | (ds, rest) => (some ds, rest)
  | cs => (none, cs)

def splitExponent : List Char → Option Int × List Char
  | [] => (none, [])
  | e :: cs =>
    if e = 'e' || e = 'E' then
      let (negative, ds) := Text.splitSign cs
      match splitDigits ds with
      | ([], _) => (none, e :: cs)
      | (ds, rest) =>
        let n : Int := natOfDigits ds
        (some (if negative then -n else n), rest)
    else (none, e :: cs)

/-- The token of a number without its sign. With a fraction or an exponent the number is a double,
else an integer. A zero in front stands alone, and behind the number nothing is left. -/
def numberToken (negative : Bool) (cs : List Char) : Token :=
  let (whole, rest) := match cs with
    | '0' :: rest => (['0'], rest)
    | cs => splitDigits cs
  let (fraction, rest) := splitFraction rest
  let (exponent, rest) := splitExponent rest
  let isInteger := fraction.isNone && exponent.isNone
  if whole.isEmpty then .invalid
  else if isInteger && Text.digitLimit < whole.length then .oversized
  else if !rest.isEmpty then .invalid
  else if isInteger then
    let n : Int := natOfDigits whole
    .atom (.int (if negative then -n else n))
  else
    let ds := fraction.getD []
    .atom (.float (.ofDecimal negative (natOfDigits (whole ++ ds)) (exponent.getD 0 - ds.length)))

def wordToken (cs : List Char) : Token :=
  match String.ofList cs with
  | "null" => .atom .null
  | "true" => .atom (.bool true)
  | "false" => .atom (.bool false)
  | "NaN" => .atom (.float .nan)
  | "Infinity" => .atom (.float (.infinity false))
  | "-Infinity" => .atom (.float (.infinity true))
  | _ => match cs with
    | '-' :: ds => numberToken true ds
    | ds => numberToken false ds

/-! ### Texts -/

/-- The character that a backslash and a letter stand for. -/
def unescape? : Char → Option Char
  | '"' => some '"'
  | '\\' => some '\\'
  | '/' => some '/'
  | 'b' => some '\x08'
  | 'f' => some '\x0c'
  | 'n' => some '\n'
  | 'r' => some '\r'
  | 't' => some '\t'
  | _ => none

/-! ### Scanning -/

def isSpace (c : Char) : Bool := c = ' ' || c = '\t' || c = '\n' || c = '\r'

def Token.ofChar? : Char → Option Token
  | '[' => some .openList
  | ']' => some .closeList
  | '\x7b' => some .openMap
  | '\x7d' => some .closeMap
  | ',' => some .comma
  | ':' => some .colon
  | _ => none

/-- What a scan is in the middle of. What is read already stands latest first. -/
inductive Mode where
  | between
  | word (read : List Char)
  | text (read : List CodePoint)
  /-- Behind a backslash. -/
  | escape (read : List CodePoint)
  /-- Inside an escaped code point, with so many digits to come. -/
  | code (left value : Nat) (read : List CodePoint)

/-- The token of a word whose characters stand latest first. -/
def closeWord (read : List Char) : Token := wordToken read.reverse

/-- The token of a text whose code points stand latest first. Halves of a pair that follow each
other stand for one character. -/
def closeText (read : List CodePoint) : Token :=
  .text (.ofCodePoints (CodePoint.joinHalves read.reverse))

/-- The tokens of the characters, from the middle of something on. -/
def scanFrom : Mode → List Char → List Token
  | .between, [] => []
  | .between, c :: cs =>
    if isSpace c then scanFrom .between cs
    else if c = '"' then scanFrom (.text []) cs
    else match Token.ofChar? c with
      | some t => t :: scanFrom .between cs
      | none => scanFrom (.word [c]) cs
  | .word read, [] => [closeWord read]
  | .word read, c :: cs =>
    if isSpace c then closeWord read :: scanFrom .between cs
    else if c = '"' then closeWord read :: scanFrom (.text []) cs
    else match Token.ofChar? c with
      | some t => closeWord read :: t :: scanFrom .between cs
      | none => scanFrom (.word (c :: read)) cs
  | .text _, [] => [.invalid]
  | .text read, c :: cs =>
    if c = '"' then closeText read :: scanFrom .between cs
    else if c = '\\' then scanFrom (.escape read) cs
    else if c < ' ' then [.invalid]
    else scanFrom (.text (.ofChar c :: read)) cs
  | .escape _, [] => [.invalid]
  | .escape read, c :: cs =>
    if c = 'u' then scanFrom (.code 4 0 read) cs
    else match unescape? c with
      | some e => scanFrom (.text (.ofChar e :: read)) cs
      | none => [.invalid]
  | .code _ _ _, [] => [.invalid]
  | .code left value read, c :: cs => match Text.hexValue? c with
    | none => [.invalid]
    | some d =>
      let value := value * 16 + d
      if left ≤ 1 then scanFrom (.text (.ofNat _ value :: read)) cs
      else scanFrom (.code (left - 1) value read) cs

def Token.scan (s : String) : List Token := scanFrom .between s.toList

end Feedforward.Json
