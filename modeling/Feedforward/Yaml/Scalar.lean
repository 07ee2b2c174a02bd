import Feedforward.ErrorKind
import Feedforward.Text.Basic
import Feedforward.Yaml.Cursor

/-!
# Scalars in a YAML text

Plain scalars end where the text around them goes on; quoted ones end at their quote. Both may run
over several lines, which are then folded: one line break between words becomes a blank, and of
several all but the first are kept.
-/

namespace Feedforward.Yaml

/-- A scalar. What a plain one denotes depends on its spelling; a quoted one denotes a text. -/
inductive Scalar where
  | plain (s : String)
  | quoted (t : Text)

inductive ScanFault where
  | malformed
  /-- An escape denotes a number beyond the last character. -/
  | noCharacter
  /-- An escape denotes a number beyond 31 bits. -/
  | noCodePoint
  deriving DecidableEq

def ScanFault.kind : ScanFault → ErrorKind
  | .malformed => .yamlScanner
  | .noCharacter => .value
  | .noCodePoint => .overflow

/-- The text between two words that a line break separates. -/
def foldBreaks (first : Char) (others : List Char) : List Char :=
  if first ≠ '\n' then first :: others
  else if others.isEmpty then [' ']
  else others

/-! ### Plain scalars -/

/-- The signs of brackets and entries. -/
def isFlowSign (c : Char) : Bool :=
  c = ',' || c = '[' || c = ']' || c = '\x7b' || c = '\x7d'

/-- The longest word of a plain scalar. A colon belongs to it unless a word's end follows, and
inside brackets the signs of brackets and entries do not. -/
def plainWord (bracketed : Bool) : List Char → List Char
  | [] => []
  | c :: cs =>
    if endsWord (some c) then []
    else if c = ':' && (endsWord cs.head? || (bracketed && cs.head?.any isFlowSign)) then []
    else if bracketed && (c = '?' || isFlowSign c) then []
    else c :: plainWord bracketed cs

/-- Line breaks and the blanks between them, up to a separator of documents. Answers the breaks,
the place behind them, and whether a separator stands there. -/
def plainBreaks : (fuel : Nat) → Cursor → List Char × Cursor × Bool
  | 0, c => ([], c, false)
  | fuel + 1, c =>
    if c.peek = some ' ' then plainBreaks fuel c.next
    else match c.takeBreak? with
      | none => ([], c, false)
      | some (b, c) =>
        if c.atSeparator then ([b], c, true)
        else
          let (bs, c, separated) := plainBreaks fuel c
          (b :: bs, c, separated)

/-- The gap behind a word of a plain scalar: the text that it contributes, if a word can follow, the
place behind it, and whether a line ends in it. -/
def plainGap (c : Cursor) : List Char × Cursor × Bool :=
  let (blanks, c) := c.takeWhile (· = ' ')
  match c.takeBreak? with
  | none => (blanks, c, false)
  | some (b, c) =>
    if c.atSeparator then ([], c, true)
    else
      let (bs, c, separated) := plainBreaks c.rest.length c
      (if separated then [] else foldBreaks b bs, c, true)

/-- What a plain scalar yields: its text, the place behind it, and whether a line ends behind its
last word. -/
structure PlainScalar where
  text : List Char
  cursor : Cursor
  lineEnded : Bool

/-- Reads the words of a plain scalar, from a word on. `gap` stands in front of the word, and lines
that do not reach the column `indent` do not belong to the scalar, except inside brackets. -/
def plainFrom (bracketed : Bool) (indent : Int) :
    (fuel : Nat) → (gap : List Char) → Cursor → (lineEnded : Bool) → PlainScalar
  | 0, _, c, lineEnded => ⟨[], c, lineEnded⟩
  | fuel + 1, gap, c, lineEnded =>
    let word := if c.peek = some '#' then [] else plainWord bracketed c.rest
    if word.isEmpty then ⟨[], c, lineEnded⟩
    else
      let (next, c, ended) := plainGap (c.skip word.length)
      if next.isEmpty || c.peek = some '#' || (!bracketed && (c.column : Int) < indent) then
        ⟨gap ++ word, c, ended⟩
      else
        let rest := plainFrom bracketed indent fuel next c ended
        ⟨gap ++ word ++ rest.text, rest.cursor, rest.lineEnded⟩

def plainScalar (bracketed : Bool) (indent : Int) (c : Cursor) : PlainScalar :=
  plainFrom bracketed indent c.rest.length [] c false

/-! ### Quoted scalars -/

/-- Line breaks in a quoted scalar and the blanks between them. A separator of documents may not
stand at the beginning of a line. -/
def quotedBreaks : (fuel : Nat) → Cursor → Except ScanFault (List Char × Cursor)
  | 0, c => .ok ([], c)
  | fuel + 1, c =>
    if c.atSeparator then .error .malformed
    else
      let (_, c) := c.takeWhile isBlank
      match c.takeBreak? with
      | none => .ok ([], c)
      | some (b, c) => do
        let (bs, c) ← quotedBreaks fuel c
        return (b :: bs, c)

/-- The blanks and line breaks between two words of a quoted scalar. -/
def quotedGap (c : Cursor) : Except ScanFault (List Char × Cursor) :=
  let (blanks, c) := c.takeWhile isBlank
  match c.peek, c.takeBreak? with
  | none, _ => .error .malformed
  | some _, none => .ok (blanks, c)
  | some _, some (b, c) => do
    let (bs, c) ← quotedBreaks c.rest.length c
    return (foldBreaks b bs, c)

/-- The code point that a backslash and a letter stand for. -/
def unescape? : Char → Option CodePoint
  | '0' => some 0
  | 'a' => some 0x7
  | 'b' => some 0x8
  | 't' => some 0x9
  | '\t' => some 0x9
  | 'n' => some 0xa
  | 'v' => some 0xb
  | 'f' => some 0xc
  | 'r' => some 0xd
  | 'e' => some 0x1b
  | ' ' => some 0x20
  | '"' => some 0x22
  | '/' => some 0x2f
  | '\\' => some 0x5c
  | 'N' => some 0x85
  | '_' => some 0xa0
  | 'L' => some 0x2028
  | 'P' => some 0x2029
  | _ => none

/-- The number of digits of an escaped code point, by the letter in front of them. -/
def escapeWidth? : Char → Option Nat
  | 'x' => some 2
  | 'u' => some 4
  | 'U' => some 8
  | _ => none

/-- The code point with the given digits. -/
def escapedCode (width : Nat) (digits : List Char) : Except ScanFault CodePoint :=
  match digits.mapM Text.hexValue? with
  | none => .error .malformed
  | some ds =>
    let n := ds.foldl (fun n d => n * 16 + d) 0
    if ds.length ≠ width then .error .malformed
    else if 0x7fffffff < n then .error .noCodePoint
    else if h : n < 0x110000 then .ok ⟨n, h⟩
    else .error .noCharacter

/-- The code points of an escape, and the place behind it. `c` is behind the backslash. -/
def escapeAt (c : Cursor) : Except ScanFault (List CodePoint × Cursor) :=
  match c.peek with
  | none => .error .malformed
  | some ch => match unescape? ch, escapeWidth? ch, c.takeBreak? with
    | some n, _, _ => .ok ([n], c.next)
    | none, some width, _ => do
      let n ← escapedCode width (c.next.rest.take width)
      return ([n], c.next.skip width)
    | none, none, some (_, c) => do
      let (bs, c) ← quotedBreaks c.rest.length c
      return (bs.map .ofChar, c)
    | none, none, none => .error .malformed

/-- Reads a quoted scalar behind its first quote. The code points read so far stand latest first. In
double quotes a backslash begins an escape, in single quotes a doubled quote stands for one. -/
def quotedFrom (double : Bool) :
    (fuel : Nat) → (read : List CodePoint) → Cursor → Except ScanFault (Text × Cursor)
  | 0, _, _ => .error .malformed
  | fuel + 1, read, c => match c.peek with
    | none => .error .malformed
    | some ch =>
      if ch = (if double then '"' else '\'') then
        if !double && c.peekAt 1 = some '\'' then
          quotedFrom double fuel (.ofChar ch :: read) (c.skip 2)
        else .ok (.ofCodePoints read.reverse, c.next)
      else if double && ch = '\\' then do
        let (ns, c) ← escapeAt c.next
        quotedFrom double fuel (ns.reverse ++ read) c
      else if endsWord (some ch) then do
        let (gap, c) ← quotedGap c
        quotedFrom double fuel ((gap.map .ofChar).reverse ++ read) c
      else quotedFrom double fuel (.ofChar ch :: read) c.next

def quotedScalar (double : Bool) (c : Cursor) : Except ScanFault (Text × Cursor) :=
  quotedFrom double c.rest.length [] c.next

end Feedforward.Yaml
