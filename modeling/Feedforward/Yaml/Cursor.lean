import Feedforward.Number.Instances

/-!
# Places in a YAML text

A `Cursor` is a place in a text: what is left of it, and how many characters, lines and columns are
behind. YAML counts five characters as line breaks; two of them stay what they are when a line is
folded, the others become line feeds.
-/

namespace Feedforward.Yaml

/-- A place in a text. -/
structure Cursor where
  rest : List Char
  index : Nat
  line : Nat
  column : Nat

def isBreak (c : Char) : Bool :=
  c = '\n' || c = '\r' || c = '\x85' || c = '\u2028' || c = '\u2029'

def isBlank (c : Char) : Bool := c = ' ' || c = '\t'

/-- What ends a word: a blank, a line break or the end of the text. -/
def endsWord : Option Char → Bool
  | none => true
  | some c => isBlank c || isBreak c

/-- Characters that a text may hold. -/
def isAllowed (c : Char) : Bool :=
  let n := c.toNat
  n = 0x9 || n = 0xa || n = 0xd || (0x20 ≤ n && n ≤ 0x7e) || n = 0x85 ||
    (0xa0 ≤ n && n ≤ 0xd7ff) || (0xe000 ≤ n && n ≤ 0xfffd) || 0x10000 ≤ n

namespace Cursor

/-- The beginning of a text. A byte order mark in front is passed over. -/
def start (cs : List Char) : Cursor :=
  match cs with
  | '\ufeff' :: rest => ⟨rest, 1, 0, 0⟩
  | cs => ⟨cs, 0, 0, 0⟩

def peek (c : Cursor) : Option Char := c.rest.head?

def peekAt (c : Cursor) (n : Nat) : Option Char := c.rest[n]?

/-- The place after a character that is followed by the rest. -/
def after (c : Cursor) (ch : Char) (rest : List Char) : Cursor :=
  if isBreak ch && !(ch = '\r' && rest.head? = some '\n') then ⟨rest, c.index + 1, c.line + 1, 0⟩
  else if ch = '\ufeff' then ⟨rest, c.index + 1, c.line, c.column⟩
  else ⟨rest, c.index + 1, c.line, c.column + 1⟩

def next (c : Cursor) : Cursor :=
  match c.rest with
  | [] => c
  | ch :: rest => c.after ch rest

def skip (c : Cursor) : Nat → Cursor
  | 0 => c
  | n + 1 => c.next.skip n

/-- Splits off the characters up to the first for which the condition fails. -/
def takeWhile (c : Cursor) (p : Char → Bool) : List Char × Cursor :=
  let cs := c.rest.takeWhile p
  (cs, c.skip cs.length)

/-- Goes past a line break. The character is the one that stands for it in a folded text. -/
def takeBreak? (c : Cursor) : Option (Char × Cursor) :=
  match c.peek with
  | some ch =>
    if !isBreak ch then none
    else if ch = '\r' && c.peekAt 1 = some '\n' then some ('\n', c.skip 2)
    else if ch = '\u2028' || ch = '\u2029' then some (ch, c.next)
    else some ('\n', c.next)
  | none => none

/-- Three equal marks stand here, with a word's end behind them. -/
def atMarks (c : Cursor) (mark : Char) : Bool :=
  c.rest.take 3 == [mark, mark, mark] && endsWord (c.peekAt 3)

/-- A mark between documents stands here, if this is the first column. -/
def atSeparator (c : Cursor) : Bool := c.atMarks '-' || c.atMarks '.'

end Cursor

end Feedforward.Yaml
