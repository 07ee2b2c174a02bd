import Feedforward.Yaml.Scalar

/-!
# The tokens of a YAML text

Indentation shows in the tokens: a block list or mapping begins with a token of its own and ends
with `blockEnd`. That something is a key shows only at the colon behind it, so a scan remembers the
places where a key may have begun (`Candidate`) and puts the tokens `key` and `blockMapping` there
once the colon comes.

A reader of the tokens is handed a token only when it is settled whether a key begins there, and the
scan goes on only when no token is left to hand out. When it fails, `Token.scan` therefore answers
with the tokens that have been handed out and `fault`.
-/

namespace Feedforward.Yaml

inductive Token where
  | documentStart
  | documentEnd
  | blockList
  | blockMapping
  | blockEnd
  | openList
  | closeList
  | openMap
  | closeMap
  /-- The dash in front of an item of a block list. -/
  | item
  | comma
  | key
  | value
  | scalar (s : Scalar)
  | finish
  /-- The text cannot be split any further. -/
  | fault (f : ScanFault)

/-- A place where a key may have begun. -/
structure Candidate where
  /-- The number of brackets around it. -/
  depth : Nat
  /-- The number of tokens before it. -/
  position : Nat
  /-- Nothing but a key can stand there. -/
  required : Bool
  index : Nat
  line : Nat
  column : Nat

structure Scan where
  cursor : Cursor
  tokens : Array Token
  /-- The number of open brackets. -/
  depth : Nat
  /-- The column of the innermost block, and those of the blocks around it. -/
  indent : Int
  outer : List Int
  /-- At most one for each depth. -/
  candidates : List Candidate
  /-- A key may begin at the next token. -/
  keyAllowed : Bool
  finished : Bool

namespace Scan

def start (cs : List Char) : Scan := ⟨.start cs, #[], 0, -1, [], [], true, false⟩

def push (s : Scan) (t : Token) : Scan := { s with tokens := s.tokens.push t }

/-- Goes past one character, which is a token. -/
def take (s : Scan) (t : Token) : Scan := { s.push t with cursor := s.cursor.next }

/-! ### Candidates -/

/-- A candidate has been passed: a key stands on one line and has at most 1024 characters. -/
def isStale (s : Scan) (k : Candidate) : Bool :=
  k.line ≠ s.cursor.line || 1024 < s.cursor.index - k.index

/-- Drops the candidates that have been passed. -/
def dropStale (s : Scan) : Except ScanFault Scan :=
  if s.candidates.any fun k => s.isStale k && k.required then .error .malformed
  else .ok { s with candidates := s.candidates.filter fun k => !s.isStale k }

def candidate? (s : Scan) : Option Candidate := s.candidates.find? (·.depth = s.depth)

def forget (s : Scan) : Scan :=
  { s with candidates := s.candidates.filter (·.depth ≠ s.depth) }

/-- Gives up the candidate between the innermost brackets. -/
def giveUp (s : Scan) : Except ScanFault Scan :=
  if s.candidate?.any (·.required) then .error .malformed else .ok s.forget

/-- Makes the next token a candidate, if a key may begin there. -/
def propose (s : Scan) : Except ScanFault Scan :=
  if s.keyAllowed then do
    let s ← s.giveUp
    let k : Candidate :=
      { depth := s.depth, position := s.tokens.size,
        required := s.depth = 0 && s.indent = s.cursor.column,
        index := s.cursor.index, line := s.cursor.line, column := s.cursor.column }
    return { s with candidates := k :: s.candidates }
  else .ok s

/-! ### Indentation -/

/-- Ends the blocks that begin behind a column, given the columns of the blocks around. -/
def unwindFrom (s : Scan) (column : Int) : List Int → Scan
  | [] => s
  | i :: rest =>
    if column < s.indent then
      unwindFrom { s.push .blockEnd with indent := i, outer := rest } column rest
    else s

/-- Ends the blocks that begin behind a column. Inside brackets there are none. -/
def unwind (s : Scan) (column : Int) : Scan :=
  if s.depth = 0 then s.unwindFrom column s.outer else s

/-- Begins a block at a column, unless one begins there or behind it. The token of the block goes to
a position among the tokens. -/
def openBlock (s : Scan) (column position : Nat) (t : Token) : Scan :=
  if s.indent < column then
    { s with indent := column, outer := s.indent :: s.outer,
             tokens := s.tokens.insertIdxIfInBounds position t }
  else s

/-! ### One token -/

/-- Passes over blanks, comments and line breaks. Answers the place behind them and whether a line
ends there. -/
def skipBlanks : (fuel : Nat) → Cursor → (lineEnded : Bool) → Cursor × Bool
  | 0, c, lineEnded => (c, lineEnded)
  | fuel + 1, c, lineEnded => match c.peek with
    | none => (c, lineEnded)
    | some ch =>
      if ch = ' ' then skipBlanks fuel c.next lineEnded
      else if ch = '#' then skipBlanks fuel (c.takeWhile fun ch => !isBreak ch).2 lineEnded
      else match c.takeBreak? with
        | some (_, c) => skipBlanks fuel c true
        | none => (c, lineEnded)

/-- Goes to the next token. A key may begin on a new line, except inside brackets. -/
def approach (s : Scan) : Scan :=
  let (c, lineEnded) := skipBlanks s.cursor.rest.length s.cursor false
  { s with cursor := c, keyAllowed := s.keyAllowed || (lineEnded && s.depth = 0) }

def fetchEnd (s : Scan) : Except ScanFault Scan := do
  let s ← (s.unwind (-1)).giveUp
  return { s.push .finish with keyAllowed := false, candidates := [], finished := true }

def fetchSeparator (s : Scan) (t : Token) : Except ScanFault Scan := do
  let s ← (s.unwind (-1)).giveUp
  return { s.push t with keyAllowed := false, cursor := s.cursor.skip 3 }

def fetchOpen (s : Scan) (t : Token) : Except ScanFault Scan := do
  let s ← s.propose
  return { s.take t with depth := s.depth + 1, keyAllowed := true }

def fetchClose (s : Scan) (t : Token) : Except ScanFault Scan := do
  let s ← s.giveUp
  return { s.take t with depth := s.depth - 1, keyAllowed := false }

def fetchComma (s : Scan) : Except ScanFault Scan := do
  let s ← s.giveUp
  return { s.take .comma with keyAllowed := true }

/-- Begins a block in front of the next token. Outside of brackets this is allowed only where a key
may begin. -/
def beginBlock (s : Scan) (t : Token) : Except ScanFault Scan :=
  if s.depth ≠ 0 then .ok s
  else if !s.keyAllowed then .error .malformed
  else .ok (s.openBlock s.cursor.column s.tokens.size t)

def fetchItem (s : Scan) : Except ScanFault Scan := do
  let s ← (← s.beginBlock .blockList).giveUp
  return { s.take .item with keyAllowed := true }

def fetchKey (s : Scan) : Except ScanFault Scan := do
  let s ← (← s.beginBlock .blockMapping).giveUp
  return { s.take .key with keyAllowed := s.depth = 0 }

def fetchValue (s : Scan) : Except ScanFault Scan :=
  match s.candidate? with
  | some k =>
    let s := s.forget
    let s := { s with tokens := s.tokens.insertIdxIfInBounds k.position .key }
    let s := if s.depth = 0 then s.openBlock k.column k.position .blockMapping else s
    .ok { s.take .value with keyAllowed := false }
  | none => do
    let s ← s.beginBlock .blockMapping
    return { s.take .value with keyAllowed := s.depth = 0 }

def fetchQuoted (s : Scan) (double : Bool) : Except ScanFault Scan := do
  let s ← s.propose
  let (text, c) ← quotedScalar double s.cursor
  return { s.push (.scalar (.quoted text)) with cursor := c, keyAllowed := false }

def fetchPlain (s : Scan) : Except ScanFault Scan := do
  let s ← s.propose
  let p := plainScalar (s.depth ≠ 0) (s.indent + 1) s.cursor
  return { s.push (.scalar (.plain (String.ofList p.text))) with
    cursor := p.cursor, keyAllowed := p.lineEnded }

/-- A plain scalar cannot begin with one of these. -/
def isIndicator (c : Char) : Bool :=
  isFlowSign c || c = '#' || c = '&' || c = '*' || c = '!' || c = '|' || c = '>' || c = '\'' ||
    c = '"' || c = '%' || c = '@' || c.toNat = 0x60

/-- A plain scalar can begin with the character. -/
def startsPlain (bracketed : Bool) (c : Char) (following : Option Char) : Bool :=
  if c = '-' then !endsWord following
  else if c = '?' || c = ':' then !bracketed && !endsWord following
  else !endsWord (some c) && !isIndicator c

def fetchAt (s : Scan) : Except ScanFault Scan :=
  match s.cursor.peek with
  | none => s.fetchEnd
  | some c =>
    let following := s.cursor.peekAt 1
    let standsAlone := endsWord following
    let first := s.cursor.column = 0
    if first && s.cursor.atMarks '-' then s.fetchSeparator .documentStart
    else if first && s.cursor.atMarks '.' then s.fetchSeparator .documentEnd
    else if c = '[' then s.fetchOpen .openList
    else if c = '\x7b' then s.fetchOpen .openMap
    else if c = ']' then s.fetchClose .closeList
    else if c = '\x7d' then s.fetchClose .closeMap
    else if c = ',' then s.fetchComma
    else if c = '-' && standsAlone then s.fetchItem
    else if c = '?' && (s.depth ≠ 0 || standsAlone) then s.fetchKey
    else if c = ':' && (s.depth ≠ 0 || standsAlone) then s.fetchValue
    else if c = '\'' then s.fetchQuoted false
    else if c = '"' then s.fetchQuoted true
    else if startsPlain (s.depth ≠ 0) c following then s.fetchPlain
    else .error .malformed

def fetch (s : Scan) : Except ScanFault Scan := do
  let s ← s.approach.dropStale
  (s.unwind s.cursor.column).fetchAt

/-! ### All tokens -/

/-- The number of tokens before the first candidate. -/
def settled (s : Scan) : Nat := s.candidates.foldl (fun n k => min n k.position) s.tokens.size

/-- The tokens of a scan that fails after so many tokens have been handed out. -/
def failed (s : Scan) (handed : Nat) (f : ScanFault) : List Token :=
  s.tokens.toList.take handed ++ [.fault f]

/-- The tokens of a text from a scan on, of which so many have been handed out. -/
def run : (fuel : Nat) → (handed : Nat) → Scan → List Token
  | 0, _, s => s.tokens.toList
  | fuel + 1, handed, s =>
    if s.finished then s.tokens.toList
    else match s.dropStale with
      | .error f => s.failed handed f
      | .ok s => match s.fetch with
        | .error f => s.failed s.settled f
        | .ok next => run fuel s.settled next

end Scan

def Token.scan (cs : List Char) : List Token := Scan.run (cs.length + 2) 0 (.start cs)

end Feedforward.Yaml
