import Feedforward.Number.Reading
import Feedforward.Text.CodePoint
import Feedforward.Value.Basic

/-!
# The values of plain scalars

A plain scalar may be spelled like a truth value, a null, a number or a day of the calendar;
otherwise it is a text. Numbers may hold underscores. Integers are written in base two, eight, ten
or sixteen or in groups of base sixty; an exponent needs a sign and a point in front of it. A day is
written with four digits for the year and two each for the month and the day.
-/

namespace Feedforward.Yaml

inductive PlainError where
  | badNumber
  /-- A power of sixty is beyond all doubles. -/
  | outOfRange
  /-- There is no such day in the calendar. -/
  | noDay
  deriving DecidableEq

def PlainError.kind : PlainError → ErrorKind
  | .badNumber | .noDay => .value
  | .outOfRange => .overflow

def boolOf? (s : String) : Option Bool :=
  if s ∈ ["yes", "Yes", "YES", "true", "True", "TRUE", "on", "On", "ON"] then some true
  else if s ∈ ["no", "No", "NO", "false", "False", "FALSE", "off", "Off", "OFF"] then some false
  else none

def isNull (s : String) : Bool := s ∈ ["", "~", "null", "Null", "NULL"]

def isDigitOrScore (c : Char) : Bool := c.isDigit || c = '_'

def dropScores (cs : List Char) : List Char := cs.filter (· ≠ '_')

def digitValues (cs : List Char) : List Nat := cs.map fun c => (Text.hexValue? c).getD 0

/-- The number that digits of a base denote, with underscores among them. There must be a digit. -/
def radixValue (base : Nat) (cs : List Char) : Except PlainError Nat :=
  let ds := dropScores cs
  if ds.isEmpty then .error .badNumber else .ok (Text.ofDigits base (digitValues ds))

/-- The number that decimal digits denote, with underscores among them. -/
def decimalValue (cs : List Char) : Except PlainError Nat :=
  let ds := dropScores cs
  if ds.isEmpty || Text.digitLimit < ds.length then .error .badNumber
  else .ok (Text.ofDigits 10 (digitValues ds))

/-- A group of base sixty behind the first. -/
def isSixtieth : List Char → Bool
  | [d] => d.isDigit
  | [t, d] => '0' ≤ t && t ≤ '5' && d.isDigit
  | _ => false

def splitColons (cs : List Char) : List (List Char) := cs.splitOn ':'

/-- A digit that is not zero, and digits or underscores behind it. -/
def isLeadingRun : List Char → Bool
  | c :: cs => c.isDigit && c ≠ '0' && cs.all isDigitOrScore
  | [] => false

/-- The value of an unsigned integer, if the characters are spelled like one. -/
def natural? (cs : List Char) : Option (Except PlainError Nat) :=
  match cs with
  | '0' :: 'b' :: ds =>
    if !ds.isEmpty && ds.all fun c => c = '0' || c = '1' || c = '_' then some (radixValue 2 ds)
    else none
  | '0' :: 'x' :: ds =>
    if !ds.isEmpty && ds.all fun c => (Text.hexValue? c).isSome || c = '_' then
      some (radixValue 16 ds)
    else none
  | '0' :: ds =>
    if ds.all fun c => ('0' ≤ c && c ≤ '7') || c = '_' then some (radixValue 8 ('0' :: ds))
    else none
  | cs => match splitColons cs with
    | [ds] => if isLeadingRun ds then some (decimalValue ds) else none
    | ds :: groups =>
      if isLeadingRun ds && groups.all isSixtieth then
        some do
          let first ← decimalValue ds
          return (groups.map fun g => Text.ofDigits 10 (digitValues g)).foldl
            (fun n d => n * 60 + d) first
      else none
    | [] => none

/-- The value of an integer, if the characters are spelled like one. -/
def integer? (cs : List Char) : Option (Except PlainError Value) :=
  let (negative, ds) := Text.splitSign cs
  (natural? ds).map fun r => r.map fun n => .int (if negative then -(n : Int) else n)

/-- The exponent behind its mark and its sign. -/
def exponent? : List Char → Option Int
  | [] => some 0
  | e :: s :: ds =>
    if (e = 'e' || e = 'E') && (s = '+' || s = '-') && !ds.isEmpty && ds.all Char.isDigit then
      let n : Int := Text.ofDigits 10 (digitValues ds)
      some (if s = '-' then -n else n)
    else none
  | _ => none

/-- The double with digits before and behind the point and an exponent. -/
def pointed (negative : Bool) (whole fraction : List Char) (exponent : Int) : Binary64 :=
  let fs := dropScores fraction
  .ofDecimal negative (Text.ofDigits 10 (digitValues (dropScores whole ++ fs)))
    (exponent - fs.length)

/-- The sum of groups of base sixty, the last of which comes first and counts `base`. Every step is
rounded. -/
def sumSixties (sum : Rat) (base : Nat) : List Rat → Except PlainError Rat
  | [] => .ok sum
  | g :: rest =>
    let round := Format.binary64.round
    if (Binary64.ofInt base).isInfinite then .error .outOfRange
    else sumSixties (round (sum + round (g * round base))) (base * 60) rest

/-- The double that groups of base sixty denote, added up from the last group on. -/
def sixties (negative : Bool) (groups : List Rat) : Except PlainError Binary64 :=
  (sumSixties 0 1 groups.reverse).map fun sum => .ofRatio negative sum.num.natAbs sum.den

/-- The value of digits around a point. -/
def pointedValue (whole fraction : List Char) : Rat :=
  let fs := dropScores fraction
  Format.binary64.round
    ((Text.ofDigits 10 (digitValues (dropScores whole ++ fs)) : Nat) /
      ((10 ^ fs.length : Nat) : Rat))

/-- A digit, and digits or underscores behind it. -/
def isRun : List Char → Bool
  | c :: cs => c.isDigit && cs.all isDigitOrScore
  | [] => false

/-- The value of a double, if the characters are spelled like one. -/
def double? (cs : List Char) : Option (Except PlainError Binary64) :=
  let signed := cs.head? = some '-' || cs.head? = some '+'
  let (negative, body) := Text.splitSign cs
  let (whole, rest) := body.span (· ≠ '.')
  match rest with
  | [] => none
  | _ :: rest =>
    let (fraction, tail) := rest.span isDigitOrScore
    if whole.isEmpty then
      let word := String.ofList rest
      if word ∈ ["inf", "Inf", "INF"] then some (.ok (.infinity negative))
      else if signed then none
      else if word ∈ ["nan", "NaN", "NAN"] then some (.ok .nan)
      else if isRun fraction then (exponent? tail).map fun e => .ok (pointed false [] fraction e)
      else none
    else match splitColons whole with
      | [ds] =>
        if isRun ds then (exponent? tail).map fun e => .ok (pointed negative ds fraction e)
        else none
      | ds :: groups =>
        if isRun ds && groups.all isSixtieth && tail.isEmpty then
          let values := (ds :: groups.dropLast).map fun g => pointedValue g []
          some (sixties negative (values ++ [pointedValue (groups.getLast?.getD []) fraction]))
        else none
      | [] => none

/-! ### Days -/

def daysOfMonth (year month : Nat) : Nat :=
  if month = 2 then
    if year % 4 = 0 && (year % 100 ≠ 0 || year % 400 = 0) then 29 else 28
  else if month ∈ [4, 6, 9, 11] then 30 else 31

def isDay (year month day : Nat) : Bool :=
  1 ≤ year && 1 ≤ month && month ≤ 12 && 1 ≤ day && day ≤ daysOfMonth year month

/-- What there is to be seen of a day with a spelling. -/
def dayKey (year month day : Nat) (spelling : String) : ForeignKey where
  kind := "date"
  quoted :=
    "datetime.date(" ++ ", ".intercalate [toString year, toString month, toString day] ++ ")"
  text := spelling
  isVoid := false
  integer := .inl .notANumber
  identity := "date " ++ spelling
  integers? := none

/-- The value of a day, if the characters are spelled like one. -/
def day? (cs : List Char) : Option (Except PlainError Value) :=
  match cs.splitOn '-' with
  | [ys, ms, ds] =>
    if (ys ++ ms ++ ds).all Char.isDigit && [ys, ms, ds].map List.length = [4, 2, 2] then
      let number (cs : List Char) : Nat := Text.ofDigits 10 (digitValues cs)
      let (year, month, day) := (number ys, number ms, number ds)
      some (if isDay year month day then
        .ok (.other (dayKey year month day (String.ofList cs)).toForeign)
      else .error .noDay)
    else none
  | _ => none

def plainValue (s : String) : Except PlainError Value :=
  match boolOf? s with
  | some b => .ok (.bool b)
  | none => match double? s.toList with
    | some r => r.map .float
    | none => match integer? s.toList with
      | some r => r
      | none => match day? s.toList with
        | some r => r
        | none => .ok (if isNull s then .null else .str s)

end Feedforward.Yaml
