import Feedforward.Number.Shortest
import Feedforward.Text.CodePoint
import Feedforward.Text.Digit

/-!
# Numbers from text

`readInteger?` and `readDouble?` read the numbers that people type: between blanks, with a sign,
with digits of any script, and with single underscores between digits. A decimal is rounded once,
to the nearest double.
-/

namespace Feedforward

/-- The double nearest to `digits * 10 ^ exponent`. Exponents far outside the range of the format
are decided by the number of digits alone. -/
def Binary64.ofDecimal (negative : Bool) (digits : Nat) (exponent : Int) : Binary64 :=
  let lead := digitCount digits + exponent
  if digits = 0 || lead < -330 then zero negative
  else if 310 < lead then infinity negative
  else ofRatio negative (digits * 10 ^ exponent.toNat) (10 ^ (-exponent).toNat)

namespace Text

/-- The number with the given digits in a base, most significant first. -/
def ofDigits (base : Nat) (ds : List Nat) : Nat := ds.foldl (fun n d => n * base + d) 0

/-- The digits of a run of digits with single underscores between them, read by `value?`; `after`
tells whether an underscore may come first. -/
def digitRun? (value? : Char → Option Nat) : (after : Bool) → List Char → Option (List Nat)
  | after, [] => if after then some [] else none
  | after, c :: cs => match value? c with
    | some d => (digitRun? value? true cs).map (d :: ·)
    | none => if c = '_' && after then digitRun? value? false cs else none

/-- Splits off a sign; the flag tells whether it is a minus. -/
def splitSign : List Char → Bool × List Char
  | '-' :: cs => (true, cs)
  | '+' :: cs => (false, cs)
  | cs => (false, cs)

def readInteger? (s : String) : Option Int := do
  let (negative, cs) := splitSign (trimBlanks s.toList)
  let ds ← digitRun? digitValue? false cs
  if digitLimit < ds.length then none
  let n := ofDigits 10 ds
  return if negative then -n else n

/-- The value of a hexadecimal digit; its decimal digits are those of any script. -/
def hexDigitValue? (c : Char) : Option Nat := (hexValue? c).orElse fun _ => digitValue? c

/-- Reads a number in hexadecimal digits behind `0x`. -/
def readHexadecimal? (s : String) : Option Nat :=
  match trimBlanks s.toList with
  | '0' :: 'x' :: '_' :: cs => (digitRun? hexDigitValue? false cs).map (ofDigits 16)
  | '0' :: 'x' :: cs => (digitRun? hexDigitValue? false cs).map (ofDigits 16)
  | _ => none

/-- The digits of a run that may be empty. -/
def optionalRun? (cs : List Char) : Option (List Nat) :=
  if cs.isEmpty then some [] else digitRun? digitValue? false cs

/-- The exponent after its mark; no mark means zero. -/
def readExponent? : List Char → Option Int
  | [] => some 0
  | _ :: cs => do
    let (negative, cs) := splitSign cs
    let n := ofDigits 10 (← digitRun? digitValue? false cs)
    return if negative then -n else n

/-- Reads a decimal without a sign: digits with an optional point, then an optional exponent. -/
def readDecimal? (negative : Bool) (cs : List Char) : Option Binary64 := do
  let (significand, rest) := cs.span fun c => c != 'e' && c != 'E'
  let (whole, fraction) := significand.span (· != '.')
  let ds ← optionalRun? whole
  let fs ← optionalRun? (fraction.drop 1)
  if ds.isEmpty && fs.isEmpty then none
  let exponent ← readExponent? rest
  return .ofDecimal negative (ofDigits 10 (ds ++ fs)) (exponent - fs.length)

/-- Reads a double; infinity and the undefined number have names, in letters of either case. -/
def readDouble? (s : String) : Option Binary64 :=
  let (negative, cs) := splitSign (trimBlanks s.toList)
  let word := String.ofList (cs.map Char.toLower)
  if word = "inf" || word = "infinity" then some (.infinity negative)
  else if word = "nan" then some .nan
  else readDecimal? negative cs

end Text

end Feedforward
