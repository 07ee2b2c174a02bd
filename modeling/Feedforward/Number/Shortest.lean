import Feedforward.Number.Binary

/-!
# Shortest decimals

The shortest decimal of a finite double is the one with the fewest significant digits that rounds
back to it, and among those the nearest. It is found by testing, for one digit, two digits and so
on, the two neighbours of the value on the decimal grid with that many digits; seventeen always
suffice.

`DecimalLayout` states how the digits are written: where positional notation ends and how an
exponent looks.
-/

namespace Feedforward

/-- The number `digits * 10 ^ exponent`. -/
structure Decimal where
  digits : Nat
  exponent : Int
  deriving DecidableEq

/-- The number of decimal digits of `n`; zero has one. -/
def digitCount (n : Nat) : Nat := (Nat.toDigits 10 n).length

/-- The exponent `k` with `10 ^ k ≤ n / d < 10 ^ (k + 1)`, for positive `n` and `d`. -/
def floorLog10 (n d : Nat) : Int :=
  let k : Int := (digitCount n : Int) - digitCount d
  if d * 10 ^ k.toNat ≤ n * 10 ^ (-k).toNat then k else k - 1

namespace Decimal

/-- Drops the zeros at the end of the digits, which keeps the value. -/
def trim (x : Decimal) : Decimal :=
  if x.digits ≠ 0 ∧ x.digits % 10 = 0 then trim ⟨x.digits / 10, x.exponent + 1⟩ else x
termination_by x.digits
decreasing_by exact Nat.div_lt_self (by omega) (by decide)

end Decimal

namespace Binary64

/-- The decimals that round to a number lie between `low` and `high`, counted in units of
`2 ^ exponent`; the ends belong to them when `closed` holds. -/
structure Interval where
  low : Nat
  high : Nat
  exponent : Int
  closed : Bool

/-- The rounding interval of a finite positive number. It reaches half way to both neighbours; the
lower neighbour of a power of two is only half as far away. -/
def interval (x : Binary64) : Interval :=
  let (m, e) := x.magnitude
  let narrow := m == 2 ^ 52 && Format.binary64.minExponent < e
  { low := if narrow then 4 * m - 1 else 4 * m - 2
    high := 4 * m + 2
    exponent := e - 2
    closed := m % 2 == 0 }

def Interval.contains (i : Interval) (c : Nat) (k : Int) : Bool :=
  let value := c * 10 ^ k.toNat * 2 ^ (-i.exponent).toNat
  let scale := 10 ^ (-k).toNat * 2 ^ i.exponent.toNat
  if i.closed then i.low * scale ≤ value && value ≤ i.high * scale
  else i.low * scale < value && value < i.high * scale

/-- The better neighbour of `n / d` on the grid of multiples of `10 ^ k` that lies in the
interval, if one does: the nearer one, of two equally near ones the even one. -/
def gridPoint? (i : Interval) (n d : Nat) (k : Int) : Option Nat :=
  let n' := n * 10 ^ (-k).toNat
  let d' := d * 10 ^ k.toNat
  let below := n' / d'
  let rest := n' % d'
  match i.contains below k, i.contains (below + 1) k with
  | true, true =>
    if 2 * rest < d' || (2 * rest == d' && below % 2 == 0) then some below else some (below + 1)
  | true, false => some below
  | false, true => some (below + 1)
  | false, false => none

/-- Tries grids from coarse to fine; `left` more are to come. -/
def searchGrid (i : Interval) (n d : Nat) : (left : Nat) → (k : Int) → Decimal
  | 0, k => ⟨n * 10 ^ (-k).toNat / (d * 10 ^ k.toNat), k⟩
  | left + 1, k =>
    match gridPoint? i n d k with
    | some c => ⟨c, k⟩
    | none => searchGrid i n d left (k - 1)

/-- The shortest decimal of a finite number, without its sign. -/
def shortest (x : Binary64) : Decimal :=
  let (m, e) := x.magnitude
  if m = 0 then ⟨0, 0⟩
  else
    let n := m * 2 ^ e.toNat
    let d := 2 ^ (-e).toNat
    (searchGrid x.interval n d 17 (floorLog10 n d)).trim

end Binary64

/-- How decimals are written. The exponent of a decimal is that of its first digit. -/
structure DecimalLayout where
  /-- Exponents below this one are written with a power of ten. -/
  positionalFrom : Int
  /-- Exponents from this one on are written with a power of ten. -/
  positionalBelow : Int
  /-- The least number of digits of a written exponent. -/
  exponentWidth : Nat

namespace DecimalLayout

/-- Numbers in documents and messages: positional from `0.0001` below ten to the sixteenth, with a
point in every positional number, and exponents of two digits or more. -/
def plain : DecimalLayout := ⟨-4, 16, 2⟩

def zeros (n : Nat) : String := String.ofList (List.replicate n '0')

/-- The text of a decimal without a sign. -/
def write (l : DecimalLayout) (x : Decimal) : String :=
  let ds := Nat.toDigits 10 x.digits
  let count := ds.length
  let lead : Int := x.exponent + count - 1
  if l.positionalFrom ≤ lead && lead < l.positionalBelow then
    if lead < 0 then "0." ++ zeros (-lead - 1).toNat ++ String.ofList ds
    else
      let whole := lead.toNat + 1
      if count ≤ whole then String.ofList ds ++ zeros (whole - count) ++ ".0"
      else String.ofList (ds.take whole) ++ "." ++ String.ofList (ds.drop whole)
  else
    let exponent := Nat.toDigits 10 lead.natAbs
    let point := if count = 1 then "" else "."
    String.ofList (ds.take 1) ++ point ++ String.ofList (ds.drop 1) ++ "e"
      ++ (if lead < 0 then "-" else "+") ++ zeros (l.exponentWidth - exponent.length)
      ++ String.ofList exponent

end DecimalLayout

structure SpecialWords where
  infinite : String
  undefined : String

/-- The text of a double: sign, then its shortest decimal, or a word. -/
def Binary64.text (words : SpecialWords) (x : Binary64) : String :=
  if x.isNan then words.undefined
  else
    (if x.isNegative then "-" else "") ++
      (if x.isInfinite then words.infinite else DecimalLayout.plain.write x.shortest)

end Feedforward
