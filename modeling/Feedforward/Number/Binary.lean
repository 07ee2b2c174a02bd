import Feedforward.Number.Rounding

/-!
# Double precision numbers as bits

`Binary64` is a double given by its 64 bits, so that equality is decidable and every question
about its value is answered in exact arithmetic. `Binary64.ofRatio` rounds a quotient,
`Binary64.magnitude` reads the value back as an integer multiple of a power of two.
-/

namespace Feedforward

/-- A double precision number, as its encoding. -/
structure Binary64 where
  bits : UInt64
  deriving DecidableEq

namespace Binary64

/-- The encoding without its sign. -/
def unsigned (x : Binary64) : Nat := x.bits.toNat % Format.binary64.signBit

/-- The sign bit is set. -/
def isNegative (x : Binary64) : Bool := Format.binary64.signBit ≤ x.bits.toNat

def isNan (x : Binary64) : Bool := Format.binary64.infinity < x.unsigned

def isInfinite (x : Binary64) : Bool := x.unsigned == Format.binary64.infinity

def isFinite (x : Binary64) : Bool := x.unsigned < Format.binary64.infinity

def isZero (x : Binary64) : Bool := x.unsigned == 0

/-- The value of a finite number without its sign: `m` units of `2 ^ e`. -/
def magnitude (x : Binary64) : Nat × Int :=
  let field := x.unsigned / 2 ^ 52
  let fraction := x.unsigned % 2 ^ 52
  if field = 0 then (fraction, Format.binary64.minExponent)
  else (2 ^ 52 + fraction, Format.binary64.minExponent + (field - 1 : Nat))

/-- The number with a sign and an unsigned encoding. -/
def ofUnsigned (negative : Bool) (pattern : Nat) : Binary64 :=
  ⟨UInt64.ofNat (if negative then pattern + Format.binary64.signBit else pattern)⟩

/-- The double nearest to `n / d` with the given sign. -/
def ofRatio (negative : Bool) (n d : Nat) : Binary64 :=
  ofUnsigned negative (Format.binary64.pattern n d)

def ofRat (x : Rat) : Binary64 := ofRatio (decide (x.num < 0)) x.num.natAbs x.den

/-- The double nearest to an integer; large ones become infinite. -/
def ofInt (n : Int) : Binary64 := ofRatio (decide (n < 0)) n.natAbs 1

def infinity (negative : Bool) : Binary64 := ofUnsigned negative Format.binary64.infinity

/-- The quiet number that is none. -/
def nan : Binary64 := ofUnsigned false (Format.binary64.infinity + 2 ^ 51)

def zero (negative : Bool) : Binary64 := ofUnsigned negative 0

/-- The integer part of a finite number, cut toward zero. -/
def truncate (x : Binary64) : Int :=
  let (m, e) := x.magnitude
  let n : Nat := m * 2 ^ e.toNat / 2 ^ (-e).toNat
  if x.isNegative then -n else n

/-- The integer that a finite number is equal to, if there is one. -/
def toInt? (x : Binary64) : Option Int :=
  let (m, e) := x.magnitude
  if x.isFinite && (0 ≤ e || m % 2 ^ (-e).toNat = 0) then some x.truncate else none

def toFloat (x : Binary64) : Float := Float.ofBits x.bits

def ofFloat (x : Float) : Binary64 := ⟨x.toBits⟩

end Binary64

end Feedforward
