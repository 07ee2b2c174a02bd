import Feedforward.Number.Instances

/-!
# Rounding to a binary format

A binary floating-point format keeps a fixed number of significant bits and has a smallest unit.
`Format.round` rounds a rational to the nearest number of the format, a tie to the even neighbour;
`Format.pattern` writes the result as the bits of the interchange encoding. Multiples of a power of
two that is no smaller than the smallest unit are rounded as integers (`Format.trim`,
`Format.trimmedPattern`), which takes no fractions.
-/

namespace Feedforward

/-- The nearest natural number to `n / d`, a tie going to the even one. -/
def roundHalfEven (n d : Nat) : Nat :=
  let q := n / d
  let r := n % d
  if 2 * r < d then q else if d < 2 * r then q + 1 else q + q % 2

/-- The exponent `e` with `2 ^ e ≤ n / d < 2 ^ (e + 1)`, for positive `n` and `d`. -/
def floorLog2 (n d : Nat) : Int :=
  let e : Int := (Nat.log2 n : Int) - Nat.log2 d
  if d * 2 ^ e.toNat ≤ n * 2 ^ (-e).toNat then e else e - 1

/-- A binary floating-point format, given by the widths of its two fields. -/
structure Format where
  fractionBits : Nat
  exponentBits : Nat
  deriving DecidableEq

namespace Format

def binary64 : Format := ⟨52, 11⟩

def binary32 : Format := ⟨23, 8⟩

/-- The exponent of the smallest positive number. -/
def minExponent (f : Format) : Int :=
  2 - 2 ^ (f.exponentBits - 1) - f.fractionBits

/-- The exponent of the last place of the numbers of the format near `n / d`. -/
def lastPlace (f : Format) (n d : Nat) : Int :=
  max f.minExponent (floorLog2 n d - f.fractionBits)

/-- The integer nearest to `n / d` counted in units of `2 ^ e`. -/
def significand (n d : Nat) (e : Int) : Nat :=
  roundHalfEven (n * 2 ^ (-e).toNat) (d * 2 ^ e.toNat)

/-- The number of the format nearest to `x`, without an upper limit. -/
def round (f : Format) (x : Rat) : Rat :=
  let e := f.lastPlace x.num.natAbs x.den
  let m : Rat := (significand x.num.natAbs x.den e : Nat)
  let y := m * 2 ^ e.toNat / 2 ^ (-e).toNat
  if x.num < 0 then -y else y

/-- The bits of infinity, which are also the first bits that no finite number has. -/
def infinity (f : Format) : Nat :=
  (2 ^ f.exponentBits - 1) * 2 ^ f.fractionBits

def signBit (f : Format) : Nat :=
  2 ^ (f.fractionBits + f.exponentBits)

/-- The encoding of the number nearest to `n / d`, or of infinity above the largest one. The two
fields lie side by side, so that a significand carries into the exponent by itself. -/
def pattern (f : Format) (n d : Nat) : Nat :=
  if n = 0 then 0
  else
    let e := f.lastPlace n d
    min f.infinity ((e - f.minExponent).toNat * 2 ^ f.fractionBits + significand n d e)

/-! ### Integers -/

/-- The natural number nearest to `n` that has no more significant bits than the format. -/
def trim (f : Format) (n : Nat) : Nat :=
  let extra := n.log2 - f.fractionBits
  if extra = 0 then n else roundHalfEven n (1 <<< extra) <<< extra

/-- What the exponents of the encoding exceed those of the numbers by. -/
def bias (f : Format) : Nat := 1 <<< (f.exponentBits - 1) - 1

/-- The encoding of `n / 2 ^ s`, for a number `n` that has no more significant bits than the format
and a quotient that is no smaller than the smallest unit. The leading bit of `n` carries into the
exponent. -/
def trimmedPattern (f : Format) (s n : Nat) : Nat :=
  if n = 0 then 0
  else
    let e := n.log2
    let aligned :=
      if e ≤ f.fractionBits then n <<< (f.fractionBits - e) else n >>> (e - f.fractionBits)
    (e + f.bias - s - 1) <<< f.fractionBits + aligned

end Format

end Feedforward
