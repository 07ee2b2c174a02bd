import Feedforward.Stream.Generator
import Feedforward.Tensor.Extent

/-!
# Weights from draws

A draw `k` is the number `k / 2 ^ 53`. Its weight is twice that number minus one, where every step
is rounded to the format of the weight (`Format.weight`). All these numbers are multiples of
`2 ^ -53`, so the steps are taken on integers that count them. `Allocation A` makes the arrays of a
new network from draws.
-/

namespace Feedforward

/-- Draws count parts of the number one of the size `2 ^ -drawBits`. -/
def drawBits : Nat := 53

/-- The difference of two natural numbers, rounded. -/
def Format.difference (f : Format) (m n : Nat) : Int :=
  if m < n then -(f.trim (n - m) : Int) else f.trim (m - n)

/-- The weight of a draw, counted like draws: the draw, doubled, minus one, each step rounded. -/
def Format.weight (f : Format) (k : Nat) : Int :=
  f.difference (f.trim (2 * f.trim k)) (1 <<< drawBits)

/-- The arrays of a new network. -/
structure Allocation (A : Type) where
  /-- There is room for the draws of a matrix. -/
  room : (rows columns : Nat) → Except ArrayFault Unit
  /-- The matrix with the given numbers of rows and columns made from the given draws. -/
  weights : (rows columns : Nat) → (draws : List Nat) → Except ArrayFault A
  /-- The vector of zeros. -/
  zeros : Nat → Except ArrayFault A

namespace Numeric

def doubleWeight (k : Nat) : Float :=
  let w := Format.binary64.weight k
  let x := Float.ofBits (UInt64.ofNat (Format.binary64.trimmedPattern drawBits w.natAbs))
  if w < 0 then -x else x

def singleWeight (k : Nat) : Float32 :=
  let w := Format.binary32.weight k
  let x := Float32.ofBits (UInt32.ofNat (Format.binary32.trimmedPattern drawBits w.natAbs))
  if w < 0 then -x else x

def drawWidth : Nat := 8

/-- The weights of a matrix. Integers cannot hold weights. -/
def weights (kind : ElementKind) (rows columns : Nat) (draws : List Nat) :
    Except ArrayFault Numeric :=
  match kind with
  | .float64 => (orFault .shapeMisfit (Tensor.ofData? [rows, columns]
      (draws.map doubleWeight))).map float64
  | .float32 => (orFault .shapeMisfit (Tensor.ofData? [rows, columns]
      (draws.map singleWeight))).map float32
  | .int64 => .error .kindMisfit

/-- New networks with elements of the given kind, where an array may take so many bytes. -/
def allocation (memory : Nat) (kind : ElementKind) : Allocation Numeric where
  room rows columns := room memory drawWidth [rows, columns]
  weights := weights kind
  zeros n := do
    room memory kind.width [n]
    return zeros [n] kind

end Numeric

end Feedforward
