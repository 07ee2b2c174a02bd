import Feedforward.Tensor.Arithmetic

/-!
# Numeric arrays

A `Numeric` is a tensor of doubles, of singles or of 64-bit integers. Where arrays of different
kinds meet, both become doubles. Integers wrap around, and a double that is stored as an integer is
cut toward zero.
-/

namespace Feedforward

inductive ElementKind where
  | float64
  | float32
  | int64
  deriving DecidableEq

def ElementKind.width : ElementKind → Nat
  | .float64 => 8
  | .float32 => 4
  | .int64 => 8

/-- The kind in which elements of two kinds meet. -/
def ElementKind.common (a b : ElementKind) : ElementKind := if a = b then a else .float64

/-- A tensor of numbers of one kind. -/
inductive Numeric where
  | float64 (t : Tensor Float)
  | float32 (t : Tensor Float32)
  | int64 (t : Tensor Int64)

/-- The integer part of a double as a 64-bit integer; what does not fit becomes the least one. -/
def cutToInteger (x : Float) : Int64 :=
  if x < 9223372036854775808.0 && -9223372036854775808.0 ≤ x then x.toInt64 else Int64.minValue

namespace Numeric

def kind : Numeric → ElementKind
  | float64 _ => .float64
  | float32 _ => .float32
  | int64 _ => .int64

def shape : Numeric → List Nat
  | float64 t => t.shape
  | float32 t => t.shape
  | int64 t => t.shape

def zeros (shape : List Nat) : ElementKind → Numeric
  | .float64 => float64 (.fill shape 0)
  | .float32 => float32 (.fill shape 0)
  | .int64 => int64 (.fill shape 0)

def toDoubles : Numeric → Tensor Float
  | float64 t => t
  | float32 t => t.map Float32.toFloat
  | int64 t => t.map Int64.toFloat

def toSingles : Numeric → Tensor Float32
  | float64 t => t.map Float.toFloat32
  | float32 t => t
  | int64 t => t.map Int64.toFloat32

def toIntegers : Numeric → Tensor Int64
  | float64 t => t.map cutToInteger
  | float32 t => t.map fun x => cutToInteger x.toFloat
  | int64 t => t

def toKind (a : Numeric) : ElementKind → Numeric
  | .float64 => float64 a.toDoubles
  | .float32 => float32 a.toSingles
  | .int64 => int64 a.toIntegers

/-- An operation on two arrays, in the kind in which they meet. -/
def combine? (doubles : Tensor Float → Tensor Float → Option (Tensor Float))
    (singles : Tensor Float32 → Tensor Float32 → Option (Tensor Float32))
    (integers : Tensor Int64 → Tensor Int64 → Option (Tensor Int64)) (a b : Numeric) :
    Option Numeric :=
  match a, b with
  | float32 a, float32 b => (singles a b).map float32
  | int64 a, int64 b => (integers a b).map int64
  | a, b => (doubles a.toDoubles b.toDoubles).map float64

/-- The arrays one after the other, in the kind in which they meet. -/
def join? (as : List Numeric) : Option Numeric :=
  match as with
  | [] => none
  | a :: rest => match rest.foldl (fun k b => k.common b.kind) a.kind with
    | .float64 => (Tensor.join? (as.map toDoubles)).map float64
    | .float32 => (Tensor.join? (as.map toSingles)).map float32
    | .int64 => (Tensor.join? (as.map toIntegers)).map int64

/-- The slice at the first position of the outermost axis. -/
def first? : Numeric → Option Numeric
  | float64 t => t.first?.map float64
  | float32 t => t.first?.map float32
  | int64 t => t.first?.map int64

/-- The elementwise sum stored in the first array. Sums of floating-point numbers are no integers,
and sums of doubles are rounded to singles. -/
def increase (a b : Numeric) : Except ArrayFault Numeric :=
  if a.kind = .int64 && b.kind ≠ .int64 then .error .kindMisfit
  else
    (orFault .shapeMisfit (combine? (Tensor.accumulate? (· + ·)) (Tensor.accumulate? (· + ·))
      (Tensor.accumulate? (· + ·)) a b)).map (·.toKind a.kind)

instance : Arithmetic Numeric where
  shape := shape
  emptyLike a := zeros [0] a.kind
  join as := orFault .shapeMisfit (join? as)
  product a b := orFault .shapeMisfit (combine? Tensor.product? Tensor.product? Tensor.product? a b)
  convert a b := b.toKind a.kind
  first a := orFault .missingAxis a.first?
  scale a b := orFault .shapeMisfit
    (combine? (Tensor.zipWith? (· * ·)) (Tensor.zipWith? (· * ·)) (Tensor.zipWith? (· * ·)) a b)
  increase := increase

end Numeric

end Feedforward
