import Feedforward.Number.Reading
import Feedforward.Tensor.Extent
import Feedforward.Value.Basic

/-!
# Arrays from values

Nested lists of numbers denote an array, if lists side by side have the same shape. The numbers may
be texts of numbers, and each is read as an element of the array's kind.
-/

namespace Feedforward.Numeric

mutual

/-- The shape of nested lists, if lists side by side have the same shape. -/
def shapeOf? : Value → Option (List Nat)
  | .list [] => some [0]
  | .list (v :: rest) => do
    let s ← shapeOf? v
    if ← haveShape? s rest then some ((rest.length + 1) :: s) else none
  | _ => some []

/-- Whether all values have the given shape; nothing if one has none. -/
def haveShape? (s : List Nat) : List Value → Option Bool
  | [] => some true
  | v :: rest => do
    if (← shapeOf? v) = s then haveShape? s rest else none

end

mutual

/-- The values that are no lists, in order. -/
def leaves : Value → List Value
  | .list items => leavesOf items
  | v => [v]

def leavesOf : List Value → List Value
  | [] => []
  | v :: rest => leaves v ++ leavesOf rest

end

/-- The double that a value denotes; null denotes the undefined number. -/
def readDouble : Value → Except ArrayFault Float
  | .null => .ok Binary64.nan.toFloat
  | .bool b => .ok (if b then 1 else 0)
  | .int n =>
    let x := Binary64.ofInt n
    if x.isInfinite then .error .outOfRange else .ok x.toFloat
  | .float x => .ok x.toFloat
  | .str t => (orFault .notANumeral (t.string?.bind Text.readDouble?)).map Binary64.toFloat
  | .list _ => .error .ragged
  | .map _ | .other _ => .error .notNumeric

/-- The 64-bit integer with the given value, if it is one. -/
def integerInRange (n : Int) : Except ArrayFault Int64 :=
  if Int64.minValue.toInt ≤ n && n ≤ Int64.maxValue.toInt then .ok (Int64.ofInt n)
  else .error .outOfRange

/-- The integer that a value denotes; a double is cut toward zero. -/
def readInteger : Value → Except ArrayFault Int64
  | .bool b => .ok (if b then 1 else 0)
  | .int n => integerInRange n
  | .float x =>
    if x.isNan then .error .undefinedInteger
    else if x.isInfinite then .error .outOfRange
    else integerInRange x.truncate
  | .str t => do integerInRange (← orFault .notANumeral (t.string?.bind Text.readInteger?))
  | .list _ => .error .ragged
  | _ => .error .notNumeric

def shapeOf (v : Value) : Except ArrayFault (List Nat) := do
  let shape ← orFault .ragged (shapeOf? v)
  if axisLimit < shape.length then .error .ragged else .ok shape

/-- The array of a kind that nested lists of numbers denote. -/
def ofValue (kind : ElementKind) (v : Value) : Except ArrayFault Numeric := do
  let shape ← shapeOf v
  match kind with
  | .float64 =>
    let xs ← (leaves v).mapM readDouble
    (orFault .ragged (Tensor.ofData? shape xs)).map float64
  | .float32 =>
    let xs ← (leaves v).mapM readDouble
    (orFault .ragged (Tensor.ofData? shape (xs.map Float.toFloat32))).map float32
  | .int64 =>
    let xs ← (leaves v).mapM readInteger
    (orFault .ragged (Tensor.ofData? shape xs)).map int64

instance : Readable Value Numeric := ⟨fun like v => ofValue like.kind v⟩

end Feedforward.Numeric
