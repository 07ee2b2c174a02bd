import Feedforward.Tensor.Numeric

/-!
# The extent of arrays

An array has at most 64 axes (`axisLimit`), its bytes are counted with 63 bits (`countable`), and
there must be memory for them (`room`). An array can be given another shape with as many
elements (`reshape`), in which one size may be left open.
-/

namespace Feedforward.Numeric

def axisLimit : Nat := 64

/-- The axes of an array and its bytes are counted with 63 bits, and axes of size zero make the
count no smaller. -/
def countable (width : Nat) (shape : List Nat) : Bool :=
  shape.all (· < 2 ^ 63) && width * volume (shape.filter (· ≠ 0)) < 2 ^ 63

/-- There is room for an array with elements of `width` bytes each, where an array may take so many
bytes. -/
def room (memory width : Nat) (shape : List Nat) : Except ArrayFault Unit :=
  if !countable width shape then .error .shapeMisfit
  else if memory < width * volume shape then .error .outOfMemory
  else .ok ()

/-- The bytes that an array may take, where nothing else is known. -/
def usualMemory : Nat := 2 ^ 36

/-- The shape with the given sizes for so many elements. One size may be negative: it is the one
that the others leave open. -/
def closeShape? (count : Nat) (sizes : List Int) : Option (List Nat) :=
  let known := volume ((sizes.filter (0 ≤ ·)).map Int.toNat)
  match sizes.filter (· < 0) with
  | [] => some (sizes.map Int.toNat)
  | [_] =>
    if known = 0 || count % known ≠ 0 then none
    else some (sizes.map fun n => if n < 0 then count / known else n.toNat)
  | _ => none

/-- The same elements in another shape. -/
def withShape? (shape : List Nat) : Numeric → Option Numeric
  | float64 t => (Tensor.ofData? shape t.data).map float64
  | float32 t => (Tensor.ofData? shape t.data).map float32
  | int64 t => (Tensor.ofData? shape t.data).map int64

/-- The same elements along axes of other sizes. -/
def reshape (sizes : List Int) (a : Numeric) : Except ArrayFault Numeric := do
  let shape ← orFault .shapeMisfit (closeShape? (volume a.shape) sizes)
  if shape.length ≤ axisLimit && countable a.kind.width shape then
    orFault .shapeMisfit (a.withShape? shape)
  else .error .shapeMisfit

end Feedforward.Numeric
