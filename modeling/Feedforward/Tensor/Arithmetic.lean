import Feedforward.ErrorKind
import Feedforward.Tensor.Product

/-!
# What networks need of arrays

`Arithmetic A` collects the operations on arrays that running and training a network takes, so that
one definition of a network serves floating-point arrays, exact tensors and anything else. An
operation that does not fit its arguments answers with an `ArrayFault`. `Readable V A` reads the
values of type `V` that callers hand in.
-/

namespace Feedforward

inductive ArrayFault where
  /-- Lists of different lengths stand side by side, or lists are nested too deeply. -/
  | ragged
  /-- A text is not the text of a number. -/
  | notANumeral
  /-- Something is neither a number nor a text. -/
  | notNumeric
  /-- A number is outside the range of the elements. -/
  | outOfRange
  /-- The undefined number has no place among integers. -/
  | undefinedInteger
  /-- An axis that is asked for does not exist. -/
  | missingAxis
  /-- The shapes do not fit together. -/
  | shapeMisfit
  /-- There is no memory for so many elements. -/
  | outOfMemory
  /-- An array is to be changed in place to elements of a kind that it cannot hold. -/
  | kindMisfit
  deriving DecidableEq

def ArrayFault.kind : ArrayFault → ErrorKind
  | .ragged | .notANumeral | .undefinedInteger | .shapeMisfit => .value
  | .notNumeric => .type
  | .outOfRange => .overflow
  | .missingAxis => .index
  | .outOfMemory => .memory
  | .kindMisfit => .arrayOperation

/-- The operations on arrays that networks are made of. -/
class Arithmetic (A : Type) where
  /-- The sizes of the axes. -/
  shape : A → List Nat
  /-- An array with one axis of size zero and elements of the same kind. -/
  emptyLike : A → A
  /-- The arrays one after the other along the outermost axis. -/
  join : List A → Except ArrayFault A
  /-- The matrix product. -/
  product : A → A → Except ArrayFault A
  /-- The elements of the second array as elements of the kind of the first. -/
  convert : A → A → A
  /-- The slice at the first position of the outermost axis. -/
  first : A → Except ArrayFault A
  /-- The elementwise product in the common shape. -/
  scale : A → A → Except ArrayFault A
  /-- The elementwise sum, in the shape and kind of the first array. -/
  increase : A → A → Except ArrayFault A

/-- Values that can be read as arrays. -/
class Readable (V A : Type) where
  /-- The array that a value denotes, with elements of the kind of the given array. -/
  read : A → V → Except ArrayFault A

instance {A : Type} : Readable A A := ⟨fun _ v => .ok v⟩

/-- An absent result is a fault. -/
def orFault {α : Type} (fault : ArrayFault) : Option α → Except ArrayFault α
  | none => .error fault
  | some a => .ok a

namespace Arithmetic

variable {A : Type} [Arithmetic A]

def size (a : A) : Nat := volume (shape a)

/-- The size of the axis at a position counted from outside. -/
def axis (i : Nat) (a : A) : Except ArrayFault Nat := orFault .missingAxis (shape a)[i]?

end Arithmetic

instance {α : Type} [Add α] [Mul α] [OfNat α 0] : Arithmetic (Tensor α) where
  shape := Tensor.shape
  emptyLike _ := Tensor.vector []
  join ts := orFault .shapeMisfit (Tensor.join? ts)
  product a b := orFault .shapeMisfit (Tensor.product? a b)
  convert _ b := b
  first a := orFault .missingAxis (Tensor.first? a)
  scale a b := orFault .shapeMisfit (Tensor.zipWith? (· * ·) a b)
  increase a b := orFault .shapeMisfit (Tensor.accumulate? (· + ·) a b)

end Feedforward
