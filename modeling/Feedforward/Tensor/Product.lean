import Feedforward.Tensor.Broadcast

/-!
# Matrix products

The product of a matrix and a vector has one element per row: the sum of the products of the row's
elements with the vector's (`dot`). `Tensor.product?` covers tensors of any rank: a vector on the
left is one row, a vector on the right one column, and the axes in front of the last two count
matrices, which are multiplied pairwise.
-/

namespace Feedforward

variable {α : Type}

def dot [Add α] [Mul α] [OfNat α 0] : List α → List α → α
  | x :: xs, y :: ys => x * y + dot xs ys
  | _, _ => 0

/-- The columns of a matrix given by its rows. -/
def transpose (columns : Nat) (rows : List (List α)) : List (List α) :=
  rows.foldr (List.zipWith (· :: ·)) (List.replicate columns [])

def matrixProduct [Add α] [Mul α] [OfNat α 0] (rows inner columns : Nat) (xs ys : List α) :
    List α :=
  let cols := transpose columns (blocks columns inner ys)
  (blocks inner rows xs).flatMap fun row => cols.map (dot row)

namespace Tensor

variable [Add α] [Mul α] [OfNat α 0]

/-- The product of a matrix with `rows` rows and a vector. -/
def applyRows (rows inner : Nat) (m : Tensor α) (v : Tensor α) : Tensor α :=
  ⟨[rows], (blocks inner rows m.data).map (dot · v.data), by simp [volume, length_blocks]⟩

/-- A shape taken apart for a product: the axes that count matrices, then rows and columns. -/
structure MatrixShape where
  batch : List Nat
  rows : Nat
  columns : Nat

/-- The left operand: a vector is one row. -/
def leftShape? (s : List Nat) : Option MatrixShape :=
  match s.reverse with
  | [] => none
  | [c] => some ⟨[], 1, c⟩
  | c :: r :: batch => some ⟨batch.reverse, r, c⟩

/-- The right operand: a vector is one column. -/
def rightShape? (s : List Nat) : Option MatrixShape :=
  match s.reverse with
  | [] => none
  | [r] => some ⟨[], r, 1⟩
  | c :: r :: batch => some ⟨batch.reverse, r, c⟩

/-- The tensor of the matrices that a tensor consists of. -/
def matrices? (t : Tensor α) (s : MatrixShape) : Option (Tensor (List α)) :=
  ofData? s.batch (blocks (s.rows * s.columns) (volume s.batch) t.data)

/-- The product of tensors that are not just a matrix and a vector. -/
def batchProduct? (a b : Tensor α) : Option (Tensor α) := do
  let l ← leftShape? a.shape
  let r ← rightShape? b.shape
  if l.columns ≠ r.rows then none
  let products ← zipWith? (matrixProduct l.rows l.columns r.columns)
    (← a.matrices? l) (← b.matrices? r)
  let rowAxis := if a.rank = 1 then [] else [l.rows]
  let columnAxis := if b.rank = 1 then [] else [r.columns]
  ofData? (products.shape ++ rowAxis ++ columnAxis) products.data.flatten

/-- The matrix product, if the inner sizes agree. -/
def product? (a b : Tensor α) : Option (Tensor α) :=
  match a.shape, b.shape with
  | [rows, inner], [n] => if inner = n then some (applyRows rows inner a b) else none
  | _, _ => batchProduct? a b

end Tensor

end Feedforward
