import Mathlib.Algebra.BigOperators.Fin
import Mathlib.Algebra.BigOperators.Intervals
import Mathlib.Algebra.Ring.Defs
import Feedforward.Proofs.Tensor.Shape

/-!
# Products of matrices and joined vectors

Vectors that are joined stand one behind the other, so that each of them starts where the sizes of
those in front of it end. A matrix that is multiplied with the joined vector has a block of columns
for each of them. Over exact arithmetic an entry of the product is a sum over the blocks,

    (w x) r  =  ∑ j, ∑ c, w r (offset j + c) * x_j c,

whatever the sizes of the blocks are; a block may be empty.
-/

namespace Feedforward

open Finset

/-! ## One block behind the other -/

section Blocks

variable {ι : Type} {size : ι → Nat}

/-- A place in a block is found behind the blocks in front of it. -/
theorem getElem?_flatten_map {α : Type} {block : ι → List α} {is : List ι}
    (hsize : ∀ i ∈ is, (block i).length = size i) {j : Nat} {i : ι} (hj : is[j]? = some i)
    {c : Nat} (hc : c < size i) :
    (is.map block).flatten[((is.take j).map size).sum + c]? = (block i)[c]? := by
  induction is generalizing j with
  | nil => cases hj
  | cons k rest ih =>
      obtain ⟨hk, hrest⟩ := List.forall_mem_cons.mp hsize
      cases j with
      | zero =>
          obtain rfl : k = i := Option.some.inj hj
          rw [← hk] at hc
          rw [List.take_zero, List.map_nil, List.sum_nil, Nat.zero_add, List.map_cons,
            List.flatten_cons, List.getElem?_append_left hc]
      | succ j =>
          rw [List.take_succ_cons, List.map_cons, List.map_cons, List.sum_cons, Nat.add_assoc,
            List.flatten_cons, ← hk, List.getElem?_append_right (Nat.le_add_right _ _),
            Nat.add_sub_cancel_left]
          exact ih hrest hj

/-- A sum over all places is a sum over the blocks of sums over the places in them. -/
theorem sum_range_sum_map {M : Type} [AddCommMonoid M] (size : ι → Nat) (is : List ι)
    (f : Nat → M) :
    ∑ k ∈ range (is.map size).sum, f k =
      ∑ j : Fin is.length, ∑ c ∈ range (size (is.get j)),
        f (((is.take j).map size).sum + c) := by
  induction is generalizing f with
  | nil => simp
  | cons i rest ih =>
      rw [List.map_cons, List.sum_cons, sum_range_add, ih fun k => f (size i + k)]
      simp only [List.length_cons, Fin.sum_univ_succ, Fin.val_zero, Fin.val_succ, List.take_zero,
        List.take_succ_cons, List.map_nil, List.map_cons, List.sum_nil, List.sum_cons,
        Nat.zero_add, Nat.add_assoc]
      rfl

end Blocks

theorem getElem?_blocks {α : Type} {size count r : Nat} (hr : r < count) (xs : List α) :
    (blocks size count xs)[r]? = some ((xs.drop (r * size)).take size) := by
  induction count generalizing r xs with
  | zero => cases hr
  | succ count ih =>
      cases r with
      | zero => simp [blocks]
      | succ r =>
          rw [blocks, List.getElem?_cons_succ, ih (by omega), List.drop_drop, Nat.succ_mul,
            Nat.add_comm]

namespace Tensor

variable {α : Type} {a b x : Tensor α}

theorem eq_of_shape_of_data (hshape : a.shape = b.shape) (hdata : a.data = b.data) : a = b := by
  obtain ⟨shape, data, fits⟩ := a
  cases hshape
  cases hdata
  rfl

theorem length_data_of_shape {n : Nat} (hx : x.shape = [n]) : x.data.length = n := by
  rw [x.fits, hx, volume, volume, Nat.mul_one]

/-- Arrays that are joined are put one behind the other. -/
theorem data_of_join? {ts : List (Tensor α)} (hx : join? ts = some x) :
    x.data = (ts.map (·.data)).flatten := by
  rw [join?.eq_def] at hx
  split at hx
  · cases hx
  · split at hx
    · cases hx
    · split at hx
      · cases hx
      · cases hx
        rfl

end Tensor

/-! ## Sums over columns -/

section Semiring

variable {α : Type} [Semiring α]

/-- The product of two rows of one length is a sum over their components. -/
theorem dot_eq_sum {xs ys : List α} {n : Nat} (hxs : xs.length = n) (hys : ys.length = n) :
    dot xs ys = ∑ k ∈ range n, xs.getD k 0 * ys.getD k 0 := by
  induction xs generalizing ys n with
  | nil =>
      obtain rfl : 0 = n := hxs
      simp [dot]
  | cons x xs ih =>
      cases ys with
      | nil =>
          subst hys
          cases hxs
      | cons y ys =>
          obtain rfl : xs.length + 1 = n := hxs
          rw [dot, ih rfl (Nat.succ.inj hys), sum_range_succ', add_comm]
          simp

namespace Tensor

def component (x : Tensor α) (c : Nat) : α := x.data.getD c 0

/-- The entry of a matrix in a row and a column. -/
def entry (w : Tensor α) (r k : Nat) : α := w.data.getD (r * w.shape.getD 1 0 + k) 0

/-- Vectors of the same components are the same. -/
theorem ext_component {a b : Tensor α} {n : Nat} (ha : a.shape = [n]) (hb : b.shape = [n])
    (h : ∀ c < n, a.component c = b.component c) : a = b := by
  have hlength := length_data_of_shape ha
  have hlength' := length_data_of_shape hb
  refine eq_of_shape_of_data (ha.trans hb.symm) (List.ext_getElem (by omega) fun c hc hc' => ?_)
  have hsame := h c (by omega)
  simpa [component, hc, hc'] using hsame

/-- A component of joined vectors, behind those in front of one, is a component of this one. -/
theorem component_of_join? {ι : Type} {size : ι → Nat} {values : ι → Tensor α} {is : List ι}
    (hsize : ∀ i ∈ is, (values i).shape = [size i]) {x : Tensor α}
    (hx : join? (is.map values) = some x) (j : Fin is.length) {c : Nat}
    (hc : c < size (is.get j)) :
    x.component (((is.take j).map size).sum + c) = (values (is.get j)).component c := by
  have hblocks : x.data = (is.map fun i => (values i).data).flatten := by
    rw [data_of_join? hx, List.map_map]
    rfl
  have hlength : ∀ i ∈ is, (values i).data.length = size i := fun i hi =>
    length_data_of_shape (hsize i hi)
  have hj : is[j.val]? = some (is.get j) := List.getElem?_eq_getElem j.isLt
  rw [component, component, List.getD_eq_getElem?_getD, List.getD_eq_getElem?_getD, hblocks,
    getElem?_flatten_map hlength hj hc]

/-- An entry of the product with a vector is a sum over the columns. -/
theorem component_of_product? {w x z : Tensor α} {rows columns : Nat}
    (hw : w.shape = [rows, columns]) (hx : x.shape = [columns]) (hz : product? w x = some z)
    {r : Nat} (hr : r < rows) :
    z.component r = ∑ k ∈ range columns, w.entry r k * x.component k := by
  have happly : applyRows rows columns w x = z := by simpa [product?, hw, hx] using hz
  have hrow : ((w.data.drop (r * columns)).take columns).length = columns := by
    have hroom : columns ≤ rows * columns - r * columns := by
      rw [← Nat.sub_mul]
      exact Nat.le_mul_of_pos_left columns (by omega)
    rw [List.length_take, List.length_drop, w.fits, hw, volume, volume, volume, Nat.mul_one]
    omega
  rw [← happly, component, applyRows, List.getD_eq_getElem?_getD, List.getElem?_map,
    getElem?_blocks hr, Option.map_some, Option.getD_some,
    dot_eq_sum hrow (length_data_of_shape hx)]
  refine sum_congr rfl fun k hk => ?_
  rw [mem_range] at hk
  rw [entry, component, hw, List.getD_eq_getElem?_getD, List.getElem?_take_of_lt hk,
    List.getElem?_drop, ← List.getD_eq_getElem?_getD]
  rfl

/-- An entry of the product with joined vectors is a sum over their components. -/
theorem component_of_product?_join? {ι : Type} {size : ι → Nat} {values : ι → Tensor α}
    {is : List ι} {w x z : Tensor α} {rows : Nat}
    (hsize : ∀ i ∈ is, (values i).shape = [size i]) (hx : join? (is.map values) = some x)
    (hshape : x.shape = [(is.map size).sum]) (hw : w.shape = [rows, (is.map size).sum])
    (hz : product? w x = some z) {r : Nat} (hr : r < rows) :
    z.component r = ∑ j : Fin is.length, ∑ c ∈ range (size (is.get j)),
      w.entry r (((is.take j).map size).sum + c) * (values (is.get j)).component c := by
  rw [component_of_product? hw hshape hz hr, sum_range_sum_map]
  refine sum_congr rfl fun j _ => sum_congr rfl fun c hc => ?_
  rw [component_of_join? hsize hx j (mem_range.mp hc)]

/-- Exact tensors obey the laws of shapes. -/
instance : LawfulArithmetic (Tensor α) where
  shape_emptyLike _ := rfl
  shape_convert _ _ := rfl
  exists_join := by
    intro as ns hne h
    obtain ⟨x, hx, hshape⟩ := exists_join? hne h
    exact ⟨x, congrArg (orFault .shapeMisfit) hx, hshape⟩
  exists_product := by
    intro w x rows columns hw hx
    obtain ⟨z, hz, hshape⟩ := exists_product? hw hx
    exact ⟨z, congrArg (orFault .shapeMisfit) hz, hshape⟩
  shape_increase := by
    intro a d b h
    cases hsum : accumulate? (· + ·) a d with
    | none =>  -- case: the shapes do not fit
        have herror : Arithmetic.increase a d = .error .shapeMisfit :=
          congrArg (orFault .shapeMisfit) hsum
        rw [herror] at h
        cases h
    | some c =>
        have hok : Arithmetic.increase a d = .ok c := congrArg (orFault .shapeMisfit) hsum
        rw [hok] at h
        cases h
        exact shape_of_accumulate? hsum

end Tensor

end Semiring

end Feedforward
