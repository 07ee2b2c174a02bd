import Feedforward.Proofs.Tensor.Block

/-!
# What is added to every row

Where a tensor meets one with an axis more in front, it is repeated along this axis. So a vector
that is stored into a matrix goes into each of its rows, and a number that a vector meets goes to
each of its components:

    w r c  ↦  f (w r c) (x c)        x c  ↦  f (x c) d

No size is special in this. A vector of size one stays one column, a matrix without rows stays
without them.
-/

namespace Feedforward

/-! ## Repeating elements -/

section Lists

variable {α : Type}

/-- Blocks that are put together again give the list that was cut. -/
theorem flatten_blocks {size count : Nat} {xs : List α} (hlength : xs.length = count * size) :
    (blocks size count xs).flatten = xs := by
  induction count generalizing xs with
  | zero =>
      rw [Nat.zero_mul] at hlength
      rw [List.length_eq_zero_iff.mp hlength]
      rfl
  | succ count ih =>
      rw [Nat.succ_mul] at hlength
      have hrest : (xs.drop size).length = count * size := by
        rw [List.length_drop]
        omega
      rw [blocks, List.flatten_cons, ih hrest, List.take_append_drop]

/-- Spreading to the same axes changes nothing. -/
theorem spread_self {s : List Nat} {xs : List α} (hlength : xs.length = volume s) :
    spread s s xs = xs := by
  induction s generalizing xs with
  | nil => rfl
  | cons n s ih =>
      unfold spread
      rw [if_pos rfl]
      have hblocks : (blocks (volume s) n xs).map (spread s s) = blocks (volume s) n xs := by
        have hmap := List.map_congr_left fun b hb => ih (length_of_mem_blocks hlength hb)
        exact hmap.trans (List.map_id' _)
      rw [hblocks, flatten_blocks hlength]

/-- Spreading along an axis in front repeats all elements. -/
theorem spread_one_cons {s : List Nat} {n : Nat} {xs : List α} (hlength : xs.length = volume s) :
    spread (1 :: s) (n :: s) xs = (List.replicate n xs).flatten := by
  unfold spread
  by_cases hn : 1 = n
  · subst hn
    rw [if_pos rfl]
    simp [blocks, ← hlength, spread_self hlength]
  · rw [if_neg hn, spread_self hlength]

/-- A place in a repeated list is found in each repetition. -/
theorem getElem?_flatten_replicate {xs : List α} {n r c : Nat} (hr : r < n) (hc : c < xs.length) :
    (List.replicate n xs).flatten[r * xs.length + c]? = xs[c]? := by
  induction n generalizing r with
  | zero => cases hr
  | succ n ih =>
      rw [List.replicate_succ, List.flatten_cons]
      cases r with
      | zero =>
          rw [Nat.zero_mul, Nat.zero_add]
          exact List.getElem?_append_left hc
      | succ r =>
          have hplace : (r + 1) * xs.length + c = xs.length + (r * xs.length + c) := by
            rw [Nat.succ_mul]
            omega
          rw [hplace, List.getElem?_append_right (Nat.le_add_right _ _), Nat.add_sub_cancel_left]
          exact ih (Nat.lt_of_succ_lt_succ hr)

end Lists

/-! ## Elementwise operations -/

theorem spreads_self (s : List Nat) : Spreads s s := by
  induction s with
  | nil => exact trivial
  | cons n s ih => exact ⟨.inl rfl, ih⟩

namespace Tensor

variable {α β γ : Type} {f : α → β → γ}

/-- The tensor several times, along a new axis in front. -/
def repeated (n : Nat) (t : Tensor α) : Tensor α :=
  ⟨n :: t.shape, (List.replicate n t.data).flatten, by
    rw [length_flatten_of_forall (k := volume t.shape), List.length_replicate]
    · rfl
    · intro xs hxs
      rw [(List.mem_replicate.mp hxs).2, t.fits]⟩

/-- Spreading repeats the elements along the axes that the shape lacks. -/
theorem spreadTo?_eq {t u : Tensor α} (hspreads : Spreads (padShape u.shape.length t.shape) u.shape)
    (hdata : spread (padShape u.shape.length t.shape) u.shape t.data = u.data) :
    t.spreadTo? u.shape = some u := by
  unfold spreadTo?
  rw [dif_pos hspreads]
  apply congrArg some
  apply eq_of_shape_of_data
  · rfl
  · exact hdata

/-- An array spreads to its own shape as it is. -/
@[simp] theorem spreadTo?_self (t : Tensor α) : t.spreadTo? t.shape = some t := by
  have hpad : padShape t.shape.length t.shape = t.shape := by simp [padShape]
  apply spreadTo?_eq
  · rw [hpad]
    exact spreads_self t.shape
  · rw [hpad, spread_self t.fits]

/-- With an axis more in front, the tensor is repeated along it. -/
@[simp] theorem spreadTo?_cons (n : Nat) (t : Tensor α) :
    t.spreadTo? (n :: t.shape) = some (t.repeated n) := by
  have hpad : padShape (n :: t.shape).length t.shape = 1 :: t.shape := by simp [padShape]
  apply spreadTo?_eq (u := t.repeated n)
  · show Spreads (padShape (n :: t.shape).length t.shape) (n :: t.shape)
    rw [hpad]
    exact ⟨.inr rfl, spreads_self t.shape⟩
  · show spread (padShape (n :: t.shape).length t.shape) (n :: t.shape) t.data = _
    rw [hpad, spread_one_cons t.fits]
    rfl

theorem accumulate?_of_spreadTo? {a : Tensor α} {b b' : Tensor β}
    (hb : b.spreadTo? a.shape = some b') (hshape : b'.shape = a.shape) :
    accumulate? f a b = some (zipSame f a b' hshape) := by
  simp only [accumulate?, hb]
  exact dif_pos hshape

/-- A number that meets a vector goes to each of its components. -/
theorem zipWith?_scalar {x : Tensor α} {n : Nat} (hx : x.shape = [n]) (d : β) :
    zipWith? f x (scalar d) = some (x.map fun c => f c d) := by
  -- the number counts as a vector with one component, which is repeated
  have hcommon : commonShape? x.shape (scalar d).shape = some x.shape := by
    rw [hx]
    show commonAxes? [n] [1] = some [n]
    by_cases hn : n = 1
    · simp [commonAxes?, commonAxis?, hn]
    · simp [commonAxes?, commonAxis?, hn]
  have hd : (scalar d).spreadTo? x.shape = some ((scalar d).repeated n) := by
    rw [hx]
    exact spreadTo?_cons n (scalar d)
  have hshape : ((scalar d).repeated n).shape = x.shape := hx.symm
  have hself : ((scalar d).repeated n).spreadTo? x.shape = some ((scalar d).repeated n) := by
    rw [← hshape]
    exact spreadTo?_self _
  simp only [zipWith?, hcommon, hd, spreadTo?_self, bind, Option.bind_some]
  rw [accumulate?_of_spreadTo? hself hshape]
  apply congrArg some
  apply eq_of_shape_of_data
  · rfl
  · show List.zipWith f x.data (List.replicate n [d]).flatten = x.data.map fun c => f c d
    rw [← length_data_of_shape hx, List.flatten_replicate_singleton, ← List.map_const',
      List.zipWith_map_right, List.zipWith_self]

theorem length_data_of_matrix {w : Tensor α} {rows columns : Nat} (hw : w.shape = [rows, columns]) :
    w.data.length = rows * columns := by
  rw [w.fits, hw, volume, volume, volume, Nat.mul_one]

/-- The place of an entry in a matrix. -/
theorem place_lt_length {w : Tensor α} {rows columns r c : Nat} (hw : w.shape = [rows, columns])
    (hr : r < rows) (hc : c < columns) : r * columns + c < w.data.length := by
  have hrow : (r + 1) * columns ≤ rows * columns := Nat.mul_le_mul_right columns hr
  rw [Nat.succ_mul] at hrow
  rw [length_data_of_matrix hw]
  omega

/-- A vector that is accumulated into a matrix goes into each of its rows. -/
theorem exists_accumulate?_row {w : Tensor α} {x : Tensor β} {rows columns : Nat}
    (hw : w.shape = [rows, columns]) (hx : x.shape = [columns]) :
    ∃ w', accumulate? f w x = some w' ∧ w'.shape = [rows, columns] ∧
      ∀ r < rows, ∀ c < columns, ∀ a b, w.data[r * columns + c]? = some a → x.data[c]? = some b →
        w'.data[r * columns + c]? = some (f a b) := by
  have hspread : x.spreadTo? w.shape = some (x.repeated rows) := by
    rw [hw, ← hx]
    exact spreadTo?_cons rows x
  have hshape : (x.repeated rows).shape = w.shape := by
    rw [hw, ← hx]
    rfl
  refine ⟨zipSame f w (x.repeated rows) hshape, accumulate?_of_spreadTo? hspread hshape, hw, ?_⟩
  intro r hr c hc a b ha hb
  have hrow : (x.repeated rows).data[r * columns + c]? = some b := by
    have hlength := length_data_of_shape hx
    rw [← hlength] at hc
    rw [← hb, ← getElem?_flatten_replicate hr hc, hlength]
    rfl
  show (List.zipWith f w.data (x.repeated rows).data)[r * columns + c]? = some (f a b)
  rw [List.getElem?_zipWith, ha, hrow]

/-- The slice in front of a vector is its first component. -/
theorem first?_vector {e : Tensor α} {n : Nat} {d : α} (he : e.shape = [n])
    (hd : e.data[0]? = some d) : e.first? = some (scalar d) := by
  have htake : e.data.take (volume []) = [d] := by
    show e.data.take 1 = [d]
    rw [List.take_one, List.head?_eq_getElem?, hd]
    rfl
  unfold first?
  rw [he]
  show ofData? [] (e.data.take (volume [])) = some (scalar d)
  rw [htake]
  rfl

end Tensor

end Feedforward
