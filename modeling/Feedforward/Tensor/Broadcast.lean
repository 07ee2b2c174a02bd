import Feedforward.Tensor.Basic

/-!
# Broadcasting

Two tensors of different shapes meet in an elementwise operation by repetition: shapes are aligned
at their innermost axes, missing axes have size one, and an axis of size one is repeated to the size
of the axis it meets (`Spreads`). `Tensor.zipWith?` applies an operation to two tensors in their
common shape, `Tensor.accumulate?` changes one tensor without changing its shape.
-/

namespace Feedforward

/-- Axes of size one put in front, up to the given number of axes. -/
def padShape (rank : Nat) (s : List Nat) : List Nat :=
  List.replicate (rank - s.length) 1 ++ s

@[simp]
theorem volume_padShape (rank : Nat) (s : List Nat) : volume (padShape rank s) = volume s := by
  unfold padShape
  induction rank - s.length with
  | zero => rfl
  | succ n ih => simpa [List.replicate_succ, volume] using ih

/-- Axis by axis, the size is the same or one is repeated. -/
def Spreads : List Nat → List Nat → Prop
  | [], [] => True
  | a :: s, b :: t => (a = b ∨ a = 1) ∧ Spreads s t
  | _, _ => False

instance decidableSpreads : (s t : List Nat) → Decidable (Spreads s t)
  | [], [] => isTrue trivial
  | [], _ :: _ => isFalse id
  | _ :: _, [] => isFalse id
  | a :: s, b :: t =>
    have := decidableSpreads s t
    inferInstanceAs (Decidable ((a = b ∨ a = 1) ∧ Spreads s t))

/-- The elements of a tensor repeated along axes of size one. -/
def spread {α : Type} : (s t : List Nat) → List α → List α
  | a :: s, b :: t, xs =>
    if a = b then ((blocks (volume s) b xs).map (spread s t)).flatten
    else (List.replicate b (spread s t xs)).flatten
  | _, _, xs => xs

theorem length_spread {α : Type} {s t : List Nat} {xs : List α} (h : Spreads s t)
    (hlen : xs.length = volume s) : (spread s t xs).length = volume t := by
  induction s generalizing t xs with
  | nil => cases t with
    | nil => simpa [spread] using hlen
    | cons b t => exact h.elim
  | cons a s ih => cases t with
    | nil => exact h.elim
    | cons b t =>
      obtain ⟨hab, hst⟩ := h
      unfold spread
      split
      · rename_i heq
        rw [length_flatten_of_forall (k := volume t), List.length_map, length_blocks]
        · rfl
        · intro ys hys
          obtain ⟨zs, hzs, rfl⟩ := List.mem_map.1 hys
          exact ih hst (length_of_mem_blocks (by rw [hlen, ← heq]; rfl) hzs)
      · rename_i hne
        have ha : a = 1 := hab.resolve_left hne
        rw [length_flatten_of_forall (k := volume t), List.length_replicate]
        · rfl
        · intro ys hys
          rw [(List.mem_replicate.1 hys).2]
          exact ih hst (by rw [hlen, ha]; simp [volume])

/-- The common size of two axes that meet. -/
def commonAxis? (a b : Nat) : Option Nat :=
  if a = b then some a else if a = 1 then some b else if b = 1 then some a else none

/-- The common shape of two aligned shapes. -/
def commonAxes? : List Nat → List Nat → Option (List Nat)
  | [], [] => some []
  | a :: s, b :: t => do return (← commonAxis? a b) :: (← commonAxes? s t)
  | _, _ => none

/-- The shape in which two tensors meet. -/
def commonShape? (s t : List Nat) : Option (List Nat) :=
  let rank := max s.length t.length
  commonAxes? (padShape rank s) (padShape rank t)

namespace Tensor

variable {α β γ : Type}

/-- The tensor repeated to a larger shape, if it can be. -/
def spreadTo? (t : Tensor α) (shape : List Nat) : Option (Tensor α) :=
  if h : Spreads (padShape shape.length t.shape) shape then
    some ⟨shape, spread (padShape shape.length t.shape) shape t.data,
      length_spread h (by rw [t.fits, volume_padShape])⟩
  else none

/-- Corresponding elements of two tensors of one shape combined. -/
def zipSame (f : α → β → γ) (a : Tensor α) (b : Tensor β) (h : b.shape = a.shape) : Tensor γ :=
  ⟨a.shape, List.zipWith f a.data b.data, by
    rw [List.length_zipWith, a.fits, b.fits, h, Nat.min_self]⟩

/-- An elementwise operation that keeps the shape of its first tensor. -/
def accumulate? (f : α → β → γ) (a : Tensor α) (b : Tensor β) : Option (Tensor γ) :=
  match b.spreadTo? a.shape with
  | none => none
  | some b' => if h : b'.shape = a.shape then some (zipSame f a b' h) else none

/-- An elementwise operation in the common shape. -/
def zipWith? (f : α → β → γ) (a : Tensor α) (b : Tensor β) : Option (Tensor γ) := do
  let shape ← commonShape? a.shape b.shape
  (← a.spreadTo? shape).accumulate? f (← b.spreadTo? shape)

end Tensor

end Feedforward
