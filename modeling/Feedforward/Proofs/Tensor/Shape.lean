import Mathlib.Data.List.Forall2
import Feedforward.Tensor.Numeric

/-!
# Shapes of results

Networks only need to know of arrays which shapes go together and which shapes come out. Vectors can
always be joined, a matrix can be multiplied with a vector that has a component for each of its
columns, and what is stored in an array takes its shape:

    shape (join [a, b, ..]) = [n + m + ..]        shape (product w x) = [rows of w]

`LawfulArithmetic` collects these laws. Arrays of numbers obey them whatever kinds are mixed, since
the kind of the elements never changes a shape.
-/

namespace Feedforward

/-- The shapes that operations on arrays answer with. -/
class LawfulArithmetic (A : Type) [Arithmetic A] : Prop where
  shape_emptyLike : ∀ a : A, Arithmetic.shape (Arithmetic.emptyLike a) = [0]
  shape_convert : ∀ a b : A, Arithmetic.shape (Arithmetic.convert a b) = Arithmetic.shape b
  exists_join : ∀ {as : List A} {ns : List Nat}, as ≠ [] →
    List.Forall₂ (fun a n => Arithmetic.shape a = [n]) as ns →
    ∃ x, Arithmetic.join as = .ok x ∧ Arithmetic.shape x = [ns.sum]
  exists_product : ∀ {w x : A} {rows columns : Nat}, Arithmetic.shape w = [rows, columns] →
    Arithmetic.shape x = [columns] →
    ∃ z, Arithmetic.product w x = .ok z ∧ Arithmetic.shape z = [rows]
  shape_increase : ∀ {a d b : A}, Arithmetic.increase a d = .ok b →
    Arithmetic.shape b = Arithmetic.shape a

namespace Arithmetic

variable {A : Type} [Arithmetic A] {a : A} {n m : Nat} {rest : List Nat}

theorem axis_zero_of_shape (h : shape a = n :: rest) : axis 0 a = .ok n := by
  rw [axis, h]
  rfl

theorem axis_one_of_shape (h : shape a = n :: m :: rest) : axis 1 a = .ok m := by
  rw [axis, h]
  rfl

end Arithmetic

/-- Two images of a list agree position by position if they do element by element. -/
@[simp] theorem forall₂_map_map_iff {ι α β : Type} {R : α → β → Prop} {f : ι → α} {f' : ι → β}
    {is : List ι} : List.Forall₂ R (is.map f) (is.map f') ↔ ∀ i ∈ is, R (f i) (f' i) := by
  rw [List.forall₂_map_left_iff, List.forall₂_map_right_iff, List.forall₂_same]

/-! ## Tensors -/

namespace Tensor

variable {α β γ : Type} {s : List Nat}

theorem heads?_eq_some {ts : List (Tensor α)} {ns : List Nat}
    (h : List.Forall₂ (fun t n => t.shape = [n]) ts ns) : heads? [] ts = some ns := by
  induction h with
  | nil => rfl
  | cons ht _ ih => simp [heads?, ht, ih]

theorem exists_join? {ts : List (Tensor α)} {ns : List Nat} (hne : ts ≠ [])
    (h : List.Forall₂ (fun t n => t.shape = [n]) ts ns) :
    ∃ x, join? ts = some x ∧ x.shape = [ns.sum] := by
  have hheads := heads?_eq_some h
  cases h with
  | nil => exact absurd rfl hne
  | @cons t n ts ns ht hts =>
      simp only [join?]
      -- the first one is a vector, which all others then have to be
      split
      · next hnil => rw [ht] at hnil; cases hnil
      · next m tail hcons =>
          rw [ht] at hcons
          cases hcons
          split
          · next hnone => rw [hheads] at hnone; cases hnone
          · next ms hsome =>
              rw [hheads] at hsome
              cases hsome
              exact ⟨_, rfl, rfl⟩

theorem exists_product? [Add α] [Mul α] [OfNat α 0] {w x : Tensor α} {rows columns : Nat}
    (hw : w.shape = [rows, columns]) (hx : x.shape = [columns]) :
    ∃ z, product? w x = some z ∧ z.shape = [rows] := by
  refine ⟨applyRows rows columns w x, ?_, rfl⟩
  simp [product?, hw, hx]

/-- An array that is accumulated into keeps its shape. -/
theorem shape_of_accumulate? {f : α → β → γ} {a : Tensor α} {b : Tensor β} {c : Tensor γ}
    (h : accumulate? f a b = some c) : c.shape = a.shape := by
  unfold accumulate? at h
  split at h
  · cases h
  · split at h
    · cases h
      rfl
    · cases h

end Tensor

/-! ## Arrays of numbers -/

namespace Numeric

@[simp]
theorem shape_toKind (a : Numeric) (kind : ElementKind) : (a.toKind kind).shape = a.shape := by
  cases a <;> cases kind <;> rfl

@[simp] theorem shape_toDoubles (a : Numeric) : a.toDoubles.shape = a.shape := by cases a <;> rfl

@[simp] theorem shape_toSingles (a : Numeric) : a.toSingles.shape = a.shape := by cases a <;> rfl

@[simp] theorem shape_toIntegers (a : Numeric) : a.toIntegers.shape = a.shape := by cases a <;> rfl

/-- The arrays of one kind that vectors become are vectors of the same sizes. -/
theorem forall₂_map_shape {α : Type} {f : Numeric → Tensor α} (hf : ∀ a, (f a).shape = a.shape)
    {as : List Numeric} {ns : List Nat} (h : List.Forall₂ (fun a n => a.shape = [n]) as ns) :
    List.Forall₂ (fun t n => t.shape = [n]) (as.map f) ns :=
  List.forall₂_map_left_iff.mpr (h.imp fun a _ ha => (hf a).trans ha)

theorem exists_join? {as : List Numeric} {ns : List Nat} (hne : as ≠ [])
    (h : List.Forall₂ (fun a n => a.shape = [n]) as ns) :
    ∃ x, join? as = some x ∧ x.shape = [ns.sum] := by
  have hmap : ∀ {α : Type} (f : Numeric → Tensor α), (∀ a, (f a).shape = a.shape) →
      ∃ x, Tensor.join? (as.map f) = some x ∧ x.shape = [ns.sum] := fun f hf =>
    Tensor.exists_join? (mt List.map_eq_nil_iff.mp hne) (forall₂_map_shape hf h)
  match as, hne with
  | a :: rest, _ =>
      rw [join?]
      -- whatever the common kind is, the vectors are joined in it
      split
      · obtain ⟨x, hx, hshape⟩ := hmap toDoubles shape_toDoubles
        exact ⟨float64 x, by rw [hx]; rfl, hshape⟩
      · obtain ⟨x, hx, hshape⟩ := hmap toSingles shape_toSingles
        exact ⟨float32 x, by rw [hx]; rfl, hshape⟩
      · obtain ⟨x, hx, hshape⟩ := hmap toIntegers shape_toIntegers
        exact ⟨int64 x, by rw [hx]; rfl, hshape⟩

theorem exists_product? {w x : Numeric} {rows columns : Nat} (hw : w.shape = [rows, columns])
    (hx : x.shape = [columns]) :
    ∃ z, combine? Tensor.product? Tensor.product? Tensor.product? w x = some z ∧
      z.shape = [rows] := by
  unfold combine?
  split
  · obtain ⟨z, hz, hshape⟩ := Tensor.exists_product? hw hx
    exact ⟨float32 z, by rw [hz]; rfl, hshape⟩
  · obtain ⟨z, hz, hshape⟩ := Tensor.exists_product? hw hx
    exact ⟨int64 z, by rw [hz]; rfl, hshape⟩
  · obtain ⟨z, hz, hshape⟩ := Tensor.exists_product? ((shape_toDoubles w).trans hw)
      ((shape_toDoubles x).trans hx)
    exact ⟨float64 z, by rw [hz]; rfl, hshape⟩

/-- An operation that keeps the shape of its first argument in every kind keeps it altogether. -/
theorem shape_of_combine? {doubles : Tensor Float → Tensor Float → Option (Tensor Float)}
    {singles : Tensor Float32 → Tensor Float32 → Option (Tensor Float32)}
    {integers : Tensor Int64 → Tensor Int64 → Option (Tensor Int64)} {a b c : Numeric}
    (hdoubles : ∀ {x y z}, doubles x y = some z → z.shape = x.shape)
    (hsingles : ∀ {x y z}, singles x y = some z → z.shape = x.shape)
    (hintegers : ∀ {x y z}, integers x y = some z → z.shape = x.shape)
    (h : combine? doubles singles integers a b = some c) : c.shape = a.shape := by
  unfold combine? at h
  split at h
  · obtain ⟨z, hz, rfl⟩ := Option.map_eq_some_iff.mp h
    exact hsingles hz
  · obtain ⟨z, hz, rfl⟩ := Option.map_eq_some_iff.mp h
    exact hintegers hz
  · obtain ⟨z, hz, rfl⟩ := Option.map_eq_some_iff.mp h
    exact (hdoubles hz).trans (shape_toDoubles a)

theorem shape_of_increase {a d b : Numeric} (h : increase a d = .ok b) : b.shape = a.shape := by
  unfold increase at h
  split at h
  · cases h
  · cases hsum : combine? (Tensor.accumulate? (· + ·)) (Tensor.accumulate? (· + ·))
        (Tensor.accumulate? (· + ·)) a d with
    | none => rw [hsum] at h; cases h
    | some c =>
        rw [hsum] at h
        cases h
        rw [shape_toKind]
        exact shape_of_combine? Tensor.shape_of_accumulate? Tensor.shape_of_accumulate?
          Tensor.shape_of_accumulate? hsum

instance : LawfulArithmetic Numeric where
  shape_emptyLike a := by cases a <;> rfl
  shape_convert a b := shape_toKind b a.kind
  exists_join := by
    intro as ns hne h
    obtain ⟨x, hx, hshape⟩ := exists_join? hne h
    refine ⟨x, ?_, hshape⟩
    show orFault .shapeMisfit (join? as) = .ok x
    rw [hx]
    rfl
  exists_product := by
    intro w x rows columns hw hx
    obtain ⟨z, hz, hshape⟩ := exists_product? hw hx
    refine ⟨z, ?_, hshape⟩
    show orFault .shapeMisfit (combine? _ _ _ w x) = .ok z
    rw [hz]
    rfl
  shape_increase := shape_of_increase

end Numeric

end Feedforward
