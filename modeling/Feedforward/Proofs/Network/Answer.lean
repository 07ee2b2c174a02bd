import Mathlib.Data.List.Forall2
import Feedforward.Network.Basic

/-!
# Answers of the operations on networks

Each operation answers or is refused. The lemmas here take an answer apart: an answer of a sequence
of steps (`bind_eq_ok_iff`) and of a list of them (`mapM_eq_ok_iff`) comes from answers of the
steps, and a sequence is refused at one of its steps (`bind_eq_error_iff`).
-/

namespace Feedforward

variable {ε α β : Type}

@[simp] theorem ok_bind (a : α) (f : α → Except ε β) : (Except.ok a >>= f) = f a := rfl

@[simp] theorem pure_eq_ok (a : α) : (pure a : Except ε α) = .ok a := rfl

@[simp] theorem error_bind (e : ε) (f : α → Except ε β) : (Except.error e >>= f) = .error e := rfl

@[simp] theorem ofArray_ok (a : α) : ofArray (.ok a) = .ok a := rfl

@[simp] theorem present_some (a : α) : present (some a) = .ok a := rfl

@[simp]
theorem toOption_eq_some_iff {x : Except ε α} {a : α} : x.toOption = some a ↔ x = .ok a := by
  cases x <;> simp [Except.toOption]

/-- Steps in a row answer exactly if each of them does. -/
theorem bind_eq_ok_iff {x : Except ε α} {f : α → Except ε β} {b : β} :
    x >>= f = .ok b ↔ ∃ a, x = .ok a ∧ f a = .ok b := by
  cases x with
  | ok a => exact ⟨fun h => ⟨a, rfl, h⟩, fun ⟨_, ha, h⟩ => Except.ok.inj ha ▸ h⟩
  | error e =>
      constructor
      · intro h; cases h
      · rintro ⟨_, ha, _⟩; cases ha

/-- Steps in a row fail where the first one fails, or where the next one fails on its answer. -/
theorem bind_eq_error_iff {x : Except ε α} {f : α → Except ε β} {e : ε} :
    x >>= f = .error e ↔ x = .error e ∨ ∃ a, x = .ok a ∧ f a = .error e := by
  cases x with
  | ok a => simp
  | error e' =>
      constructor
      · intro h; cases h; exact .inl rfl
      · rintro (h | ⟨_, ha, _⟩)
        · cases h; rfl
        · cases ha

@[simp] theorem map_eq_ok_iff {x : Except ε α} {f : α → β} {b : β} :
    x.map f = .ok b ↔ ∃ a, x = .ok a ∧ f a = b := by
  cases x <;> simp [Except.map]

/-- A list of steps answers iff each of them does. -/
theorem mapM_eq_ok_iff {f : α → Except ε β} {xs : List α} {ys : List β} :
    xs.mapM f = .ok ys ↔ List.Forall₂ (fun x y => f x = .ok y) xs ys := by
  induction xs generalizing ys with
  | nil =>
      rw [List.mapM_nil, List.forall₂_nil_left_iff]
      exact ⟨fun h => (Except.ok.inj h).symm, fun h => congrArg _ h.symm⟩
  | cons x xs ih =>
      rw [List.mapM_cons, bind_eq_ok_iff]
      constructor
      · rintro ⟨y, hy, hrest⟩
        obtain ⟨rest, hxs, hys⟩ := bind_eq_ok_iff.mp hrest
        obtain rfl : y :: rest = ys := Except.ok.inj hys
        exact .cons hy (ih.mp hxs)
      · intro h
        cases h with
        | cons hy hxs => exact ⟨_, hy, bind_eq_ok_iff.mpr ⟨_, ih.mpr hxs, rfl⟩⟩

theorem exists_of_mapM_eq_ok {f : α → Except ε β} {xs : List α} {ys : List β}
    (h : xs.mapM f = .ok ys) : ∀ x ∈ xs, ∃ y, f x = .ok y := by
  have hall := mapM_eq_ok_iff.mp h
  clear h
  induction hall with
  | nil => exact List.forall_mem_nil _
  | cons hy _ ih => exact List.forall_mem_cons.mpr ⟨⟨_, hy⟩, ih⟩

/-- Each of the answers is the answer for one of the elements. -/
theorem exists_of_mem_mapM {f : α → Except ε β} {xs : List α} {ys : List β}
    (h : xs.mapM f = .ok ys) : ∀ y ∈ ys, ∃ x ∈ xs, f x = .ok y := by
  have hall := mapM_eq_ok_iff.mp h
  clear h
  induction hall with
  | nil => exact List.forall_mem_nil _
  | cons hy _ ih =>
      refine List.forall_mem_cons.mpr ⟨⟨_, List.mem_cons_self, hy⟩, fun z hz => ?_⟩
      obtain ⟨w, hw, hfw⟩ := ih z hz
      exact ⟨w, List.mem_cons_of_mem _ hw, hfw⟩

/-- A list is answered as a whole if each of its elements is. -/
theorem exists_mapM_eq_ok {f : α → Except ε β} {xs : List α} (h : ∀ x ∈ xs, ∃ y, f x = .ok y) :
    ∃ ys, xs.mapM f = .ok ys := by
  simp only [mapM_eq_ok_iff]
  induction xs with
  | nil => exact ⟨[], .nil⟩
  | cons x xs ih =>
      obtain ⟨y, hy⟩ := h x List.mem_cons_self
      obtain ⟨ys, hys⟩ := ih fun z hz => h z (List.mem_cons_of_mem x hz)
      exact ⟨y :: ys, .cons hy hys⟩

theorem mapM_congr {f f' : α → Except ε β} {xs : List α} (h : ∀ x ∈ xs, f x = f' x) :
    xs.mapM f = xs.mapM f' := by
  induction xs with
  | nil => rfl
  | cons x xs ih =>
      obtain ⟨hx, hxs⟩ := List.forall_mem_cons.mp h
      rw [List.mapM_cons, List.mapM_cons, hx, ih hxs]

@[simp]
theorem ofArray_eq_ok_iff {x : Except ArrayFault α} {a : α} : ofArray x = .ok a ↔ x = .ok a := by
  cases x <;> simp [ofArray]

@[simp] theorem present_eq_ok_iff {x : Option α} {a : α} : present x = .ok a ↔ x = some a := by
  cases x <;> simp [present]

end Feedforward
