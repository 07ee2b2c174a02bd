import Feedforward.Number.Instances

/-!
# Tensors

A tensor is a list of elements with a shape: the sizes of its axes, outermost first. The elements
stand in row-major order, and there are as many as the product of the sizes (`Tensor.fits`). The
empty shape belongs to a tensor of one element.
-/

namespace Feedforward

/-- The number of elements of a tensor with the given shape. -/
def volume : List Nat → Nat
  | [] => 1
  | n :: s => n * volume s

/-- Elements arranged along axes. -/
structure Tensor (α : Type) where
  shape : List Nat
  data : List α
  fits : data.length = volume shape

/-! ### Blocks -/

/-- The first `count` consecutive blocks of `size` elements. -/
def blocks {α : Type} (size : Nat) : (count : Nat) → List α → List (List α)
  | 0, _ => []
  | count + 1, xs => xs.take size :: blocks size count (xs.drop size)

@[simp] theorem length_blocks {α : Type} (size count : Nat) (xs : List α) :
    (blocks size count xs).length = count := by
  induction count generalizing xs with
  | zero => rfl
  | succ count ih => simp [blocks, ih]

theorem length_of_mem_blocks {α : Type} {size count : Nat} {xs b : List α}
    (hlen : xs.length = count * size) (hb : b ∈ blocks size count xs) : b.length = size := by
  induction count generalizing xs with
  | zero => simp [blocks] at hb
  | succ count ih =>
    have hsize : xs.length = count * size + size := by rw [hlen, Nat.succ_mul]
    rcases List.mem_cons.1 hb with rfl | hb
    · simp; omega
    · exact ih (by simp; omega) hb

theorem length_flatten_of_forall {α : Type} {xss : List (List α)} {k : Nat}
    (h : ∀ xs ∈ xss, xs.length = k) : xss.flatten.length = xss.length * k := by
  induction xss with
  | nil => simp
  | cons xs xss ih =>
    have hx := h xs List.mem_cons_self
    have hr := ih fun ys hys => h ys (List.mem_cons_of_mem _ hys)
    simp only [List.flatten_cons, List.length_append, List.length_cons, hx, hr, Nat.succ_mul]
    omega

namespace Tensor

variable {α β : Type}

def size (t : Tensor α) : Nat := t.data.length

def rank (t : Tensor α) : Nat := t.shape.length

def vector (xs : List α) : Tensor α := ⟨[xs.length], xs, by simp [volume]⟩

def scalar (a : α) : Tensor α := ⟨[], [a], rfl⟩

def fill (shape : List Nat) (a : α) : Tensor α :=
  ⟨shape, List.replicate (volume shape) a, by simp⟩

/-- The tensor with the given shape, if the elements are as many as it needs. -/
def ofData? (shape : List Nat) (data : List α) : Option (Tensor α) :=
  if fits : data.length = volume shape then some ⟨shape, data, fits⟩ else none

def map (f : α → β) (t : Tensor α) : Tensor β :=
  ⟨t.shape, t.data.map f, by simpa using t.fits⟩

/-- The slice at the first position of the outermost axis. -/
def first? (t : Tensor α) : Option (Tensor α) :=
  match t.shape with
  | [] => none
  | _ :: s => ofData? s (t.data.take (volume s))

/-! ### Joining along the outermost axis -/

/-- The sizes of the outermost axes, if all tensors have one and agree in the other axes. -/
def heads? (tail : List Nat) : List (Tensor α) → Option (List Nat)
  | [] => some []
  | t :: ts => match t.shape with
    | [] => none
    | n :: s => if s = tail then (heads? tail ts).map (n :: ·) else none

theorem length_flatten_of_heads {tail : List Nat} {ts : List (Tensor α)} {ns : List Nat}
    (h : heads? tail ts = some ns) :
    (ts.map (·.data)).flatten.length = volume (ns.sum :: tail) := by
  induction ts generalizing ns with
  | nil =>
    simp only [heads?, Option.some.injEq] at h
    subst h
    simp [volume]
  | cons t ts ih =>
    unfold heads? at h
    split at h
    · exact absurd h (by simp)
    · rename_i n s hs
      split at h
      · rename_i htail
        obtain ⟨ms, hms, rfl⟩ := Option.map_eq_some_iff.1 h
        have hr := ih hms
        have ht := t.fits
        rw [hs, htail] at ht
        simp only [volume] at hr ht ⊢
        simp only [List.map_cons, List.flatten_cons, List.length_append, hr, ht, List.sum_cons,
          Nat.add_mul]
      · exact absurd h (by simp)

/-- The tensors one after the other along the outermost axis, if they agree in the other axes. -/
def join? (ts : List (Tensor α)) : Option (Tensor α) :=
  match ts with
  | [] => none
  | t :: _ => match t.shape with
    | [] => none
    | _ :: tail => match h : heads? tail ts with
      | none => none
      | some ns => some ⟨ns.sum :: tail, (ts.map (·.data)).flatten, length_flatten_of_heads h⟩

end Tensor

end Feedforward
