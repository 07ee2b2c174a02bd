/-!
# Galloping

A condition that holds of the front part of a run and of nothing behind it has a boundary. It is
looked for in steps of growing width, until one leads too far, and then by halving what lies between
the last two steps (`leading`). A run may be gone through from its end; the halves are then rounded
the other way.
-/

namespace Feedforward.Sorting

/-- The end of a run at which its elements are gone through first. -/
inductive Direction where
  | forward
  | backward
  deriving DecidableEq

/-- A place between two others. -/
def Direction.middle (low high : Nat) : Direction → Nat
  | forward => low + (high - low) / 2
  | backward => low + (high - low - 1) / 2

/-- The boundary of a condition on places, looked for between `low` and `high` by halving. -/
def halve (d : Direction) (holds : Nat → Bool) (low high : Nat) : Nat :=
  if low < high then
    if holds (d.middle low high) then halve d holds (d.middle low high + 1) high
    else halve d holds low (d.middle low high)
  else low
termination_by high - low
decreasing_by
  · cases d <;> simp only [Direction.middle] <;> omega
  · cases d <;> simp only [Direction.middle] <;> omega

/-- The last place that is known to fulfil a condition and the first one that may not, found in
steps that double. -/
def widen (holds : Nat → Bool) (size last next : Nat) : Nat × Nat :=
  if next < size && holds next then widen holds size next (2 * next + 1) else (last, min next size)
termination_by size - next
decreasing_by simp_all; omega

/-- The number of elements at the front of a list for which a condition holds. -/
def leading {α : Type} (d : Direction) (p : α → Bool) (xs : List α) : Nat :=
  let run := xs.toArray
  let holds (i : Nat) : Bool := run[i]?.any p
  if holds 0 then
    let (last, next) := widen holds run.size 0 1
    halve d holds (last + 1) next
  else 0

end Feedforward.Sorting
