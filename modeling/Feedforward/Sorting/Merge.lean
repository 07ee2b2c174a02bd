import Feedforward.Sorting.Gallop

/-!
# Merging two runs

Two runs are merged by moving their elements one by one to the merged run (`Merging.alternate`).
Once one of them has come out several times in a row, whole stretches are moved, whose ends are
found by galloping (`Merging.round`), for as long as the stretches are long. How many times in a row
it takes is the patience; it shrinks while galloping pays and grows when it stops paying, and one
merge hands it on to the next.

The shorter run comes first: when it is the left one the runs are merged from their fronts, and
otherwise from their ends.
-/

namespace Feedforward.Sorting

variable {α : Type}

/-- Two runs that are being merged: what is merged, latest first, and what is left of the runs, in
the order in which it is gone through. -/
structure Merging (α : Type) where
  merged : List α
  first : List α
  second : List α

/-- The least length of a stretch for which galloping pays. -/
def longStretch : Nat := 7

namespace Merging

/-- Nothing is left to be compared: the last element of the first run comes last of all. -/
def isFinished : Merging α → Bool
  | ⟨_, _ :: _ :: _, _ :: _⟩ => false
  | _ => true

/-- The merged run, in the order in which it was put together. -/
def result (m : Merging α) : List α := m.merged.reverse ++ m.second ++ m.first

def moveFirst (m : Merging α) (n : Nat) : Merging α :=
  ⟨(m.first.take n).reverse ++ m.merged, m.first.drop n, m.second⟩

def moveSecond (m : Merging α) (n : Nat) : Merging α :=
  ⟨(m.second.take n).reverse ++ m.merged, m.first, m.second.drop n⟩

section

variable (before : α → α → Bool)

/-- Moves elements one by one until so many in a row have come from one run as the patience says.
`streak` of them have come from the second run, or else from the first. -/
def alternate (patience : Nat) (isSecond : Bool) (streak : Nat) (merged first second : List α) :
    Merging α :=
  match first, second with
  | x :: y :: xs, z :: zs =>
    if before z x then
      let streak := if isSecond then streak + 1 else 1
      if patience ≤ streak then ⟨z :: merged, x :: y :: xs, zs⟩
      else alternate patience true streak (z :: merged) (x :: y :: xs) zs
    else
      let streak := if isSecond then 1 else streak + 1
      if patience ≤ streak then ⟨x :: merged, y :: xs, z :: zs⟩
      else alternate patience false streak (x :: merged) (y :: xs) (z :: zs)
  | first, second => ⟨merged, first, second⟩
termination_by first.length + second.length

variable (d : Direction)

/-- Moves the elements of the first run that no element of the second stands before. Answers how
many there are. -/
def gallopFirst (m : Merging α) : Merging α × Nat :=
  match m.isFinished, m.second with
  | false, z :: _ =>
    let n := leading d (fun x => !before z x) m.first
    (m.moveFirst n, n)
  | _, _ => (m, 0)

/-- Moves the elements of the second run that stand before all of the first. Answers how many there
are. -/
def gallopSecond (m : Merging α) : Merging α × Nat :=
  match m.isFinished, m.first with
  | false, x :: _ =>
    let n := leading d (fun z => before z x) m.second
    (m.moveSecond n, n)
  | _, _ => (m, 0)

/-- Moves one element of the first run, unless nothing is left to be compared. -/
def takeFirst (m : Merging α) : Merging α := if m.isFinished then m else m.moveFirst 1

/-- Moves one element of the second run, unless nothing is left to be compared. -/
def takeSecond (m : Merging α) : Merging α := if m.isFinished then m else m.moveSecond 1

/-- Moves a stretch of either run, and behind it the element of the other run that ends it. The left
run is the first to move. Answers the length of the longer stretch. -/
def round (m : Merging α) : Merging α × Nat :=
  match d with
  | .forward =>
    let (m, i) := gallopFirst before d m
    let (m, j) := gallopSecond before d m.takeSecond
    (m.takeFirst, max i j)
  | .backward =>
    let (m, i) := gallopSecond before d m
    let (m, j) := gallopFirst before d m.takeFirst
    (m.takeSecond, max i j)

/-- Goes on to the end of a merge, galloping or one by one. Answers the patience that is left. -/
def finish : (fuel : Nat) → (galloping : Bool) → (patience : Nat) → Merging α → Merging α × Nat
  | 0, _, patience, m => (m, patience)
  | fuel + 1, true, patience, m =>
    let (m, stretch) := round before d m
    if m.isFinished then (m, patience)
    else if longStretch ≤ stretch then finish fuel true (max (patience - 1) 1) m
    else finish fuel false (patience + 1) m
  | fuel + 1, false, patience, m =>
    let m := alternate before patience false 0 m.merged m.first m.second
    if m.isFinished then (m, patience) else finish fuel true patience m

/-- Merges to the end, where the head of the second run is known to come first. -/
def run (patience : Nat) (first second : List α) : List α × Nat :=
  let m := (Merging.mk [] first second).moveSecond 1
  if m.isFinished then (m.result, patience)
  else
    let (m, patience) := finish before d (2 * (first.length + second.length)) false patience m
    (m.result, patience)

end

end Merging

/-- Merges two runs that stand side by side. What is in its place at either end stays out of it. -/
def merge (before : α → α → Bool) (patience : Nat) (left right : List α) : List α × Nat :=
  match left.getLast?, right.head? with
  | some last, some head =>
    let low := leading .forward (fun x => !before head x) left
    let high := right.length - leading .backward (fun y => !before y last) right.reverse
    let first := left.drop low
    let second := right.take high
    if first.isEmpty || second.isEmpty then (left ++ right, patience)
    else
      let (merged, patience) :=
        if first.length ≤ second.length then Merging.run before .forward patience first second
        else
          let (merged, patience) := Merging.run (fun x y => before y x) .backward patience
            second.reverse first.reverse
          (merged.reverse, patience)
      (left.take low ++ merged ++ right.drop high, patience)
  | _, _ => (left ++ right, patience)

end Feedforward.Sorting
