import Feedforward.Sorting.Merge
import Feedforward.Sorting.Run

/-!
# Sorting by merging runs

The runs of a list are merged with their neighbours until one is left (`sortBy`). The order of the
merges makes few of them lopsided: the boundary between two runs has a level, which tells how often
the list must be halved until the middles of the runs lie in different parts, and a merge across a
boundary waits for those at deeper levels around it. The runs that wait stand on a stack.

Equal elements keep their order. Where the comparison is no order, the answer is what these steps
leave.
-/

namespace Feedforward.Sorting

variable {α : Type}

structure StackedRun (α : Type) where
  /-- The number of elements before it. -/
  start : Nat
  items : List α
  /-- The level of the boundary behind it. -/
  level : Nat

/-- The level of a boundary: how often a list of `n` elements must be halved until two places,
counted in halves of an element, lie in different parts. -/
def boundaryLevel (n left right : Nat) : Nat :=
  ((List.range (n.log2 + 1)).find? fun k => left * 2 ^ k / n ≠ right * 2 ^ k / n).getD n

/-- The runs that wait to be merged, the last one first, and the patience of the next merge. -/
structure Stack (α : Type) where
  runs : List (StackedRun α)
  patience : Nat

namespace Stack

def empty : Stack α := ⟨[], longStretch⟩

variable (before : α → α → Bool)

def join (patience : Nat) (left right : StackedRun α) : StackedRun α × Nat :=
  let (items, patience) := merge before patience left.items right.items
  (⟨left.start, items, right.level⟩, patience)

/-- Merges across the boundaries at the top that are deeper than a level. -/
def settle (level : Nat) (patience : Nat) (runs : List (StackedRun α)) : Stack α :=
  match runs with
  | right :: left :: rest =>
    if level < left.level then
      let (run, patience) := join before patience left right
      settle level patience (run :: rest)
    else ⟨runs, patience⟩
  | runs => ⟨runs, patience⟩
termination_by runs.length

/-- Puts a run of a list of `n` elements on the stack. -/
def push (n : Nat) (s : Stack α) (items : List α) : Stack α :=
  match s.runs with
  | [] => { s with runs := [⟨0, items, 0⟩] }
  | top :: _ =>
    let start := top.start + top.items.length
    let level := boundaryLevel n (top.start + start) (2 * start + items.length)
    let s := settle before level s.patience s.runs
    match s.runs with
    | [] => { s with runs := [⟨start, items, 0⟩] }
    | top :: rest => { s with runs := ⟨start, items, 0⟩ :: { top with level } :: rest }

/-- Merges all runs. The last run is merged first, unless the one two before it is shorter. -/
def collapse (patience : Nat) (runs : List (StackedRun α)) : List α :=
  match runs with
  | [] => []
  | [run] => run.items
  | [right, left] => (join before patience left right).1.items
  | right :: middle :: left :: rest =>
    if left.items.length < right.items.length then
      let (run, patience) := join before patience left middle
      collapse patience (right :: run :: rest)
    else
      let (run, patience) := join before patience middle right
      collapse patience (run :: left :: rest)
termination_by runs.length

end Stack

def sortBy (before : α → α → Bool) (xs : List α) : List α :=
  let s := (runsOf before xs).foldl (Stack.push before xs.length) Stack.empty
  Stack.collapse before s.patience s.runs

end Feedforward.Sorting
