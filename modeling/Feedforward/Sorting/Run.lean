import Feedforward.Number.Instances

/-!
# Runs

A run is a part of a list that stands in order. A list is cut into the runs that it begins with, one
after the other (`runsOf`): a front part that rises or falls is a run, and one that is too short is
brought to the least length by elements behind it, each of which is put in its place by halving the
part in which it can be.

Nothing is assumed of the comparison. Where it is no order, the runs are what these steps leave.
-/

namespace Feedforward.Sorting

variable {α : Type} (before : α → α → Bool)

/-! ### Parts that rise or fall -/

/-- Splits behind the front part in which no element stands before its predecessor. -/
def splitRising (last : α) : List α → List α × List α
  | [] => ([], [])
  | x :: xs =>
    if before x last then ([], x :: xs)
    else
      let (run, rest) := splitRising x xs
      (x :: run, rest)

/-- Splits behind the front part in which every element stands before its predecessor. -/
def splitFalling (last : α) : List α → List α × List α
  | [] => ([], [])
  | x :: xs =>
    if before x last then
      let (run, rest) := splitFalling x xs
      (x :: run, rest)
    else ([], x :: xs)

/-- The part at the front of a list that rises or falls, put in order, and the elements behind it.
-/
def splitRun : List α → List α × List α
  | x :: y :: rest =>
    if before y x then
      let (run, rest) := splitFalling before y rest
      ((x :: y :: run).reverse, rest)
    else
      let (run, rest) := splitRising before y rest
      (x :: y :: run, rest)
  | xs => (xs, [])

/-! ### Single elements -/

/-- The place of an element among sorted ones, looked for between `low` and `high`: behind those
that it does not stand before. -/
def placeBetween (sorted : Array α) (x : α) (low high : Nat) : Nat :=
  if low < high then
    let middle := low + (high - low) / 2
    if sorted[middle]?.any (before x) then placeBetween sorted x low middle
    else placeBetween sorted x (middle + 1) high
  else low
termination_by high - low

def insertSorted (sorted : Array α) (x : α) : Array α :=
  sorted.insertIdxIfInBounds (placeBetween before sorted x 0 sorted.size) x

def extend (run xs : List α) : List α := (xs.foldl (insertSorted before) run.toArray).toList

/-! ### All runs -/

/-- The least length of the runs of a list of `n` elements: all of them below 64, and otherwise from
32 to 64, such that the number of runs is a power of two or a little less. -/
def leastRun (n : Nat) : Nat :=
  if n < 64 then n
  else
    let runs := 2 ^ (n.log2 - 5)
    (n + runs - 1) / runs

/-- The runs of a list, each of which but the last has at least the given length. -/
def runsFrom (least : Nat) : (fuel : Nat) → List α → List (List α)
  | 0, _ => []
  | _, [] => []
  | fuel + 1, xs =>
    let (run, rest) := splitRun before xs
    let missing := least - run.length
    extend before run (rest.take missing) :: runsFrom least fuel (rest.drop missing)

def runsOf (xs : List α) : List (List α) := runsFrom before (leastRun xs.length) xs.length xs

end Feedforward.Sorting
