import Std.Data.TreeMap.Lemmas
import Feedforward.Graph.Basic

/-!
# Positions of handles

The layers of a network are looked up by the handles of their groups. `lastPosition?` says where a
handle stands in a list: of several places the last. `positionTable` keeps the positions of all
handles for quick look-up, and answers in the same way (`getElem?_positionTable`).
-/

namespace Feedforward

/-- The last position at which a handle stands. -/
def lastPosition? (h : Handle) : List Handle → Option Nat
  | [] => none
  | k :: rest => match lastPosition? h rest with
    | some i => some (i + 1)
    | none => if k = h then some 0 else none

abbrev PositionTable := Std.TreeMap Handle Nat

/-- Enters handles that stand one after the other from a position on. A later position of a handle
takes the place of an earlier one. -/
def enterPositions (table : PositionTable) (start : Nat) : List Handle → PositionTable
  | [] => table
  | h :: rest => enterPositions (table.insert h start) (start + 1) rest

/-- The positions of the handles of a list. -/
def positionTable (hs : List Handle) : PositionTable := enterPositions ∅ 0 hs

theorem getElem?_enterPositions (h : Handle) (hs : List Handle) (table : PositionTable)
    (start : Nat) : (enterPositions table start hs)[h]? =
      ((lastPosition? h hs).map (start + ·)).or table[h]? := by
  induction hs generalizing table start with
  | nil => rfl
  | cons k rest ih =>
    rw [enterPositions, ih, lastPosition?, Std.TreeMap.getElem?_insert]
    cases lastPosition? h rest with
    | some i => simp [Nat.add_assoc, Nat.add_comm 1 i]
    | none =>
      by_cases hk : k = h
      · simp [hk]
      · simp [hk, Std.LawfulEqCmp.compare_eq_iff_eq]

theorem getElem?_positionTable (h : Handle) (hs : List Handle) :
    (positionTable hs)[h]? = lastPosition? h hs := by
  rw [positionTable, getElem?_enterPositions]
  simp

end Feedforward
