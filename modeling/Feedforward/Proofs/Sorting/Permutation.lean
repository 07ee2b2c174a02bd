import Mathlib.Data.List.Perm.Basic
import Feedforward.Sorting.Stack

/-!
# Sorting loses nothing

Whatever the comparison says, the sorted list is a permutation of the list (`sortBy_perm`). A merge
only moves elements between three lists, and runs are only cut off, extended and merged, so that no
step needs to know anything of the order.
-/

namespace Feedforward.Sorting

variable {α : Type} (before : α → α → Bool)

/-! ## Merging -/

namespace Merging

/-- Elements of the second run stay where they are in the result. -/
@[simp]
theorem result_moveSecond (m : Merging α) (n : Nat) : (m.moveSecond n).result = m.result := by
  simp only [result, moveSecond, List.reverse_append, List.reverse_reverse, List.append_assoc,
    List.take_append_drop]

/-- Elements of the first run pass by those that are left of it. -/
theorem result_moveFirst_perm (m : Merging α) (n : Nat) :
    (m.moveFirst n).result.Perm m.result := by
  simp only [result, moveFirst, List.reverse_append, List.reverse_reverse, List.append_assoc]
  refine List.Perm.append_left _ ((List.perm_append_comm_assoc _ _ _).trans ?_)
  rw [List.take_append_drop]

theorem result_alternate_perm (patience : Nat) (isSecond : Bool) (streak : Nat)
    (merged first second : List α) :
    (alternate before patience isSecond streak merged first second).result.Perm
      (mk merged first second).result := by
  fun_induction alternate before patience isSecond streak merged first second with
  | case1 => exact .of_eq (result_moveSecond (mk _ _ (_ :: _)) 1)
  | case2 _ _ _ _ _ _ _ _ _ _ _ ih =>
      exact ih.trans (.of_eq (result_moveSecond (mk _ _ (_ :: _)) 1))
  | case3 => exact result_moveFirst_perm (mk _ (_ :: _) _) 1
  | case4 _ _ _ _ _ _ _ _ _ _ _ ih =>
      exact ih.trans (result_moveFirst_perm (mk _ (_ :: _) _) 1)
  | case5 => exact .refl _

variable (d : Direction)

theorem result_gallopFirst_perm (m : Merging α) :
    (gallopFirst before d m).1.result.Perm m.result := by
  rw [gallopFirst]
  split
  · exact result_moveFirst_perm m _
  · exact .refl _

@[simp]
theorem result_gallopSecond (m : Merging α) : (gallopSecond before d m).1.result = m.result := by
  rw [gallopSecond]
  split
  · exact result_moveSecond m _
  · rfl

theorem result_takeFirst_perm (m : Merging α) : m.takeFirst.result.Perm m.result := by
  rw [takeFirst]
  split
  · exact .refl _
  · exact result_moveFirst_perm m 1

@[simp] theorem result_takeSecond (m : Merging α) : m.takeSecond.result = m.result := by
  rw [takeSecond]
  split
  · rfl
  · exact result_moveSecond m 1

theorem result_round_perm (m : Merging α) : (round before d m).1.result.Perm m.result := by
  cases d with
  | forward =>
      have hsecond := (result_gallopSecond before .forward _).trans
        (result_takeSecond (gallopFirst before .forward m).1)
      exact (result_takeFirst_perm _).trans
        ((List.Perm.of_eq hsecond).trans (result_gallopFirst_perm before .forward m))
  | backward =>
      have hfirst := (result_gallopFirst_perm before .backward _).trans
        (result_takeFirst_perm (gallopSecond before .backward m).1)
      exact (List.Perm.of_eq (result_takeSecond _)).trans
        (hfirst.trans (.of_eq (result_gallopSecond before .backward m)))

/-- A merge loses nothing on the way to its end. -/
theorem result_finish_perm (fuel : Nat) (galloping : Bool) (patience : Nat) (m : Merging α) :
    (finish before d fuel galloping patience m).1.result.Perm m.result := by
  -- The induction is on the fuel; each stretch moves elements from one of the runs to the result.
  induction fuel generalizing galloping patience m with
  | zero => exact .refl _
  | succ fuel ih =>
      cases galloping with
      | true =>
          have hround := result_round_perm before d m
          rw [finish]
          dsimp only
          split
          · exact hround
          · split
            · exact (ih _ _ _).trans hround
            · exact (ih _ _ _).trans hround
      | false =>
          have halternate := result_alternate_perm before patience false 0 m.merged m.first m.second
          rw [finish]
          split
          · exact halternate
          · exact (ih _ _ _).trans halternate

theorem run_perm (patience : Nat) (first second : List α) :
    (run before d patience first second).1.Perm (first ++ second) := by
  have hstart : ((mk [] first second).moveSecond 1).result = second ++ first :=
    result_moveSecond _ 1
  rw [run]
  dsimp only
  split
  · rw [hstart]
    exact List.perm_append_comm
  · refine (result_finish_perm before d _ _ _ _).trans ?_
    rw [hstart]
    exact List.perm_append_comm

theorem run_reverse_perm (patience : Nat) (first second : List α) :
    (run before d patience second.reverse first.reverse).1.reverse.Perm (first ++ second) :=
  (List.reverse_perm _).trans ((run_perm before d patience _ _).trans
    (List.perm_append_comm.trans ((List.reverse_perm _).append (List.reverse_perm _))))

end Merging

/-- What is in its place at either end is put back. -/
theorem merge_perm (patience : Nat) (left right : List α) :
    (merge before patience left right).1.Perm (left ++ right) := by
  rw [merge]
  split
  · next last head _ _ =>
      extract_lets low high first second
      -- what stays out of the merge stays where it is
      have houter (merged : List α) (h : merged.Perm (first ++ second)) :
          (left.take low ++ merged ++ right.drop high).Perm (left ++ right) := by
        refine ((h.append_left _).append_right _).trans (.of_eq ?_)
        rw [← List.append_assoc, List.take_append_drop, List.append_assoc, List.take_append_drop]
      split
      · exact .refl _
      · refine houter _ ?_
        split
        · exact Merging.run_perm before .forward patience first second
        · exact Merging.run_reverse_perm (fun x y => before y x) .backward patience first second
  · exact .refl _

/-! ## Runs -/

@[simp] theorem splitRising_append (last : α) (xs : List α) :
    (splitRising before last xs).1 ++ (splitRising before last xs).2 = xs := by
  induction xs generalizing last with
  | nil => rfl
  | cons x xs ih =>
      rw [splitRising]
      split
      · rfl
      · exact congrArg (x :: ·) (ih x)

@[simp] theorem splitFalling_append (last : α) (xs : List α) :
    (splitFalling before last xs).1 ++ (splitFalling before last xs).2 = xs := by
  induction xs generalizing last with
  | nil => rfl
  | cons x xs ih =>
      rw [splitFalling]
      split
      · exact congrArg (x :: ·) (ih x)
      · rfl

/-- Splitting off a run loses nothing. -/
theorem splitRun_perm (xs : List α) :
    ((splitRun before xs).1 ++ (splitRun before xs).2).Perm xs := by
  match xs with
  | [] => exact .refl _
  | [x] => exact .refl _
  | x :: y :: rest =>
      rw [splitRun]
      split
      · refine ((List.reverse_perm _).append_right _).trans (.of_eq ?_)
        exact congrArg (x :: y :: ·) (splitFalling_append before y rest)
      · exact .of_eq (congrArg (x :: y :: ·) (splitRising_append before y rest))

/-- A run is cut off from a list that is not empty. -/
theorem splitRun_ne_nil {xs : List α} (hxs : xs ≠ []) : (splitRun before xs).1 ≠ [] := by
  match xs with
  | [] => exact absurd rfl hxs
  | [x] => simp [splitRun]
  | x :: y :: rest =>
      rw [splitRun]
      split <;> simp

theorem placeBetween_le (sorted : Array α) (x : α) {low high : Nat} (h : low ≤ high) :
    placeBetween before sorted x low high ≤ high := by
  fun_induction placeBetween before sorted x low high with
  | case1 low high _ middle _ ih =>
      have := ih (by omega)
      omega
  | case2 low high _ middle _ ih => exact ih (by omega)
  | case3 => exact h

theorem insertSorted_perm (sorted : Array α) (x : α) :
    (insertSorted before sorted x).toList.Perm (x :: sorted.toList) := by
  have hplace := placeBetween_le before sorted x (Nat.zero_le sorted.size)
  rw [insertSorted, Array.insertIdxIfInBounds, dif_pos hplace, Array.toList_insertIdx]
  exact List.perm_insertIdx x _ hplace

theorem extend_perm (run xs : List α) : (extend before run xs).Perm (run ++ xs) := by
  have hall (sorted : Array α) :
      (xs.foldl (insertSorted before) sorted).toList.Perm (sorted.toList ++ xs) := by
    induction xs generalizing sorted with
    | nil => simp
    | cons x xs ih =>
        refine (ih _).trans (((insertSorted_perm before sorted x).append_right xs).trans ?_)
        exact List.perm_middle.symm
  exact hall run.toArray

/-- Runs are split off as long as there is something left, which the fuel suffices for. -/
theorem runsFrom_perm (least : Nat) {fuel : Nat} {xs : List α} (hfuel : xs.length ≤ fuel) :
    (runsFrom before least fuel xs).flatten.Perm xs := by
  induction fuel generalizing xs with
  | zero =>
      rw [List.length_eq_zero_iff.mp (Nat.le_zero.mp hfuel)]
      exact .refl _
  | succ fuel ih =>
      match xs with
      | [] => exact .refl _
      | x :: rest =>
          have hsplit := splitRun_perm before (x :: rest)
          -- a run has an element at least, so that less is left
          have hne := List.length_pos_iff.mpr (splitRun_ne_nil before (List.cons_ne_nil x rest))
          have hlen := hsplit.length_eq
          rw [List.length_append] at hlen
          rw [runsFrom, List.flatten_cons]
          · refine ((extend_perm before _ _).append (ih ?_)).trans ?_
            · rw [List.length_drop]
              omega
            · rwa [List.append_assoc, List.take_append_drop]
          · exact List.cons_ne_nil x rest

/-! ## The stack -/

namespace Stack

def contents (runs : List (StackedRun α)) : List α := runs.flatMap (·.items)

@[simp] theorem contents_cons (run : StackedRun α) (runs : List (StackedRun α)) :
    contents (run :: runs) = run.items ++ contents runs := rfl

theorem items_join_perm (patience : Nat) (left right : StackedRun α) :
    (join before patience left right).1.items.Perm (left.items ++ right.items) :=
  merge_perm before patience left.items right.items

/-- Two neighbours at the top are merged. -/
theorem contents_join_perm (patience : Nat) (left right : StackedRun α)
    (rest : List (StackedRun α)) :
    (contents ((join before patience left right).1 :: rest)).Perm
      (contents (right :: left :: rest)) := by
  simp only [contents_cons, ← List.append_assoc]
  exact ((items_join_perm before patience left right).trans List.perm_append_comm).append_right _

/-- Merging on the stack loses nothing. -/
theorem contents_settle_perm (level patience : Nat) (runs : List (StackedRun α)) :
    (contents (settle before level patience runs).runs).Perm (contents runs) := by
  fun_induction settle before level patience runs with
  | case1 patience right left rest _ run patience' hjoin ih =>
      refine ih.trans ?_
      have hcontents := contents_join_perm before patience left right rest
      rwa [hjoin] at hcontents
  | case2 => exact .refl _
  | case3 => exact .refl _

theorem contents_push_perm (n : Nat) (s : Stack α) (items : List α) :
    (contents (push before n s items).runs).Perm (items ++ contents s.runs) := by
  rw [push]
  split
  · next hruns => simp [hruns, contents]
  · extract_lets start level settled
    have hsettled : (contents settled.runs).Perm (contents s.runs) :=
      contents_settle_perm before level s.patience s.runs
    split
    · next hempty =>
        rw [hempty] at hsettled
        exact hsettled.append_left items
    · next top rest hruns =>
        rw [hruns] at hsettled
        exact hsettled.append_left items

/-- In the end all runs are one. -/
theorem collapse_perm (patience : Nat) (runs : List (StackedRun α)) :
    (collapse before patience runs).Perm (contents runs) := by
  fun_induction collapse before patience runs with
  | case1 => exact .refl _
  | case2 patience run => simp [contents]
  | case3 patience right left =>
      have hjoin := contents_join_perm before patience left right []
      simpa [contents] using hjoin
  | case4 patience right middle left rest _ run patience' hjoin ih =>
      refine ih.trans ?_
      have hcontents :=
        (contents_join_perm before patience left middle rest).append_left right.items
      rwa [hjoin] at hcontents
  | case5 patience right middle left rest _ run patience' hjoin ih =>
      refine ih.trans ?_
      have hcontents := contents_join_perm before patience middle right (left :: rest)
      rwa [hjoin] at hcontents

end Stack

/-- The sorted list has the elements of the list, each as often. -/
theorem sortBy_perm (xs : List α) : (sortBy before xs).Perm xs := by
  have hpush (runs : List (List α)) (s : Stack α) :
      (Stack.contents (runs.foldl (Stack.push before xs.length) s).runs).Perm
        (runs.flatten ++ Stack.contents s.runs) := by
    induction runs generalizing s with
    | nil => exact .refl _
    | cons run runs ih =>
        refine (ih _).trans (((Stack.contents_push_perm before _ s run).append_left _).trans ?_)
        rw [List.flatten_cons, List.append_assoc]
        exact List.perm_append_comm_assoc _ _ _
  refine (Stack.collapse_perm before _ _).trans ((hpush _ _).trans ?_)
  rw [show Stack.contents (Stack.empty : Stack α).runs = [] from rfl, List.append_nil]
  exact runsFrom_perm before _ (Nat.le_refl _)

end Feedforward.Sorting
