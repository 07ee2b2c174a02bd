import Feedforward.Proofs.Sorting.Merging

/-!
# Sorting puts in order

Runs are in order when they are cut off and stay so when they are merged, so that sorting leaves
one ordered run (`ordered_sortBy`). Where elements of which neither stands before the other are
equal, this run does not depend on where the elements came from:

    xs.Perm ys  →  sortBy before xs = sortBy before ys
-/

namespace Feedforward.Sorting

variable {α : Type} {before : α → α → Bool} {P : α → Prop} {xs ys : List α}

namespace Stack

/-- The runs are in order. -/
def AllOrdered (before : α → α → Bool) (P : α → Prop) (runs : List (StackedRun α)) : Prop :=
  ∀ run ∈ runs, Ordered before P run.items

variable {runs rest : List (StackedRun α)} {left right : StackedRun α}

/-- Neighbours that are in order are merged into a run that is in order. -/
theorem ordered_join (ho : OrdersOn before P) (patience : Nat) (hleft : Ordered before P left.items)
    (hright : Ordered before P right.items) :
    Ordered before P (join before patience left right).1.items :=
  ordered_merge ho patience hleft hright

/-- Two neighbours at the top are merged. -/
theorem allOrdered_join (ho : OrdersOn before P) (patience : Nat)
    (h : AllOrdered before P (right :: left :: rest)) :
    AllOrdered before P ((join before patience left right).1 :: rest) := by
  obtain ⟨hright, h⟩ := List.forall_mem_cons.mp h
  obtain ⟨hleft, hrest⟩ := List.forall_mem_cons.mp h
  exact List.forall_mem_cons.mpr ⟨ordered_join ho patience hleft hright, hrest⟩

theorem allOrdered_settle (ho : OrdersOn before P) (level patience : Nat)
    (h : AllOrdered before P runs) :
    AllOrdered before P (settle before level patience runs).runs := by
  fun_induction settle before level patience runs with
  | case1 patience right left rest _ run patience' hjoin ih =>
      have hordered := allOrdered_join ho patience h
      rw [hjoin] at hordered
      exact ih hordered
  | case2 => exact h
  | case3 => exact h

/-- A run that is in order joins others on the stack. -/
theorem allOrdered_push (ho : OrdersOn before P) (n : Nat) {s : Stack α} {items : List α}
    (h : AllOrdered before P s.runs) (hitems : Ordered before P items) :
    AllOrdered before P (push before n s items).runs := by
  rw [push]
  split
  · exact List.forall_mem_singleton.mpr hitems
  · extract_lets start level settled
    have hsettled : AllOrdered before P settled.runs := allOrdered_settle ho level s.patience h
    split
    · exact List.forall_mem_singleton.mpr hitems
    · next top rest hruns =>
        rw [hruns] at hsettled
        obtain ⟨htop, hrest⟩ := List.forall_mem_cons.mp hsettled
        exact List.forall_mem_cons.mpr ⟨hitems, List.forall_mem_cons.mpr ⟨htop, hrest⟩⟩

/-- The last merges leave one run, which is in order. -/
theorem ordered_collapse (ho : OrdersOn before P) (patience : Nat) (h : AllOrdered before P runs) :
    Ordered before P (collapse before patience runs) := by
  fun_induction collapse before patience runs with
  | case1 => exact .nil
  | case2 patience run => exact h run (List.mem_singleton_self run)
  | case3 patience right left => exact allOrdered_join ho patience h _ List.mem_cons_self
  | case4 patience right middle left rest _ run patience' hjoin ih =>
      obtain ⟨hright, h⟩ := List.forall_mem_cons.mp h
      have hordered := allOrdered_join ho patience h
      rw [hjoin] at hordered
      exact ih (List.forall_mem_cons.mpr ⟨hright, hordered⟩)
  | case5 patience right middle left rest _ run patience' hjoin ih =>
      have hordered := allOrdered_join ho patience h
      rw [hjoin] at hordered
      exact ih hordered

end Stack

/-- The sorted list is in order. -/
theorem ordered_sortBy (ho : OrdersOn before P) (hxs : ∀ x ∈ xs, P x) :
    Ordered before P (sortBy before xs) := by
  have hpush (runs : List (List α)) (s : Stack α) (h : Stack.AllOrdered before P s.runs)
      (hruns : ∀ run ∈ runs, Ordered before P run) :
      Stack.AllOrdered before P (runs.foldl (Stack.push before xs.length) s).runs := by
    induction runs generalizing s with
    | nil => exact h
    | cons run runs ih =>
        obtain ⟨hrun, hruns⟩ := List.forall_mem_cons.mp hruns
        exact ih _ (Stack.allOrdered_push ho _ h hrun) hruns
  exact Stack.ordered_collapse ho _ (hpush _ Stack.empty (List.forall_mem_nil _)
    (ordered_of_mem_runsFrom ho _ _ hxs))

/-- Where no two elements share a place, the order in which they came does not matter. -/
theorem sortBy_eq_of_perm (ho : OrdersOn before P) (hxs : ∀ x ∈ xs, P x)
    (hanti : ∀ x ∈ xs, ∀ y ∈ xs, before x y = false → before y x = false → x = y)
    (hperm : xs.Perm ys) : sortBy before xs = sortBy before ys := by
  -- two ordered lists of the same elements, no two of which could change places
  have hys : ∀ y ∈ ys, P y := fun y hy => hxs y (hperm.mem_iff.mpr hy)
  have hsorted := sortBy_perm before xs
  have hsorted' := (sortBy_perm before ys).trans hperm.symm
  refine List.Perm.eq_of_pairwise (fun x y hx hy hyx hxy => ?_) (ordered_sortBy ho hxs).pairwise
    (ordered_sortBy ho hys).pairwise (hsorted.trans hsorted'.symm)
  exact hanti x (hsorted.mem_iff.mp hx) y (hsorted'.mem_iff.mp hy) hxy hyx

end Feedforward.Sorting
