import Feedforward.Proofs.Sorting.Gallop
import Feedforward.Proofs.Sorting.Permutation

/-!
# Sorted lists

A comparison need not be an order on everything it compares, only on the elements that are sorted
(`OrdersOn before P`), and elements of which neither stands before the other need not be equal. A
list of such elements is `Ordered` if none of them stands before an earlier one. The runs that a
list is cut into are (`ordered_of_mem_runsFrom`).

Both notions can be turned around: what is ordered is ordered the other way from its end.
-/

namespace Feedforward.Sorting

variable {α : Type} {before : α → α → Bool} {P : α → Prop}

/-- The comparison puts the elements with the property in order. -/
structure OrdersOn (before : α → α → Bool) (P : α → Prop) : Prop where
  asymm : ∀ {x y : α}, P x → P y → before x y → before y x = false
  trans : ∀ {x y z : α}, P x → P y → P z → before y x = false → before z y = false →
    before z x = false

namespace OrdersOn

/-- The comparison the other way round orders the elements from the last to the first. -/
theorem flip (h : OrdersOn before P) : OrdersOn (fun x y => before y x) P where
  asymm hx hy hxy := h.asymm hy hx hxy
  trans hx hy hz hyx hzy := h.trans hz hy hx hzy hyx

end OrdersOn

/-- Elements with the property, none of which stands before an earlier one. -/
structure Ordered (before : α → α → Bool) (P : α → Prop) (xs : List α) : Prop where
  property : ∀ x ∈ xs, P x
  pairwise : xs.Pairwise fun x y => before y x = false

namespace Ordered

variable {xs ys : List α} {x y : α}

theorem nil : Ordered before P [] := ⟨List.forall_mem_nil _, .nil⟩

theorem singleton (hx : P x) : Ordered before P [x] :=
  ⟨List.forall_mem_singleton.mpr hx, List.pairwise_singleton _ x⟩

theorem append_iff : Ordered before P (xs ++ ys) ↔
    Ordered before P xs ∧ Ordered before P ys ∧ ∀ x ∈ xs, ∀ y ∈ ys, before y x = false := by
  constructor
  · rintro ⟨hproperty, hpairwise⟩
    obtain ⟨hxs, hys⟩ := List.forall_mem_append.mp hproperty
    obtain ⟨hfront, hback, hcross⟩ := List.pairwise_append.mp hpairwise
    exact ⟨⟨hxs, hfront⟩, ⟨hys, hback⟩, hcross⟩
  · rintro ⟨hxs, hys, hcross⟩
    exact ⟨List.forall_mem_append.mpr ⟨hxs.property, hys.property⟩,
      List.pairwise_append.mpr ⟨hxs.pairwise, hys.pairwise, hcross⟩⟩

/-- What is in order is in the opposite order from its end. -/
theorem reverse (h : Ordered before P xs) : Ordered (fun x y => before y x) P xs.reverse :=
  ⟨fun x hx => h.property x (List.mem_reverse.mp hx), List.pairwise_reverse.mpr h.pairwise⟩

theorem take (h : Ordered before P xs) (n : Nat) : Ordered before P (xs.take n) := by
  rw [← List.take_append_drop n xs, append_iff] at h
  exact h.1

theorem drop (h : Ordered before P xs) (n : Nat) : Ordered before P (xs.drop n) := by
  rw [← List.take_append_drop n xs, append_iff] at h
  exact h.2.1

/-- What does not stand behind the head does not stand behind any element. -/
theorem forall_of_head (ho : OrdersOn before P) (h : Ordered before P (y :: ys)) (hx : P x)
    (hhead : before y x = false) : ∀ z ∈ y :: ys, before z x = false := by
  obtain ⟨hy, hys⟩ := List.forall_mem_cons.mp h.property
  refine List.forall_mem_cons.mpr ⟨hhead, fun z hz => ?_⟩
  exact ho.trans hx hy (hys z hz) hhead ((List.pairwise_cons.mp h.pairwise).1 z hz)

/-- An element that does not stand behind the head may be put in front. -/
theorem cons (ho : OrdersOn before P) (h : Ordered before P (y :: ys)) (hx : P x)
    (hhead : before y x = false) : Ordered before P (x :: y :: ys) :=
  append_iff.mpr ⟨singleton hx, h, List.forall_mem_singleton.mpr (h.forall_of_head ho hx hhead)⟩

/-- The elements that `x` does not stand before are a front part. -/
theorem pairwise_not_before (ho : OrdersOn before P) (h : Ordered before P xs) (hx : P x) :
    xs.Pairwise fun y z => !before x z → !before x y := by
  refine h.pairwise.imp_of_mem fun {y z} hy hz hzy hxz => ?_
  rw [Bool.not_eq_true'] at hxz ⊢
  exact ho.trans (h.property y hy) (h.property z hz) hx hzy hxz

/-- The elements that stand before `x` are a front part. -/
theorem pairwise_before (ho : OrdersOn before P) (h : Ordered before P xs) (hx : P x) :
    xs.Pairwise fun y z => before z x → before y x := by
  refine h.pairwise.imp_of_mem fun {y z} hy hz hzy hzx => ?_
  by_contra hyx
  have hnot := ho.trans hx (h.property y hy) (h.property z hz) (Bool.eq_false_iff.mpr hyx) hzy
  rw [hzx] at hnot
  cases hnot

end Ordered

/-! ## Runs -/

section

variable {xs : List α} {x : α}

/-- The part that is split off rises. -/
theorem ordered_splitRising (ho : OrdersOn before P) {last : α} (hlast : P last)
    (hxs : ∀ x ∈ xs, P x) : Ordered before P (last :: (splitRising before last xs).1) := by
  induction xs generalizing last with
  | nil => exact .singleton hlast
  | cons x xs ih =>
      obtain ⟨hx, hxs⟩ := List.forall_mem_cons.mp hxs
      rw [splitRising]
      split
      · exact .singleton hlast
      · next hnot => exact (ih hx hxs).cons ho hlast (Bool.eq_false_iff.mpr hnot)

/-- The part that is split off falls, and strictly so. -/
theorem ordered_splitFalling (ho : OrdersOn before P) {last : α} (hlast : P last)
    (hxs : ∀ x ∈ xs, P x) :
    Ordered (fun x y => before y x) P (last :: (splitFalling before last xs).1) := by
  induction xs generalizing last with
  | nil => exact .singleton hlast
  | cons x xs ih =>
      obtain ⟨hx, hxs⟩ := List.forall_mem_cons.mp hxs
      rw [splitFalling]
      split
      · next hbefore => exact (ih hx hxs).cons ho.flip hlast (ho.asymm hx hlast hbefore)
      · exact .singleton hlast

/-- A falling part is turned round. -/
theorem ordered_splitRun (ho : OrdersOn before P) (hxs : ∀ x ∈ xs, P x) :
    Ordered before P (splitRun before xs).1 := by
  match xs with
  | [] => exact .nil
  | [x] => exact .singleton (hxs x (List.mem_singleton_self x))
  | x :: y :: rest =>
      obtain ⟨hx, hrest⟩ := List.forall_mem_cons.mp hxs
      obtain ⟨hy, hrest⟩ := List.forall_mem_cons.mp hrest
      rw [splitRun]
      split
      · next hbefore =>
          have hfalling := ordered_splitFalling ho hy hrest
          exact (hfalling.cons ho.flip hx (ho.asymm hy hx hbefore)).reverse
      · next hnot =>
          exact (ordered_splitRising ho hy hrest).cons ho hx (Bool.eq_false_iff.mpr hnot)

/-- The place of a single element is found by halving the part in which it can be. -/
theorem placeBetween_eq (sorted : Array α) {low high : Nat} (hsize : high ≤ sorted.size) :
    placeBetween before sorted x low high =
      halve .forward (fun i => sorted[i]?.any fun y => !before x y) low high := by
  fun_induction placeBetween before sorted x low high with
  | case1 low high hlt middle hmiddle ih =>
      have hin : middle < sorted.size := by omega
      rw [Array.getElem?_eq_getElem hin, Option.any_some] at hmiddle
      rw [halve, if_pos hlt, if_neg (by simp [Direction.middle, hin, hmiddle, middle])]
      exact ih (by omega)
  | case2 low high hlt middle hmiddle ih =>
      have hin : middle < sorted.size := by omega
      rw [Array.getElem?_eq_getElem hin, Option.any_some] at hmiddle
      rw [halve, if_pos hlt, if_pos (by simp [Direction.middle, hin, hmiddle, middle])]
      exact ih (by omega)
  | case3 low high hlt => rw [halve, if_neg hlt]

@[simp] theorem insertIdx_length_append (x : α) (ys zs : List α) :
    (ys ++ zs).insertIdx ys.length x = ys ++ x :: zs := by
  induction ys with
  | nil => rfl
  | cons y ys ih => exact congrArg (y :: ·) ih

/-- The element comes between those in front of its place and those behind it. -/
theorem toList_insertSorted (sorted : Array α) :
    (insertSorted before sorted x).toList =
      sorted.toList.take (placeBetween before sorted x 0 sorted.size) ++
        x :: sorted.toList.drop (placeBetween before sorted x 0 sorted.size) := by
  have hplace := placeBetween_le before sorted x (Nat.zero_le sorted.size)
  rw [insertSorted, Array.insertIdxIfInBounds, dif_pos hplace, Array.toList_insertIdx]
  generalize placeBetween before sorted x 0 sorted.size = place at hplace ⊢
  have hinsert := insertIdx_length_append x (sorted.toList.take place) (sorted.toList.drop place)
  rwa [List.length_take_of_le hplace, List.take_append_drop] at hinsert

/-- An element that is put in its place leaves the others in order. -/
theorem ordered_insertSorted (ho : OrdersOn before P) {sorted : Array α}
    (h : Ordered before P sorted.toList) (hx : P x) :
    Ordered before P (insertSorted before sorted x).toList := by
  have hends : EndsAt (fun y => !before x y) sorted.toList
      (placeBetween before sorted x 0 sorted.size) := by
    rw [placeBetween_eq sorted (Nat.le_refl _)]
    simp only [← Array.getElem?_toList, ← Array.length_toList]
    exact endsAt_halve .forward (h.pairwise_not_before ho hx)
  -- the place splits what is sorted into what stays in front and what moves behind
  rw [toList_insertSorted]
  generalize placeBetween before sorted x 0 sorted.size = place at hends ⊢
  have hfront : ∀ y ∈ sorted.toList.take place, before x y = false :=
    fun y hy => (Bool.not_eq_true' _).mp (hends.of_mem_take y hy)
  have hback : ∀ y ∈ sorted.toList.drop place, before y x = false := fun y hy =>
    ho.asymm hx ((h.drop place).property y hy) ((Bool.not_eq_false' _).mp (hends.of_mem_drop y hy))
  rw [← List.take_append_drop place sorted.toList, Ordered.append_iff] at h
  obtain ⟨htake, hdrop, hcross⟩ := h
  have hlast : Ordered before P (x :: sorted.toList.drop place) :=
    Ordered.append_iff.mpr ⟨.singleton hx, hdrop, List.forall_mem_singleton.mpr hback⟩
  exact Ordered.append_iff.mpr
    ⟨htake, hlast, fun y hy => List.forall_mem_cons.mpr ⟨hfront y hy, hcross y hy⟩⟩

/-- Elements that are put in their places one by one are in order with the run. -/
theorem ordered_extend (ho : OrdersOn before P) {run : List α} (h : Ordered before P run)
    (hxs : ∀ x ∈ xs, P x) : Ordered before P (extend before run xs) := by
  rw [extend]
  generalize hsorted : run.toArray = sorted
  replace h : Ordered before P sorted.toList := by rwa [← hsorted]
  clear hsorted
  induction xs generalizing sorted with
  | nil => exact h
  | cons x xs ih =>
      obtain ⟨hx, hxs⟩ := List.forall_mem_cons.mp hxs
      exact ih hxs _ (ordered_insertSorted ho h hx)

/-- The runs that a list is cut into are in order. -/
theorem ordered_of_mem_runsFrom (ho : OrdersOn before P) (least fuel : Nat)
    (hxs : ∀ x ∈ xs, P x) : ∀ run ∈ runsFrom before least fuel xs, Ordered before P run := by
  induction fuel generalizing xs with
  | zero => exact List.forall_mem_nil _
  | succ fuel ih =>
      match xs with
      | [] => exact List.forall_mem_nil _
      | x :: rest =>
          have hsplit := splitRun_perm before (x :: rest)
          obtain ⟨hrun, hrest⟩ := List.forall_mem_append.mp
            fun y hy => hxs y (hsplit.mem_iff.mp hy)
          rw [runsFrom]
          · refine List.forall_mem_cons.mpr ⟨?_, ih fun y hy => hrest y (List.mem_of_mem_drop hy)⟩
            exact ordered_extend ho (ordered_splitRun ho hxs)
              fun y hy => hrest y (List.mem_of_mem_take hy)
          · exact List.cons_ne_nil x rest

end

end Feedforward.Sorting
