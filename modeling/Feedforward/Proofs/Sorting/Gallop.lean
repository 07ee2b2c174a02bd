import Mathlib.Data.List.Basic
import Feedforward.Sorting.Gallop

/-!
# Where a condition ends

A condition on places is a `Front` if it holds of none behind one of which it does not hold.
Halving finds the place where it ends, whichever way the halves are rounded, and so does galloping:
`leading d p xs` is the number of elements of which `p` holds, where `p` holds of a front part of
`xs` (`endsAt_leading`).
-/

namespace Feedforward.Sorting

variable {α : Type}

/-- The condition on places holds in front of every place at which it holds. -/
def Front (holds : Nat → Bool) : Prop := ∀ i j, i ≤ j → holds j → holds i

section

variable {holds : Nat → Bool} {size low high last next : Nat}

theorem Front.eq_false (h : Front holds) {i j : Nat} (hle : i ≤ j) (hi : holds i = false) :
    holds j = false :=
  Bool.eq_false_iff.mpr fun hj => Bool.eq_false_iff.mp hi (h i j hle hj)

theorem Direction.middle_bounds (d : Direction) (h : low < high) :
    low ≤ d.middle low high ∧ d.middle low high < high := by
  cases d <;> simp only [middle] <;> omega

/-- Halving keeps the end of the condition between its bounds. -/
theorem lt_halve_iff (h : Front holds) (d : Direction) (hle : low ≤ high)
    (hlow : ∀ i < low, holds i) (hhigh : holds high = false) (i : Nat) :
    i < halve d holds low high ↔ holds i := by
  fun_induction halve d holds low high with
  | case1 low high hlt hmiddle ih =>
      have hbounds := d.middle_bounds hlt
      exact ih hbounds.2 (fun i hi => h i _ (Nat.le_of_lt_succ hi) hmiddle) hhigh
  | case2 low high hlt hmiddle ih =>
      have hbounds := d.middle_bounds hlt
      exact ih hbounds.1 hlow (Bool.eq_false_iff.mpr hmiddle)
  | case3 low high hlt =>
      -- nothing is left between what fulfils the condition and what does not
      obtain rfl : low = high := by omega
      refine ⟨hlow i, fun hi => ?_⟩
      by_contra hge
      rw [h.eq_false (Nat.le_of_not_lt hge) hhigh] at hi
      cases hi

/-- Widening ends with a place at which the condition holds and one behind it at which it does
not. -/
theorem widen_spec (hsize : holds size = false) (hlast : holds last) (hbehind : last < size)
    (hlt : last < next) :
    holds (widen holds size last next).1 ∧ holds (widen holds size last next).2 = false ∧
      (widen holds size last next).1 < (widen holds size last next).2 := by
  fun_induction widen holds size last next with
  | case1 last next h ih =>
      rw [Bool.and_eq_true, decide_eq_true_eq] at h
      exact ih h.2 h.1 (by omega)
  | case2 last next h =>
      refine ⟨hlast, ?_, by omega⟩
      by_cases hnext : next < size
      · rw [Nat.min_eq_left (Nat.le_of_lt hnext)]
        simpa [hnext] using h
      · rwa [Nat.min_eq_right (Nat.le_of_not_lt hnext)]

end

variable {p : α → Bool} {xs : List α}

/-- A condition that holds in front of every element for which it holds does so for places. -/
theorem front_any (hp : xs.Pairwise fun x y => p y → p x) : Front fun i => xs[i]?.any p := by
  intro i j hle hj
  obtain ⟨y, hy, hpy⟩ := (Option.any_eq_true _ _).mp hj
  obtain ⟨hlt, rfl⟩ := List.getElem?_eq_some_iff.mp hy
  obtain rfl | hij := Nat.eq_or_lt_of_le hle
  · exact hj
  · have hi : i < xs.length := Nat.lt_trans hij hlt
    have hpi := List.pairwise_iff_getElem.mp hp i j hi hlt hij hpy
    exact (Option.any_eq_true _ _).mpr ⟨_, List.getElem?_eq_getElem hi, hpi⟩

/-- The elements of which the condition holds are the first `n`. -/
def EndsAt (p : α → Bool) (xs : List α) (n : Nat) : Prop := ∀ i, i < n ↔ xs[i]?.any p

namespace EndsAt

variable {n : Nat}

/-- The condition holds in front of the end. -/
theorem of_mem_take (h : EndsAt p xs n) : ∀ x ∈ xs.take n, p x := by
  intro x hx
  obtain ⟨i, hi, rfl⟩ := List.mem_take_iff_getElem.mp hx
  have hany := (h i).mp (Nat.lt_of_lt_of_le hi (Nat.min_le_left _ _))
  rwa [List.getElem?_eq_getElem] at hany

/-- The condition fails behind the end. -/
theorem of_mem_drop (h : EndsAt p xs n) : ∀ x ∈ xs.drop n, p x = false := by
  intro x hx
  obtain ⟨i, hi, rfl⟩ := List.mem_drop_iff_getElem.mp hx
  rw [Nat.add_comm] at hi
  have hnot := mt (h (n + i)).mpr (by omega)
  rw [List.getElem?_eq_getElem hi] at hnot
  exact Bool.eq_false_iff.mpr hnot

end EndsAt

/-- The elements that are counted are those of which the condition holds. -/
theorem endsAt_leading (d : Direction) (hp : xs.Pairwise fun x y => p y → p x) :
    EndsAt p xs (leading d p xs) := by
  have hfront := front_any hp
  intro i
  simp only [leading, List.getElem?_toArray, List.size_toArray]
  -- the condition on places
  generalize hholds : (fun i : Nat => xs[i]?.any p) = holds at hfront ⊢
  have hany (i : Nat) : xs[i]?.any p = holds i := congrFun hholds i
  have hend : holds xs.length = false := by simp [← hany]
  -- either the bracket is widened from the start, or the condition fails at once
  rw [hany, hany]
  split
  · next hzero =>
      have hbehind : 0 < xs.length := by
        by_contra hle
        rw [Nat.eq_zero_of_not_pos hle, hzero] at hend
        cases hend
      have hwiden := widen_spec hend hzero hbehind Nat.zero_lt_one
      exact lt_halve_iff hfront d hwiden.2.2
        (fun j hj => hfront j _ (Nat.le_of_lt_succ hj) hwiden.1) hwiden.2.1 i
  · next hzero =>
      simp [hfront.eq_false (Nat.zero_le i) (Bool.eq_false_iff.mpr hzero)]

/-- Halving a whole list comes to the end of the condition. -/
theorem endsAt_halve (d : Direction) (hp : xs.Pairwise fun x y => p y → p x) :
    EndsAt p xs (halve d (fun i => xs[i]?.any p) 0 xs.length) :=
  lt_halve_iff (front_any hp) d (Nat.zero_le _) (fun i hi => absurd hi (Nat.not_lt_zero i))
    (by simp)

end Feedforward.Sorting
