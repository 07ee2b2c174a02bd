import Feedforward.Proofs.Sorting.Order

/-!
# Merging keeps the order

While two ordered runs are merged, what is merged stays ordered with what is left of either run
behind it, and the last element of the first run stands behind all that is left of the second
(`Merging.Invariant`). Moving elements of one run keeps this if none of the other run stands before
them; that they are the right ones is known from a comparison or from the end of a gallop.

    Ordered left  →  Ordered right  →  Ordered (merge left right)
-/

namespace Feedforward.Sorting

variable {α : Type} {before : α → α → Bool} {P : α → Prop}

namespace Merging

variable {m : Merging α} {x z : α} {xs zs : List α} {n : Nat}

/-- What holds of two ordered runs in the middle of a merge. -/
structure Invariant (before : α → α → Bool) (P : α → Prop) (m : Merging α) : Prop where
  first : Ordered before P (m.merged.reverse ++ m.first)
  second : Ordered before P (m.merged.reverse ++ m.second)
  last : ∃ x, m.first.getLast? = some x ∧ ∀ z ∈ m.second, before z x

/-- If something is left to be compared, the head of the first run may be moved. -/
def FirstNext (before : α → α → Bool) (m : Merging α) : Prop :=
  ∀ x y xs z zs, m.first = x :: y :: xs → m.second = z :: zs → before z x = false

/-- If something is left to be compared, the head of the second run may be moved. -/
def SecondNext (before : α → α → Bool) (m : Merging α) : Prop :=
  ∀ x y xs z zs, m.first = x :: y :: xs → m.second = z :: zs → before z x

theorem firstNext_mk {merged : List α} (h : before z x = false) :
    FirstNext before (mk merged (x :: xs) (z :: zs)) := by
  rintro _ _ _ _ _ ⟨⟩ ⟨⟩
  exact h

theorem secondNext_mk {merged : List α} (h : before z x) :
    SecondNext before (mk merged (x :: xs) (z :: zs)) := by
  rintro _ _ _ _ _ ⟨⟩ ⟨⟩
  exact h

/-- Until the end, there are two elements at least in the first run and one in the second. -/
theorem exists_of_isFinished_eq_false (h : m.isFinished = false) :
    ∃ x y xs z zs, m.first = x :: y :: xs ∧ m.second = z :: zs := by
  unfold isFinished at h
  split at h
  · exact ⟨_, _, _, _, _, rfl, rfl⟩
  · cases h

theorem second_eq_nil {y : α} (h : m.isFinished) (hfirst : m.first = x :: y :: xs) :
    m.second = [] := by
  obtain ⟨merged, first, second⟩ := m
  subst hfirst
  cases second with
  | nil => rfl
  | cons => cases h

/-! ### Moving elements -/

@[simp] theorem reverse_merged_moveFirst :
    (m.moveFirst n).merged.reverse = m.merged.reverse ++ m.first.take n := by
  rw [moveFirst, List.reverse_append, List.reverse_reverse]

@[simp] theorem reverse_merged_moveSecond :
    (m.moveSecond n).merged.reverse = m.merged.reverse ++ m.second.take n := by
  rw [moveSecond, List.reverse_append, List.reverse_reverse]

namespace Invariant

theorem ordered_first (h : m.Invariant before P) : Ordered before P m.first :=
  (Ordered.append_iff.mp h.first).2.1

theorem ordered_second (h : m.Invariant before P) : Ordered before P m.second :=
  (Ordered.append_iff.mp h.second).2.1

/-- Elements may be moved from the first run if no element of the second stands before them. -/
theorem moveFirst (h : m.Invariant before P) (hn : n < m.first.length)
    (hle : ∀ x ∈ m.first.take n, ∀ z ∈ m.second, before z x = false) :
    (m.moveFirst n).Invariant before P where
  first := by
    rw [reverse_merged_moveFirst, List.append_assoc]
    exact (List.take_append_drop n m.first).symm ▸ h.first
  second := by
    have hfirst := h.first
    rw [← List.take_append_drop n m.first, ← List.append_assoc, Ordered.append_iff] at hfirst
    obtain ⟨-, hsecond, hcross⟩ := Ordered.append_iff.mp h.second
    rw [reverse_merged_moveFirst]
    exact Ordered.append_iff.mpr ⟨hfirst.1, hsecond, List.forall_mem_append.mpr ⟨hcross, hle⟩⟩
  last := by
    obtain ⟨x, hx, hbefore⟩ := h.last
    refine ⟨x, ?_, hbefore⟩
    rw [Merging.moveFirst, List.getLast?_drop, if_neg (Nat.not_le.mpr hn), hx]

/-- Elements may be moved from the second run if they stand before all of the first. -/
theorem moveSecond (h : m.Invariant before P)
    (hle : ∀ z ∈ m.second.take n, ∀ x ∈ m.first, before x z = false) :
    (m.moveSecond n).Invariant before P where
  first := by
    have hsecond := h.second
    rw [← List.take_append_drop n m.second, ← List.append_assoc, Ordered.append_iff] at hsecond
    obtain ⟨-, hfirst, hcross⟩ := Ordered.append_iff.mp h.first
    rw [reverse_merged_moveSecond]
    exact Ordered.append_iff.mpr ⟨hsecond.1, hfirst, List.forall_mem_append.mpr ⟨hcross, hle⟩⟩
  second := by
    rw [reverse_merged_moveSecond, List.append_assoc]
    exact (List.take_append_drop n m.second).symm ▸ h.second
  last := by
    obtain ⟨x, hx, hbefore⟩ := h.last
    exact ⟨x, hx, fun z hz => hbefore z (List.mem_of_mem_drop hz)⟩

variable (ho : OrdersOn before P)
include ho

/-- What the head of the other run does not stand before, none of it stands before. -/
theorem forall_second (h : m.Invariant before P) (hsecond : m.second = z :: zs) (hx : P x)
    (hzx : before z x = false) : ∀ w ∈ m.second, before w x = false := by
  have hordered := h.ordered_second
  rw [hsecond] at hordered ⊢
  exact hordered.forall_of_head ho hx hzx

theorem forall_first (h : m.Invariant before P) (hfirst : m.first = x :: xs) (hz : P z)
    (hxz : before x z = false) : ∀ w ∈ m.first, before w z = false := by
  have hordered := h.ordered_first
  rw [hfirst] at hordered ⊢
  exact hordered.forall_of_head ho hz hxz

/-- The head of the first run may be moved where it is the next. -/
theorem takeFirst (h : m.Invariant before P) (hnext : m.FirstNext before) :
    m.takeFirst.Invariant before P := by
  rw [Merging.takeFirst]
  split
  · exact h
  · next hunfinished =>
      obtain ⟨x, y, xs, z, zs, hfirst, hsecond⟩ :=
        exists_of_isFinished_eq_false (Bool.eq_false_iff.mpr hunfinished)
      have hx : P x := h.ordered_first.property x (by simp [hfirst])
      refine h.moveFirst (by simp [hfirst]) ?_
      rw [hfirst, List.take_succ_cons, List.take_zero, List.forall_mem_singleton]
      exact h.forall_second ho hsecond hx (hnext x y xs z zs hfirst hsecond)

/-- The head of the second run may be moved where it is the next. -/
theorem takeSecond (h : m.Invariant before P) (hnext : m.SecondNext before) :
    m.takeSecond.Invariant before P := by
  rw [Merging.takeSecond]
  split
  · exact h
  · next hunfinished =>
      obtain ⟨x, y, xs, z, zs, hfirst, hsecond⟩ :=
        exists_of_isFinished_eq_false (Bool.eq_false_iff.mpr hunfinished)
      have hx : P x := h.ordered_first.property x (by simp [hfirst])
      have hz : P z := h.ordered_second.property z (by simp [hsecond])
      refine h.moveSecond ?_
      rw [hsecond, List.take_succ_cons, List.take_zero, List.forall_mem_singleton]
      exact h.forall_first ho hfirst hz (ho.asymm hz hx (hnext x y xs z zs hfirst hsecond))

/-- A gallop through the first run ends in front of an element that the second run goes before. -/
theorem gallopFirst (h : m.Invariant before P) (d : Direction) :
    (m.gallopFirst before d).1.Invariant before P ∧
      (m.gallopFirst before d).1.SecondNext before := by
  cases hfinished : m.isFinished with
  -- a finished merge has nothing in its second run, so that nothing is promised
  | true =>
      rw [Merging.gallopFirst, hfinished]
      refine ⟨h, fun x y xs z zs hfirst hsecond => ?_⟩
      cases hsecond.symm.trans (second_eq_nil hfinished hfirst)
  | false =>
      obtain ⟨_, _, _, z, zs, -, hsecond⟩ := exists_of_isFinished_eq_false hfinished
      have hz : z ∈ m.second := hsecond ▸ List.mem_cons_self
      have hends := endsAt_leading d
        (h.ordered_first.pairwise_not_before ho (h.ordered_second.property z hz))
      rw [Merging.gallopFirst, hfinished, hsecond]
      dsimp only
      generalize leading d (fun x => !before z x) m.first = n at hends ⊢
      refine ⟨h.moveFirst ?_ fun x hx => ?_, fun x y xs w ws hfirst hw => ?_⟩
      · -- the last element stays
        by_contra hle
        obtain ⟨x, hx, hbefore⟩ := h.last
        have hmem : x ∈ m.first.take n := by
          rw [List.take_of_length_le (Nat.le_of_not_lt hle)]
          exact List.mem_of_getLast? hx
        have hnot := hends.of_mem_take x hmem
        simp [hbefore z hz] at hnot
      -- what moves does not come after the second run
      · exact h.forall_second ho hsecond (h.ordered_first.property x (List.mem_of_mem_take hx))
          ((Bool.not_eq_true' _).mp (hends.of_mem_take x hx))
      -- what is left begins behind the head of the second run
      · obtain rfl : z = w := (List.cons.inj (hsecond.symm.trans hw)).1
        have hx : x ∈ m.first.drop n := List.mem_of_mem_head? (congrArg List.head? hfirst)
        exact (Bool.not_eq_false' _).mp (hends.of_mem_drop x hx)

/-- A gallop through the second run ends in front of an element that does not go first. -/
theorem gallopSecond (h : m.Invariant before P) (d : Direction) :
    (m.gallopSecond before d).1.Invariant before P ∧
      (m.gallopSecond before d).1.FirstNext before := by
  cases hfinished : m.isFinished with
  | true =>
      rw [Merging.gallopSecond, hfinished]
      refine ⟨h, fun x y xs z zs hfirst hsecond => ?_⟩
      cases hsecond.symm.trans (second_eq_nil hfinished hfirst)
  | false =>
      obtain ⟨x, y, xs, _, _, hfirst, -⟩ := exists_of_isFinished_eq_false hfinished
      have hx : P x := h.ordered_first.property x (hfirst ▸ List.mem_cons_self)
      have hends := endsAt_leading d (h.ordered_second.pairwise_before ho hx)
      rw [Merging.gallopSecond, hfinished, hfirst]
      dsimp only
      generalize leading d (fun z => before z x) m.second = n at hends ⊢
      -- what moves comes before the first run
      refine ⟨h.moveSecond fun z hz => ?_, fun w _ _ z zs hw hsecond => ?_⟩
      · have hz' := h.ordered_second.property z (List.mem_of_mem_take hz)
        exact h.forall_first ho hfirst hz' (ho.asymm hz' hx (hends.of_mem_take z hz))
      -- what is left begins with nothing that does
      · obtain rfl : x = w := (List.cons.inj (hfirst.symm.trans hw)).1
        have hz : z ∈ m.second.drop n := List.mem_of_mem_head? (congrArg List.head? hsecond)
        exact hends.of_mem_drop z hz

/-- Every step compares the heads and moves the one that comes first. -/
theorem alternate (h : m.Invariant before P) (patience : Nat) (isSecond : Bool) (streak : Nat) :
    (Merging.alternate before patience isSecond streak m.merged m.first m.second).Invariant
      before P := by
  -- the comparison of each step says which of the two heads may be taken
  obtain ⟨merged, first, second⟩ := m
  dsimp only
  fun_induction Merging.alternate before patience isSecond streak merged first second with
  | case1 _ _ _ x y xs z zs hzx => exact h.takeSecond ho (secondNext_mk hzx)
  | case2 _ _ _ x y xs z zs hzx _ _ ih => exact ih (h.takeSecond ho (secondNext_mk hzx))
  | case3 _ _ _ x y xs z zs hzx => exact h.takeFirst ho (firstNext_mk (Bool.eq_false_iff.mpr hzx))
  | case4 _ _ _ x y xs z zs hzx _ _ ih =>
      exact ih (h.takeFirst ho (firstNext_mk (Bool.eq_false_iff.mpr hzx)))
  | case5 => exact h

/-- In a round each run moves a stretch, and then the element of the other run that ended the
stretch. -/
theorem round (h : m.Invariant before P) (d : Direction) :
    (m.round before d).1.Invariant before P := by
  cases d with
  | forward =>
      obtain ⟨hstretch, hsecond⟩ := h.gallopFirst ho .forward
      obtain ⟨hother, hfirst⟩ := (hstretch.takeSecond ho hsecond).gallopSecond ho .forward
      exact hother.takeFirst ho hfirst
  | backward =>
      obtain ⟨hstretch, hfirst⟩ := h.gallopSecond ho .backward
      obtain ⟨hother, hsecond⟩ := (hstretch.takeFirst ho hfirst).gallopFirst ho .backward
      exact hother.takeSecond ho hsecond

/-- To go on to the end is to take one round, or to alternate, time and again. -/
theorem finish (h : m.Invariant before P) (d : Direction) (fuel : Nat) (galloping : Bool)
    (patience : Nat) : (m.finish before d fuel galloping patience).1.Invariant before P := by
  -- The invariant holds after each stretch, so that it does not matter how many there are.
  induction fuel generalizing galloping patience m with
  | zero => exact h
  | succ fuel ih =>
      cases galloping with
      | true =>
          have hround := h.round ho d
          rw [Merging.finish]
          dsimp only
          split
          · exact hround
          · split
            · exact ih hround _ _
            · exact ih hround _ _
      | false =>
          have halternate := h.alternate ho patience false 0
          rw [Merging.finish]
          split
          · exact halternate
          · exact ih halternate _ _

/-- When nothing is left to be compared, the merged run is in order. -/
theorem ordered_result (h : m.Invariant before P) (hfinished : m.isFinished) :
    Ordered before P m.result := by
  obtain ⟨x, hx, hbefore⟩ := h.last
  match hfirst : m.first with
  | [] =>
      rw [hfirst] at hx
      cases hx
  | [y] =>
      -- what is left of the second run goes in front of the last element
      rw [hfirst] at hx
      obtain rfl : y = x := Option.some.inj hx
      obtain ⟨-, hlast, hcross⟩ := Ordered.append_iff.mp h.first
      rw [hfirst] at hlast hcross
      have hy : P y := hlast.property y (List.mem_singleton_self y)
      rw [result, hfirst]
      refine Ordered.append_iff.mpr ⟨h.second, hlast, List.forall_mem_append.mpr ⟨hcross, ?_⟩⟩
      intro z hz
      rw [List.forall_mem_singleton]
      exact ho.asymm (h.ordered_second.property z hz) hy (hbefore z hz)
  | y :: w :: rest =>
      rw [result, second_eq_nil hfinished hfirst, List.append_nil]
      exact h.first

end Invariant

/-! ### Coming to the end -/

def size (m : Merging α) : Nat := m.first.length + m.second.length

/-- Elements are moved, or nothing changes. -/
def Advances (m m' : Merging α) : Prop := m'.size < m.size ∨ m' = m

theorem Advances.size_le {m m' : Merging α} (h : m.Advances m') : m'.size ≤ m.size := by
  obtain h | rfl := h
  · exact Nat.le_of_lt h
  · exact Nat.le_refl _

/-- Moving takes elements away, or there was nothing to be moved. -/
theorem advances_moveFirst (m : Merging α) (n : Nat) : m.Advances (m.moveFirst n) := by
  obtain ⟨merged, first, second⟩ := m
  cases first with
  | nil => exact .inr (by simp [moveFirst])
  | cons x xs =>
      cases n with
      | zero => exact .inr rfl
      | succ n =>
          refine .inl ?_
          simp only [size, moveFirst, List.drop_succ_cons, List.length_drop, List.length_cons]
          omega

theorem advances_moveSecond (m : Merging α) (n : Nat) : m.Advances (m.moveSecond n) := by
  obtain ⟨merged, first, second⟩ := m
  cases second with
  | nil => exact .inr (by simp [moveSecond])
  | cons z zs =>
      cases n with
      | zero => exact .inr rfl
      | succ n =>
          refine .inl ?_
          simp only [size, moveSecond, List.drop_succ_cons, List.length_drop, List.length_cons]
          omega

variable (before)

theorem advances_gallopFirst (d : Direction) (m : Merging α) :
    m.Advances (gallopFirst before d m).1 := by
  rw [gallopFirst]
  split
  · exact advances_moveFirst m _
  · exact .inr rfl

theorem advances_gallopSecond (d : Direction) (m : Merging α) :
    m.Advances (gallopSecond before d m).1 := by
  rw [gallopSecond]
  split
  · exact advances_moveSecond m _
  · exact .inr rfl

theorem advances_takeFirst (m : Merging α) : m.Advances m.takeFirst := by
  rw [takeFirst]
  split
  · exact .inr rfl
  · exact advances_moveFirst m 1

theorem advances_takeSecond (m : Merging α) : m.Advances m.takeSecond := by
  rw [takeSecond]
  split
  · exact .inr rfl
  · exact advances_moveSecond m 1

/-- Before the end there is something to be taken. -/
theorem size_takeFirst_lt (h : m.isFinished = false) : m.takeFirst.size < m.size := by
  obtain ⟨x, y, xs, z, zs, hfirst, hsecond⟩ := exists_of_isFinished_eq_false h
  simp [takeFirst, h, size, moveFirst, hfirst]

theorem size_takeSecond_lt (h : m.isFinished = false) : m.takeSecond.size < m.size := by
  obtain ⟨x, y, xs, z, zs, hfirst, hsecond⟩ := exists_of_isFinished_eq_false h
  simp [takeSecond, h, size, moveSecond, hsecond]

/-- A stretch is moved, or else the element that ends it. -/
theorem size_round_lt (d : Direction) (h : m.isFinished = false) :
    (m.round before d).1.size < m.size := by
  -- Galloping alone may leave all as it is, but then the next element is taken.
  cases d with
  | forward =>
      have hstretch : (gallopFirst before .forward m).1.takeSecond.size < m.size := by
        obtain hlt | heq := advances_gallopFirst before .forward m
        · exact Nat.lt_of_le_of_lt (advances_takeSecond _).size_le hlt
        · rw [heq]
          exact size_takeSecond_lt h
      calc (m.round before .forward).1.size
        _ ≤ (gallopSecond before .forward (gallopFirst before .forward m).1.takeSecond).1.size :=
            (advances_takeFirst _).size_le
        _ ≤ (gallopFirst before .forward m).1.takeSecond.size :=
            (advances_gallopSecond before .forward _).size_le
        _ < m.size := hstretch
  | backward =>
      have hstretch : (gallopSecond before .backward m).1.takeFirst.size < m.size := by
        obtain hlt | heq := advances_gallopSecond before .backward m
        · exact Nat.lt_of_le_of_lt (advances_takeFirst _).size_le hlt
        · rw [heq]
          exact size_takeFirst_lt h
      calc (m.round before .backward).1.size
        _ ≤ (gallopFirst before .backward (gallopSecond before .backward m).1.takeFirst).1.size :=
            (advances_takeSecond _).size_le
        _ ≤ (gallopSecond before .backward m).1.takeFirst.size :=
            (advances_gallopFirst before .backward _).size_le
        _ < m.size := hstretch

theorem size_alternate_le (patience : Nat) (isSecond : Bool) (streak : Nat)
    (merged first second : List α) :
    (alternate before patience isSecond streak merged first second).size ≤
      first.length + second.length := by
  fun_induction alternate before patience isSecond streak merged first second with
  | case1 => simp [size]
  | case2 _ _ _ _ _ _ _ _ _ _ _ ih => exact Nat.le_trans ih (by simp)
  | case3 => simp [size]
  | case4 _ _ _ _ _ _ _ _ _ _ _ ih => exact Nat.le_trans ih (by simp)
  | case5 => exact Nat.le_refl _

/-- Alternating takes one element at least, so that a merge comes to an end. -/
theorem size_alternate_lt (patience : Nat) (isSecond : Bool) (streak : Nat)
    (h : m.isFinished = false) :
    (alternate before patience isSecond streak m.merged m.first m.second).size < m.size := by
  obtain ⟨x, y, xs, z, zs, hfirst, hsecond⟩ := exists_of_isFinished_eq_false h
  rw [size, size, hfirst, hsecond, alternate, ← size]
  split
  · extract_lets streak
    split
    · simp [size]
    · exact Nat.lt_of_le_of_lt (size_alternate_le before _ _ _ _ _ _) (by simp)
  · extract_lets streak
    split
    · simp [size]
    · exact Nat.lt_of_le_of_lt (size_alternate_le before _ _ _ _ _ _) (by simp)

/-- With as much fuel as there are elements, a merge comes to its end. -/
theorem isFinished_finish (d : Direction) {fuel : Nat} (galloping : Bool) (patience : Nat)
    (h : m.isFinished = false) (hfuel : m.size ≤ fuel) :
    (m.finish before d fuel galloping patience).1.isFinished := by
  induction fuel generalizing galloping patience m with
  | zero =>
      -- without fuel nothing can be left, but then the merge is finished
      have hlt := size_takeFirst_lt h
      omega
  | succ fuel ih =>
      cases galloping with
      | true =>
          have hround := size_round_lt before d h
          rw [Merging.finish]
          dsimp only
          split
          · assumption
          · next hunfinished =>
              have hrest (galloping : Bool) (patience : Nat) :=
                ih galloping patience (Bool.eq_false_iff.mpr hunfinished) (by omega)
              split
              · exact hrest _ _  -- galloping goes on
              · exact hrest _ _  -- back to taking turns
      | false =>
          have halternate := size_alternate_lt before patience false 0 h
          rw [Merging.finish]
          split
          · assumption
          · next hunfinished =>
              exact ih _ _ (Bool.eq_false_iff.mpr hunfinished) (by omega)

variable {before} {first second : List α} {z x : α}

/-- Two ordered runs are merged to one, if the head of the second one stands before all of the first
and the last element of the first one behind all of the second. -/
theorem ordered_run (ho : OrdersOn before P) (d : Direction) (patience : Nat)
    (hfirst : Ordered before P first) (hsecond : Ordered before P second)
    (hhead : second.head? = some z) (hbefore : ∀ x ∈ first, before z x)
    (hlast : first.getLast? = some x) (hbehind : ∀ z ∈ second, before z x) :
    Ordered before P (run before d patience first second).1 := by
  obtain ⟨zs, rfl⟩ := List.head?_eq_some_iff.mp hhead
  have hstart : ((mk [] first (z :: zs)).moveSecond 1).Invariant before P := by
    refine Invariant.moveSecond ⟨hfirst, hsecond, x, hlast, hbehind⟩ ?_
    rw [List.take_succ_cons, List.take_zero, List.forall_mem_singleton]
    exact fun x hx => ho.asymm (hsecond.property z List.mem_cons_self) (hfirst.property x hx)
      (hbefore x hx)
  rw [run]
  dsimp only
  split
  · next hfinished => exact hstart.ordered_result ho hfinished
  · next hunfinished =>
      refine (hstart.finish ho d _ _ _).ordered_result ho
        (isFinished_finish before d _ _ (Bool.eq_false_iff.mpr hunfinished) ?_)
      simp only [size, moveSecond, List.drop_succ_cons, List.drop_zero, List.length_cons]
      omega

/-- Two ordered runs are merged to one from their ends. -/
theorem ordered_run_reverse (ho : OrdersOn before P) (d : Direction) (patience : Nat)
    (hfirst : Ordered before P first) (hsecond : Ordered before P second)
    (hhead : second.head? = some z) (hbefore : ∀ x ∈ first, before z x)
    (hlast : first.getLast? = some x) (hbehind : ∀ z ∈ second, before z x) :
    Ordered before P
      (run (fun x y => before y x) d patience second.reverse first.reverse).1.reverse := by
  have hordered := ordered_run ho.flip d patience hsecond.reverse hfirst.reverse
    (List.head?_reverse.trans hlast) (fun y hy => hbehind y (List.mem_reverse.mp hy))
    (List.getLast?_reverse.trans hhead) (fun y hy => hbefore y (List.mem_reverse.mp hy))
  exact hordered.reverse

end Merging

/-! ## Runs side by side -/

variable {left right : List α}

/-- What is merged lies between the elements that stay out of the merge. -/
theorem ordered_between {low first second high merged : List α}
    (hleft : Ordered before P (low ++ first)) (hright : Ordered before P (second ++ high))
    (hlow : ∀ x ∈ low, ∀ y ∈ second ++ high, before y x = false)
    (hhigh : ∀ x ∈ low ++ first, ∀ y ∈ high, before y x = false)
    (hmerged : Ordered before P merged) (hperm : merged.Perm (first ++ second)) :
    Ordered before P (low ++ merged ++ high) := by
  obtain ⟨hlowOrdered, -, hfirst⟩ := Ordered.append_iff.mp hleft
  obtain ⟨-, hhighOrdered, hsecond⟩ := Ordered.append_iff.mp hright
  have hmem : ∀ x ∈ merged, x ∈ first ∨ x ∈ second :=
    fun x hx => List.mem_append.mp (hperm.mem_iff.mp hx)
  have hlowMerged : Ordered before P (low ++ merged) := by
    refine Ordered.append_iff.mpr ⟨hlowOrdered, hmerged, fun x hx y hy => ?_⟩
    obtain hy | hy := hmem y hy
    · exact hfirst x hx y hy
    · exact hlow x hx y (List.mem_append_left _ hy)
  refine Ordered.append_iff.mpr ⟨hlowMerged, hhighOrdered, fun x hx y hy => ?_⟩
  obtain hx | hx := List.mem_append.mp hx
  · exact hhigh x (List.mem_append_left _ hx) y hy
  · obtain hx | hx := hmem x hx
    · exact hhigh x (List.mem_append_right _ hx) y hy
    · exact hsecond x hx y hy

/-- The elements of the left run that stay out of a merge do not stand behind the head of the right
one, and the others do. -/
theorem forall_low (ho : OrdersOn before P) (d : Direction) (hleft : Ordered before P left)
    (hright : Ordered before P right) {head : α} (hhead : right.head? = some head) :
    (∀ x ∈ left.take (leading d (fun x => !before head x) left),
      ∀ y ∈ right, before y x = false) ∧
    ∀ x ∈ left.drop (leading d (fun x => !before head x) left), before head x := by
  have hends := endsAt_leading d
    (hleft.pairwise_not_before ho (hright.property head (List.mem_of_mem_head? hhead)))
  obtain ⟨rest, rfl⟩ := List.head?_eq_some_iff.mp hhead
  constructor
  · exact fun x hx => hright.forall_of_head ho (hleft.property x (List.mem_of_mem_take hx))
      ((Bool.not_eq_true' _).mp (hends.of_mem_take x hx))
  · exact fun x hx => (Bool.not_eq_false' _).mp (hends.of_mem_drop x hx)

/-- The same of the right run, seen from the end. -/
theorem forall_high (ho : OrdersOn before P) (d : Direction) (hleft : Ordered before P left)
    (hright : Ordered before P right) {last : α} (hlast : left.getLast? = some last) {n : Nat}
    (hn : right.length - leading d (fun y => !before y last) right.reverse = n) :
    (∀ x ∈ left, ∀ y ∈ right.drop n, before y x = false) ∧ ∀ y ∈ right.take n, before y last := by
  obtain ⟨hhigh, hsecond⟩ := forall_low ho.flip d hright.reverse hleft.reverse
    (List.head?_reverse.trans hlast)
  rw [List.take_reverse, hn] at hhigh
  rw [List.drop_reverse, hn] at hsecond
  constructor
  · exact fun x hx y hy => hhigh y (List.mem_reverse.mpr hy) x (List.mem_reverse.mpr hx)
  · exact fun y hy => hsecond y (List.mem_reverse.mpr hy)

/-- Two ordered runs are merged to one. -/
theorem ordered_merge (ho : OrdersOn before P) (patience : Nat) (hleft : Ordered before P left)
    (hright : Ordered before P right) : Ordered before P (merge before patience left right).1 := by
  rw [merge]
  split
  · next last head hlast hhead =>
      -- the parts that are in place already are found by galloping from both ends
      obtain ⟨hlow, hfirst⟩ := forall_low ho .forward hleft hright hhead
      obtain ⟨hhigh, hsecond⟩ := forall_high ho .backward hleft hright hlast rfl
      dsimp only
      -- from here on only the parts matter, not how their ends were found
      generalize leading .forward (fun x => !before head x) left = low at hlow hfirst ⊢
      generalize right.length - leading .backward (fun y => !before y last) right.reverse = high
        at hhigh hsecond ⊢
      have hleftParts := List.take_append_drop low left
      have hrightParts := List.take_append_drop high right
      split
      · next hempty =>
          -- one of the runs stays out as a whole
          refine Ordered.append_iff.mpr ⟨hleft, hright, ?_⟩
          obtain hnil | hnil := (Bool.or_eq_true _ _).mp hempty
          · rw [List.isEmpty_iff.mp hnil, List.append_nil] at hleftParts
            rwa [hleftParts] at hlow
          · rw [List.isEmpty_iff.mp hnil, List.nil_append] at hrightParts
            rwa [hrightParts] at hhigh
      · next hnonempty =>
          obtain ⟨hfirstNe, hsecondNe⟩ : left.drop low ≠ [] ∧ right.take high ≠ [] := by
            simpa only [Bool.or_eq_true, List.isEmpty_iff, not_or] using hnonempty
          have hhead' : (right.take high).head? = some head := by
            rw [← hhead, ← List.head?_append_of_ne_nil _ hsecondNe, hrightParts]
          have hlast' : (left.drop low).getLast? = some last := by
            rw [← hlast, ← List.getLast?_append_of_ne_nil _ hfirstNe, hleftParts]
          -- whatever order the merged part gets, the parts outside fit around it
          have houter (merged : List α) (hmerged : Ordered before P merged)
              (hperm : merged.Perm (left.drop low ++ right.take high)) :
              Ordered before P (left.take low ++ merged ++ right.drop high) :=
            ordered_between (hleftParts.symm ▸ hleft) (hrightParts.symm ▸ hright)
              (hrightParts.symm ▸ hlow) (hleftParts.symm ▸ hhigh) hmerged hperm
          split
          · exact houter _ (Merging.ordered_run ho .forward patience (hleft.drop low)
              (hright.take high) hhead' hfirst hlast' hsecond) (Merging.run_perm ..)
          · exact houter _ (Merging.ordered_run_reverse ho .backward patience (hleft.drop low)
              (hright.take high) hhead' hfirst hlast' hsecond) (Merging.run_reverse_perm ..)
  · next hnone =>  -- case: one of the runs is empty
      cases left with
      | nil => exact hright
      | cons x xs =>
          cases right with
          | nil => rwa [List.append_nil]
          | cons y ys => exact (hnone _ y List.getLast?_cons rfl).elim

end Feedforward.Sorting
