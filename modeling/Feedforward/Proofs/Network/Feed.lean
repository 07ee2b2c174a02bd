import Feedforward.Network.Run
import Feedforward.Proofs.Network.Positions

/-!
# The vector for a group

Vectors are handed in by group or in the order of the sources, and a network that accepts them looks
them up by position. `Feed.vector?` is the reading by group:

    accept g feed = .ok given  →  given.lookup (position of h) = feed.vector? sources h,

so that what a run makes of a vector can be said without positions (`Follows.lookup_of_accept`).
-/

namespace Feedforward

/-- The vector for a group: the one at the place that the group has among the sources, or the last
one given for it. -/
def Feed.vector? {V : Type} (feed : Feed V) (sources : List Handle) (h : Handle) : Option V :=
  match feed with
  | .aligned values => (sources.zip values).lookup h
  | .keyed entries => entries.reverse.lookup h

/-- The positions that pass a test hold the elements that do, in the same order. -/
theorem forall₂_filter_range {α : Type} (p : α → Bool) (xs : List α) :
    List.Forall₂ (fun i x => xs[i]? = some x)
      ((List.range xs.length).filter fun i => xs[i]?.any p) (xs.filter p) := by
  induction xs with
  | nil => exact .nil
  | cons x xs ih =>
      have htail : List.Forall₂ (fun i y => (x :: xs)[i]? = some y)
          (((List.range xs.length).filter fun i => xs[i]?.any p).map Nat.succ) (xs.filter p) :=
        List.forall₂_map_left_iff.mpr ih
      have hrange : ((List.range (x :: xs).length).filter fun i => (x :: xs)[i]?.any p) =
          (if p x then [0] else []) ++
            ((List.range xs.length).filter fun i => xs[i]?.any p).map Nat.succ := by
        rw [List.length_cons, List.range_succ_eq_map, List.filter_cons, List.filter_map]
        cases hx : p x <;> simp [hx, Function.comp_def]
      rw [hrange, List.filter_cons]
      cases hx : p x with
      | true => exact .cons rfl htail
      | false => exact htail

theorem lookup_cons_eq_ite {V : Type} (j k : Nat) (v : V) (rest : List (Nat × V)) :
    ((k, v) :: rest).lookup j = if j = k then some v else rest.lookup j := by
  rw [List.lookup_cons]
  by_cases hj : j = k
  · rw [if_pos hj, beq_iff_eq.mpr hj]
  · rw [if_neg hj, beq_eq_false_iff_ne.mpr hj]

namespace Network

variable {A V : Type} {g : Graph A} {net : Network A} {output : Handle}

theorem forall₂_sources :
    List.Forall₂ (fun i h => net.groups[i]? = some h) (net.sources g)
      (net.groups.filter g.isSource) := by
  rw [sources_eq]
  exact forall₂_filter_range g.isSource net.groups

/-- Of vectors that are given for one position the last one counts. -/
@[simp] theorem lookup_give (given : List (Nat × V)) (i j : Nat) (v : V) :
    (give given i v).lookup j = if j = i then some v else given.lookup j := by
  induction given with
  | nil => exact lookup_cons_eq_ite j i v []
  | cons entry rest ih =>
      obtain ⟨k, w⟩ := entry
      rw [give]
      by_cases hk : k = i
      · rw [if_pos hk, lookup_cons_eq_ite, lookup_cons_eq_ite, hk]
        by_cases hj : j = i
        · rw [if_pos hj, if_pos hj]
        · rw [if_neg hj, if_neg hj, if_neg hj]
      · rw [if_neg hk, lookup_cons_eq_ite, lookup_cons_eq_ite, ih]
        by_cases hj : j = k
        · rw [if_pos hj, if_pos hj, if_neg (hj ▸ hk)]
        · rw [if_neg hj, if_neg hj]

namespace Follows

/-- In a network that follows an order, positions and groups determine each other. -/
theorem eq_iff_of_getElem?_groups (hnet : net.Follows g output) {i j : Nat} {h k : Handle}
    (hi : net.groups[i]? = some h) (hj : net.groups[j]? = some k) : i = j ↔ h = k := by
  constructor
  · rintro rfl
    exact Option.some.inj (hi.symm.trans hj)
  · rintro rfl
    exact (List.getElem?_inj (List.getElem?_eq_some_iff.mp hi).1 (Graph.nodup_order hnet)).mp
      (hi.trans hj.symm)

/-- Entries that are located give each position the vector of the last entry for its group. -/
theorem lookup_locate (hnet : net.Follows g output) {entries : List (Handle × V)}
    {start given : List (Nat × V)} {i : Nat} {h : Handle} (hi : net.groups[i]? = some h)
    (hlocate : entries.foldlM (fun given (h, v) => return give given (← net.index h) v) start =
      (.ok given : Except NetworkError _)) :
    given.lookup i = (entries.reverse.lookup h).or (start.lookup i) := by
  -- Each entry is put in front of those before it, so the start is what changes along the list.
  induction entries generalizing start with
  | nil =>
      obtain rfl : start = given := Except.ok.inj hlocate
      rfl
  | cons entry rest ih =>
      obtain ⟨k, v⟩ := entry
      rw [List.foldlM_cons, bind_eq_ok_iff] at hlocate
      obtain ⟨next, hnext, hrest⟩ := hlocate
      obtain ⟨j, hj, hnext⟩ := bind_eq_ok_iff.mp hnext
      obtain rfl : give start j v = next := Except.ok.inj hnext
      rw [ih hrest, lookup_give, List.reverse_cons, List.lookup_append, Option.or_assoc]
      -- the entry counts for `i` exactly if it is one for the group at `i`
      have hsame := hnet.eq_iff_of_getElem?_groups hi (hnet.index_eq_ok_iff.mp hj)
      rw [lookup_cons_eq_ite, List.lookup_nil]
      by_cases hk : h = k
      · rw [if_pos hk, if_pos (hsame.mpr hk), Option.some_or]
      · rw [if_neg hk, if_neg (mt hsame.mp hk), Option.none_or]

/-- A position finds the vector that the group there finds. -/
theorem lookup_zip (hnet : net.Follows g output) {is : List Nat} {hs : List Handle}
    (hall : List.Forall₂ (fun i h => net.groups[i]? = some h) is hs) (values : List V) {i : Nat}
    {h : Handle} (hi : net.groups[i]? = some h) :
    (is.zip values).lookup i = (hs.zip values).lookup h := by
  induction hall generalizing values with
  | nil => rfl
  | @cons j k is hs hj hall ih =>
      match values with
      | [] => rfl
      | v :: values =>
          have hsame := hnet.eq_iff_of_getElem?_groups hi hj
          rw [List.zip_cons_cons, List.zip_cons_cons, lookup_cons_eq_ite, lookup_cons_eq_ite,
            ih values]
          exact if_congr hsame rfl rfl

/-- What a network that accepts vectors looks up at the position of a group is the vector for the
group. -/
theorem lookup_of_accept (hnet : net.Follows g output) {feed : Feed V} {given : List (Nat × V)}
    (haccept : net.accept g feed = .ok given) {i : Nat} {h : Handle}
    (hi : net.groups[i]? = some h) :
    given.lookup i = feed.vector? (net.groups.filter g.isSource) h := by
  cases feed with
  | aligned values =>
      rw [accept] at haccept
      split at haccept
      · obtain rfl : (net.sources g).zip values = given := Except.ok.inj haccept
        exact hnet.lookup_zip forall₂_sources values hi
      · cases haccept
  | keyed entries =>
      obtain ⟨located, hlocate, hrest⟩ := bind_eq_ok_iff.mp haccept
      -- no entry is refused, so that what was located is what is given
      obtain rfl : located = given := by
        dsimp only at hrest
        split at hrest
        · cases hrest
        · split at hrest
          · cases hrest
          · exact Except.ok.inj hrest
      rw [hnet.lookup_locate hi hlocate, List.lookup_nil, Option.or_none]
      rfl

end Follows

end Network

end Feedforward
