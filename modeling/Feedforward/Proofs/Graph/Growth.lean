import Feedforward.Proofs.Graph.Reach

/-!
# Growing graphs

A graph *grows* when groups are added to it one after the other, each under the next handle and
reading from groups that are there already (`Grows`); a declaration that is refused uses up a handle
and adds nothing. All that is added has new handles and reads from smaller ones, and what was there
stays as it was (`Extends`):

    Grows g made g'  →  (group? g' h = some t  ↔  group? g h = some t ∨ (h, t) ∈ made).

So a group reaches the same groups before and after, in the same order.
-/

namespace Feedforward

variable {A : Type}

/-! ## Groups that stay -/

/-- All groups of a graph are there in another one, unchanged. -/
def Graph.Extends (g g' : Graph A) : Prop :=
  ∀ (h : Handle) (t : Group A), g.group? h = some t → g'.group? h = some t

theorem Graph.Extends.refl (g : Graph A) : g.Extends g := fun _ _ ht => ht

theorem Graph.Extends.trans {g g' g'' : Graph A} (h : g.Extends g') (h' : g'.Extends g'') :
    g.Extends g'' :=
  fun k t ht => h' k t (h k t ht)

namespace Graph

variable {g g' g'' : Graph A} {h u v : Handle} {t : Group A}

/-- A place at the end changes no group. -/
theorem extends_push (g : Graph A) (place : Option (Group A)) :
    g.Extends ⟨g.places.push place⟩ := by
  intro h t ht
  have hlt : h < g.places.size := group?_lt ht
  rw [group?, Array.getElem?_push_lt hlt, ← Array.getElem?_eq_getElem hlt]
  exact ht

@[simp]
theorem group?_add (g : Graph A) (t : Group A) : (g.add t).2.group? (g.add t).1 = some t := by
  show ((g.places.push (some t))[g.places.size]?).join = some t
  rw [Array.getElem?_push_size]
  rfl

/-- The groups of a graph with one place more are those that it had, and the one at the new place.
-/
theorem group?_push_iff {place : Option (Group A)} :
    (⟨g.places.push place⟩ : Graph A).group? h = some t ↔
      g.group? h = some t ∨ h = g.next ∧ place = some t := by
  rw [group?, group?, Array.getElem?_push, next]
  by_cases hh : h = g.places.size
  · simp [hh]
  · simp [hh]

/-- A group of the graph has the handle. -/
def Has (g : Graph A) (h : Handle) : Prop := ∃ t, g.group? h = some t

instance (g : Graph A) (h : Handle) : Decidable (g.Has h) :=
  decidable_of_iff (g.group? h).isSome Option.isSome_iff_exists

/-- The next handle is greater than those of all groups. -/
theorem Has.lt_next (hh : g.Has h) : h < g.next := by
  obtain ⟨t, ht⟩ := hh
  exact group?_lt ht

theorem Has.mono (hh : g.Has h) (hext : g.Extends g') : g'.Has h := by
  obtain ⟨t, ht⟩ := hh
  exact ⟨t, hext h t ht⟩

/-- Whatever reads from something is a group. -/
theorem has_of_mem_inputs (hu : u ∈ g.inputs v) : g.Has v := by
  match hg : g.group? v with
  | some t => exact ⟨t, hg⟩
  | none => simp [inputs, hg] at hu

/-- Every group reads from groups of the graph. -/
def Grounded (g : Graph A) : Prop := ∀ v, ∀ u ∈ g.inputs v, g.Has u

instance (g : Graph A) : Decidable g.Grounded :=
  decidable_of_iff (∀ v < g.next, ∀ u ∈ g.inputs v, g.Has u)
    ⟨fun h v u hu => h v (lt_next_of_mem_inputs hu) u hu, fun h v _ => h v⟩

/-- What a group reaches are groups of the graph. -/
theorem Grounded.has_of_reaches (hg : g.Grounded) (hv : g.Has v) (hreach : g.Reaches v u) :
    g.Has u :=
  hreach.mem_of_closed (fun w _ => hg w) hv

/-- Groups that stay read from what they read from before. -/
theorem Extends.inputs_eq (hext : g.Extends g') (hv : g.Has v) : g'.inputs v = g.inputs v := by
  obtain ⟨t, ht⟩ := hv
  rw [inputs_of_group? ht, inputs_of_group? (hext v t ht)]

/-- A graph that is extended carries all that its groups reach, under the same handles. -/
theorem Extends.carries (hext : g.Extends g') (hg : g.Grounded) (hv : g.Has v) :
    g.Carries g' id v where
  injective _ _ _ _ heq := heq
  inputs u hu := by
    rw [List.map_id]
    exact hext.inputs_eq (hg.has_of_reaches hv hu)

section Unfolding

variable (hext : g.Extends g') (hg : g.Grounded) (hv : g.Has v) (hacyclic : g.AcyclicFrom v)

include hext hg hv hacyclic

theorem Extends.acyclicFrom : g'.AcyclicFrom v :=
  (hext.carries hg hv).acyclicFrom hacyclic (.refl v)

theorem Extends.preorder_eq : g'.preorder v = g.preorder v := by
  have hpreorder := (hext.carries hg hv).preorder_eq hacyclic
  rwa [List.map_id] at hpreorder

/-- The order of a group depends on nothing but the groups that were there with it. -/
theorem Extends.order_eq : g'.order v = g.order v := by
  rw [order_eq_eraseDups (hext.acyclicFrom hg hv hacyclic), order_eq_eraseDups hacyclic,
    hext.preorder_eq hg hv hacyclic]

end Unfolding

/-! ## One group after the other -/

/-- The groups that are made on the way from one graph to another, with the handles that they get.
Each reads from groups that are there when it is made. -/
inductive Grows : Graph A → List (Handle × Group A) → Graph A → Prop
  | refl (g : Graph A) : Grows g [] g
  | refuse {g g' : Graph A} {made : List (Handle × Group A)} :
      Grows g made g' → Grows g made ⟨g'.places.push none⟩
  | add {g g' : Graph A} {made : List (Handle × Group A)} {t : Group A} :
      Grows g made g' → (∀ u ∈ t.inputs, g'.Has u) →
      Grows g (made ++ [(g'.next, t)]) (g'.add t).2

namespace Grows

variable {made more : List (Handle × Group A)}

theorem trans (hgrows : g.Grows made g') (hmore : g'.Grows more g'') :
    g.Grows (made ++ more) g'' := by
  induction hmore with
  | refl => rwa [List.append_nil]
  | refuse _ ih => exact ih.refuse
  | add _ hinputs ih =>
      rw [← List.append_assoc]
      exact ih.add hinputs

/-- Handles are not given out twice. -/
theorem next_le (hgrows : g.Grows made g') : g.next ≤ g'.next := by
  induction hgrows with
  | refl => exact Nat.le_refl _
  | refuse _ ih => exact Nat.le_trans ih (by simp [next])
  | add _ _ ih => exact Nat.le_trans ih (by simp [next, Graph.add])

/-- The groups of the larger graph are those of the smaller one and those that were made. -/
theorem group?_iff (hgrows : g.Grows made g') :
    g'.group? h = some t ↔ g.group? h = some t ∨ (h, t) ∈ made := by
  induction hgrows with
  | refl => simp
  | refuse _ ih => simp [group?_push_iff, ih]
  | add _ _ ih =>
      rw [Graph.add, group?_push_iff, ih, List.mem_append, or_assoc, List.mem_singleton,
        Prod.mk.injEq, Option.some.injEq]
      simp only [eq_comm]

theorem toExtends (hgrows : g.Grows made g') : g.Extends g' :=
  fun _ _ ht => hgrows.group?_iff.mpr (.inl ht)

/-- Whatever is made stays. -/
theorem has_of_mem (hgrows : g.Grows made g') (hh : h ∈ made.map (·.1)) : g'.Has h := by
  obtain ⟨⟨h, t⟩, ht, rfl⟩ := List.mem_map.mp hh
  exact ⟨t, hgrows.group?_iff.mpr (.inr ht)⟩

/-- What is made has handles that were not in use. -/
theorem next_le_of_mem (hgrows : g.Grows made g') (hh : h ∈ made.map (·.1)) : g.next ≤ h := by
  induction hgrows with
  | refl => cases hh
  | refuse _ ih => exact ih hh
  | add hgrows _ ih =>
      rw [List.map_append, List.mem_append] at hh
      obtain hh | hh := hh
      · exact ih hh
      · rw [List.mem_singleton.mp hh]
        exact hgrows.next_le

/-- Groups that are made later have greater handles. -/
theorem pairwise (hgrows : g.Grows made g') : (made.map (·.1)).Pairwise (· < ·) := by
  induction hgrows with
  | refl => exact .nil
  | refuse _ ih => exact ih
  | add hgrows _ ih =>
      rw [List.map_append, List.pairwise_append]
      refine ⟨ih, List.pairwise_singleton _ _, fun h hh k hk => ?_⟩
      rw [List.mem_singleton.mp hk]
      exact (hgrows.has_of_mem hh).lt_next

/-- What holds of the inputs of all groups holds of them still if it holds of those of every new
group. -/
theorem forall_inputs {P : Graph A → Handle → Handle → Prop}
    (hmono : ∀ g g' : Graph A, g.Extends g' → ∀ v u, P g v u → P g' v u)
    (hnew : ∀ (g : Graph A) (u : Handle), g.Has u → P g g.next u)
    (hgrows : g.Grows made g') (hg : ∀ v, ∀ u ∈ g.inputs v, P g v u) :
    ∀ v, ∀ u ∈ g'.inputs v, P g' v u := by
  induction hgrows with
  | refl => exact hg
  | @refuse g' made _ ih =>
      intro v u hu
      obtain ⟨t, ht⟩ := has_of_mem_inputs hu
      rw [inputs_of_group? ht] at hu
      -- a group is one of those that were there, or it is the one at the new place
      obtain ht | ⟨-, hnone⟩ := group?_push_iff.mp ht
      · exact hmono _ _ (extends_push g' none) v u (ih v u (inputs_of_group? ht ▸ hu))
      · cases hnone
  | @add g' made s _ hinputs ih =>
      intro v u hu
      obtain ⟨t, ht⟩ := has_of_mem_inputs hu
      rw [inputs_of_group? ht] at hu
      obtain ht | ⟨rfl, hs⟩ := group?_push_iff.mp ht
      · exact hmono _ _ (extends_push g' _) v u (ih v u (inputs_of_group? ht ▸ hu))
      · obtain rfl := Option.some.inj hs
        exact hmono _ _ (extends_push g' _) _ u (hnew g' u (hinputs u hu))

theorem grounded (hgrows : g.Grows made g') (hg : g.Grounded) : g'.Grounded :=
  hgrows.forall_inputs (P := fun g _ u => g.Has u) (fun _ _ hext _ _ hu => hu.mono hext)
    (fun _ _ hu => hu) hg

/-- New groups read from smaller handles. -/
theorem lt_of_mem_inputs (hgrows : g.Grows made g') (hg : ∀ v, ∀ u ∈ g.inputs v, u < v) :
    ∀ v, ∀ u ∈ g'.inputs v, u < v :=
  hgrows.forall_inputs (P := fun _ v u => u < v) (fun _ _ _ _ _ hlt => hlt)
    (fun _ _ hu => hu.lt_next) hg

end Grows

theorem grounded_empty : (empty : Graph A).Grounded := by
  intro v u hu
  cases hu

end Graph

end Feedforward
