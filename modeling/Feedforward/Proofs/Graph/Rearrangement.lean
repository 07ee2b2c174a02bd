import Mathlib.Data.List.FinRange
import Feedforward.Proofs.Graph.Unfolding

/-!
# Graphs that differ in the order of edges

Two graphs may have the same groups, perhaps under other handles, and differ in the order in which
each group reads from its inputs (`Rearrangement`). The orders of the graphs can be quite different
then, since groups are listed in the order in which edges lead to them. What is reached stays the
same,

    Reaches g' (handle output) x  ↔  ∃ v, Reaches g output v ∧ handle v = x,

and so does the absence of cycles.
-/

namespace Feedforward.Graph

variable {A : Type} {g g' : Graph A} {output v : Handle}

/-- The groups that the output reaches stand in another graph, perhaps under other handles and with
their edges in another order. -/
structure Rearrangement (g g' : Graph A) (output : Handle) where
  handle : Handle → Handle
  injective : Function.Injective handle
  /-- The edge that stands at a place of the other graph. -/
  edge : ∀ v, Equiv.Perm (Fin (g.inputs v).length)
  inputs : ∀ v, g.Reaches output v →
    g'.inputs (handle v) = List.ofFn fun j => handle ((g.inputs v).get (edge v j))
  cardinality : ∀ v, g.Reaches output v → g'.cardinality (handle v) = g.cardinality v
  activation : ∀ v, g.Reaches output v →
    (g'.group? (handle v)).map (·.activation) = (g.group? v).map (·.activation)

/-- The graph in which the edges of a group stand in another order. -/
def permute (g : Graph A) (v : Handle) (σ : Equiv.Perm (Fin (g.inputs v).length)) : Graph A :=
  g.rewire v (List.ofFn fun j => (g.inputs v).get (σ j))

@[simp] theorem group?_rewire (g : Graph A) (v : Handle) (inputs : List Handle) (u : Handle) :
    (g.rewire v inputs).group? u =
      if u = v then (g.group? v).map fun t => { t with inputs } else g.group? u := by
  cases ht : g.group? v with
  | none =>
      have hsame : g.rewire v inputs = g := by rw [rewire, ht]
      rw [hsame]
      split
      · next huv => rw [huv, ht]; rfl
      · rfl
  | some t =>
      have hset : g.rewire v inputs = ⟨g.places.setIfInBounds v (some { t with inputs })⟩ := by
        rw [rewire, ht]
      have hlt : v < g.places.size := group?_lt ht
      rw [hset, group?, Array.getElem?_setIfInBounds]
      by_cases huv : u = v
      · subst huv
        simp [hlt]
      · rw [if_neg (Ne.symm huv), if_neg huv]
        rfl

/-- The inputs of the group are those that it had, in the new order. -/
theorem inputs_permute_self (g : Graph A) (v : Handle) (σ : Equiv.Perm (Fin (g.inputs v).length)) :
    (g.permute v σ).inputs v = List.ofFn fun j => (g.inputs v).get (σ j) := by
  have hgroup := g.group?_rewire v (List.ofFn fun j => (g.inputs v).get (σ j)) v
  rw [if_pos rfl] at hgroup
  cases ht : g.group? v with
  | none =>
      have hnil : g.inputs v = [] := by rw [inputs, ht]; rfl
      rw [inputs, permute, hgroup, ht, Option.map_none, Option.elim_none, eq_comm,
        List.ofFn_eq_nil_iff, hnil]
      rfl
  | some t => rw [inputs, permute, hgroup, ht]; rfl

/-- Another order of the edges of one group. -/
def Rearrangement.permute (g : Graph A) (output v : Handle)
    (σ : Equiv.Perm (Fin (g.inputs v).length)) : g.Rearrangement (g.permute v σ) output where
  handle := id
  injective := Function.injective_id
  edge := Function.update (fun _ => .refl _) v σ
  inputs u _ := by
    by_cases huv : u = v
    · subst huv
      rw [Function.update_self]
      exact g.inputs_permute_self u σ
    · rw [Function.update_of_ne huv, id, Graph.inputs, Graph.permute, group?_rewire, if_neg huv]
      exact (List.ofFn_get _).symm
  cardinality u _ := by
    rw [Graph.cardinality, Graph.permute, id, group?_rewire, Graph.cardinality]
    split
    · next huv => subst huv; cases g.group? u <;> rfl
    · rfl
  activation u _ := by
    rw [Graph.permute, id, group?_rewire]
    split
    · next huv => subst huv; cases g.group? u <;> rfl
    · rfl

namespace Rearrangement

variable (e : g.Rearrangement g' output)
include e

theorem length_inputs (hv : g.Reaches output v) :
    (g'.inputs (e.handle v)).length = (g.inputs v).length := by
  rw [e.inputs v hv, List.length_ofFn]

/-- The edge at a place of the other graph leads to where the edge that was moved there leads. -/
theorem get_inputs (hv : g.Reaches output v) (j : Fin (g'.inputs (e.handle v)).length) :
    (g'.inputs (e.handle v)).get j =
      e.handle ((g.inputs v).get (e.edge v (j.cast (e.length_inputs hv)))) := by
  simp only [List.get_eq_getElem, e.inputs v hv, List.getElem_ofFn]
  rfl

/-- A group reads from the same groups on both sides, in some order. -/
theorem inputs_perm (hv : g.Reaches output v) :
    (g'.inputs (e.handle v)).Perm ((g.inputs v).map e.handle) := by
  rw [e.inputs v hv, ← List.ofFn_getElem_eq_map]
  exact (e.edge v).ofFn_comp_perm fun j => e.handle ((g.inputs v).get j)

theorem mem_inputs_iff (hv : g.Reaches output v) {x : Handle} :
    x ∈ g'.inputs (e.handle v) ↔ ∃ u ∈ g.inputs v, e.handle u = x :=
  (e.inputs_perm hv).mem_iff.trans List.mem_map

theorem inputs_eq_nil_iff (hv : g.Reaches output v) :
    g'.inputs (e.handle v) = [] ↔ g.inputs v = [] := by
  rw [← List.length_eq_zero_iff, e.length_inputs hv, List.length_eq_zero_iff]

/-- In which order a group reads from others does not change how many neurons there are. -/
theorem inputSize_eq (hv : g.Reaches output v) :
    g'.inputSize (e.handle v) = g.inputSize v := by
  rw [inputSize, ((e.inputs_perm hv).map g'.cardinality).sum_nat, List.map_map, inputSize]
  exact congrArg List.sum (List.map_congr_left fun u hu => e.cardinality u (hv.tail hu))

/-- Edges in another order form no new cycles. -/
theorem acyclicFrom (hacyclic : g.AcyclicFrom output) : g'.AcyclicFrom (e.handle output) :=
  acyclicFrom_of_edges (fun _ hv _ hx => (e.mem_inputs_iff hv).mp hx)
    (fun _ _ _ _ heq => e.injective heq) hacyclic (.refl output)

/-- The same groups are reached. -/
theorem reaches_iff {x : Handle} :
    g'.Reaches (e.handle output) x ↔ ∃ v, g.Reaches output v ∧ e.handle v = x := by
  constructor
  · intro hx
    rcases Relation.reflTransGen_iff_eq_or_transGen.mp hx with rfl | hx
    · exact ⟨output, .refl output, rfl⟩
    · obtain ⟨v, hv, rfl⟩ :=
        exists_transGen_of_edges (fun _ hv _ hx => (e.mem_inputs_iff hv).mp hx) (.refl output) hx
      exact ⟨v, hv.to_reflTransGen, rfl⟩
  · rintro ⟨v, hv, rfl⟩
    induction hv with
    | refl => exact .refl _
    | tail hv hread ih => exact ih.tail ((e.mem_inputs_iff hv).mpr ⟨_, hread, rfl⟩)

end Rearrangement

end Feedforward.Graph
