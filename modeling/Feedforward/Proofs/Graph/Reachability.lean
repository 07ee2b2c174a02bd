import Mathlib.Logic.Relation
import Feedforward.Graph.Order

/-!
# Reachability along inputs

A group *reads* from its inputs, and *reaches* whatever a chain of inputs leads to. A group that
reaches itself in at least one step lies on a cycle, and a graph is acyclic from a group that
reaches no cycle:

    AcyclicFrom g v  =  ∀ u, Reaches g v u → ¬ OnCycle g u.

Handles that no group owns read from nothing, so they reach themselves only.
-/

namespace Feedforward.Graph

open Relation

variable {A : Type} {g : Graph A}

/-- `u` is among the inputs of `v`. -/
def Reads (g : Graph A) (v u : Handle) : Prop := u ∈ g.inputs v

/-- Inputs lead from `v` to `u` in any number of steps. -/
def Reaches (g : Graph A) : Handle → Handle → Prop := ReflTransGen g.Reads

/-- Inputs lead from `v` back to `v` in at least one step. -/
def OnCycle (g : Graph A) (v : Handle) : Prop := TransGen g.Reads v v

/-- No cycle is reached from `v`. -/
def AcyclicFrom (g : Graph A) (v : Handle) : Prop := ∀ u, g.Reaches v u → ¬ g.OnCycle u

theorem inputs_of_group? {v : Handle} {t : Group A} (ht : g.group? v = some t) :
    g.inputs v = t.inputs := by
  rw [inputs, ht]
  rfl

theorem isSource_iff {v : Handle} : g.isSource v = true ↔ g.inputs v = [] := List.isEmpty_iff

/-- Only the groups of the graph have inputs. -/
theorem lt_next_of_mem_inputs {v u : Handle} (h : u ∈ g.inputs v) : v < g.next := by
  match hg : g.group? v with
  | some t => exact group?_lt hg
  | none => simp [inputs, hg] at h

theorem Reaches.refl (v : Handle) : g.Reaches v v := ReflTransGen.refl

theorem Reaches.head {v u w : Handle} (hu : u ∈ g.inputs v) (h : g.Reaches u w) : g.Reaches v w :=
  ReflTransGen.head hu h

theorem Reaches.trans {v u w : Handle} (h₁ : g.Reaches v u) (h₂ : g.Reaches u w) :
    g.Reaches v w :=
  ReflTransGen.trans h₁ h₂

/-- A set of groups that is closed under inputs holds whatever its members reach. -/
theorem Reaches.mem_of_closed {S : Handle → Prop} (hS : ∀ v, S v → ∀ u ∈ g.inputs v, S u)
    {v u : Handle} (h : g.Reaches v u) (hv : S v) : S u := by
  induction h with
  | refl => exact hv
  | tail _ hread ih => exact hS _ ih _ hread

/-- A cycle above an input would be one above the reader. -/
theorem AcyclicFrom.of_reaches {v u : Handle} (hv : g.AcyclicFrom v) (h : g.Reaches v u) :
    g.AcyclicFrom u :=
  fun _ hw => hv _ (h.trans hw)

/-- A group is on no cycle and reaches none if this is so of its inputs and none leads back. -/
theorem acyclicFrom_of_inputs {v : Handle}
    (h : ∀ u ∈ g.inputs v, g.AcyclicFrom u ∧ ¬ g.Reaches u v) : g.AcyclicFrom v := by
  intro w hw
  rcases ReflTransGen.cases_head hw with rfl | ⟨u, hu, hreach⟩
  · intro hcycle
    obtain ⟨u, hu, hback⟩ := TransGen.head'_iff.mp hcycle
    exact (h u hu).2 hback
  · exact (h u hu).1 w hreach

/-! ## Graphs that read backwards only

Groups are declared one after the other and read from groups that exist, so every edge leads to a
smaller handle until a group is rewired. Such a graph has no cycles at all. -/

theorem lt_of_transGen (hlt : ∀ v < g.next, ∀ u ∈ g.inputs v, u < v) {v u : Handle}
    (h : TransGen g.Reads v u) : u < v := by
  induction h with
  | single hread => exact hlt _ (lt_next_of_mem_inputs hread) _ hread
  | tail _ hread ih => exact Nat.lt_trans (hlt _ (lt_next_of_mem_inputs hread) _ hread) ih

/-- Inputs that are smaller than their readers rule out cycles. -/
theorem acyclicFrom_of_lt (hlt : ∀ v < g.next, ∀ u ∈ g.inputs v, u < v) (v : Handle) :
    g.AcyclicFrom v :=
  fun u _ hcycle => Nat.lt_irrefl u (lt_of_transGen hlt hcycle)

end Feedforward.Graph
