import Mathlib.Data.Set.Card
import Feedforward.Proofs.Graph.Reach
import Feedforward.Proofs.Network.Layout

/-!
# As many layers as groups

`Graph.reach` is the number of groups that the output reaches, the output included, whether or not
there are cycles:

    {v | Reaches g output v}.encard  =  g.reach output.

The order of a graph and the layers of a compiled network are counted in quite another way. Wherever
they exist they are as many.
-/

namespace Feedforward

open Feedforward.Network

variable {A : Type} {g : Graph A} {output : Handle} {hs : List Handle}

namespace Graph

/-- The groups that are reached are finitely many, and the count is their number. -/
theorem encard_reaches (g : Graph A) (output : Handle) :
    {v | g.Reaches output v}.encard = g.reach output := by
  let collected := (g.collect (HandleList.nil.cons output) [output]).toList
  have hset : {v | g.Reaches output v} = (collected.toFinset : Set Handle) := by
    ext v
    rw [List.coe_toFinset]
    exact mem_collect_iff.symm
  have hcard : collected.toFinset.card = g.reach output :=
    List.toFinset_card_of_nodup (nodup_collect g output)
  rw [hset, Set.encard_coe_eq_coe_finsetCard, hcard]

/-- A compiled network has a layer for each group that is reached. -/
theorem size_of_compile {alloc : Allocation A} {gen gen' : Generator} {net : Network A}
    (hcompile : g.compile alloc output gen = (.ok net, gen')) : net.size = g.reach output := by
  rw [size_eq_length_groups, reach_eq_length_of_order (follows_of_compile hcompile)]

/-- Where there is an order, compiling answers unless there is no room for the buffers of a group. -/
theorem compile_cases [Arithmetic A] {alloc : Allocation A} {zeros : Nat → A}
    (hlaw : alloc.Lawful zeros) (horder : g.order output = .ok hs) (gen : Generator) :
    (∃ net gen', g.compile alloc output gen = (.ok net, gen')) ∨
    ((∃ fault gen', g.compile alloc output gen = (.error (.array fault), gen')) ∧
      ∃ h ∈ hs, ¬ g.HasRoom alloc h) := by
  match hcompile : g.compile alloc output gen with
  | (.ok net, gen') => exact .inl ⟨net, gen', rfl⟩
  | (.error (.order e), gen') =>  -- there is an order
      obtain ⟨hrefused, -⟩ := compile_eq_order_error_iff.mp hcompile
      cases horder.symm.trans hrefused
  | (.error (.array fault), gen') =>  -- room is missing
      refine .inr ⟨⟨fault, gen', rfl⟩, ?_⟩
      by_contra hroom
      push Not at hroom
      -- with room for everything there would be a network
      have hanswer : ∃ net gen', g.compile alloc output gen = (.ok net, gen') := by
        rw [exists_compile_iff hlaw]
        refine ⟨acyclicFrom_of_order horder, ?_⟩
        intro h hreach
        exact hroom h ((mem_order_iff horder).mpr hreach)
      obtain ⟨net, gen₁, hnet⟩ := hanswer
      cases hcompile.symm.trans hnet

/-- On every graph, rewired or not, the count is the number of distinct groups that the output
reaches. Where there is an order it has as many groups, and compiling makes as many layers, unless
there is no room for the arrays of one of them. -/
theorem reach_eq_number_of_reached [Arithmetic A] (g : Graph A) (output : Handle) :
    {v | g.Reaches output v}.encard = g.reach output ∧
    ∀ hs, g.order output = .ok hs →
      hs.length = g.reach output ∧
      (∀ (alloc : Allocation A) (gen gen' : Generator) (net : Network A),
        g.compile alloc output gen = (.ok net, gen') → net.size = g.reach output) ∧
      ∀ (alloc : Allocation A) (zeros : Nat → A) (gen : Generator), alloc.Lawful zeros →
        (∃ net gen', g.compile alloc output gen = (.ok net, gen')) ∨
        ((∃ fault gen', g.compile alloc output gen = (.error (.array fault), gen')) ∧
          ∃ h ∈ hs, ¬ g.HasRoom alloc h) := by
  refine ⟨encard_reaches g output, ?_⟩
  intro hs horder
  refine ⟨(reach_eq_length_of_order horder).symm, ?_, ?_⟩
  · intro alloc gen gen' net hcompile
    exact size_of_compile hcompile
  · intro alloc zeros gen hlaw
    exact compile_cases hlaw horder gen

/-- The diamond has four groups, each of which gets a layer. -/
theorem reach_diamond :
    (diamond Activation.linear).order 3 = .ok [0, 2, 1, 3] ∧
    (diamond Activation.linear).reach 3 = 4 ∧
    {v | (diamond Activation.linear).Reaches 3 v}.encard = 4 ∧
    ∃ net gen', (diamond Activation.linear).compile Numeric.doubles 3 (.ofSeed [0]) =
      (.ok net, gen') ∧ net.size = 4 := by
  have horder : (diamond Activation.linear).order 3 = .ok [0, 2, 1, 3] := by cbv
  obtain ⟨hnumber, hcount⟩ := reach_eq_number_of_reached (diamond Activation.linear) 3
  obtain ⟨hlength, hlayers, hcases⟩ := hcount _ horder
  have hfour : (diamond Activation.linear).reach 3 = 4 := hlength.symm
  rw [hfour] at hnumber
  refine ⟨horder, hfour, hnumber, ?_⟩
  obtain ⟨net, gen', hcompile⟩ | ⟨-, h, -, hroom⟩ :=
    hcases Numeric.doubles _ (.ofSeed [0]) (Numeric.lawful_allocation (by decide))
  · exact ⟨net, gen', hcompile, (hlayers _ _ _ _ hcompile).trans hfour⟩
  · exact absurd (hasRoom_diamond h) hroom

/-- Cycles are counted once around. -/
example : ((diamond Activation.linear).rewire 0 [3, 0]).reach 3 = 4 := by cbv

end Graph

end Feedforward
