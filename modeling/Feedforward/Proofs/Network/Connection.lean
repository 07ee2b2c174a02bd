import Feedforward.Proofs.Graph.Growth
import Feedforward.Proofs.Network.Draws

/-!
# What an additional input changes

`Graph.connect` copies a group `t` with one more input `s` in front. The inputs of a group are
explored from the last to the first, so that of the copy `n` all that stands before `t` comes first,
and then what of `s` has not been listed:

    order t = front ++ [t]  →  order n = front ++ (order s without front) ++ [n].

Weights are drawn along the order. So the copy and the group itself begin with the same layers and,
from the same seed, with the same weights.
-/

namespace Feedforward

variable {A : Type}

namespace Graph

/-! ## The order of a group with one more input -/

section Order

variable {g : Graph A} {s t v : Handle}

/-- What comes before a group in its order. -/
theorem order_eq_concat (hv : g.AcyclicFrom v) :
    g.order v =
      .ok (((g.inputs v).reverse.flatMap fun u => (g.preorder u).reverse).eraseDups ++ [v]) := by
  rw [order_eq_eraseDups hv, reverse_preorder hv, eraseDups_concat_of_not_mem]
  intro hmem
  obtain ⟨u, hu, hback⟩ := List.mem_flatMap.mp hmem
  rw [List.mem_reverse] at hu hback
  exact hv.not_reaches_of_mem_inputs hu ((mem_preorder_iff (hv.of_mem_inputs hu)).mp hback)

/-- The copy is a new group, which reads from the other one first and then from what it read before.
-/
theorem connect_has (ht : g.Has t) (s : Handle) :
    g.Extends (g.connect s t).2 ∧ ¬ g.Has (g.connect s t).1 ∧
      (g.connect s t).2.inputs (g.connect s t).1 = s :: g.inputs t := by
  obtain ⟨target, htarget⟩ := ht
  rw [connect, htarget]
  refine ⟨extends_push g _, fun hn => Nat.lt_irrefl _ hn.lt_next, ?_⟩
  rw [inputs_of_group? (group?_add g _), inputs_of_group? htarget]

/-- The copy is not reached by what was there, so that it lies on no cycle. -/
theorem acyclicFrom_connect (hg : g.Grounded) (hs : g.Has s) (ht : g.Has t)
    (hsource : g.AcyclicFrom s) (htarget : g.AcyclicFrom t) :
    (g.connect s t).2.AcyclicFrom (g.connect s t).1 := by
  obtain ⟨hext, hnew, hinputs⟩ := connect_has ht s
  refine acyclicFrom_of_inputs fun u hu => ?_
  rw [hinputs] at hu
  obtain ⟨hhas, hacyclic⟩ : g.Has u ∧ g.AcyclicFrom u := by
    rcases List.mem_cons.mp hu with rfl | hu
    · exact ⟨hs, hsource⟩
    · exact ⟨hg t u hu, htarget.of_mem_inputs hu⟩
  have hacyclic' := hext.acyclicFrom hg hhas hacyclic
  refine ⟨hacyclic', fun hreach => hnew (hg.has_of_reaches hhas ?_)⟩
  rw [← mem_preorder_iff hacyclic', hext.preorder_eq hg hhas hacyclic] at hreach
  exact (mem_preorder_iff hacyclic).mp hreach

/-- What the target reached stays in front; what only the source reaches comes behind it. -/
theorem order_connect (hg : g.Grounded) (hs : g.Has s) (ht : g.Has t)
    (hsource : g.AcyclicFrom s) (htarget : g.AcyclicFrom t) {front rest : List Handle}
    (hfront : g.order t = .ok (front ++ [t])) (hrest : g.order s = .ok rest) :
    (g.connect s t).2.order (g.connect s t).1 =
      .ok (front ++ rest.filter (· ∉ front) ++ [(g.connect s t).1]) := by
  obtain ⟨hext, -, hinputs⟩ := connect_has ht s
  have hsame : (g.inputs t).reverse.flatMap (fun u => ((g.connect s t).2.preorder u).reverse) =
      (g.inputs t).reverse.flatMap fun u => (g.preorder u).reverse := by
    refine List.flatMap_congr fun u hu => ?_
    rw [List.mem_reverse] at hu
    rw [hext.preorder_eq hg (hg t u hu) (htarget.of_mem_inputs hu)]
  rw [order_eq_concat (acyclicFrom_connect hg hs ht hsource htarget), hinputs, List.reverse_cons,
    List.flatMap_append, List.flatMap_singleton, hsame, hext.preorder_eq hg hs hsource]
  rw [order_eq_concat htarget, Except.ok.injEq, List.append_cancel_right_eq] at hfront
  rw [order_eq_eraseDups hsource, Except.ok.injEq] at hrest
  rw [List.eraseDups_append, List.removeAll, eraseDups_filter, hfront, hrest]
  congr 3
  refine List.filter_congr fun u _ => ?_
  simp only [← hfront, List.mem_eraseDups, List.elem_eq_mem, decide_not]

end Order

/-! ## Weights along a common front -/

section Weights

variable {g : Graph A} {alloc : Allocation A} {hs ks : List Handle} {gen gen' : Generator}

/-- Drawing for groups in front of others leaves the stream where the others begin. -/
theorem drawAll_append {ws : List (Option A)} :
    g.drawAll alloc (hs ++ ks) gen = (.ok ws, gen') ↔
      ∃ front gen₁ rest, g.drawAll alloc hs gen = (.ok front, gen₁) ∧
        g.drawAll alloc ks gen₁ = (.ok rest, gen') ∧ ws = front ++ rest := by
  induction hs generalizing gen ws with
  | nil =>
      constructor
      · intro hdraw
        exact ⟨[], gen, ws, rfl, hdraw, rfl⟩
      · rintro ⟨front, gen₁, rest, hfront, hrest, rfl⟩
        cases hfront
        exact hrest
  | cons h hs ih =>  -- case: one group more in front
      rw [List.cons_append, drawAll_cons]
      constructor
      · rintro ⟨w, gen₁, others, hw, hothers, rfl⟩
        obtain ⟨front, gen₂, rest, hfront, hrest, rfl⟩ := ih.mp hothers
        exact ⟨w :: front, gen₂, rest, drawAll_cons.mpr ⟨w, gen₁, front, hw, hfront, rfl⟩, hrest,
          rfl⟩
      · rintro ⟨front, gen₂, rest, hfront, hrest, rfl⟩
        obtain ⟨w, gen₁, others, hw, hothers, rfl⟩ := drawAll_cons.mp hfront
        exact ⟨w, gen₁, others ++ rest, hw, ih.mpr ⟨others, gen₂, rest, hothers, hrest, rfl⟩, rfl⟩

/-- Compiling begins with the weights of the groups in front. -/
theorem take_of_compile {output : Handle} {net : Network A}
    (horder : g.order output = .ok (hs ++ ks))
    (hcompile : g.compile alloc output gen = (.ok net, gen')) :
    ∃ gen₁, g.drawAll alloc hs gen =
      (.ok ((net.layers.toList.take hs.length).map (·.weights)), gen₁) := by
  obtain ⟨all, ws, layers, hall, hdraw, hlayers, rfl⟩ := compile_eq_ok_iff.mp hcompile
  obtain rfl := Except.ok.inj (horder.symm.trans hall)
  obtain ⟨-, hweights⟩ := map_group_weights_of_newLayers (length_of_drawAll hdraw) hlayers
  obtain ⟨front, gen₁, rest, hfront, -, rfl⟩ := drawAll_append.mp hdraw
  refine ⟨gen₁, ?_⟩
  show g.drawAll alloc hs gen = (.ok ((layers.take hs.length).map (·.weights)), gen₁)
  rw [List.map_take, hweights, length_of_drawAll hfront, List.take_left, hfront]

/-- Networks whose orders have a common front begin with the same weights if they are drawn from the
same generator. -/
theorem take_eq_of_compile {output output' : Handle} {ks' : List Handle} {net net' : Network A}
    {gen₁ gen₂ : Generator} (horder : g.order output = .ok (hs ++ ks))
    (horder' : g.order output' = .ok (hs ++ ks'))
    (hcompile : g.compile alloc output gen = (.ok net, gen₁))
    (hcompile' : g.compile alloc output' gen = (.ok net', gen₂)) :
    ∃ ws, ws.length = hs.length ∧
      (net.layers.toList.take hs.length).map (·.weights) = ws ∧
      (net'.layers.toList.take hs.length).map (·.weights) = ws := by
  obtain ⟨gen₃, hdraw⟩ := take_of_compile horder hcompile
  obtain ⟨gen₄, hdraw'⟩ := take_of_compile horder' hcompile'
  refine ⟨_, (length_of_drawAll hdraw).symm, rfl, ?_⟩
  exact Except.ok.inj (Prod.mk.inj (hdraw'.symm.trans hdraw)).1

end Weights

end Graph

/-! ## The main result -/

open Feedforward.Graph

/-- A group that gets one more input has an order that begins like that of the group itself, goes on
with what the input reaches besides, and ends with the copy. Both compile wherever there is room for
what they reach, and the weights up to where the orders part are the same if they are drawn from the
same generator or seed. -/
theorem connect_keeps_front (g : Graph Numeric) (s t : Handle) (hg : g.Grounded) (hs : g.Has s)
    (ht : g.Has t) (hsource : g.AcyclicFrom s) (htarget : g.AcyclicFrom t) :
    let n := (g.connect s t).1
    let g' := (g.connect s t).2
    ∃ front rest, g.order t = .ok (front ++ [t]) ∧ g.order s = .ok rest ∧
      (g'.order t = g.order t ∧ g'.order s = g.order s) ∧
      g'.order n = .ok (front ++ rest.filter (· ∉ front) ++ [n]) ∧
      g'.reach n = (front ++ rest.filter (· ∉ front) ++ [n]).length ∧
      ∀ memory kind unknown seed given,
        (kind ≠ .int64 → ∀ v hs, g'.order v = .ok hs →
          ((∃ net gen, g'.compileFrom (Numeric.allocation memory kind) v unknown seed given =
              .ok (.ok net, gen)) ↔
            (∃ gen, Generator.start unknown seed given = .ok gen) ∧
              ∀ h ∈ hs, g'.HasRoom (Numeric.allocation memory kind) h)) ∧
        ∀ net gen net' gen',
          g'.compileFrom (Numeric.allocation memory kind) n unknown seed given =
            .ok (.ok net, gen) →
          g'.compileFrom (Numeric.allocation memory kind) t unknown seed given =
            .ok (.ok net', gen') →
          ∃ ws : List (Option Numeric), ws.length = front.length ∧
            (net.layers.toList.take front.length).map (·.weights) = ws ∧
            (net'.layers.toList.take front.length).map (·.weights) = ws := by
  intro n g'
  -- both of them can still be ordered, and the copy comes last
  obtain ⟨rest, hrest⟩ := order_eq_ok_iff.mpr hsource
  obtain ⟨front, hfront⟩ : ∃ front, g.order t = .ok (front ++ [t]) := ⟨_, order_eq_concat htarget⟩
  obtain ⟨hext, -, -⟩ := connect_has ht s
  have hcopy := order_connect hg hs ht hsource htarget hfront hrest
  have htarget' := hext.order_eq hg ht htarget
  refine ⟨front, rest, hfront, hrest, ⟨htarget', hext.order_eq hg hs hsource⟩, hcopy,
    reach_eq_length_of_order hcopy, fun memory kind unknown seed given => ⟨fun hkind v hs hv =>
      exists_compileFrom_iff (Numeric.lawful_allocation hkind) hv, ?_⟩⟩
  intro net gen net' gen' hnet hnet'
  obtain ⟨start, hstart, hcompile⟩ := compileFrom_eq_ok_iff.mp hnet
  obtain ⟨start', hstart', hcompile'⟩ := compileFrom_eq_ok_iff.mp hnet'
  -- both networks are drawn from the same start of the stream
  obtain rfl := Except.ok.inj (hstart.symm.trans hstart')
  rw [List.append_assoc] at hcopy
  exact take_eq_of_compile hcopy (htarget'.trans hfront) hcompile hcompile'

/-- The output of the diamond gets itself as one more input. -/
theorem connect_diamond_keeps_front :
    (diamond Activation.linear).Grounded ∧ (diamond Activation.linear).Has 3 ∧
    (diamond Activation.linear).AcyclicFrom 3 ∧
    let g' := ((diamond Activation.linear).connect 3 3).2
    g'.inputs 4 = [3, 2, 1, 2] ∧ g'.order 3 = .ok [0, 2, 1, 3] ∧
      g'.order 4 = .ok [0, 2, 1, 3, 4] ∧ g'.reach 4 = 5 ∧
      ∃ net gen net' gen' ws,
        g'.compileFrom Numeric.doubles 4 [] (.int 0) none = .ok (.ok net, gen) ∧
        g'.compileFrom Numeric.doubles 3 [] (.int 0) none = .ok (.ok net', gen') ∧
        ws.length = 3 ∧ (net.layers.toList.take 3).map (·.weights) = ws ∧
        (net'.layers.toList.take 3).map (·.weights) = ws := by
  have hgrounded : (diamond Activation.linear).Grounded := by decide
  have hthree : (diamond Activation.linear).Has 3 := by decide
  have hacyclic := acyclicFrom_diamond Activation.linear
  obtain ⟨front, rest, hfront, hrest, ⟨hsame, -⟩, hcopy, hreach, hweights⟩ :=
    connect_keeps_front (diamond .linear) 3 3 hgrounded hthree hthree hacyclic hacyclic
  have horder : (diamond Activation.linear).order 3 = .ok ([0, 2, 1] ++ [3]) := by cbv
  obtain rfl : [0, 2, 1] = front :=
    List.append_cancel_right (Except.ok.inj (horder.symm.trans hfront))
  obtain rfl := Except.ok.inj (horder.symm.trans hrest)
  obtain ⟨hanswer, hequal⟩ := hweights Numeric.usualMemory .float64 [] (.int 0) none
  -- all groups are small, so that both compile
  have hroom : ∀ h ∈ [0, 2, 1, 3, 4], ((diamond Activation.linear).connect 3 3).2.HasRoom
      Numeric.doubles h := by
    simp only [List.forall_mem_cons, hasRoom_iff]
    exact ⟨⟨rfl, fun _ => rfl⟩, ⟨rfl, fun _ => rfl⟩, ⟨rfl, fun _ => rfl⟩, ⟨rfl, fun _ => rfl⟩,
      ⟨rfl, fun _ => rfl⟩, List.forall_mem_nil _⟩
  obtain ⟨net, gen, hnet⟩ := (hanswer (by decide) 4 _ hcopy).mpr ⟨⟨_, rfl⟩, hroom⟩
  obtain ⟨net', gen', hnet'⟩ := (hanswer (by decide) 3 _ (hsame.trans horder)).mpr
    ⟨⟨_, rfl⟩, fun h hh => hroom h (List.mem_append_left [4] hh)⟩
  obtain ⟨ws, hws⟩ := hequal net gen net' gen' hnet hnet'
  exact ⟨hgrounded, hthree, hacyclic, rfl, hsame.trans horder, hcopy, hreach, net, gen, net', gen',
    ws, hnet, hnet', hws⟩

end Feedforward
