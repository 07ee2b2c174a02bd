import Mathlib.Data.List.ReduceOption
import Feedforward.Proofs.Blueprint.Build
import Feedforward.Proofs.Graph.Growth
import Feedforward.Proofs.Network.Compile
import Feedforward.Preset

/-!
# Constructions

Groups come into being by declarations, by connections and by building blueprints (`Construction`).
Each of these may be refused, and what was made until then stays in the graph. Operands are groups
that are there already, so each construction makes the graph grow,

    Grounded g  →  ∃ made, Grows g made (g.construct c).2,

and answers with one of the groups that it made. So does every run of constructions: handles
increase along it, groups read from smaller handles, and nothing that was there changes.
-/

namespace Feedforward

variable {A : Type}

/-- What makes groups. -/
inductive Construction (A : Type) where
  | declare (cardinality : Requested) (activation : Activation A) (inputs : List Handle)
      (name : Option Value)
  | connect (source target : Handle)
  | build (registry : Registry A) (config : Value)

/-- The groups that a construction starts from. -/
def Construction.operands : Construction A → List Handle
  | .declare _ _ inputs _ => inputs
  | .connect source target => [source, target]
  | .build _ _ => []

namespace Graph

/-- Carries out a construction. There is no answer if it is refused. -/
def construct (g : Graph A) : Construction A → Option Handle × Graph A
  | .declare cardinality activation inputs name =>
      let (answer, g) := g.declare cardinality activation inputs name
      (answer.toOption, g)
  | .connect source target =>
      let (h, g) := g.connect source target
      (some h, g)
  | .build registry config =>
      let (answer, g) := g.build registry config
      (answer.toOption.map (·.output), g)

/-- Carries out constructions one after the other, whether or not some are refused. -/
def constructAll (g : Graph A) : List (Construction A) → List (Option Handle) × Graph A
  | [] => ([], g)
  | c :: rest =>
      let (answer, g) := g.construct c
      let (answers, g) := g.constructAll rest
      (answer :: answers, g)

/-- Each construction starts from groups that are there when its turn comes. -/
def Admits (g : Graph A) : List (Construction A) → Prop
  | [] => True
  | c :: rest => (∀ u ∈ c.operands, g.Has u) ∧ (g.construct c).2.Admits rest

instance decidableAdmits (g : Graph A) : (cs : List (Construction A)) → Decidable (g.Admits cs)
  | [] => .isTrue trivial
  | c :: rest =>
      have := decidableAdmits (g.construct c).2 rest
      inferInstanceAs (Decidable ((∀ u ∈ c.operands, g.Has u) ∧ (g.construct c).2.Admits rest))

variable {g g' : Graph A}

/-! ## One construction -/

theorem grows_declare {us : List Handle} (hus : ∀ u ∈ us, g.Has u) (cardinality : Requested)
    (activation : Activation A) (name : Option Value) :
    ∃ made, g.Grows made (g.declare cardinality activation us name).2 ∧
      ∀ h, (g.declare cardinality activation us name).1 = .ok h → h ∈ made.map (·.1) := by
  rw [declare]
  split
  · exact ⟨[], (Grows.refl g).refuse, by simp⟩
  · refine ⟨_, (Grows.refl g).add hus, fun h hh => ?_⟩
    rw [← Except.ok.inj hh]
    simp

/-- A connection makes one group, and answers with its handle. -/
theorem grows_connect (hg : g.Grounded) {s t : Handle} (hs : g.Has s) (ht : g.Has t) :
    ∃ made, g.Grows made (g.connect s t).2 ∧ (g.connect s t).1 ∈ made.map (·.1) := by
  obtain ⟨target, htarget⟩ := ht
  rw [connect, htarget]
  refine ⟨_, (Grows.refl g).add fun u hu => ?_, List.mem_singleton_self _⟩
  obtain rfl | hu := List.mem_cons.mp hu
  · exact hs
  · exact hg t u (inputs_of_group? htarget ▸ hu)

section Building

variable {declared declared' : Declared} {made : List (Handle × Group A)} {h : Handle}

/-- All groups of a table were made on the way. -/
def TableOf (made : List (Handle × Group A)) (declared : Declared) : Prop :=
  ∀ n h, declared.lookup n = some h → h ∈ made.map (·.1)

theorem TableOf.append {more : List (Handle × Group A)} (htable : TableOf made declared) :
    TableOf (made ++ more) declared := by
  intro n h hn
  rw [List.map_append]
  exact List.mem_append_left _ (htable n h hn)

/-- A table may be extended by a group that was made. -/
theorem TableOf.cons {n : Text} (htable : TableOf made declared) (hh : h ∈ made.map (·.1)) :
    TableOf made ((n, h) :: declared) := by
  intro m k hm
  by_cases hmn : m = n
  · subst hmn
    rw [lookup_cons_self] at hm
    rwa [← Option.some.inj hm]
  · rw [lookup_cons_of_ne hmn] at hm
    exact htable m k hm

/-- Connecting inputs adds to what was made since some earlier graph `g`. -/
theorem grows_connectAll {g₁ : Graph A} (hg : g.Grounded) (hgrows : g.Grows made g₁)
    (htable : TableOf made declared) (name : Text) (sources : List Value)
    (hh : h ∈ made.map (·.1)) :
    ∃ more, g.Grows (made ++ more) (g₁.connectAll declared name sources h).2 ∧
      ∀ h', (g₁.connectAll declared name sources h).1 = .ok h' → h' ∈ (made ++ more).map (·.1) := by
  -- Each connection adds a group, also when a later one is refused.
  induction sources generalizing g₁ made h with
  | nil =>
      refine ⟨[], by rwa [List.append_nil], fun h' hh' => ?_⟩
      rwa [List.append_nil, ← Except.ok.inj hh']
  | cons v rest ih =>
      rw [connectAll]
      split
      · exact ⟨[], by rwa [List.append_nil], by simp⟩
      · next s hs =>
          obtain ⟨n, -, hs⟩ := Declared.resolve_eq_ok_iff.mp hs
          obtain ⟨copy, hcopy, hmem⟩ := grows_connect (hgrows.grounded hg)
            (hgrows.has_of_mem (htable n s hs)) (hgrows.has_of_mem hh)
          obtain ⟨more, hmore, hanswer⟩ := ih (hgrows.trans hcopy) htable.append
            (by rw [List.map_append]; exact List.mem_append_right _ hmem)
          exact ⟨copy ++ more, by rwa [← List.append_assoc], by rwa [← List.append_assoc]⟩

/-- A layer makes the copies for its inputs and its own group. If it is refused, what was made
stays. -/
theorem grows_addLayer {g₁ : Graph A} (hg : g.Grounded) (hgrows : g.Grows made g₁)
    (htable : TableOf made declared) (plan : LayerPlan A) :
    ∃ more, g.Grows (made ++ more) (g₁.addLayer declared plan).2 ∧
      ∀ declared', (g₁.addLayer declared plan).1 = .ok declared' →
        TableOf (made ++ more) declared' := by
  -- whatever happens next, the bare group is there
  obtain ⟨bare, hbare, hanswer⟩ := grows_declare (List.forall_mem_nil g₁.Has) plan.cardinality
    plan.activation (some (.str plan.name))
  have hbare := hgrows.trans hbare
  rw [addLayer]
  split
  · next hdeclare =>
      rw [hdeclare] at hbare
      exact ⟨bare, hbare, by simp⟩
  · next h g₂ hdeclare =>
      rw [hdeclare] at hbare hanswer
      have hh : h ∈ (made ++ bare).map (·.1) := by
        rw [List.map_append]
        exact List.mem_append_right _ (hanswer h rfl)
      split
      · exact ⟨bare, hbare, by simp⟩
      · next sources _ =>
          obtain ⟨more, hmore, hlast⟩ := grows_connectAll hg hbare htable.append plan.name
            sources.reverse hh
          rw [List.append_assoc] at hmore hlast
          split
          · next hconnect =>
              rw [hconnect] at hmore
              exact ⟨bare ++ more, hmore, by simp⟩
          · next hconnect =>
              rw [hconnect] at hmore hlast
              refine ⟨bare ++ more, hmore, fun declared' hdeclared => ?_⟩
              obtain rfl := Except.ok.inj hdeclared
              exact htable.append.cons (hlast _ rfl)

/-- Layers go on from what the layers in front of them have made. -/
theorem grows_addLayers {g₁ : Graph A} (hg : g.Grounded) (hgrows : g.Grows made g₁)
    (htable : TableOf made declared) (registry : Registry A) (layers : List Value)
    (position : Nat) :
    ∃ more, g.Grows (made ++ more) (g₁.addLayers registry layers position declared).2 ∧
      ∀ declared', (g₁.addLayers registry layers position declared).1 = .ok declared' →
        TableOf (made ++ more) declared' := by
  -- the graph at hand is the start with `made` added
  induction layers generalizing g₁ made declared position with
  | nil =>
      refine ⟨[], by rwa [List.append_nil], fun declared' hdeclared => ?_⟩
      rwa [List.append_nil, ← Except.ok.inj hdeclared]
  | cons v rest ih =>
      rw [addLayers]
      split
      · exact ⟨[], by rwa [List.append_nil], by simp⟩
      · next plan _ =>
          obtain ⟨one, hone, hnext⟩ := grows_addLayer hg hgrows htable plan
          split
          · next hadd =>
              rw [hadd] at hone
              exact ⟨one, hone, by simp⟩
          · next declared₁ g₂ hadd =>
              rw [hadd] at hone hnext
              obtain ⟨more, hmore, hlast⟩ := ih hone (hnext declared₁ rfl) (position + 1)
              rw [List.append_assoc] at hmore hlast
              exact ⟨one ++ more, hmore, hlast⟩

/-- Building makes groups, whether or not it is refused, and its output is one of them. -/
theorem grows_build (hg : g.Grounded) (registry : Registry A) (config : Value) :
    ∃ made, g.Grows made (g.build registry config).2 ∧
      ∀ built, (g.build registry config).1 = .ok built → built.output ∈ made.map (·.1) := by
  rw [build]
  split  -- a build that is refused has still added the layers in front of the fault
  · exact ⟨[], .refl g, by simp⟩
  · next fields _ =>
      split
      · exact ⟨[], .refl g, by simp⟩
      · next layers _ =>
          have hempty : TableOf ([] : List (Handle × Group A)) [] := fun _ _ hn => by cases hn
          obtain ⟨made, hmade, htable⟩ := grows_addLayers hg (.refl g) hempty registry layers 0
          split
          · next hadd =>
              rw [hadd] at hmade
              exact ⟨made, hmade, by simp⟩
          · next declared g₁ hadd =>
              rw [hadd] at hmade htable
              refine ⟨made, hmade, fun built hselect => ?_⟩
              obtain ⟨name, -, hselect⟩ := bind_eq_ok_iff.mp hselect
              split at hselect
              · next h hh =>  -- case: the name of the output is found in the table
                  obtain rfl := Except.ok.inj hselect
                  exact htable declared rfl name h hh
              · cases hselect

end Building

/-- A construction only adds groups, and its answer is among them. -/
theorem grows_construct (hg : g.Grounded) {c : Construction A} (hc : ∀ u ∈ c.operands, g.Has u) :
    ∃ made, g.Grows made (g.construct c).2 ∧
      ∀ h ∈ (g.construct c).1, h ∈ made.map (·.1) := by
  cases c with
  | declare cardinality activation us name =>
      obtain ⟨made, hmade, hanswer⟩ := grows_declare hc cardinality activation name
      exact ⟨made, hmade, fun h hh => hanswer h (toOption_eq_some_iff.mp hh)⟩
  | connect s t =>
      obtain ⟨made, hmade, hanswer⟩ := grows_connect hg (hc s (by simp [Construction.operands]))
        (hc t (by simp [Construction.operands]))
      refine ⟨made, hmade, fun h hh => ?_⟩
      rw [← Option.some.inj hh]
      exact hanswer
  | build registry config =>
      obtain ⟨made, hmade, hanswer⟩ := grows_build hg registry config
      refine ⟨made, hmade, fun h hh => ?_⟩
      obtain ⟨built, hbuilt, rfl⟩ := Option.map_eq_some_iff.mp hh
      exact hanswer built (toOption_eq_some_iff.mp hbuilt)

/-! ## Runs of constructions -/

theorem grows_constructAll (hg : g.Grounded) {cs : List (Construction A)} (hcs : g.Admits cs) :
    ∃ made, g.Grows made (g.constructAll cs).2 ∧
      (g.constructAll cs).1.reduceOption.Sublist (made.map (·.1)) := by
  induction cs generalizing g with
  | nil => exact ⟨[], .refl g, List.nil_sublist _⟩
  | cons c rest ih =>
      obtain ⟨hc, hrest⟩ := hcs
      obtain ⟨made, hmade, hanswer⟩ := grows_construct hg hc
      obtain ⟨more, hmore, hanswers⟩ := ih (hmade.grounded hg) hrest
      refine ⟨made ++ more, hmade.trans hmore, ?_⟩
      rw [List.map_append]
      show ((g.construct c).1 :: _).reduceOption.Sublist _
      match h : (g.construct c).1 with
      | none => exact hanswers.trans (List.sublist_append_right _ _)
      | some h₁ =>
          rw [List.reduceOption_cons_of_some]
          exact (List.singleton_sublist.mpr (hanswer h₁ h)).append hanswers

/-- A run of constructions that starts without groups gives every group a handle of its own, and its
answers are new groups each time. Groups read from smaller handles. So every group has an order, is
compiled without a complaint about cycles, and has the same order and reach after any further
constructions. -/
theorem constructAll_acyclic (cs : List (Construction A)) (hcs : (empty : Graph A).Admits cs) :
    let answers := ((empty : Graph A).constructAll cs).1
    let g := ((empty : Graph A).constructAll cs).2
    (∃ made : List (Handle × Group A), (made.map (·.1)).Pairwise (· < ·) ∧
      answers.reduceOption.Sublist (made.map (·.1)) ∧
      ∀ h t, g.group? h = some t ↔ (h, t) ∈ made) ∧
    (∀ v, ∀ u ∈ g.inputs v, u < v ∧ g.Has u) ∧
    (∀ v, (∃ hs, g.order v = .ok hs) ∧
      ∀ alloc unknown seed given e gen,
        g.compileFrom alloc v unknown seed given ≠ .ok (.error (.order e), gen)) ∧
    ∀ more, g.Admits more →
      let later := (g.constructAll more).2
      (∀ h ∈ (g.constructAll more).1.reduceOption, ¬ g.Has h) ∧
      ∀ v, g.Has v →
        later.group? v = g.group? v ∧ later.order v = g.order v ∧ later.reach v = g.reach v := by
  intro answers g
  obtain ⟨made, hmade, hanswers⟩ := grows_constructAll grounded_empty hcs
  have hgrounded : g.Grounded := hmade.grounded grounded_empty
  -- operands are made before what they are given to, so inputs always have smaller handles
  have hlt : ∀ v, ∀ u ∈ g.inputs v, u < v := hmade.lt_of_mem_inputs fun v u hu => by
    cases hu
  have hacyclic (v : Handle) : g.AcyclicFrom v := acyclicFrom_of_lt (fun v _ => hlt v) v
  refine ⟨⟨made, hmade.pairwise, hanswers, fun h t => ?_⟩,
    fun v u hu => ⟨hlt v u hu, hgrounded v u hu⟩, fun v => ⟨order_eq_ok_iff.mpr (hacyclic v), ?_⟩,
    fun more hmore => ?_⟩
  · rw [hmade.group?_iff]
    exact or_iff_right (by simp [empty, group?])
  · intro alloc unknown seed given e gen hcompile
    obtain ⟨hs, hhs⟩ := order_eq_ok_iff.mpr (hacyclic v)
    rw [order_eq_error_of_compileFrom hcompile] at hhs
    cases hhs
  -- Whatever is constructed later only extends the graph.
  · obtain ⟨new, hnew, hlater⟩ := grows_constructAll hgrounded hmore
    refine ⟨fun h hh hhas => ?_, fun v hv => ?_⟩
    · exact absurd hhas.lt_next (Nat.not_lt.mpr (hnew.next_le_of_mem (hlater.subset hh)))
    · obtain ⟨hs, hhs⟩ := order_eq_ok_iff.mpr (hacyclic v)
      have horder := hnew.toExtends.order_eq hgrounded hv (hacyclic v)
      refine ⟨?_, horder, ?_⟩
      · obtain ⟨t, ht⟩ := hv
        rw [ht, hnew.toExtends v t ht]
      · rw [reach_eq_length_of_order hhs, reach_eq_length_of_order (horder.trans hhs)]

/-- Constructions of all kinds. The second one is refused at once, the fourth one once its layers
have got their groups. -/
def mixedConstructions : List (Construction Numeric) := [
  .declare (.int 2) .linear [] none,
  .declare (.int (-1)) .linear [0] none,
  .connect 0 0,
  .build .standard (.map (Preset.blueprint 0 "missing" [
    Preset.source "in" 3, Preset.layer "out" 1 "relu" ["in"]])),
  .build .standard (.map (Preset.blueprint 0 "out" [
    Preset.source "in" 3, Preset.layer "out" 1 "relu" ["in", "in"]])),
  .connect 2 9]

/-- The graph that they leave, with a gap where a group was refused. -/
def mixedGraph : Graph Numeric := ⟨#[
  some ⟨2, .linear, [], none⟩,
  none,
  some ⟨2, .linear, [0], none⟩,
  some ⟨3, .linear, [], some (.str "in")⟩,
  some ⟨1, .relu, [], some (.str "out")⟩,
  some ⟨1, .relu, [3], some (.str "out")⟩,
  some ⟨3, .linear, [], some (.str "in")⟩,
  some ⟨1, .relu, [], some (.str "out")⟩,
  some ⟨1, .relu, [6], some (.str "out")⟩,
  some ⟨1, .relu, [6, 6], some (.str "out")⟩,
  some ⟨1, .relu, [2, 6, 6], some (.str "out")⟩]⟩

/-- Six constructions, of which the second and the fourth are refused, and a connection after them,
which changes nothing about the last group that they make. -/
theorem constructAll_mixedConstructions :
    (empty : Graph Numeric).Admits mixedConstructions ∧
    (empty.constructAll mixedConstructions).1 =
      [some 0, none, some 2, none, some 9, some 10] ∧
    let g := (empty.constructAll mixedConstructions).2
    g.Admits [.connect 10 6] ∧ g.Has 10 ∧ g.inputs 10 = [2, 6, 6] ∧ (∀ u ∈ g.inputs 10, u < 10) ∧
      g.order 10 = .ok [6, 0, 2, 10] ∧ ¬ g.Has 11 ∧
      (g.constructAll [.connect 10 6]).2.order 10 = .ok [6, 0, 2, 10] ∧
      (g.constructAll [.connect 10 6]).2.reach 10 = g.reach 10 := by
  have hadmits : (empty : Graph Numeric).Admits mixedConstructions := by decide +kernel
  have hmore : (empty.constructAll mixedConstructions).2.Admits [.connect 10 6] := by decide +kernel
  have hten : (empty.constructAll mixedConstructions).2.Has 10 := by decide +kernel
  have hgraph : (empty.constructAll mixedConstructions).2 = mixedGraph := by rfl
  have horder : (empty.constructAll mixedConstructions).2.order 10 = .ok [6, 0, 2, 10] := by
    rw [hgraph]
    cbv
  obtain ⟨-, hinputs, -, hlater⟩ := constructAll_acyclic mixedConstructions hadmits
  obtain ⟨hnew, hstay⟩ := hlater [.connect 10 6] hmore
  obtain ⟨-, hsame, hreach⟩ := hstay 10 hten
  exact ⟨hadmits, by decide +kernel, hmore, hten, by decide +kernel,
    fun u hu => (hinputs 10 u hu).1, horder, hnew 11 (by decide +kernel), hsame.trans horder, hreach⟩

end Graph

end Feedforward
