import Feedforward.Proofs.Network.Layout

/-!
# Which draws become which weights

A group takes as many draws as its weights have entries, none if it is a source. Compiling goes
along the order of the graph, so every layer takes the next stretch of the stream, row by row, and

    weights of the network  =  weights of the next draws, as many as there are parameters.

The generator comes back behind these draws (`compile_draws`). Nothing else moves it: the kind of
the elements only says how a draw becomes a weight, a network that is compiled next goes on where
the last one stopped, and a graph with a cycle is refused before anything is drawn.
-/

namespace Feedforward

/-! ## Draws one after the other -/

namespace Generator

/-- Drawing a number of times and then some more is drawing them all at once. -/
theorem draws_add (gen : Generator) (m n : Nat) :
    gen.draws (m + n) =
      ((gen.draws m).1 ++ ((gen.draws m).2.draws n).1, ((gen.draws m).2.draws n).2) := by
  induction m generalizing gen with
  | zero => rw [Nat.zero_add]; rfl
  | succ m ih =>
      rw [Nat.succ_add, draws, draws]
      dsimp only
      rw [ih]
      rfl

/-- The first draws of a stream do not depend on how many follow. -/
@[simp] theorem take_draws_add (gen : Generator) (m n : Nat) :
    (gen.draws (m + n)).1.take m = (gen.draws m).1 := by
  rw [draws_add]
  exact List.take_left' (gen.length_draws m)

@[simp] theorem drop_draws_add (gen : Generator) (m n : Nat) :
    (gen.draws (m + n)).1.drop m = ((gen.draws m).2.draws n).1 := by
  rw [draws_add]
  exact List.drop_left' (gen.length_draws m)

end Generator

/-! ## Elements of numeric arrays -/

/-- A number in an array. -/
inductive Element where
  | float64 (x : Float)
  | float32 (x : Float32)
  | int64 (n : Int64)

/-- The weight that a draw becomes in an array of a kind. Integers cannot hold weights. -/
def Element.ofDraw? : ElementKind → Nat → Option Element
  | .float64, k => some (.float64 (Numeric.doubleWeight k))
  | .float32, k => some (.float32 (Numeric.singleWeight k))
  | .int64, _ => none

namespace Numeric

/-- The elements of an array, those of a matrix row by row. -/
def elements : Numeric → List Element
  | float64 t => t.data.map .float64
  | float32 t => t.data.map .float32
  | int64 t => t.data.map .int64

@[simp] theorem length_elements (a : Numeric) : a.elements.length = Arithmetic.size a := by
  cases a with
  | float64 t => exact (List.length_map _).trans t.fits
  | float32 t => exact (List.length_map _).trans t.fits
  | int64 t => exact (List.length_map _).trans t.fits

/-- A matrix of weights holds the weights of its draws, one for one. -/
theorem elements_weights {kind : ElementKind} {rows columns : Nat} {ks : List Nat} {w : Numeric}
    (h : weights kind rows columns ks = .ok w) :
    w.elements.map some = ks.map (Element.ofDraw? kind) := by
  cases kind with
  | float64 =>
      rw [weights, Tensor.ofData?] at h
      split at h
      · obtain rfl := Except.ok.inj h
        simp [elements, Element.ofDraw?, Function.comp_def]
      · cases h
  | float32 =>
      rw [weights, Tensor.ofData?] at h
      split at h
      · obtain rfl := Except.ok.inj h
        simp [elements, Element.ofDraw?, Function.comp_def]
      · cases h
  | int64 => cases h

end Numeric

/-- The weights of a layer, row by row. A source has none. -/
def Layer.weightElements (layer : Layer Numeric) : List Element :=
  layer.weights.elim [] Numeric.elements

/-- The weights of a network, layer by layer and row by row. -/
def Network.weightElements (net : Network Numeric) : List Element :=
  net.layers.toList.flatMap Layer.weightElements

/-! ## The stretches of the groups -/

namespace Graph

/-- The number of weights of a group, which is that of the draws that it takes. -/
def weightCount {A : Type} (g : Graph A) (h : Handle) : Nat := g.cardinality h * g.inputSize h

/-- The draws that groups take one after the other. -/
def stretches {A : Type} (g : Graph A) : List Handle → Generator → List (List Nat)
  | [], _ => []
  | h :: rest, gen =>
    (gen.draws (g.weightCount h)).1 :: stretches g rest (gen.draws (g.weightCount h)).2

/-- The stretches lie one behind the other in the stream. -/
theorem flatten_stretches {A : Type} (g : Graph A) (hs : List Handle) (gen : Generator) :
    (g.stretches hs gen).flatten = (gen.draws (hs.map g.weightCount).sum).1 := by
  induction hs generalizing gen with
  | nil => rfl
  | cons h rest ih =>
      rw [stretches, List.flatten_cons, ih, List.map_cons, List.sum_cons, Generator.draws_add]

variable {g : Graph Numeric} {memory : Nat} {kind : ElementKind} {h output : Handle}
  {hs : List Handle} {gen gen' : Generator} {net : Network Numeric}

theorem weightCount_of_nil (hnil : g.inputs h = []) : g.weightCount h = 0 := by
  rw [weightCount, inputSize, hnil]
  rfl

/-- A group takes the next draws, as many as it has weights. -/
theorem drawWeights_eq_ok {w : Option Numeric}
    (hdraw : g.drawWeights (Numeric.allocation memory kind) h gen = (.ok w, gen')) :
    (w.elim [] Numeric.elements).map some =
      (gen.draws (g.weightCount h)).1.map (Element.ofDraw? kind) ∧
    gen' = (gen.draws (g.weightCount h)).2 := by
  by_cases hnil : g.inputs h = []  -- case: a source draws nothing
  · rw [drawWeights_of_nil hnil] at hdraw
    cases hdraw
    rw [weightCount_of_nil hnil]
    exact ⟨rfl, rfl⟩
  -- case: a layer draws its matrix, if there is room for it
  · match hroom : (Numeric.allocation memory kind).room (g.cardinality h) (g.inputSize h) with
    | .error fault =>
        rw [drawWeights_of_no_room hnil hroom] at hdraw
        cases hdraw
    | .ok () =>
        rw [drawWeights_of_room hnil hroom] at hdraw
        obtain ⟨hw, rfl⟩ := Prod.mk.inj hdraw
        match hweights : Numeric.weights kind (g.cardinality h) (g.inputSize h)
            (gen.draws (g.weightCount h)).1 with
        | .error fault =>
            rw [weightCount] at hweights
            simp only [Numeric.allocation, hweights] at hw
            cases hw
        | .ok m =>
            have hm := Numeric.elements_weights hweights
            rw [weightCount] at hweights
            simp only [Numeric.allocation, hweights] at hw
            obtain rfl : some m = w := Except.ok.inj hw
            exact ⟨hm, rfl⟩

/-- The groups of a list take their stretches one after the other. -/
theorem drawAll_eq_ok {ws : List (Option Numeric)}
    (hdraw : g.drawAll (Numeric.allocation memory kind) hs gen = (.ok ws, gen')) :
    ws.map (fun w => (w.elim [] Numeric.elements).map some) =
      (g.stretches hs gen).map (·.map (Element.ofDraw? kind)) ∧
    gen' = (gen.draws (hs.map g.weightCount).sum).2 := by
  induction hs generalizing gen ws with
  | nil =>
      obtain ⟨hws, rfl⟩ := Prod.mk.inj hdraw
      obtain rfl : [] = ws := Except.ok.inj hws
      exact ⟨rfl, rfl⟩
  | cons h rest ih =>
      obtain ⟨w, gen₁, others, hw, hothers, rfl⟩ := drawAll_cons.mp hdraw
      obtain ⟨hfirst, rfl⟩ := drawWeights_eq_ok hw
      obtain ⟨hrest, rfl⟩ := ih hothers
      rw [List.map_cons, stretches, List.map_cons, hfirst, hrest, List.map_cons, List.sum_cons,
        Generator.draws_add]
      exact ⟨rfl, rfl⟩

/-! ## Compiling -/

/-- Every layer of a compiled network holds the weights of the stretch of its group. -/
theorem stretches_of_compile
    (hcompile : g.compile (Numeric.allocation memory kind) output gen = (.ok net, gen')) :
    net.layers.toList.map (fun layer => layer.weightElements.map some) =
      (g.stretches net.groups gen).map (·.map (Element.ofDraw? kind)) ∧
    gen' = (gen.draws (net.groups.map g.weightCount).sum).2 := by
  obtain ⟨hs, ws, layers, -, hdraw, hlayers, rfl⟩ := compile_eq_ok_iff.mp hcompile
  have hlen := length_of_drawAll hdraw
  obtain ⟨hgroups, hweights⟩ := map_group_weights_of_newLayers hlen hlayers
  have hgroups : (Network.ofLayers layers).groups = hs := hgroups
  obtain ⟨hws, hgen⟩ := drawAll_eq_ok hdraw
  rw [hgroups]
  refine ⟨?_, hgen⟩
  rw [← hws, ← hweights, List.map_map]
  rfl

theorem length_stretches {A : Type} (g : Graph A) (hs : List Handle) (gen : Generator) :
    (g.stretches hs gen).map List.length = hs.map g.weightCount := by
  induction hs generalizing gen with
  | nil => rfl
  | cons h rest ih =>
      simp [stretches, ih]

/-- There are as many draws as parameters. -/
theorem parameterCount_of_compile
    (hcompile : g.compile (Numeric.allocation memory kind) output gen = (.ok net, gen')) :
    net.parameterCount = (net.groups.map g.weightCount).sum := by
  have hlengths := congrArg (List.map List.length) (stretches_of_compile hcompile).1
  simp only [List.map_map, Function.comp_def, List.length_map] at hlengths
  rw [Network.parameterCount, ← length_stretches g net.groups gen, ← hlengths]
  refine congrArg List.sum (List.map_congr_left fun layer _ => ?_)
  rw [Layer.weightElements]
  cases layer.weights with
  | none => rfl
  | some w => exact (Numeric.length_elements w).symm

end Graph

/-- The weights of a network are those of the given draws, one for one. -/
def Network.MadeOf (net : Network Numeric) (kind : ElementKind) (ks : List Nat) : Prop :=
  net.weightElements.map some = ks.map (Element.ofDraw? kind)

open Feedforward.Graph

variable {g : Graph Numeric} {kind kind' : ElementKind} {output : Handle}
  {gen gen' gen₁ : Generator} {net net' : Network Numeric}

/-- A network is made of the next draws, and the generator comes back behind them. -/
theorem madeOf_of_compile
    (hcompile : g.compile (Numeric.allocation memory kind) output gen = (.ok net, gen')) :
    net.MadeOf kind (gen.draws net.parameterCount).1 ∧
      gen' = (gen.draws net.parameterCount).2 := by
  obtain ⟨helements, hgen⟩ := stretches_of_compile hcompile
  rw [parameterCount_of_compile hcompile]
  refine ⟨?_, hgen⟩
  rw [Network.MadeOf, ← flatten_stretches, List.map_flatten, ← helements, Network.weightElements,
    List.map_flatMap, List.flatMap_def]

/-- Networks that are compiled one after the other are made of stretches that lie side by side. -/
theorem madeOf_of_compile_compile {g' : Graph Numeric} {output' : Handle}
    (hfirst : g.compile (Numeric.allocation memory kind) output gen = (.ok net, gen₁))
    (hsecond : g'.compile (Numeric.allocation memory kind') output' gen₁ = (.ok net', gen')) :
    net.MadeOf kind
      ((gen.draws (net.parameterCount + net'.parameterCount)).1.take net.parameterCount) ∧
    net'.MadeOf kind'
      ((gen.draws (net.parameterCount + net'.parameterCount)).1.drop net.parameterCount) ∧
    gen' = (gen.draws (net.parameterCount + net'.parameterCount)).2 := by
  obtain ⟨hnet, rfl⟩ := madeOf_of_compile hfirst
  obtain ⟨hnet', hgen⟩ := madeOf_of_compile hsecond
  rw [Generator.take_draws_add, Generator.drop_draws_add, Generator.draws_add]
  exact ⟨hnet, hnet', hgen⟩

/-- All weights of a group have one shape. -/
theorem shape_eq_of_weightsFit {A : Type} [Arithmetic A] {g : Graph A} {h : Handle}
    {weights weights' : Option A} (hfit : g.WeightsFit h weights)
    (hfit' : g.WeightsFit h weights') :
    weights.map Arithmetic.shape = weights'.map Arithmetic.shape := by
  match weights, weights' with
  | none, none => rfl
  | none, some w => exact absurd (hfit'.1.mpr (hfit.1.mp rfl)) (Option.some_ne_none w)
  | some w, none => exact absurd (hfit.1.mpr (hfit'.1.mp rfl)) (Option.some_ne_none w)
  | some w, some w' => exact congrArg some ((hfit.2 w rfl).trans (hfit'.2 w' rfl).symm)

/-- Layers of one group, with weights of one shape and made of the same draws. -/
def Layer.SameDraws (kind kind' : ElementKind) (layer layer' : Layer Numeric) : Prop :=
  layer.group = layer'.group ∧
  layer.weights.map Arithmetic.shape = layer'.weights.map Arithmetic.shape ∧
  ∃ ks : List Nat, layer.weightElements.map some = ks.map (Element.ofDraw? kind) ∧
    layer'.weightElements.map some = ks.map (Element.ofDraw? kind')

/-- The weights of a layer are the elements of its own stretch of the stream. -/
theorem exists_stretch_of_compile
    (hcompile : g.compile (Numeric.allocation memory kind) output gen = (.ok net, gen')) {i : Nat}
    {layer : Layer Numeric} (hlayer : net.layers[i]? = some layer) :
    ∃ ks, (g.stretches net.groups gen)[i]? = some ks ∧
      layer.weightElements.map some = ks.map (Element.ofDraw? kind) := by
  have hi := congrArg (·[i]?) (stretches_of_compile hcompile).1
  simp only [List.getElem?_map, Array.getElem?_toList, hlayer, Option.map_some] at hi
  obtain ⟨ks, hks, hmade⟩ := Option.map_eq_some_iff.mp hi.symm
  exact ⟨ks, hks, hmade.symm⟩

/-- The kind of the elements does not matter for who takes which draws. -/
theorem sameDraws_of_compile (hkind : kind ≠ .int64) (hkind' : kind' ≠ .int64)
    (hcompile : g.compile (Numeric.allocation memory kind) output gen = (.ok net, gen₁))
    (hcompile' : g.compile (Numeric.allocation memory kind') output gen = (.ok net', gen')) :
    gen' = gen₁ ∧ net'.groups = net.groups ∧
      ∀ (i : Nat) (layer layer' : Layer Numeric), net.layers[i]? = some layer →
        net'.layers[i]? = some layer' → layer.SameDraws kind kind' layer' := by
  have hnet := laidOut_of_compile (Numeric.lawful_allocation hkind) hcompile
  have hnet' := laidOut_of_compile (Numeric.lawful_allocation hkind') hcompile'
  have hgroups : net'.groups = net.groups :=
    -- the order does not depend on the kind
    Except.ok.inj (hnet'.follows.symm.trans hnet.follows)
  refine ⟨?_, hgroups, fun i layer layer' hlayer hlayer' => ?_⟩
  · rw [(stretches_of_compile hcompile).2, (stretches_of_compile hcompile').2, hgroups]
  · have hsame : layer.group = layer'.group := by
      have hi := Network.getElem?_groups_of_layer hlayer'
      rw [hgroups, Network.getElem?_groups_of_layer hlayer] at hi
      exact Option.some.inj hi
    -- both layers take the same stretch of the draws
    obtain ⟨ks, hks, hmade⟩ := exists_stretch_of_compile hcompile hlayer
    obtain ⟨ks', hks', hmade'⟩ := exists_stretch_of_compile hcompile' hlayer'
    rw [hgroups, hks] at hks'
    obtain rfl := Option.some.inj hks'
    refine ⟨hsame, ?_, ks, hmade, hmade'⟩
    exact shape_eq_of_weightsFit (hnet.weights layer (Array.mem_of_getElem? hlayer))
      (hsame ▸ hnet'.weights layer' (Array.mem_of_getElem? hlayer'))

/-! ## The main result -/

/-- Compiling a graph to floating-point numbers answers exactly where no cycle is reached and there
is room for all arrays. Then the weights are those of the next draws, as many as there are
parameters, and the generator comes back behind them. A network compiled next takes the draws that
follow, one of the other kind the same draws at the same places. A seed stands for the generator
that it starts, and where a cycle is reached nothing is drawn. -/
theorem compile_draws (g : Graph Numeric) (output : Handle) (memory : Nat) (kind : ElementKind)
    (gen : Generator) (hkind : kind ≠ .int64) :
    ((∃ net gen', g.compile (Numeric.allocation memory kind) output gen = (.ok net, gen')) ↔
      g.AcyclicFrom output ∧ ∀ h, g.Reaches output h →
        Numeric.room memory kind.width [g.cardinality h] = .ok () ∧
        (g.inputs h ≠ [] →
          Numeric.room memory Numeric.drawWidth [g.cardinality h, g.inputSize h] = .ok ())) ∧
    (∀ net gen', g.compile (Numeric.allocation memory kind) output gen = (.ok net, gen') →
      (net.MadeOf kind (gen.draws net.parameterCount).1 ∧
        gen' = (gen.draws net.parameterCount).2) ∧
      (∀ (g₂ : Graph Numeric) output₂ kind₂ net₂ gen₂,
        g₂.compile (Numeric.allocation memory kind₂) output₂ gen' = (.ok net₂, gen₂) →
        net.MadeOf kind
          ((gen.draws (net.parameterCount + net₂.parameterCount)).1.take net.parameterCount) ∧
        net₂.MadeOf kind₂
          ((gen.draws (net.parameterCount + net₂.parameterCount)).1.drop net.parameterCount) ∧
        gen₂ = (gen.draws (net.parameterCount + net₂.parameterCount)).2) ∧
      ∀ kind₂ net₂ gen₂, kind₂ ≠ .int64 →
        g.compile (Numeric.allocation memory kind₂) output gen = (.ok net₂, gen₂) →
        gen₂ = gen' ∧ net₂.groups = net.groups ∧
        ∀ (i : Nat) (layer layer₂ : Layer Numeric), net.layers[i]? = some layer →
          net₂.layers[i]? = some layer₂ → layer.SameDraws kind kind₂ layer₂) ∧
    (∀ unknown seed other, g.compileFrom (Numeric.allocation memory kind) output unknown seed none =
      (Generator.ofValue unknown seed).bind fun gen =>
        g.compileFrom (Numeric.allocation memory kind) output unknown other (some gen)) ∧
    ((∃ e gen', g.compile (Numeric.allocation memory kind) output gen = (.error (.order e), gen')) ↔
      ¬ g.AcyclicFrom output) ∧
    ∀ e gen', g.compile (Numeric.allocation memory kind) output gen = (.error (.order e), gen') →
      gen' = gen := by
  refine ⟨?_, ?_, ?_, ?_, ?_⟩
  · rw [exists_compile_iff (Numeric.lawful_allocation hkind)]  -- which networks there are
    simp only [hasRoom_iff]
  · intro net gen' hcompile  -- what one of them has drawn
    refine ⟨madeOf_of_compile hcompile, ?_, ?_⟩
    · intro g₂ output₂ kind₂ net₂ gen₂ hnext
      exact madeOf_of_compile_compile hcompile hnext
    · intro kind₂ net₂ gen₂ hkind₂ hother
      exact sameDraws_of_compile hkind hkind₂ hcompile hother
  · intro unknown seed other  -- seeds
    rw [compileFrom]
    cases Generator.ofValue unknown seed <;> rfl
  · rw [← order_eq_ok_iff]  -- cycles
    constructor
    · rintro ⟨e, gen', hcompile⟩ ⟨hs, horder⟩
      cases horder.symm.trans (compile_eq_order_error_iff.mp hcompile).1
    · intro hrefused
      cases horder : g.order output with
      | ok hs => exact absurd ⟨hs, horder⟩ hrefused
      | error e => exact ⟨e, gen, compile_eq_order_error_iff.mpr ⟨horder, rfl⟩⟩
  · intro e gen' hcompile
    exact (compile_eq_order_error_iff.mp hcompile).2

theorem parameterCount_diamond
    (hcompile : (diamond Activation.linear).compile (Numeric.allocation memory .float64) 3 gen =
      (.ok net, gen')) : net.parameterCount = 15 := by
  rw [parameterCount_of_compile hcompile, groups_of_compile_diamond hcompile]
  decide

/-- The diamond compiled twice takes thirty draws, and the second network is made of the last
fifteen. -/
theorem compile_draws_diamond :
    ElementKind.float64 ≠ .int64 ∧
    ∃ net gen' net₂ gen₂,
      (diamond .linear).compile Numeric.doubles 3 (.ofSeed [0]) = (.ok net, gen') ∧
      (diamond .linear).compile Numeric.doubles 3 gen' = (.ok net₂, gen₂) ∧
      net.MadeOf .float64 (((Generator.ofSeed [0]).draws 30).1.take 15) ∧
      net₂.MadeOf .float64 (((Generator.ofSeed [0]).draws 30).1.drop 15) ∧
      gen₂ = ((Generator.ofSeed [0]).draws 30).2 := by
  have hkind : ElementKind.float64 ≠ .int64 := by decide
  have hroom : ∀ h, (diamond Activation.linear).Reaches 3 h → _ := fun h _ =>
    hasRoom_iff.mp (hasRoom_diamond h)
  have hacyclic := acyclicFrom_diamond Activation.linear
  obtain ⟨hanswer, hdraws, -⟩ := compile_draws (diamond .linear) 3 Numeric.usualMemory .float64
    (.ofSeed [0]) hkind
  obtain ⟨net, gen', hcompile⟩ := hanswer.mpr ⟨hacyclic, hroom⟩
  obtain ⟨hanswer₂, -⟩ := compile_draws (diamond .linear) 3 Numeric.usualMemory .float64 gen' hkind
  obtain ⟨net₂, gen₂, hcompile₂⟩ := hanswer₂.mpr ⟨hacyclic, hroom⟩
  obtain ⟨-, hnext, -⟩ := hdraws net gen' hcompile
  have hmade := hnext _ _ _ _ _ hcompile₂
  rw [parameterCount_diamond hcompile, parameterCount_diamond hcompile₂] at hmade
  exact ⟨hkind, net, gen', net₂, gen₂, hcompile, hcompile₂, hmade⟩

/-- A chain whose last group is so large that there is no memory for its weights. -/
def oversizedChain : Graph Numeric :=
  ⟨#[some ⟨1, Activation.linear, [], none⟩, some ⟨1, Activation.linear, [0], none⟩,
    some ⟨2 ^ 59, Activation.linear, [1], none⟩]⟩

/-- Where memory runs out, there is no network, and the generator has moved on by the draws that
were made before. -/
theorem compile_oversizedChain :
    oversizedChain.AcyclicFrom 2 ∧
    oversizedChain.compile Numeric.doubles 2 (.ofSeed [0]) =
      (.error (.array .outOfMemory), ((Generator.ofSeed [0]).draws 1).2) := by
  -- handles grow along the chain, so that there is no cycle
  have hbelow : ∀ v : Nat, v < 3 → ∀ u ∈ oversizedChain.inputs v, u < v
    | 0, _ => (by decide : ∀ u ∈ ([] : List Nat), u < 0)
    | 1, _ => (by decide : ∀ u ∈ [0], u < 1)
    | 2, _ => (by decide : ∀ u ∈ [1], u < 2)
    | _ + 3, hv => absurd hv (by omega)
  have horder : oversizedChain.order 2 = .ok [0, 1, 2] := by cbv
  refine ⟨acyclicFrom_of_lt (g := oversizedChain) hbelow 2, ?_⟩
  generalize Generator.ofSeed [0] = gen
  have hsource : oversizedChain.drawWeights Numeric.doubles 0 gen =
      (.ok none, gen) := drawWeights_of_nil rfl
  obtain ⟨w, hw, -⟩ : ∃ w, Numeric.weights .float64 1 1 (gen.draws 1).1 = .ok w ∧ _ :=
    Numeric.exists_weights (by decide) (gen.length_draws 1)
  have hsmall : oversizedChain.drawWeights Numeric.doubles 1 gen =
      (.ok (some w), (gen.draws 1).2) := by
    rw [drawWeights_of_room (by decide) rfl]
    show ((Numeric.weights .float64 1 1 (gen.draws 1).1).map some, (gen.draws 1).2) = _
    rw [hw]
    rfl
  -- the second matrix is too large, once the first one has been drawn
  have hlarge : oversizedChain.drawWeights Numeric.doubles 2 (gen.draws 1).2 =
      (.error .outOfMemory, (gen.draws 1).2) := drawWeights_of_no_room (by decide) rfl
  simp only [compile, horder, drawAll, hsource, hsmall, hlarge]

end Feedforward
