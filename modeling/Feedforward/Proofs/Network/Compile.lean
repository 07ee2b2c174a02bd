import Feedforward.Network.Compile
import Feedforward.Proofs.Network.Positions

/-!
# What compiling lays out

Compiling gives every group that the output reaches a layer, in the order of the graph, with
buffers of the sizes of its group (`LaidOut`). It answers wherever there is room for the buffers and
no cycle in the way (`exists_compile_iff`). The draws do not matter for any of this, so it holds of
every lawful allocation: one whose vectors of zeros have the length asked for and which makes a
matrix of as many draws as the matrix has entries.
-/

namespace Feedforward

variable {A : Type} [Arithmetic A]

/-- What compiling relies on when it allocates arrays. -/
structure Allocation.Lawful (alloc : Allocation A) (zeros : Nat → A) : Prop where
  eq_zeros : ∀ {n : Nat} {z : A}, alloc.zeros n = .ok z → z = zeros n
  shape_zeros : ∀ n, Arithmetic.shape (zeros n) = [n]
  exists_weights : ∀ {rows columns : Nat} {draws : List Nat}, draws.length = rows * columns →
    ∃ w, alloc.weights rows columns draws = .ok w ∧ Arithmetic.shape w = [rows, columns]

/-- What the first allocation answers, the second answers as well. -/
structure Allocation.Within {A : Type} (alloc alloc' : Allocation A) : Prop where
  room : ∀ {rows columns : Nat}, alloc.room rows columns = .ok () →
    alloc'.room rows columns = .ok ()
  weights : ∀ {rows columns : Nat} {draws : List Nat} {w : A},
    alloc.weights rows columns draws = .ok w → alloc'.weights rows columns draws = .ok w
  zeros : ∀ {n : Nat} {z : A}, alloc.zeros n = .ok z → alloc'.zeros n = .ok z

@[simp]
theorem Generator.length_draws (gen : Generator) (n : Nat) : (gen.draws n).1.length = n := by
  induction n generalizing gen with
  | zero => rfl
  | succ n ih => exact congrArg (· + 1) (ih gen.draw.2)

namespace Graph

/-- There is room for the buffers of a group. -/
def HasRoom (g : Graph A) (alloc : Allocation A) (h : Handle) : Prop :=
  (∃ z, alloc.zeros (g.cardinality h) = .ok z) ∧
    (g.inputs h ≠ [] → alloc.room (g.cardinality h) (g.inputSize h) = .ok ())

/-- Sources have no weights; the weights of any other group form a matrix with a row for each of its
neurons and a column for each neuron that it reads from, counted once per edge. -/
def WeightsFit (g : Graph A) (h : Handle) (weights : Option A) : Prop :=
  (weights = none ↔ g.inputs h = []) ∧
    ∀ w, weights = some w → Arithmetic.shape w = [g.cardinality h, g.inputSize h]

variable {g : Graph A} {alloc : Allocation A} {zeros : Nat → A} {h : Handle} {hs : List Handle}
  {gen gen' : Generator}

/-! ## Drawing weights -/

section DrawWeights

omit [Arithmetic A]

theorem drawWeights_of_nil (hnil : g.inputs h = []) :
    g.drawWeights alloc h gen = (.ok none, gen) := by
  rw [drawWeights, if_pos (isSource_iff.mpr hnil)]

/-- A group for whose weights there is no room draws nothing from the stream. -/
theorem drawWeights_of_no_room {fault : ArrayFault} (hne : g.inputs h ≠ [])
    (hroom : alloc.room (g.cardinality h) (g.inputSize h) = .error fault) :
    g.drawWeights alloc h gen = (.error fault, gen) := by
  rw [drawWeights, if_neg fun hsource => hne (isSource_iff.mp hsource)]
  simp only [hroom]

/-- The generator moves on by one draw for each entry. -/
theorem drawWeights_of_room (hne : g.inputs h ≠ [])
    (hroom : alloc.room (g.cardinality h) (g.inputSize h) = .ok ()) :
    g.drawWeights alloc h gen =
      ((alloc.weights (g.cardinality h) (g.inputSize h)
          (gen.draws (g.cardinality h * g.inputSize h)).1).map some,
        (gen.draws (g.cardinality h * g.inputSize h)).2) := by
  rw [drawWeights, if_neg fun hsource => hne (isSource_iff.mp hsource)]
  simp only [hroom]

/-- Weights are drawn for one group after the other, each from where the stream then is. -/
theorem drawAll_cons {rest : List Handle} {ws : List (Option A)} :
    g.drawAll alloc (h :: rest) gen = (.ok ws, gen') ↔
      ∃ w gen₁ others, g.drawWeights alloc h gen = (.ok w, gen₁) ∧
        g.drawAll alloc rest gen₁ = (.ok others, gen') ∧ ws = w :: others := by
  rw [drawAll]
  constructor
  · intro hdraw
    split at hdraw
    · cases hdraw
    · next w gen₁ hw =>
        split at hdraw
        · cases hdraw
        · next others gen₂ hothers =>
            obtain ⟨hws, rfl⟩ := Prod.mk.inj hdraw
            exact ⟨w, gen₁, others, hw, hothers, (Except.ok.inj hws).symm⟩
  · rintro ⟨w, gen₁, others, hw, hothers, rfl⟩
    simp only [hw, hothers]

theorem length_of_drawAll {ws : List (Option A)}
    (hdraw : g.drawAll alloc hs gen = (.ok ws, gen')) : hs.length = ws.length := by
  induction hs generalizing gen ws with
  | nil =>
      obtain rfl : [] = ws := Except.ok.inj (Prod.mk.inj hdraw).1
      rfl
  | cons h rest ih =>
      obtain ⟨w, gen₁, others, -, hothers, rfl⟩ := drawAll_cons.mp hdraw
      exact congrArg (· + 1) (ih hothers)

/-- What is so of the weights of every group is so of all weights. -/
theorem forall₂_of_drawAll {P : Handle → Option A → Prop}
    (hP : ∀ h w gen gen', g.drawWeights alloc h gen = (.ok w, gen') → P h w) {ws : List (Option A)}
    (hdraw : g.drawAll alloc hs gen = (.ok ws, gen')) : List.Forall₂ P hs ws := by
  induction hs generalizing gen ws with
  | nil =>
      obtain rfl : [] = ws := Except.ok.inj (Prod.mk.inj hdraw).1
      exact .nil
  | cons h rest ih =>
      obtain ⟨w, gen₁, others, hw, hothers, rfl⟩ := drawAll_cons.mp hdraw
      exact .cons (hP h w _ _ hw) (ih hothers)

end DrawWeights

/-- Weights are drawn wherever there is room for them, and fit their group. -/
theorem drawWeights_spec (hlaw : alloc.Lawful zeros) (g : Graph A) (h : Handle) (gen : Generator) :
    (g.inputs h ≠ [] ∧ ∃ fault, alloc.room (g.cardinality h) (g.inputSize h) = .error fault ∧
      g.drawWeights alloc h gen = (.error fault, gen)) ∨
    ((g.inputs h ≠ [] → alloc.room (g.cardinality h) (g.inputSize h) = .ok ()) ∧
      ∃ w gen', g.drawWeights alloc h gen = (.ok w, gen') ∧ g.WeightsFit h w) := by
  -- sources draw nothing, so there is no room to ask for
  by_cases hnil : g.inputs h = []
  · refine .inr ⟨fun hne => absurd hnil hne, none, gen, drawWeights_of_nil hnil, ?_⟩
    exact ⟨⟨fun _ => hnil, fun _ => rfl⟩, fun _ hw => nomatch hw⟩
  · match hroom : alloc.room (g.cardinality h) (g.inputSize h) with
    | .error fault => exact .inl ⟨hnil, fault, rfl, drawWeights_of_no_room hnil hroom⟩
    | .ok () =>
        obtain ⟨m, hm, hshape⟩ := hlaw.exists_weights
          (gen.length_draws (g.cardinality h * g.inputSize h))
        refine .inr ⟨fun _ => rfl, some m, (gen.draws (g.cardinality h * g.inputSize h)).2, ?_, ?_⟩
        · rw [drawWeights_of_room hnil hroom, hm]
          rfl
        · exact ⟨⟨fun hw => absurd hw (Option.some_ne_none m), fun h => absurd h hnil⟩,
            fun w hw => Option.some.inj hw ▸ hshape⟩

/-- Weights that are drawn have a row for each unit and a column for each component that comes in.
-/
theorem weightsFit_of_drawWeights (hlaw : alloc.Lawful zeros) {w : Option A}
    (hdraw : g.drawWeights alloc h gen = (.ok w, gen')) : g.WeightsFit h w := by
  rcases drawWeights_spec hlaw g h gen with ⟨-, fault, -, hfault⟩ | ⟨-, w', gen₁, hok, hfit⟩
  · rw [hfault] at hdraw
    cases hdraw
  · rw [hok] at hdraw
    cases hdraw
    exact hfit

/-- Drawing fails for want of room only, which a source does not need. -/
theorem exists_drawWeights_iff (hlaw : alloc.Lawful zeros) (gen : Generator) :
    (∃ w gen', g.drawWeights alloc h gen = (.ok w, gen')) ↔
      (g.inputs h ≠ [] → alloc.room (g.cardinality h) (g.inputSize h) = .ok ()) := by
  rcases drawWeights_spec hlaw g h gen with
    ⟨hne, fault, hroom, hfault⟩ | ⟨hroom, w, gen₁, hok, -⟩
  · rw [hfault, hroom]
    constructor
    · rintro ⟨w, gen', hdraw⟩; cases hdraw
    · intro hok; cases hok hne
  · exact ⟨fun _ => hroom, fun _ => ⟨w, gen₁, hok⟩⟩

theorem weightsFit_of_drawAll (hlaw : alloc.Lawful zeros) {ws : List (Option A)}
    (hdraw : g.drawAll alloc hs gen = (.ok ws, gen')) : List.Forall₂ g.WeightsFit hs ws :=
  forall₂_of_drawAll (fun _ _ _ _ hw => weightsFit_of_drawWeights hlaw hw) hdraw

theorem exists_drawAll_iff (hlaw : alloc.Lawful zeros) (gen : Generator) :
    (∃ ws gen', g.drawAll alloc hs gen = (.ok ws, gen')) ↔
      ∀ h ∈ hs, g.inputs h ≠ [] → alloc.room (g.cardinality h) (g.inputSize h) = .ok () := by
  induction hs generalizing gen with
  | nil => exact ⟨fun _ => List.forall_mem_nil _, fun _ => ⟨[], gen, rfl⟩⟩
  | cons h rest ih =>
      rw [List.forall_mem_cons]
      constructor
      · rintro ⟨ws, gen', hdraw⟩
        obtain ⟨w, gen₁, others, hw, hothers, -⟩ := drawAll_cons.mp hdraw
        exact ⟨(exists_drawWeights_iff hlaw gen).mp ⟨w, gen₁, hw⟩,
          (ih gen₁).mp ⟨others, gen', hothers⟩⟩
      · rintro ⟨hh, hrest⟩
        obtain ⟨w, gen₁, hw⟩ := (exists_drawWeights_iff hlaw gen).mpr hh
        obtain ⟨others, gen', hothers⟩ := (ih gen₁).mpr hrest
        exact ⟨w :: others, gen', drawAll_cons.mpr ⟨w, gen₁, others, hw, hothers, rfl⟩⟩

/-! ## Making layers -/

/-- The layer that a group gets with the given weights. -/
def layerOf (g : Graph A) (zeros : Nat → A) (h : Handle) (weights : Option A) : Layer A :=
  ⟨h, weights, some (zeros (g.cardinality h)), some (zeros (g.cardinality h))⟩

/-- There are new layers exactly if the buffers of each group can be allocated. -/
theorem newLayers_eq_ok_iff (hlaw : alloc.Lawful zeros) {ws : List (Option A)}
    (hlen : hs.length = ws.length) {layers : List (Layer A)} :
    g.newLayers alloc hs ws = .ok layers ↔
      (∀ h ∈ hs, ∃ z, alloc.zeros (g.cardinality h) = .ok z) ∧
      layers = List.zipWith (g.layerOf zeros) hs ws := by
  -- The induction runs over the groups and their weights at once, so the lists have the same
  -- length.
  induction hs generalizing ws layers with
  | nil =>
      obtain rfl : ws = [] := List.length_eq_zero_iff.mp hlen.symm
      exact ⟨fun h => ⟨List.forall_mem_nil _, (Except.ok.inj h).symm⟩, fun h => congrArg _ h.2.symm⟩
  | cons h rest ih =>
      match ws, hlen with
      | w :: others, hlen =>
          rw [newLayers, bind_eq_ok_iff, List.forall_mem_cons]
          constructor
          · rintro ⟨layer, hlayer, hrest⟩
            obtain ⟨z, hz, hlayer⟩ := bind_eq_ok_iff.mp hlayer
            obtain ⟨tail, htail, hlayers⟩ := bind_eq_ok_iff.mp hrest
            obtain ⟨hroom, rfl⟩ := (ih (Nat.succ.inj hlen)).mp htail
            obtain rfl := hlaw.eq_zeros hz
            obtain rfl := Except.ok.inj hlayer
            exact ⟨⟨⟨_, hz⟩, hroom⟩, (Except.ok.inj hlayers).symm⟩
          · rintro ⟨⟨⟨z, hz⟩, hroom⟩, rfl⟩
            obtain rfl := hlaw.eq_zeros hz
            refine ⟨_, bind_eq_ok_iff.mpr ⟨_, hz, rfl⟩, bind_eq_ok_iff.mpr ⟨_, ?_, rfl⟩⟩
            exact (ih (Nat.succ.inj hlen)).mpr ⟨hroom, rfl⟩

omit [Arithmetic A] in
/-- A new layer has the weights that are drawn for its group, its signal and its error are zero. -/
theorem forall_mem_newLayers {P : Handle → Option A → Prop} {ws : List (Option A)}
    (hP : List.Forall₂ P hs ws) {layers : List (Layer A)}
    (hlayers : g.newLayers alloc hs ws = .ok layers) :
    ∀ layer ∈ layers, P layer.group layer.weights ∧
      ∃ z, alloc.zeros (g.cardinality layer.group) = .ok z ∧ layer.signal = some z ∧
        layer.error = some z := by
  induction hP generalizing layers with
  | nil =>
      obtain rfl : [] = layers := Except.ok.inj hlayers
      exact List.forall_mem_nil _
  | cons hw _ ih =>
      rw [newLayers] at hlayers
      obtain ⟨layer, hlayer, hrest⟩ := bind_eq_ok_iff.mp hlayers
      obtain ⟨z, hz, hlayer⟩ := bind_eq_ok_iff.mp hlayer
      obtain ⟨tail, htail, hlayers⟩ := bind_eq_ok_iff.mp hrest
      obtain rfl := Except.ok.inj hlayer
      obtain rfl := Except.ok.inj hlayers
      rw [List.forall_mem_cons]
      exact ⟨⟨hw, z, hz, rfl, rfl⟩, ih htail⟩

omit [Arithmetic A] in
/-- New layers stand in the order of their groups, each with the weights drawn for it. -/
theorem map_group_weights_of_newLayers {ws : List (Option A)} (hlen : hs.length = ws.length)
    {layers : List (Layer A)} (hlayers : g.newLayers alloc hs ws = .ok layers) :
    layers.map (·.group) = hs ∧ layers.map (·.weights) = ws := by
  induction hs generalizing ws layers with
  | nil =>
      obtain rfl : ws = [] := List.length_eq_zero_iff.mp hlen.symm
      obtain rfl : [] = layers := Except.ok.inj hlayers
      exact ⟨rfl, rfl⟩
  | cons h rest ih =>
      match ws, hlen with
      | w :: others, hlen =>
          rw [newLayers] at hlayers
          obtain ⟨layer, hlayer, hrest⟩ := bind_eq_ok_iff.mp hlayers
          obtain ⟨z, -, hlayer⟩ := bind_eq_ok_iff.mp hlayer
          obtain ⟨tail, htail, hlayers⟩ := bind_eq_ok_iff.mp hrest
          obtain rfl := Except.ok.inj hlayer
          obtain rfl := Except.ok.inj hlayers
          obtain ⟨hgroups, hweights⟩ := ih (Nat.succ.inj hlen) htail
          exact ⟨congrArg (h :: ·) hgroups, congrArg (w :: ·) hweights⟩

end Graph

/-! ## The layout of a compiled network -/

namespace Network

/-- The layout that compiling gives a network: a layer for each group of the order, its weights of
the shape that the group asks for, its signal and its error at zero. -/
structure LaidOut (net : Network A) (g : Graph A) (zeros : Nat → A) (output : Handle) : Prop where
  follows : net.Follows g output
  weights : ∀ layer ∈ net.layers, g.WeightsFit layer.group layer.weights
  signal : ∀ layer ∈ net.layers, layer.signal = some (zeros (g.cardinality layer.group))
  error : ∀ layer ∈ net.layers, layer.error = some (zeros (g.cardinality layer.group))

end Network

namespace Graph

variable {g : Graph A} {alloc : Allocation A} {zeros : Nat → A} {output : Handle}
  {gen gen' : Generator} {net : Network A}

omit [Arithmetic A] in
/-- Compiling orders the groups, draws weights for all of them and only then allocates their
buffers. -/
theorem compile_eq_ok_iff :
    g.compile alloc output gen = (.ok net, gen') ↔
      ∃ hs ws layers, g.order output = .ok hs ∧ g.drawAll alloc hs gen = (.ok ws, gen') ∧
        g.newLayers alloc hs ws = .ok layers ∧ net = .ofLayers layers := by
  rw [compile]
  constructor
  · intro hcompile
    split at hcompile  -- each of the three steps may fail
    · cases hcompile
    · next hs horder =>
        split at hcompile
        · cases hcompile
        · next ws gen₁ hdraw =>
            split at hcompile
            · cases hcompile
            · next layers hlayers =>
                obtain ⟨hnet, rfl⟩ := Prod.mk.inj hcompile
                exact ⟨hs, ws, layers, horder, hdraw, hlayers, (Except.ok.inj hnet).symm⟩
  · rintro ⟨hs, ws, layers, horder, hdraw, hlayers, rfl⟩
    simp only [horder, hdraw, hlayers]

omit [Arithmetic A] in
/-- The layers of a network that is compiled follow the order of the graph. -/
theorem follows_of_compile (hcompile : g.compile alloc output gen = (.ok net, gen')) :
    net.Follows g output := by
  obtain ⟨hs, ws, layers, horder, hdraw, hlayers, rfl⟩ := compile_eq_ok_iff.mp hcompile
  have hgroups := (map_group_weights_of_newLayers (length_of_drawAll hdraw) hlayers).1
  show g.order output = .ok ((Network.ofLayers layers).layers.toList.map (·.group))
  exact horder.trans (congrArg Except.ok hgroups.symm)

theorem laidOut_of_compile (hlaw : alloc.Lawful zeros)
    (hcompile : g.compile alloc output gen = (.ok net, gen')) : net.LaidOut g zeros output := by
  have hfollows := follows_of_compile hcompile
  obtain ⟨hs, ws, layers, -, hdraw, hlayers, rfl⟩ := compile_eq_ok_iff.mp hcompile
  have hspec := forall_mem_newLayers (weightsFit_of_drawAll hlaw hdraw) hlayers
  have hzeros : ∀ layer ∈ (Network.ofLayers layers).layers, g.WeightsFit layer.group layer.weights ∧
      layer.signal = some (zeros (g.cardinality layer.group)) ∧
      layer.error = some (zeros (g.cardinality layer.group)) := by
    intro layer hlayer
    obtain ⟨hweights, z, hz, hsignal, herror⟩ := hspec layer (List.mem_toArray.mp hlayer)
    obtain rfl := hlaw.eq_zeros hz
    exact ⟨hweights, hsignal, herror⟩
  exact ⟨hfollows, fun layer hl => (hzeros layer hl).1, fun layer hl => (hzeros layer hl).2.1,
    fun layer hl => (hzeros layer hl).2.2⟩

/-- Compiling answers exactly where no cycle is reached and there is room for all buffers. -/
theorem exists_compile_iff (hlaw : alloc.Lawful zeros) :
    (∃ net gen', g.compile alloc output gen = (.ok net, gen')) ↔
      g.AcyclicFrom output ∧ ∀ h, g.Reaches output h → g.HasRoom alloc h := by
  constructor
  · rintro ⟨net, gen', hcompile⟩  -- a network had room for each of its groups
    obtain ⟨hs, ws, layers, horder, hdraw, hlayers, -⟩ := compile_eq_ok_iff.mp hcompile
    have hlen := length_of_drawAll hdraw
    refine ⟨acyclicFrom_of_order horder, fun h hreach => ?_⟩
    have hmem := (mem_order_iff horder).mpr hreach
    exact ⟨((newLayers_eq_ok_iff hlaw hlen).mp hlayers).1 h hmem,
      (exists_drawAll_iff hlaw gen).mp ⟨ws, gen', hdraw⟩ h hmem⟩
  · rintro ⟨hacyclic, hroom⟩  -- with room each of the steps succeeds
    obtain ⟨hs, horder⟩ := order_eq_ok_iff.mpr hacyclic
    have hroom : ∀ h ∈ hs, g.HasRoom alloc h := fun h hmem =>
      hroom h ((mem_order_iff horder).mp hmem)
    obtain ⟨ws, gen', hdraw⟩ := (exists_drawAll_iff hlaw gen).mpr fun h hmem =>
      (hroom h hmem).2
    have hlen := length_of_drawAll hdraw
    have hlayers := (newLayers_eq_ok_iff hlaw hlen).mpr ⟨fun h hmem => (hroom h hmem).1, rfl⟩
    exact ⟨_, gen', compile_eq_ok_iff.mpr ⟨hs, ws, _, horder, hdraw, hlayers, rfl⟩⟩

/-! ## More room -/

section Within

omit [Arithmetic A]

variable {alloc' : Allocation A} {h : Handle} {hs : List Handle} {w : Option A}
  {ws : List (Option A)} {layers : List (Layer A)}

theorem drawWeights_mono (hwithin : alloc.Within alloc')
    (hdraw : g.drawWeights alloc h gen = (.ok w, gen')) :
    g.drawWeights alloc' h gen = (.ok w, gen') := by
  by_cases hnil : g.inputs h = []
  · rw [drawWeights_of_nil hnil] at hdraw ⊢
    exact hdraw
  · match hroom : alloc.room (g.cardinality h) (g.inputSize h) with
    | .error fault =>
        rw [drawWeights_of_no_room hnil hroom] at hdraw
        cases hdraw
    | .ok () =>
        rw [drawWeights_of_room hnil hroom] at hdraw
        rw [drawWeights_of_room hnil (hwithin.room hroom)]
        -- the draws are those that were made with less room
        obtain ⟨hweights, rfl⟩ := Prod.mk.inj hdraw
        obtain ⟨a, ha, rfl⟩ := map_eq_ok_iff.mp hweights
        rw [hwithin.weights ha]
        rfl

/-- More room changes no weights. -/
theorem drawAll_mono (hwithin : alloc.Within alloc')
    (hdraw : g.drawAll alloc hs gen = (.ok ws, gen')) :
    g.drawAll alloc' hs gen = (.ok ws, gen') := by
  induction hs generalizing gen ws with
  | nil => exact hdraw
  | cons h rest ih =>
      obtain ⟨w, gen₁, others, hw, hothers, rfl⟩ := drawAll_cons.mp hdraw
      exact drawAll_cons.mpr ⟨w, gen₁, others, drawWeights_mono hwithin hw, ih hothers, rfl⟩

/-- More room changes no buffers. -/
theorem newLayers_mono (hwithin : alloc.Within alloc')
    (hlayers : g.newLayers alloc hs ws = .ok layers) : g.newLayers alloc' hs ws = .ok layers := by
  induction hs generalizing ws layers with
  | nil => exact hlayers
  | cons h rest ih =>
      match ws with
      | [] => exact hlayers
      | w :: others =>
          rw [newLayers] at hlayers ⊢
          obtain ⟨layer, hlayer, hrest⟩ := bind_eq_ok_iff.mp hlayers
          obtain ⟨z, hz, hlayer⟩ := bind_eq_ok_iff.mp hlayer
          obtain ⟨tail, htail, hlayers⟩ := bind_eq_ok_iff.mp hrest
          exact bind_eq_ok_iff.mpr ⟨layer, bind_eq_ok_iff.mpr ⟨z, hwithin.zeros hz, hlayer⟩,
            bind_eq_ok_iff.mpr ⟨tail, ih htail, hlayers⟩⟩

/-- A graph that is compiled with some room is compiled to the same network with more. -/
theorem compile_mono (hwithin : alloc.Within alloc')
    (hcompile : g.compile alloc output gen = (.ok net, gen')) :
    g.compile alloc' output gen = (.ok net, gen') := by
  obtain ⟨hs, ws, layers, horder, hdraw, hlayers, rfl⟩ := compile_eq_ok_iff.mp hcompile
  exact compile_eq_ok_iff.mpr ⟨hs, ws, layers, horder, drawAll_mono hwithin hdraw,
    newLayers_mono hwithin hlayers, rfl⟩

end Within

/-! ## Refusals -/

omit [Arithmetic A] in
/-- A graph with a cycle is refused before anything is drawn. -/
theorem compile_eq_order_error_iff {e : OrderError} :
    g.compile alloc output gen = (.error (.order e), gen') ↔
      g.order output = .error e ∧ gen' = gen := by
  rw [compile]
  constructor
  · intro hcompile
    split at hcompile
    · next e' horder =>
        obtain ⟨he, rfl⟩ := Prod.mk.inj hcompile
        cases he
        exact ⟨horder, rfl⟩
    · split at hcompile
      · cases hcompile
      · split at hcompile
        · cases hcompile
        · cases hcompile
  · rintro ⟨horder, rfl⟩
    simp only [horder]

end Graph

/-! ## Where the draws come from -/

/-- The generator that weights are drawn from: the one that is handed over, or else one that starts
from a seed. -/
def Generator.start (unknown : Seed) (seed : Value) : Option Generator → Except SeedError Generator
  | some gen => .ok gen
  | none => ofValue unknown seed

namespace Graph

variable {g : Graph A} {alloc : Allocation A} {zeros : Nat → A} {output : Handle}
  {unknown : Seed} {seed : Value} {given : Option Generator}

omit [Arithmetic A] in
theorem compileFrom_eq_ok_iff {r : Except CompileError (Network A) × Generator} :
    g.compileFrom alloc output unknown seed given = .ok r ↔
      ∃ gen, Generator.start unknown seed given = .ok gen ∧ g.compile alloc output gen = r := by
  cases given with
  | some gen => simp [compileFrom, Generator.start]
  | none =>
      rw [compileFrom, Generator.start]
      cases Generator.ofValue unknown seed <;> simp

omit [Arithmetic A] in
/-- A complaint about the order comes from the graph, whatever the weights are drawn from. -/
theorem order_eq_error_of_compileFrom {e : OrderError} {gen : Generator}
    (h : g.compileFrom alloc output unknown seed given = .ok (.error (.order e), gen)) :
    g.order output = .error e := by
  obtain ⟨start, -, hcompile⟩ := compileFrom_eq_ok_iff.mp h
  exact (compile_eq_order_error_iff.mp hcompile).1

/-- An acyclic graph is compiled exactly where there is something to draw from and room for the
buffers of all groups. -/
theorem exists_compileFrom_iff (hlaw : alloc.Lawful zeros) {hs : List Handle}
    (horder : g.order output = .ok hs) :
    (∃ net gen, g.compileFrom alloc output unknown seed given = .ok (.ok net, gen)) ↔
      (∃ gen, Generator.start unknown seed given = .ok gen) ∧ ∀ h ∈ hs, g.HasRoom alloc h := by
  have hacyclic := acyclicFrom_of_order horder
  simp only [compileFrom_eq_ok_iff, mem_order_iff horder]
  constructor
  · rintro ⟨net, gen', gen, hstart, hcompile⟩
    exact ⟨⟨gen, hstart⟩, ((exists_compile_iff hlaw).mp ⟨net, gen', hcompile⟩).2⟩
  · rintro ⟨⟨gen, hstart⟩, hroom⟩
    obtain ⟨net, gen', hcompile⟩ := (exists_compile_iff hlaw).mpr ⟨hacyclic, hroom⟩
    exact ⟨net, gen', gen, hstart, hcompile⟩

end Graph

end Feedforward
