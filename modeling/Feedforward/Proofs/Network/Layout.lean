import Mathlib.Algebra.BigOperators.Ring.List
import Mathlib.Algebra.Ring.Nat
import Feedforward.Network.Layout
import Feedforward.Proofs.Network.Compile

/-!
# The layout of numeric networks

Compiling a graph to floating-point numbers gives a network whose parts fit together: the sequence
of groups, the positions that each layer reads from, the shapes of all buffers and the list of
sources (`Compiled`). The parameters are counted edge by edge,

    parameterCount  =  Σ cardinality u * cardinality h   over all edges from u into h.

Whether compiling answers depends on the sizes only (`compile_acyclic_layout`): nothing but memory
and the limits of array sizes can refuse an acyclic graph.
-/

namespace Feedforward

open Feedforward.Graph

section Parameters

variable {A : Type} [Arithmetic A] {g : Graph A} {zeros : Nat → A} {output h : Handle}
  {net : Network A}

/-- The edges into groups, each from an input to its reader and once for every time it is read. -/
def Graph.edges {A : Type} (g : Graph A) (hs : List Handle) : List (Handle × Handle) :=
  hs.flatMap fun h => (g.inputs h).map (·, h)

/-- The weights of a group are as many as the edges into it connect neurons. -/
theorem size_of_weightsFit {weights : Option A} (hfit : g.WeightsFit h weights) :
    weights.elim 0 Arithmetic.size =
      ((g.inputs h).map fun u => g.cardinality u * g.cardinality h).sum := by
  match weights with
  | none =>
      rw [hfit.1.mp rfl]
      rfl
  | some w =>
      show volume (Arithmetic.shape w) = _
      rw [hfit.2 w rfl, List.sum_map_mul_right]
      show g.cardinality h * (g.inputSize h * 1) = _
      rw [Nat.mul_one, Nat.mul_comm]
      rfl

/-- There is a parameter for each pair of units along each edge. -/
theorem parameterCount_eq
    (hweights : ∀ layer ∈ net.layers, g.WeightsFit layer.group layer.weights) :
    net.parameterCount =
      ((g.edges net.groups).map fun e => g.cardinality e.1 * g.cardinality e.2).sum := by
  have hsizes : net.layers.toList.map (fun layer => layer.weights.elim 0 Arithmetic.size) =
      net.groups.map fun h =>
        ((g.inputs h).map fun u => g.cardinality u * g.cardinality h).sum := by
    rw [Network.groups, List.map_map]
    refine List.map_congr_left fun layer hlayer => ?_
    exact size_of_weightsFit (hweights layer (Array.mem_toList_iff.mp hlayer))
  rw [Network.parameterCount, hsizes, edges, List.map_flatMap, List.flatMap_def, List.sum_flatten,
    List.map_map]
  simp only [Function.comp_def, List.map_map]

/-- The layers without weights are the sources. -/
theorem mem_sources_iff_weights_eq_none (hnet : net.LaidOut g zeros output) {i : Nat} :
    i ∈ net.sources g ↔ ∃ layer, net.layers[i]? = some layer ∧ layer.weights = none := by
  rw [Network.mem_sources_iff]
  refine exists_congr fun layer => and_congr_right fun hlayer => ?_
  rw [isSource_iff, (hnet.weights layer (Array.mem_of_getElem? hlayer)).1]

end Parameters

/-! ## Numeric arrays -/

section Numeric

variable {g : Graph Numeric} {output : Handle} {memory : Nat} {kind : ElementKind}
  {gen gen' : Generator} {net : Network Numeric}

namespace Numeric

/-- A zero vector can be allocated exactly if there is room for it, and then holds zeros. -/
theorem zeros_eq_ok_iff {n : Nat} {z : Numeric} :
    (allocation memory kind).zeros n = .ok z ↔
      room memory kind.width [n] = .ok () ∧ z = zeros [n] kind := by
  show (room memory kind.width [n] >>= fun _ => Except.ok (zeros [n] kind)) = .ok z ↔ _
  rw [bind_eq_ok_iff]
  constructor
  · rintro ⟨⟨⟩, hroom, hz⟩
    exact ⟨hroom, (Except.ok.inj hz).symm⟩
  · rintro ⟨hroom, rfl⟩
    exact ⟨(), hroom, rfl⟩

/-- An array of more bytes than the memory has is refused. -/
theorem room_of_lt {width : Nat} {shape : List Nat} (hcountable : countable width shape)
    (hlt : memory < width * volume shape) : room memory width shape = .error .outOfMemory := by
  rw [room, hcountable, if_neg (by decide), if_pos hlt]

/-- An array for which there is room has room in a greater memory. -/
theorem room_mono {memory' width : Nat} {shape : List Nat} (hle : memory ≤ memory')
    (hroom : room memory width shape = .ok ()) : room memory' width shape = .ok () := by
  rw [room] at hroom ⊢
  split at hroom
  · cases hroom
  · next hcountable =>
      split at hroom
      · cases hroom
      · next hfits =>
          rw [if_neg hcountable, if_neg fun hlt => hfits (Nat.lt_of_le_of_lt hle hlt)]

@[simp]
theorem shape_zeros (s : List Nat) : Arithmetic.shape (zeros s kind) = s := by cases kind <;> rfl

/-- As many draws as a matrix has entries make a matrix. -/
theorem exists_weights {rows columns : Nat} {draws : List Nat} (hkind : kind ≠ .int64)
    (hlen : draws.length = rows * columns) :
    ∃ w, weights kind rows columns draws = .ok w ∧ Arithmetic.shape w = [rows, columns] := by
  have hfits : draws.length = volume [rows, columns] := by
    rw [hlen]
    show rows * columns = rows * (columns * 1)
    rw [Nat.mul_one]
  cases kind with
  | float64 =>
      refine ⟨float64 ⟨[rows, columns], draws.map doubleWeight, by simpa using hfits⟩, ?_, rfl⟩
      simp [weights, Tensor.ofData?, hfits, orFault, Except.map]
  | float32 =>
      refine ⟨float32 ⟨[rows, columns], draws.map singleWeight, by simpa using hfits⟩, ?_, rfl⟩
      simp [weights, Tensor.ofData?, hfits, orFault, Except.map]
  | int64 => exact absurd rfl hkind

theorem lawful_allocation (hkind : kind ≠ .int64) :
    (allocation memory kind).Lawful fun n => zeros [n] kind where
  eq_zeros hz := (zeros_eq_ok_iff.mp hz).2
  shape_zeros n := shape_zeros [n]
  exists_weights := exists_weights hkind

/-- A larger memory has room for whatever a smaller one has room for. -/
theorem allocation_within {memory' : Nat} (hle : memory ≤ memory') :
    (allocation memory kind).Within (allocation memory' kind) where
  room hroom := room_mono hle hroom
  weights hw := hw
  zeros hz := by
    obtain ⟨hroom, rfl⟩ := zeros_eq_ok_iff.mp hz
    exact zeros_eq_ok_iff.mpr ⟨room_mono hle hroom, rfl⟩

end Numeric

/-- A group needs room for its vectors, and for the weights before they are rounded. -/
theorem hasRoom_iff {h : Handle} :
    g.HasRoom (Numeric.allocation memory kind) h ↔
      Numeric.room memory kind.width [g.cardinality h] = .ok () ∧
      (g.inputs h ≠ [] →
        Numeric.room memory Numeric.drawWidth [g.cardinality h, g.inputSize h] = .ok ()) := by
  refine and_congr_left fun _ => ?_
  constructor
  · rintro ⟨z, hz⟩
    exact (Numeric.zeros_eq_ok_iff.mp hz).1
  · intro hroom
    exact ⟨_, Numeric.zeros_eq_ok_iff.mpr ⟨hroom, rfl⟩⟩

/-- New networks of doubles on a usual machine. -/
abbrev Numeric.doubles : Allocation Numeric := Numeric.allocation Numeric.usualMemory .float64

theorem hasRoom_diamond (h : Handle) : (diamond Activation.linear).HasRoom Numeric.doubles h :=
  hasRoom_iff.mpr <| match h with
    | 0 | 1 | 2 | 3 => ⟨rfl, fun _ => rfl⟩
    | _ + 4 => ⟨rfl, fun _ => rfl⟩

theorem exists_compile_diamond (gen : Generator) :
    ∃ net gen', (diamond Activation.linear).compile Numeric.doubles 3 gen = (.ok net, gen') :=
  (exists_compile_iff (Numeric.lawful_allocation (by decide))).mpr
    ⟨acyclicFrom_diamond Activation.linear, fun h _ => hasRoom_diamond h⟩

theorem groups_of_compile_diamond {alloc : Allocation Numeric}
    (hcompile : (diamond Activation.linear).compile alloc 3 gen = (.ok net, gen')) :
    net.groups = [0, 2, 1, 3] := by
  have horder : (diamond Activation.linear).order 3 = .ok [0, 2, 1, 3] := by cbv
  exact (Except.ok.inj (horder.symm.trans (follows_of_compile hcompile))).symm

/-- How the parts of a compiled network fit together. -/
structure Network.Compiled (net : Network Numeric) (g : Graph Numeric) (kind : ElementKind)
    (output : Handle) : Prop where
  /-- The layers belong to the groups that the output reaches, one to each. -/
  nodup : net.groups.Nodup
  mem_groups : ∀ h, h ∈ net.groups ↔ g.Reaches output h
  /-- Groups are found where they stand, and only those that are not reached are not found. -/
  index_groups : ∀ (i : Nat) (h : Handle), net.groups[i]? = some h → net.index h = .ok i
  index_error : ∀ h, net.index h = .error (.notMember h) ↔ ¬ g.Reaches output h
  /-- A layer reads from layers in front of it, which belong to its inputs in edge order. -/
  inputs : ∀ (i : Nat) (h : Handle), net.groups[i]? = some h →
    ∃ js, net.inputPositions g h = .ok js ∧ (∀ j ∈ js, j < i) ∧
      js.map (net.groups[·]?) = (g.inputs h).map some
  /-- Only sources have no weights; other weights have a row for each neuron of the group and a
  column for each neuron that it reads from, counted once per edge. -/
  weights : ∀ layer ∈ net.layers, (layer.weights = none ↔ g.inputs layer.group = []) ∧
    ∀ w, layer.weights = some w →
      w.shape = [g.cardinality layer.group, ((g.inputs layer.group).map g.cardinality).sum]
  /-- Every layer has a signal and an error, and both are vectors of zeros. -/
  signal : ∀ layer ∈ net.layers,
    layer.signal = some (Numeric.zeros [g.cardinality layer.group] kind)
  error : ∀ layer ∈ net.layers,
    layer.error = some (Numeric.zeros [g.cardinality layer.group] kind)
  /-- The sources are the positions of the layers without weights, in increasing order. -/
  increasing_sources : (net.sources g).Pairwise (· < ·)
  mem_sources : ∀ i, i ∈ net.sources g ↔
    ∃ layer, net.layers[i]? = some layer ∧ layer.weights = none
  /-- Every edge counts as many parameters as it connects neurons. -/
  parameterCount : net.parameterCount =
    ((g.edges net.groups).map fun e => g.cardinality e.1 * g.cardinality e.2).sum

theorem compiled_of_compile (hkind : kind ≠ .int64)
    (hcompile : g.compile (Numeric.allocation memory kind) output gen = (.ok net, gen')) :
    net.Compiled g kind output := by
  have hnet := laidOut_of_compile (Numeric.lawful_allocation hkind) hcompile
  have hfollows := hnet.follows
  exact {
    nodup := nodup_order hfollows
    mem_groups := fun h => mem_order_iff hfollows
    index_groups := fun i h => hfollows.index_eq_ok_iff.mpr
    index_error := fun h => hfollows.index_eq_error_iff
    inputs := fun i h => hfollows.exists_inputPositions
    weights := hnet.weights
    signal := hnet.signal
    error := hnet.error
    increasing_sources := Network.pairwise_sources
    mem_sources := fun i => mem_sources_iff_weights_eq_none hnet
    parameterCount := parameterCount_eq hnet.weights }

/-- Floating-point networks of an acyclic graph. Compiling answers exactly where there is room for
the signals, errors and weights of all groups that the output reaches, and the network that it
answers with is well laid out. -/
theorem compile_acyclic_layout (g : Graph Numeric) (output : Handle) (memory : Nat)
    (kind : ElementKind) (gen : Generator) (hacyclic : g.AcyclicFrom output)
    (hkind : kind ≠ .int64) :
    ((∃ net gen', g.compile (Numeric.allocation memory kind) output gen = (.ok net, gen')) ↔
      ∀ h, g.Reaches output h → Numeric.room memory kind.width [g.cardinality h] = .ok () ∧
        (g.inputs h ≠ [] →
          Numeric.room memory Numeric.drawWidth [g.cardinality h, g.inputSize h] = .ok ())) ∧
    ∀ net gen', g.compile (Numeric.allocation memory kind) output gen = (.ok net, gen') →
      net.Compiled g kind output := by
  refine ⟨?_, fun net gen' hcompile => compiled_of_compile hkind hcompile⟩
  rw [exists_compile_iff (Numeric.lawful_allocation hkind)]
  simp only [hasRoom_iff]
  exact and_iff_right hacyclic

theorem exists_compiled_diamond :
    (diamond Activation.linear).AcyclicFrom 3 ∧ ElementKind.float64 ≠ .int64 ∧
    ∃ net gen', (diamond Activation.linear).compile
      Numeric.doubles 3 (.ofSeed [0]) = (.ok net, gen') ∧
      net.Compiled (diamond Activation.linear) .float64 3 := by
  have hacyclic := acyclicFrom_diamond Activation.linear
  obtain ⟨hanswer, hlayout⟩ := compile_acyclic_layout (diamond Activation.linear) 3
    Numeric.usualMemory .float64 (.ofSeed [0]) hacyclic (by decide)
  obtain ⟨net, gen', hcompile⟩ := hanswer.mpr fun h _ => hasRoom_iff.mp (hasRoom_diamond h)
  exact ⟨hacyclic, by decide, net, gen', hcompile, hlayout net gen' hcompile⟩

/-- A single group, so large that there is no memory for its signal. -/
def oversized : Graph Numeric := ⟨#[some ⟨2 ^ 59, Activation.linear, [], none⟩]⟩

theorem not_exists_compile_oversized :
    oversized.AcyclicFrom 0 ∧ ¬ ∃ memory net gen', memory < 2 ^ 62 ∧
      oversized.compile (Numeric.allocation memory .float64) 0 (.ofSeed [0]) = (.ok net, gen') := by
  have hbelow : ∀ v : Nat, v < 1 → ∀ u ∈ oversized.inputs v, u < v
    | 0, _ => (by decide : ∀ u ∈ ([] : List Nat), u < 0)
    | _ + 1, hv => absurd hv (by omega)
  refine ⟨acyclicFrom_of_lt (g := oversized) hbelow 0, ?_⟩
  rintro ⟨memory, net, gen', hmemory, hcompile⟩
  obtain ⟨-, hroom⟩ :=
    (exists_compile_iff (Numeric.lawful_allocation (by decide))).mp ⟨net, gen', hcompile⟩
  obtain ⟨z, hz⟩ := (hroom 0 (.refl 0)).1
  have hrefused : Numeric.room memory ElementKind.float64.width [2 ^ 59] = .error .outOfMemory :=
    Numeric.room_of_lt (by decide) hmemory
  cases hrefused.symm.trans (Numeric.zeros_eq_ok_iff.mp hz).1

end Numeric

end Feedforward
