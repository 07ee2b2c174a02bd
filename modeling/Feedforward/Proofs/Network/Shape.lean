import Feedforward.Proofs.Network.Compile
import Feedforward.Proofs.Network.Denotation
import Feedforward.Proofs.Tensor.Shape

/-!
# Buffers of the right shapes

A network is `Shaped` by a graph if its weights and signals have the shapes that the graph asks for,
whatever they hold. In such a network every layer reads an array with a component for each neuron
of its inputs (`Shaped.exists_gather`), and its weights have as many columns. So the only steps of a
layer that can still be refused are reading a vector, the activation and storing the result:

    layerValue  =  activate (read v)              for a source with the vector v,
    layerValue  =  activate (product w inputs)    for any other layer.
-/

namespace Feedforward

variable {A V : Type} [Arithmetic A]

def Graph.activate (g : Graph A) (h : Handle) (a : A) : Except NetworkError A :=
  match g.group? h with
  | none => .error (.notMember h)
  | some t => ofArray (t.activation.evaluate a)

namespace Network

variable {g : Graph A} {net net' : Network A} {output : Handle} {i k : Nat} {layer : Layer A}

/-- Weights and signals have the shapes that the graph asks for. -/
structure Shaped (net : Network A) (g : Graph A) (output : Handle) : Prop where
  follows : net.Follows g output
  weights : ∀ layer ∈ net.layers, g.WeightsFit layer.group layer.weights
  signal : ∀ layer ∈ net.layers, ∃ s, layer.signal = some s ∧
    Arithmetic.shape s = [g.cardinality layer.group]

omit [Arithmetic A] in
/-- The signals of the inputs of a layer, with what is known of all signals. -/
theorem Follows.exists_values (hnet : net.Follows g output) {P : Handle → A → Prop}
    (hsignal : ∀ layer ∈ net.layers, ∃ s, layer.signal = some s ∧ P layer.group s)
    (hlayer : net.layers[k]? = some layer) :
    ∃ values : Handle → A, ∀ u ∈ g.inputs layer.group,
      net.bufferOf .signal u = some (values u) ∧ P u (values u) := by
  obtain ⟨s, -⟩ := hsignal layer (Array.mem_of_getElem? hlayer)
  refine ⟨fun u => (net.bufferOf .signal u).getD s, fun u hu => ?_⟩
  -- inputs stand in front, so that their groups have layers and these have signals
  obtain ⟨j, -, hj⟩ := Graph.exists_lt_of_mem_inputs_order hnet (getElem?_groups_of_layer hlayer) hu
  obtain ⟨l, hl, rfl⟩ := exists_layer_of_getElem?_groups hj
  obtain ⟨a, ha, hP⟩ := hsignal l (Array.mem_of_getElem? hl)
  have hbuffer : net.bufferOf .signal l.group = some a := (hnet.bufferOf_eq hl .signal).trans ha
  dsimp only
  rw [hbuffer]
  exact ⟨rfl, hP⟩

namespace Shaped

/-- Every group with inputs has weights, a row for each neuron and a column for each that it reads
from. -/
theorem exists_weights (hnet : net.Shaped g output) {h : Handle} (hreach : g.Reaches output h)
    (hne : g.inputs h ≠ []) : ∃ w, net.bufferOf .weights h = some w ∧
      Arithmetic.shape w = [g.cardinality h, g.inputSize h] := by
  obtain ⟨k, hk⟩ := List.mem_iff_getElem?.mp ((Graph.mem_order_iff hnet.follows).mpr hreach)
  obtain ⟨layer, hlayer, rfl⟩ := exists_layer_of_getElem?_groups hk
  obtain ⟨hnone, hweights⟩ := hnet.weights layer (Array.mem_of_getElem? hlayer)
  obtain ⟨w, hw⟩ := Option.ne_none_iff_exists'.mp (mt hnone.mp hne)
  exact ⟨w, (hnet.follows.bufferOf_eq hlayer .weights).trans hw, hweights w hw⟩

variable [LawfulArithmetic A]

/-- A layer reads a component for each neuron of its inputs, counted once per edge. -/
theorem exists_gather (hnet : net.Shaped g output) (hlayer : net.layers[k]? = some layer) :
    ∃ x, net.gather g layer = .ok x ∧ Arithmetic.shape x = [g.inputSize layer.group] := by
  by_cases hne : g.inputs layer.group = []
  · -- nothing can be joined, an empty array stands for it
    obtain ⟨s, hs, -⟩ := hnet.signal layer (Array.mem_of_getElem? hlayer)
    refine ⟨Arithmetic.emptyLike s, ?_, ?_⟩
    · rw [gather, inputPositions, hne, List.mapM_nil, hs]
      rfl
    · rw [LawfulArithmetic.shape_emptyLike, Graph.inputSize, hne]
      rfl
  · obtain ⟨values, hvalues⟩ := hnet.follows.exists_values
      (P := fun u s => Arithmetic.shape s = [g.cardinality u]) hnet.signal hlayer
    rw [hnet.follows.gather_eq_join hlayer hne fun u hu => (hvalues u hu).1]
    obtain ⟨x, hx, hshape⟩ := LawfulArithmetic.exists_join (mt List.map_eq_nil_iff.mp hne)
      (forall₂_map_map_iff.mpr fun u hu => (hvalues u hu).2)
    exact ⟨x, by rw [hx]; rfl, hshape⟩

end Shaped

/-! ## What a layer computes -/

variable [Readable V A] {given : List (Nat × V)}

theorem layerValue_of_source {s : A} (hnil : g.inputs layer.group = [])
    (hs : layer.signal = some s) :
    net.layerValue g given k layer = match given.lookup k with
      | none => .error (.missingInputs [layer.group])
      | some v => ofArray (Readable.read s v) >>= g.activate layer.group := by
  rw [layerValue, if_pos (Graph.isSource_iff.mpr hnil), hs]
  rfl

/-- A layer whose weights fit what it reads hands their product to the activation. -/
theorem layerValue_of_product {x w z : A} {rows columns : Nat}
    (hne : g.inputs layer.group ≠ []) (hx : net.gather g layer = .ok x)
    (hshape : Arithmetic.shape x = [columns]) (hw : layer.weights = some w)
    (hcolumns : Arithmetic.shape w = [rows, columns]) (hz : Arithmetic.product w x = .ok z) :
    net.layerValue g given k layer = g.activate layer.group z := by
  rw [layerValue, if_neg (mt Graph.isSource_iff.mp hne), hx]
  simp only [ok_bind, hw, Arithmetic.axis_one_of_shape hcolumns,
    Arithmetic.axis_zero_of_shape hshape, hz, ofArray, ne_eq, not_true_eq_false, if_false]
  rfl

/-- The weights fit what a layer reads, so that only its activation can be refused. -/
theorem Shaped.exists_layerValue [LawfulArithmetic A] (hnet : net.Shaped g output)
    (given : List (Nat × V)) (hlayer : net.layers[k]? = some layer)
    (hne : g.inputs layer.group ≠ []) :
    ∃ z, Arithmetic.shape z = [g.cardinality layer.group] ∧
      net.layerValue g given k layer = g.activate layer.group z := by
  obtain ⟨x, hx, hshape⟩ := hnet.exists_gather hlayer
  obtain ⟨hnone, hweights⟩ := hnet.weights layer (Array.mem_of_getElem? hlayer)
  obtain ⟨w, hw⟩ := Option.ne_none_iff_exists'.mp (mt hnone.mp hne)
  have hcolumns := hweights w hw
  obtain ⟨z, hz, hrows⟩ := LawfulArithmetic.exists_product hcolumns hshape
  exact ⟨z, hrows, layerValue_of_product hne hx hshape hw hcolumns hz⟩

/-- A value is stored if it is a vector of the size of the buffer. -/
theorem fitSignal_eq {s y : A} {n : Nat} (hs : Arithmetic.shape s = [n]) :
    fitSignal k (some s) y = if Arithmetic.shape y = [n] then .ok (Arithmetic.convert s y)
      else .error (.mismatch (.signal k) n (Arithmetic.size y)) := by
  by_cases hy : Arithmetic.shape y = [n]
  · simp [fitSignal, hs, hy]
  · simp [fitSignal, hs, hy]

/-- What a layer stores is what it computes, and that has the size of the buffer. -/
theorem exists_layerValue_of_newSignal {s a : A} {n : Nat} (hlayer : net.layers[k]? = some layer)
    (hs : layer.signal = some s) (hshape : Arithmetic.shape s = [n])
    (hnew : net.newSignal g given k = .ok a) :
    ∃ y, net.layerValue g given k layer = .ok y ∧ Arithmetic.shape y = [n] ∧
      a = Arithmetic.convert s y := by
  rw [newSignal, hlayer] at hnew
  obtain ⟨y, hvalue, hstore⟩ := bind_eq_ok_iff.mp hnew
  rw [hs, fitSignal_eq hshape] at hstore
  split at hstore
  · next hy => exact ⟨y, hvalue, hy, (Except.ok.inj hstore).symm⟩
  · cases hstore

/-! ## Runs -/

/-- A compiled network whose weights and signals have the right shapes and hold anything. -/
theorem shaped_of_compile {alloc : Allocation A} {gen gen' : Generator} {compiled : Network A}
    {like : A} (hcompile : g.compile alloc output gen = (.ok compiled, gen'))
    (hgroups : net.groups = compiled.groups)
    (hweights : ∀ layer ∈ net.layers, g.WeightsFit layer.group layer.weights)
    (hfit : net.SignalsFit V g like) : net.Shaped g output where
  follows := by
    rw [Follows, hgroups]
    exact Graph.follows_of_compile hcompile
  weights := hweights
  signal := by
    intro layer hlayer
    obtain ⟨s, hs, hshape, -⟩ := hfit layer hlayer
    exact ⟨s, hs, hshape⟩

namespace Shaped

variable [LawfulArithmetic A]

/-- What is stored has the shape that the buffer had. -/
theorem setSignal_of_newSignal (hnet : net.Shaped g output) {a : A}
    (hnew : net.newSignal g given k = .ok a) :
    (net.setBuffer k .signal (some a)).Shaped g output where
  follows := by
    rw [Follows, groups_setBuffer]
    exact hnet.follows
  weights := by
    apply forall_mem_setBuffer hnet.weights
    intro layer hlayer
    exact hnet.weights layer (Array.mem_of_getElem? hlayer)
  signal := by
    apply forall_mem_setBuffer hnet.signal
    intro layer hlayer
    obtain ⟨s, hs, hshape⟩ := hnet.signal layer (Array.mem_of_getElem? hlayer)
    obtain ⟨y, -, hy, rfl⟩ := exists_layerValue_of_newSignal hlayer hs hshape hnew
    exact ⟨_, rfl, (LawfulArithmetic.shape_convert s y).trans hy⟩

/-- The shapes are right wherever a run stands. -/
theorem steps {n : Nat} {r : Except NetworkError Unit} (hnet : net.Shaped g output)
    (hsteps : steps g given (List.range' k n) net = (r, net')) : net'.Shaped g output := by
  obtain ⟨-, hnet', -⟩ := steps_induction (P := fun _ net => net.Shaped g output)
    (fun _ _ _ hnet hnew => hnet.setSignal_of_newSignal hnew) hnet hsteps
  exact hnet'

end Shaped

end Network

end Feedforward
