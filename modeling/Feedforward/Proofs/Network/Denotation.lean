import Feedforward.Network.Feed
import Feedforward.Proofs.Network.Layout
import Feedforward.Proofs.Network.Run

/-!
# What a run computes

Every group of an acyclic graph has a value of its own, whatever order the groups stand in: that of
a source is the activation of the vector given for it, that of any other group the activation of
its weights times the joined values of its inputs (`Denotes`). Layers that run one after the other
compute these values,

    signal of the layer at i after a run  =  value of its group,

since each layer reads from layers in front of it (`Ran.steps`). Activations and the operations on
arrays are arbitrary. Vectors are read, and values are stored, as elements of the network's kind.
-/

namespace Feedforward

variable {A V : Type} [Arithmetic A] [Readable V A]

/-- What the values of the groups depend on besides the graph. -/
structure RunData (V A : Type) where
  weights : Handle → Option A
  vector : Handle → Option V
  /-- An array of the kind of the network's elements. -/
  like : A

namespace Graph

variable {g : Graph A} {data : RunData V A}

/-- The value of a group, as it is stored. -/
inductive Denotes (g : Graph A) (data : RunData V A) : Handle → A → Prop
  /-- The activation of the vector given for a source. -/
  | source {h : Handle} {t : Group A} {v : V} {x y : A} :
      g.group? h = some t → t.inputs = [] →
      data.vector h = some v → Readable.read data.like v = .ok x →
      t.activation.evaluate x = .ok y →
      Denotes g data h (Arithmetic.convert data.like y)
  /-- The activation of the weights times the values of the inputs, joined in edge order. -/
  | layer {h : Handle} {t : Group A} {x w z y : A} (values : Handle → A) :
      g.group? h = some t → t.inputs ≠ [] →
      (∀ u ∈ t.inputs, Denotes g data u (values u)) →
      Arithmetic.join (t.inputs.map values) = .ok x →
      data.weights h = some w → Arithmetic.product w x = .ok z →
      t.activation.evaluate z = .ok y →
      Denotes g data h (Arithmetic.convert data.like y)

/-- What a group computes before it is stored: the activation of its vector, or of its weights times
the joined values of its inputs. -/
inductive Computes (g : Graph A) (data : RunData V A) (h : Handle) (y : A) : Prop
  | source {t : Group A} {v : V} {x : A} :
      g.group? h = some t → t.inputs = [] →
      data.vector h = some v → Readable.read data.like v = .ok x →
      t.activation.evaluate x = .ok y → Computes g data h y
  | layer {t : Group A} {x w z : A} (values : Handle → A) :
      g.group? h = some t → t.inputs ≠ [] →
      (∀ u ∈ t.inputs, Denotes g data u (values u)) →
      Arithmetic.join (t.inputs.map values) = .ok x →
      data.weights h = some w → Arithmetic.product w x = .ok z →
      t.activation.evaluate z = .ok y → Computes g data h y

variable {h : Handle} {a b y z : A}

/-- A group denotes what it computes, stored in its buffer. -/
theorem Computes.denotes (hy : g.Computes data h y) :
    g.Denotes data h (Arithmetic.convert data.like y) := by
  cases hy with
  | source ht hnil hv hx heval => exact .source ht hnil hv hx heval
  | layer values ht hne hvalues hx hw hz heval =>
      exact .layer values ht hne hvalues hx hw hz heval

theorem Denotes.exists_computes (ha : g.Denotes data h a) :
    ∃ y, g.Computes data h y ∧ a = Arithmetic.convert data.like y := by
  cases ha with
  | source ht hnil hv hx heval => exact ⟨_, .source ht hnil hv hx heval, rfl⟩
  | layer values ht hne hvalues hx hw hz heval =>
      exact ⟨_, .layer values ht hne hvalues hx hw hz heval, rfl⟩

/-- Where the inputs of a group have one value each, the group computes one array at most. -/
theorem Computes.unique_of_inputs
    (hinputs : ∀ u ∈ g.inputs h, ∀ a b, g.Denotes data u a → g.Denotes data u b → a = b)
    (hy : g.Computes data h y) (hz : g.Computes data h z) : y = z := by
  -- A group is a source or it is not, which excludes two of the four cases.
  cases hy with
  | source ht hnil hv hx hy =>
      cases hz with
      | source ht' hnil' hv' hx' hz =>
          cases ht.symm.trans ht'
          cases hv.symm.trans hv'
          cases hx.symm.trans hx'
          exact Except.ok.inj (hy.symm.trans hz)
      | layer values ht' hne =>
          cases ht.symm.trans ht'
          exact absurd hnil hne
  | layer values ht hne hvalues hx hw hp hy =>
      cases hz with
      | source ht' hnil =>
          cases ht.symm.trans ht'
          exact absurd hnil hne
      | layer values' ht' hne' hvalues' hx' hw' hp' hz =>
          cases ht.symm.trans ht'
          rw [inputs_of_group? ht] at hinputs
          -- the inputs have the same values in both derivations, and so have all steps behind them
          have hsame := List.map_congr_left fun u hu =>
            hinputs u hu _ _ (hvalues u hu) (hvalues' u hu)
          rw [hsame] at hx
          cases hx.symm.trans hx'
          cases hw.symm.trans hw'
          cases hp.symm.trans hp'
          exact Except.ok.inj (hy.symm.trans hz)

/-- A group has one value at most. -/
theorem Denotes.unique (ha : g.Denotes data h a) (hb : g.Denotes data h b) : a = b := by
  induction ha generalizing b with
  | source ht hnil hv hx hy =>
      obtain ⟨z, hz, rfl⟩ := hb.exists_computes
      rw [Computes.unique_of_inputs ?_ (.source ht hnil hv hx hy) hz]
      simp [inputs_of_group? ht, hnil]
  | layer values ht hne hvalues hx hw hz hy ih =>
      obtain ⟨z, hz', rfl⟩ := hb.exists_computes
      rw [Computes.unique_of_inputs ?_ (.layer values ht hne hvalues hx hw hz hy) hz']
      intro u hu c d hc hd
      rw [inputs_of_group? ht] at hu
      exact (ih u hu hc).symm.trans (ih u hu hd)

/-- A group computes at most one array. -/
theorem Computes.unique (hy : g.Computes data h y) (hz : g.Computes data h z) : y = z :=
  hy.unique_of_inputs (fun _ _ _ _ ha hb => ha.unique hb) hz

end Graph

namespace Network

variable {g : Graph A} {start net net' : Network A} {output : Handle} {k : Nat} {like : A}
  {given : List (Nat × V)} {feed : Feed V} {layer : Layer A}

/-! ## Buffers by group -/

def bufferOf (net : Network A) (b : Buffer) (h : Handle) : Option A :=
  (net.position? h).bind fun i => (net.layers[i]?).bind (·.buffer b)

omit [Arithmetic A] in
theorem Follows.bufferOf_eq (hnet : net.Follows g output) (hlayer : net.layers[k]? = some layer)
    (b : Buffer) : net.bufferOf b layer.group = layer.buffer b := by
  have hk := getElem?_groups_of_layer hlayer
  rw [bufferOf, hnet.position?_eq_some_iff.mpr hk, Option.bind_some, hlayer, Option.bind_some]

/-- What the values in a run depend on: the weights of the network and the vectors handed to it. -/
def runData (net : Network A) (g : Graph A) (feed : Feed V) (like : A) : RunData V A where
  weights := net.bufferOf .weights
  vector := feed.vector? (net.groups.filter g.isSource)
  like := like

/-! ## One layer -/

omit [Arithmetic A] in
theorem Follows.mapM_signal (hnet : net.Follows g output) {values : Handle → A} {js : List Nat}
    {us : List Handle} (hjs : js.map (net.groups[·]?) = us.map some)
    (hvalues : ∀ u ∈ us, net.bufferOf .signal u = some (values u)) :
    (js.filterMap (net.layers[·]?)).mapM (·.signal) = some (us.map values) := by
  induction js generalizing us with
  | nil =>
      obtain rfl : us = [] := List.map_eq_nil_iff.mp hjs.symm
      rfl
  | cons j js ih =>
      match us, hjs with
      | u :: us, hjs =>
          obtain ⟨hj, hrest⟩ := List.cons.inj hjs
          obtain ⟨l, hl, rfl⟩ := exists_layer_of_getElem?_groups hj
          have hsignal : l.signal = some (values l.group) :=
            (hnet.bufferOf_eq hl .signal).symm.trans (hvalues _ List.mem_cons_self)
          have htail := ih hrest fun v hv => hvalues v (List.mem_cons_of_mem _ hv)
          rw [List.filterMap_cons, hl]
          simp only [List.mapM_cons, hsignal, htail]
          rfl

/-- A layer reads the signals of the layers of its inputs. -/
theorem Follows.gather_eq_join (hnet : net.Follows g output)
    (hlayer : net.layers[k]? = some layer) (hne : g.inputs layer.group ≠ []) {values : Handle → A}
    (hvalues : ∀ u ∈ g.inputs layer.group, net.bufferOf .signal u = some (values u)) :
    net.gather g layer = ofArray (Arithmetic.join ((g.inputs layer.group).map values)) := by
  have hk := getElem?_groups_of_layer hlayer
  obtain ⟨js, hjs, -, hinputs⟩ := hnet.exists_inputPositions hk
  have hsome : js ≠ [] := by
    rintro rfl
    exact hne (List.map_eq_nil_iff.mp hinputs.symm)
  rw [gather_of_inputPositions hjs hsome, joinSignals, hnet.mapM_signal hinputs hvalues]

/-- A value that fits is stored as elements of the kind of the buffer. -/
theorem eq_convert_of_fitSignal {s y a : A} (hfit : fitSignal k (some s) y = .ok a) :
    a = Arithmetic.convert s y := by
  rw [fitSignal, present_some, ok_bind] at hfit
  split at hfit
  · split at hfit <;> cases hfit
  · exact (Except.ok.inj hfit).symm

/-- The value of a layer comes from the vector given for it or from its weights and inputs. -/
theorem layerValue_eq_ok {s y : A} (hs : layer.signal = some s)
    (hvalue : net.layerValue g given k layer = .ok y) :
    ∃ t, g.group? layer.group = some t ∧
      ((t.inputs = [] ∧ ∃ v x, given.lookup k = some v ∧ Readable.read s v = .ok x ∧
          t.activation.evaluate x = .ok y) ∨
        (t.inputs ≠ [] ∧ ∃ x w z, net.gather g layer = .ok x ∧ layer.weights = some w ∧
          Arithmetic.product w x = .ok z ∧ t.activation.evaluate z = .ok y)) := by
  rw [layerValue] at hvalue
  dsimp only at hvalue
  split at hvalue
  · next hsource =>  -- case: a source
      split at hvalue
      · cases hvalue
      · next v hv =>
          rw [hs, present_some, ok_bind, bind_eq_ok_iff] at hvalue
          obtain ⟨x, hx, hy⟩ := hvalue
          split at hy
          · cases hy
          · next t ht =>
              have hnil := Graph.isSource_iff.mp hsource
              rw [Graph.inputs_of_group? ht] at hnil
              exact ⟨t, ht, .inl ⟨hnil, v, x, hv, ofArray_eq_ok_iff.mp hx, ofArray_eq_ok_iff.mp hy⟩⟩
  · next hsource =>  -- case: a layer
      obtain ⟨x, hx, hvalue⟩ := bind_eq_ok_iff.mp hvalue
      split at hvalue
      · cases hvalue
      · next w hw =>
          obtain ⟨expected, -, hvalue⟩ := bind_eq_ok_iff.mp hvalue
          obtain ⟨actual, -, hvalue⟩ := bind_eq_ok_iff.mp hvalue
          split at hvalue
          · cases hvalue
          · obtain ⟨z, hz, hy⟩ := bind_eq_ok_iff.mp hvalue
            split at hy
            · cases hy
            · next t ht =>
                have hne := mt Graph.isSource_iff.mpr hsource
                rw [Graph.inputs_of_group? ht] at hne
                exact ⟨t, ht, .inr ⟨hne, x, w, z, hx, hw, ofArray_eq_ok_iff.mp hz,
                  ofArray_eq_ok_iff.mp hy⟩⟩

/-! ## All layers -/

/-- A run from `start` has come to a position: the signals in front of it are the values of their
groups, and all else is as it was. -/
structure Ran (g : Graph A) (data : RunData V A) (start net : Network A) (k : Nat) : Prop where
  mute : net.mute = start.mute
  front : ∀ j < k, ∀ layer, net.layers[j]? = some layer →
    ∃ a, layer.signal = some a ∧ g.Denotes data layer.group a
  rest : ∀ j, k ≤ j → net.layers[j]? = start.layers[j]?

namespace Ran

variable {data : RunData V A}

theorem zero (start : Network A) : Ran g data start start 0 where
  mute := rfl
  front := fun j hj => absurd hj (Nat.not_lt_zero j)
  rest := fun _ _ => rfl

/-- The layer at which the run stands is as it was. -/
theorem getElem?_start (hran : Ran g data start net k) (hlayer : net.layers[k]? = some layer) :
    start.layers[k]? = some layer :=
  (hran.rest k (Nat.le_refl k)).symm.trans hlayer

theorem follows (hran : Ran g data start net k) (hstart : start.Follows g output) :
    net.Follows g output := by
  rw [Follows, groups_eq_of_mute_eq hran.mute]
  exact hstart

/-- The inputs of the layer at which the run stands have their values. -/
theorem denotes_of_mem_inputs (hran : Ran g data start net k) (hstart : start.Follows g output)
    (hlayer : net.layers[k]? = some layer) {u : Handle} (hu : u ∈ g.inputs layer.group) :
    ∃ a, net.bufferOf .signal u = some a ∧ g.Denotes data u a := by
  have hnet := hran.follows hstart
  have hk := getElem?_groups_of_layer hlayer
  obtain ⟨j, hjk, hj⟩ := Graph.exists_lt_of_mem_inputs_order hnet hk hu
  obtain ⟨l, hl, rfl⟩ := exists_layer_of_getElem?_groups hj
  obtain ⟨a, ha, hdenotes⟩ := hran.front j hjk l hl
  exact ⟨a, (hnet.bufferOf_eq hl .signal).trans ha, hdenotes⟩

/-- The next layer computes what its group computes, from the vector given for it or from the
values that the signals of its inputs hold. -/
theorem computes_of_layerValue (hran : Ran g (start.runData g feed like) start net k)
    (hstart : start.Follows g output) (haccept : start.accept g feed = .ok given)
    (hfit : start.SignalsFit V g like) (hlayer : net.layers[k]? = some layer) {y : A}
    (hvalue : net.layerValue g given k layer = .ok y) :
    g.Computes (start.runData g feed like) layer.group y := by
  -- the layer had the same group and the same weights at the start
  have hsame := hran.getElem?_start hlayer
  obtain ⟨s, hs, -, halike⟩ := hfit layer (Array.mem_of_getElem? hsame)
  obtain ⟨t, ht, ⟨hnil, v, x, hv, hx, heval⟩ | ⟨hne, x, w, z, hx, hw, hz, heval⟩⟩ :=
    layerValue_eq_ok hs hvalue
  -- a source reads the vector that was accepted for it
  · refine .source ht hnil ?_ ((halike.read v).symm.trans hx) heval
    exact (hstart.lookup_of_accept haccept (getElem?_groups_of_layer hsame)).symm.trans hv
  · have hinputs := Graph.inputs_of_group? ht
    -- the values of the inputs are read off the signals
    have hvalues : ∀ u ∈ g.inputs layer.group,
        net.bufferOf .signal u = some ((net.bufferOf .signal u).getD like) ∧
        g.Denotes (start.runData g feed like) u ((net.bufferOf .signal u).getD like) := by
      intro u hu
      obtain ⟨b, hb, hdenotes⟩ := hran.denotes_of_mem_inputs hstart hlayer hu
      rw [hb]
      exact ⟨rfl, hdenotes⟩
    rw [(hran.follows hstart).gather_eq_join hlayer (hinputs ▸ hne) fun u hu => (hvalues u hu).1,
      ofArray_eq_ok_iff, hinputs] at hx
    refine .layer _ ht hne (fun u hu => (hvalues u (hinputs ▸ hu)).2) hx ?_ hz heval
    exact (hstart.bufferOf_eq hsame .weights).trans hw

/-- What the next layer stores is the value of its group. -/
theorem denotes_of_newSignal (hran : Ran g (start.runData g feed like) start net k)
    (hstart : start.Follows g output) (haccept : start.accept g feed = .ok given)
    (hfit : start.SignalsFit V g like) (hlayer : net.layers[k]? = some layer) {a : A}
    (hnew : net.newSignal g given k = .ok a) :
    g.Denotes (start.runData g feed like) layer.group a := by
  have hsame := hran.getElem?_start hlayer
  obtain ⟨s, hs, -, halike⟩ := hfit layer (Array.mem_of_getElem? hsame)
  rw [newSignal, hlayer] at hnew
  obtain ⟨y, hy, hstore⟩ := bind_eq_ok_iff.mp hnew
  rw [hs] at hstore
  obtain rfl := eq_convert_of_fitSignal hstore
  rw [halike.convert]
  exact (hran.computes_of_layerValue hstart haccept hfit hlayer hy).denotes

/-- A run that stores what the group of a layer denotes is done with this layer as well. -/
theorem setSignal (hran : Ran g data start net k) {a : A}
    (hdenotes : ∀ layer, net.layers[k]? = some layer → g.Denotes data layer.group a) :
    Ran g data start (net.setBuffer k .signal (some a)) (k + 1) where
  mute := (mute_setBuffer net (some a)).trans hran.mute
  front := forall_front_setBuffer hran.front fun layer hlayer => ⟨a, rfl, hdenotes layer hlayer⟩
  rest := by
    intro j hj
    have hkj : k ≠ j := by omega
    simpa [hkj] using hran.rest j (by omega)

/-- However far a run comes, the layers that it passes hold the values of their groups. -/
theorem of_steps (hran : Ran g (start.runData g feed like) start net k)
    (hstart : start.Follows g output) (haccept : start.accept g feed = .ok given)
    (hfit : start.SignalsFit V g like) {n : Nat} {r : Except NetworkError Unit}
    (hsteps : steps g given (List.range' k n) net = (r, net')) :
    ∃ m, Ran g (start.runData g feed like) start net' m ∧ (r = .ok () → m = k + n) := by
  obtain ⟨m, hm, hend⟩ := steps_induction
    (P := fun k net => Ran g (start.runData g feed like) start net k)
    (fun k net a hran hnew => hran.setSignal fun layer hlayer =>
      hran.denotes_of_newSignal hstart haccept hfit hlayer hnew) hran hsteps
  refine ⟨m, hm, fun hr => ?_⟩
  obtain ⟨-, hend⟩ | ⟨e, he, -⟩ := hend
  · exact hend
  · cases hr.symm.trans he

end Ran

/-! ## Whole runs -/

/-- After a run that answers, the signals are the values of the groups. -/
theorem Follows.denotes_of_run (hnet : net.Follows g output) (hfit : net.SignalsFit V g like)
    {out : A} (hrun : net.run g feed = (.ok out, net')) :
    net'.mute = net.mute ∧ g.Denotes (net.runData g feed like) output out ∧
      ∀ layer ∈ net'.layers, ∃ a, layer.signal = some a ∧
        g.Denotes (net.runData g feed like) layer.group a := by
  obtain ⟨given, haccept, hsteps, last, hlast, hout⟩ := run_eq_ok_iff.mp hrun
  obtain ⟨m, hran, hend⟩ := (Ran.zero net).of_steps hnet haccept hfit hsteps
  -- the run went as far as there are layers
  have hsize : net'.size = m := by
    rw [hend rfl, Nat.zero_add, size_eq_length_groups, groups_eq_of_mute_eq hran.mute,
      size_eq_length_groups]
  have hlayers : ∀ layer ∈ net'.layers, ∃ a, layer.signal = some a ∧
      g.Denotes (net.runData g feed like) layer.group a := by
    intro layer hlayer
    obtain ⟨j, hj, hget⟩ := Array.mem_iff_getElem.mp hlayer
    exact hran.front j (hsize ▸ hj) layer (hget ▸ Array.getElem?_eq_getElem hj)
  refine ⟨hran.mute, ?_, hlayers⟩
  obtain ⟨a, ha, hdenotes⟩ := hlayers last (Array.mem_of_back? hlast)
  -- the last layer is the one of the output
  have hgroup : output = last.group := by
    have hback := Graph.getLast?_order (hran.follows hnet)
    rw [groups, List.getLast?_map, Array.getLast?_toList, hlast] at hback
    exact (Option.some.inj hback).symm
  rw [hgroup, ← Option.some.inj (ha.symm.trans hout)]
  exact hdenotes

end Network

/-! ## Numeric networks -/

theorem Numeric.alike_of_kind_eq {a b : Numeric} (hkind : a.kind = b.kind) : Alike Value a b where
  read := by
    intro v
    show ofValue a.kind v = ofValue b.kind v
    rw [hkind]
  convert := by
    intro x
    show x.toKind a.kind = x.toKind b.kind
    rw [hkind]

/-- Networks that are compiled to one kind run in it. -/
theorem Network.Compiled.signalsFit {net : Network Numeric} {g : Graph Numeric} {kind : ElementKind}
    {output : Handle} (hnet : net.Compiled g kind output) :
    net.SignalsFit Value g (Numeric.zeros [0] kind) := by
  intro layer hlayer
  refine ⟨_, hnet.signal layer hlayer, Numeric.shape_zeros _, Numeric.alike_of_kind_eq ?_⟩
  cases kind <;> rfl

/-! ## The main result -/

open Feedforward.Network Feedforward.Graph

/-- Running a compiled network whose weights and signals hold anything. If the run answers, each
signal is the value of its group and the answer that of the output. All but the signals stays as it
was, and what the signals held before does not matter. -/
theorem run_eq_denotation {g : Graph A} {output : Handle} {alloc : Allocation A}
    {gen gen' : Generator} {compiled net net' : Network A} {like out : A} {feed : Feed V}
    (hcompile : g.compile alloc output gen = (.ok compiled, gen'))
    (hgroups : net.groups = compiled.groups) (hfit : net.SignalsFit V g like)
    (hrun : net.run g feed = (.ok out, net')) :
    (∀ layer ∈ net'.layers, ∃ a, layer.signal = some a ∧
      ∀ b, g.Denotes (net.runData g feed like) layer.group b ↔ b = a) ∧
    (∀ b, g.Denotes (net.runData g feed like) output b ↔ b = out) ∧
    net'.groups = net.groups ∧
    net'.layers.toList.map (·.weights) = net.layers.toList.map (·.weights) ∧
    net'.layers.toList.map (·.error) = net.layers.toList.map (·.error) ∧
    ∀ other : Network A, net.mute = other.mute → other.SignalsFit V g like →
      other.run g feed = (.ok out, net') := by
  have hnet : net.Follows g output := by
    rw [Follows, hgroups]
    exact Graph.follows_of_compile hcompile
  obtain ⟨hmute, hout, hlayers⟩ := hnet.denotes_of_run hfit hrun
  -- a group denotes one array only
  have hvalue : ∀ {h : Handle} {a : A}, g.Denotes (net.runData g feed like) h a →
      ∀ b, g.Denotes (net.runData g feed like) h b ↔ b = a := by
    intro h a ha b
    refine ⟨fun hb => hb.unique ha, ?_⟩
    rintro rfl
    exact ha
  refine ⟨?_, hvalue hout, groups_eq_of_mute_eq hmute, ?_, ?_, ?_⟩
  · intro layer hlayer
    obtain ⟨a, ha, hdenotes⟩ := hlayers layer hlayer
    exact ⟨a, ha, hvalue hdenotes⟩
  · exact map_layers_eq_of_mute_eq (·.weights) (fun _ => rfl) hmute
  · exact map_layers_eq_of_mute_eq (·.error) (fun _ => rfl) hmute
  · intro other hother hfit'
    exact hnet.run_eq_of_mute_eq hother hfit hfit' hrun

/-- A network for the diamond whose signals are left over from elsewhere. -/
def diamondNetwork : Network Numeric :=
  .ofLayers [
    ⟨0, none, some (.float64 (.fill [2] 8)), none⟩,
    ⟨2, some (.float64 (.fill [1, 4] 2)), some (.float64 (.fill [1] 9)), none⟩,
    ⟨1, some (.float64 (.fill [3, 2] 3)), some (.float64 (.fill [3] 8)), none⟩,
    ⟨3, some (.float64 (.fill [1, 5] 1)), some (.float64 (.fill [1] 9)), none⟩]

theorem signalsFit_diamondNetwork :
    diamondNetwork.SignalsFit Value (diamond .linear) (.zeros [0] .float64) := by
  intro layer hlayer
  simp only [diamondNetwork, Network.ofLayers, List.mem_toArray, List.mem_cons,
    List.not_mem_nil, or_false] at hlayer
  rcases hlayer with rfl | rfl | rfl | rfl
  all_goals exact ⟨_, rfl, rfl, Numeric.alike_of_kind_eq rfl⟩

theorem run_diamondNetwork :
    ∃ compiled gen' net' out,
      (diamond Activation.linear).compile Numeric.doubles 3 (.ofSeed [0]) = (.ok compiled, gen') ∧
      diamondNetwork.groups = compiled.groups ∧
      diamondNetwork.SignalsFit Value (diamond .linear) (.zeros [0] .float64) ∧
      diamondNetwork.run (diamond .linear) (.aligned [Value.list [.int 1, .int 2]]) =
        (.ok out, net') ∧
      ∀ b, (diamond .linear).Denotes (diamondNetwork.runData (diamond .linear)
        (.aligned [Value.list [.int 1, .int 2]]) (.zeros [0] .float64)) 3 b ↔ b = out := by
  obtain ⟨compiled, gen', hcompile⟩ := exists_compile_diamond (.ofSeed [0])
  have hgroups : diamondNetwork.groups = compiled.groups :=
    (groups_of_compile_diamond hcompile).symm
  have hrun : ∃ out net', diamondNetwork.run (diamond .linear)
      (.aligned [Value.list [.int 1, .int 2]]) = (.ok out, net') := ⟨_, _, rfl⟩
  obtain ⟨out, net', hrun⟩ := hrun
  obtain ⟨-, hout, -⟩ := run_eq_denotation hcompile hgroups signalsFit_diamondNetwork hrun
  exact ⟨compiled, gen', net', out, hcompile, hgroups, signalsFit_diamondNetwork, hrun, hout⟩

end Feedforward
