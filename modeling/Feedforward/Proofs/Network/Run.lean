import Feedforward.Proofs.Network.Feed

/-!
# Running layers one after the other

A run changes signals only (`mute_of_steps`). A layer reads the new signals of layers in front of it,
and of its own buffer no more than shape and kind. So two networks that differ only in what their
signals hold run the same way,

    net.mute = other.mute  →  net.run g feed = other.run g feed,

whenever one of the runs answers (`Follows.run_eq_of_mute_eq`).
-/

namespace Feedforward

variable {A V : Type}

def Layer.mute (layer : Layer A) : Layer A := layer.setBuffer .signal none

namespace Network

variable {g : Graph A} {net other : Network A} {output : Handle} {i j k : Nat}

/-- The layers without their signals. -/
def mute (net : Network A) : List (Layer A) := net.layers.toList.map Layer.mute

@[simp]
theorem getElem?_mute (net : Network A) (i : Nat) :
    net.mute[i]? = net.layers[i]?.map Layer.mute := by
  rw [mute, List.getElem?_map, Array.getElem?_toList]

/-- What does not depend on the signals is the same in networks that differ in signals only. -/
theorem map_layers_eq_of_mute_eq {β : Type} (f : Layer A → β) (hf : ∀ layer, f layer.mute = f layer)
    (hmute : net.mute = other.mute) : net.layers.toList.map f = other.layers.toList.map f := by
  have hmap : ∀ net : Network A, net.mute.map f = net.layers.toList.map f := by
    intro net
    rw [mute, List.map_map]
    exact List.map_congr_left fun layer _ => hf layer
  rw [← hmap, hmute, hmap]

theorem groups_eq_of_mute_eq (hmute : net.mute = other.mute) : net.groups = other.groups :=
  map_layers_eq_of_mute_eq (·.group) (fun _ => rfl) hmute

/-- A layer differs from its counterpart in its signal only. -/
theorem eq_setBuffer_of_mute_eq (hmute : net.mute = other.mute) {layer layer' : Layer A}
    (hlayer : net.layers[i]? = some layer) (hlayer' : other.layers[i]? = some layer') :
    layer' = layer.setBuffer .signal layer'.signal := by
  have h : some layer.mute = some layer'.mute := by
    rw [← Option.map_some, ← Option.map_some, ← hlayer, ← hlayer', ← getElem?_mute,
      ← getElem?_mute, hmute]
  obtain ⟨group, weights, signal, error⟩ := layer
  obtain ⟨group', weights', signal', error'⟩ := layer'
  cases h
  rfl

theorem exists_layer_of_mute_eq (hmute : net.mute = other.mute) {layer : Layer A}
    (hlayer : net.layers[i]? = some layer) :
    ∃ l, other.layers[i]? = some l ∧ layer = l.setBuffer .signal layer.signal := by
  have hsame : net.mute[i]? = other.mute[i]? := by rw [hmute]
  rw [getElem?_mute, getElem?_mute, hlayer, Option.map_some] at hsame
  obtain ⟨l, hl, -⟩ := Option.map_eq_some_iff.mp hsame.symm
  exact ⟨l, hl, eq_setBuffer_of_mute_eq hmute.symm hl hlayer⟩

def bufferAt (net : Network A) (b : Buffer) (i : Nat) : Option A :=
  (net.layers[i]?).bind (·.buffer b)

@[simp] theorem getElem?_setBuffer (net : Network A) (b : Buffer) (content : Option A) :
    (net.setBuffer i b content).layers[j]? =
      if i = j then net.layers[j]?.map (·.setBuffer b content) else net.layers[j]? :=
  Array.getElem?_modify

@[simp] theorem bufferAt_setBuffer_of_ne (net : Network A) (b b' : Buffer) (content : Option A)
    (hij : i ≠ j) : (net.setBuffer i b content).bufferAt b' j = net.bufferAt b' j := by
  simp [bufferAt, hij]

/-- What is so of all layers stays so if it is so of the one that is changed. -/
theorem forall_mem_setBuffer {P : Layer A → Prop} {b : Buffer} {content : Option A}
    (hnet : ∀ layer ∈ net.layers, P layer)
    (hnew : ∀ layer, net.layers[i]? = some layer → P (layer.setBuffer b content)) :
    ∀ layer ∈ (net.setBuffer i b content).layers, P layer := by
  intro layer hlayer
  obtain ⟨j, hj⟩ := Array.mem_iff_getElem?.mp hlayer
  rw [getElem?_setBuffer] at hj
  split at hj
  · next hij =>
      obtain ⟨l, hl, rfl⟩ := Option.map_eq_some_iff.mp hj
      exact hnew l (hij ▸ hl)
  · exact hnet layer (Array.mem_of_getElem? hj)

/-- What is so of the layers in front of a position and of the one that is changed there is so of the
layers in front of the next position. -/
theorem forall_front_setBuffer {P : Layer A → Prop} {b : Buffer} {content : Option A}
    (hfront : ∀ j < k, ∀ layer, net.layers[j]? = some layer → P layer)
    (hnew : ∀ layer, net.layers[k]? = some layer → P (layer.setBuffer b content)) :
    ∀ j < k + 1, ∀ layer, (net.setBuffer k b content).layers[j]? = some layer → P layer := by
  intro j hj layer hlayer
  rw [getElem?_setBuffer] at hlayer
  split at hlayer
  · next hkj =>
      obtain ⟨l, hl, rfl⟩ := Option.map_eq_some_iff.mp hlayer
      exact hnew l (hkj ▸ hl)
  · exact hfront j (by omega) layer hlayer

/-- Nothing is seen of a new signal once the signals are left out. -/
@[simp] theorem mute_setBuffer (net : Network A) (content : Option A) :
    (net.setBuffer i .signal content).mute = net.mute := by
  refine List.ext_getElem? fun j => ?_
  rw [getElem?_mute, getElem?_mute, getElem?_setBuffer]
  by_cases hij : i = j
  · rw [if_pos hij, Option.map_map]
    rfl
  · rw [if_neg hij]

/-! ## What depends on the groups only -/

theorem inputPositions_congr (hgroups : net.groups = other.groups) (h : Handle) :
    net.inputPositions g h = other.inputPositions g h := by
  simp only [inputPositions, position?_eq, hgroups]

/-- Whether vectors are accepted depends on the groups alone. -/
theorem accept_congr (hgroups : net.groups = other.groups) (feed : Feed V) :
    net.accept g feed = other.accept g feed := by
  have hsources : net.sources g = other.sources g := by rw [sources_eq, sources_eq, hgroups]
  have hlocate : net.locate (V := V) = other.locate := by
    funext entries
    simp only [locate, index, position?_eq, hgroups]
  have hgroupsAt : net.groupsAt = other.groupsAt := by
    funext is
    simp only [groupsAt, ← getElem?_groups, hgroups]
  cases feed with
  | aligned values => simp only [accept, hsources]
  | keyed entries => simp only [accept, hsources, hlocate, hgroupsAt]

/-! ## Runs change signals only -/

variable [Arithmetic A] [Readable V A] {given : List (Nat × V)}

/-- A run changes signals only. -/
theorem mute_of_steps {is : List Nat} {r : Except NetworkError Unit} {net' : Network A}
    (hsteps : steps g given is net = (r, net')) : net'.mute = net.mute := by
  induction is generalizing net with
  | nil => exact congrArg mute (Prod.mk.inj hsteps).2.symm
  | cons i rest ih =>
      rw [steps] at hsteps
      match hsignal : net.newSignal g given i with
      | .error e =>
          rw [hsignal] at hsteps
          exact congrArg mute (Prod.mk.inj hsteps).2.symm
      | .ok a =>
          rw [hsignal] at hsteps
          exact (ih hsteps).trans (mute_setBuffer net (some a))

/-- What one step keeps, a run keeps. It ends behind the last layer or at a layer that fails. -/
theorem steps_induction {P : Nat → Network A → Prop}
    (hstep : ∀ k net a, P k net → net.newSignal g given k = .ok a →
      P (k + 1) (net.setBuffer k .signal (some a)))
    {n : Nat} {r : Except NetworkError Unit} {net' : Network A} (hnet : P k net)
    (hsteps : steps g given (List.range' k n) net = (r, net')) :
    ∃ m, P m net' ∧ ((r = .ok () ∧ m = k + n) ∨
      ∃ e, r = .error e ∧ m < k + n ∧ net'.newSignal g given m = .error e) := by
  -- The induction is on the number of layers that are still to come.
  induction n generalizing k net with
  | zero =>
      obtain ⟨rfl, rfl⟩ := Prod.mk.inj hsteps
      exact ⟨k, hnet, .inl ⟨rfl, rfl⟩⟩
  | succ n ih =>
      rw [List.range'_succ, steps] at hsteps
      cases hnew : net.newSignal g given k with
      | error e =>
          rw [hnew] at hsteps
          obtain ⟨rfl, rfl⟩ := Prod.mk.inj hsteps
          exact ⟨k, hnet, .inr ⟨e, rfl, by omega, hnew⟩⟩
      | ok a =>
          rw [hnew] at hsteps
          obtain ⟨m, hm, hend⟩ := ih (hstep k net a hnet hnew) hsteps
          rw [Nat.add_right_comm] at hend
          exact ⟨m, hm, hend⟩

/-! ## What the signals held before -/

end Network

/-- Arrays of one kind: they take up values and other arrays in the same way. -/
structure Alike (V : Type) [Arithmetic A] [Readable V A] (a b : A) : Prop where
  read : ∀ v : V, Readable.read a v = Readable.read b v
  convert : ∀ x, Arithmetic.convert a x = Arithmetic.convert b x

namespace Network

variable {g : Graph A} {net other : Network A} {output : Handle} {i j k : Nat}
  [Arithmetic A] [Readable V A] {given : List (Nat × V)}

/-- Every layer has a signal with a component for each neuron of its group and of the kind of
`like`. What it holds is left open. -/
def SignalsFit (V : Type) [Readable V A] (net : Network A) (g : Graph A) (like : A) : Prop :=
  ∀ layer ∈ net.layers, ∃ s, layer.signal = some s ∧
    Arithmetic.shape s = [g.cardinality layer.group] ∧ Alike V s like

/-- Two networks hold the same in front of a position, and from there on they differ in what the
signals hold. -/
structure AgreeUpTo (V : Type) [Readable V A] (net other : Network A) (k : Nat) : Prop where
  mute : net.mute = other.mute
  front : ∀ j < k, net.layers[j]? = other.layers[j]?
  rest : ∀ j, k ≤ j → ∀ layer layer', net.layers[j]? = some layer → other.layers[j]? = some layer' →
    ∃ s s', layer.signal = some s ∧ layer'.signal = some s' ∧
      Arithmetic.shape s = Arithmetic.shape s' ∧ Alike V s s'

/-- Networks that differ in their signals agree in front of the first layer. -/
theorem agreeUpTo_zero {like : A} (hmute : net.mute = other.mute) (hnet : net.SignalsFit V g like)
    (hother : other.SignalsFit V g like) : AgreeUpTo V net other 0 where
  mute := hmute
  front := fun j hj => absurd hj (Nat.not_lt_zero j)
  rest := by
    intro j _ layer layer' hlayer hlayer'
    obtain ⟨s, hs, hshape, hlike⟩ := hnet layer (Array.mem_of_getElem? hlayer)
    obtain ⟨s', hs', hshape', hlike'⟩ := hother layer' (Array.mem_of_getElem? hlayer')
    have hgroup : layer'.group = layer.group := by
      rw [eq_setBuffer_of_mute_eq hmute hlayer hlayer', Layer.group_setBuffer]
    refine ⟨s, s', hs, hs', by rw [hshape, hshape', hgroup], ?_, ?_⟩
    · intro v
      rw [hlike.read, hlike'.read]
    · intro x
      rw [hlike.convert, hlike'.convert]

theorem gather_of_inputPositions {layer : Layer A} {js : List Nat}
    (hjs : net.inputPositions g layer.group = .ok js) (hne : js ≠ []) :
    net.gather g layer = joinSignals (js.filterMap (net.layers[·]?)) := by
  simp [gather, hjs, hne]

/-- A layer with inputs reads the same in networks that agree in front of it. -/
theorem AgreeUpTo.gather_eq (hagree : AgreeUpTo V net other k) (hnet : net.Follows g output)
    {layer layer' : Layer A} (hlayer : net.layers[k]? = some layer)
    (hgroup : layer'.group = layer.group) (hne : g.inputs layer.group ≠ []) :
    net.gather g layer = other.gather g layer' := by
  obtain ⟨js, hjs, hbelow, hinputs⟩ :=
    hnet.exists_inputPositions (getElem?_groups_of_layer hlayer)
  have hjs' : other.inputPositions g layer'.group = .ok js := by
    rw [hgroup, ← inputPositions_congr (groups_eq_of_mute_eq hagree.mute), hjs]
  have hsome : js ≠ [] := by
    rintro rfl
    exact hne (List.map_eq_nil_iff.mp hinputs.symm)
  have hlayers : js.filterMap (net.layers[·]?) = js.filterMap (other.layers[·]?) :=
    List.filterMap_congr fun j hj => hagree.front j (hbelow j hj)
  rw [gather_of_inputPositions hjs hsome, gather_of_inputPositions hjs' hsome, hlayers]

/-- The value of a layer does not depend on what the signals were before the run. -/
theorem AgreeUpTo.newSignal_eq (hagree : AgreeUpTo V net other k) (hnet : net.Follows g output) :
    net.newSignal g given k = other.newSignal g given k := by
  have hsome : (net.layers[k]?).map Layer.mute = (other.layers[k]?).map Layer.mute := by
    rw [← getElem?_mute, ← getElem?_mute, hagree.mute]
  rw [newSignal, newSignal]
  match hl : net.layers[k]?, hl' : other.layers[k]? with
  | none, none => rfl
  | none, some layer' => rw [hl, hl'] at hsome; cases hsome
  | some layer, none => rw [hl, hl'] at hsome; cases hsome
  | some layer, some layer' =>
      -- the buffer counts by its kind in `layerValue`, by its kind and shape in `fitSignal`
      obtain ⟨s, s', hs, hs', hshape, halike⟩ := hagree.rest k (Nat.le_refl k) layer layer' hl hl'
      have hlayer' := eq_setBuffer_of_mute_eq hagree.mute hl hl'
      have hgroup : layer'.group = layer.group := by rw [hlayer', Layer.group_setBuffer]
      have hweights : layer'.weights = layer.weights := by rw [hlayer']; rfl
      -- a source reads its vector into the buffer, and a layer gathers what is in front
      have hvalue : net.layerValue g given k layer = other.layerValue g given k layer' := by
        rw [layerValue, layerValue, hgroup, hweights, hs, hs']
        by_cases hsource : g.isSource layer.group
        · simp [hsource, halike.read]
        · have hne := mt Graph.isSource_iff.mpr hsource
          rw [if_neg hsource, if_neg hsource, hagree.gather_eq hnet hl hgroup hne]
      have hfit : fitSignal k layer.signal = fitSignal k layer'.signal := by
        funext value
        simp [fitSignal, hs, hs', hshape, halike.convert]
      simp only [hvalue, hfit]

/-- Networks that store the same signal at a position agree up to the next one. -/
theorem AgreeUpTo.setSignal (hagree : AgreeUpTo V net other k) (content : Option A) :
    AgreeUpTo V (net.setBuffer k .signal content) (other.setBuffer k .signal content) (k + 1) where
  mute := by simp [hagree.mute]
  front := by
    intro j hj
    rw [getElem?_setBuffer, getElem?_setBuffer]
    by_cases hkj : k = j
    · -- whatever the signals were, they are replaced
      have hset : ∀ net : Network A, (net.layers[j]?).map (·.setBuffer .signal content) =
          (net.mute[j]?).map (·.setBuffer .signal content) := by
        intro net
        rw [getElem?_mute, Option.map_map]
        rfl
      rw [if_pos hkj, if_pos hkj, hset, hset, hagree.mute]
    · rw [if_neg hkj, if_neg hkj]
      exact hagree.front j (by omega)
  rest := by
    intro j hj layer layer' hlayer hlayer'
    have hkj : k ≠ j := by omega
    exact hagree.rest j (by omega) layer layer' (by simpa [hkj] using hlayer)
      (by simpa [hkj] using hlayer')

/-- The layers from `k` on run the same way in networks that agree in front of `k`. -/
theorem AgreeUpTo.steps_eq (hagree : AgreeUpTo V net other k) (hnet : net.Follows g output)
    {n : Nat} {net' : Network A}
    (hsteps : steps g given (List.range' k n) net = (.ok (), net')) :
    ∃ other', steps g given (List.range' k n) other = (.ok (), other') ∧
      AgreeUpTo V net' other' (k + n) := by
  -- The networks agree up to one position more after each layer, so both take the same steps.
  induction n generalizing k net other with
  | zero =>
      cases hsteps
      exact ⟨other, rfl, hagree⟩
  | succ n ih =>
      rw [List.range'_succ, steps] at hsteps
      rw [List.range'_succ, steps, ← hagree.newSignal_eq hnet]
      match hsignal : net.newSignal g given k with
      | .error e => rw [hsignal] at hsteps; cases hsteps
      | .ok a =>
          rw [hsignal] at hsteps
          have hnext : (net.setBuffer k .signal (some a)).Follows g output := by
            rw [Follows, groups_setBuffer]
            exact hnet
          obtain ⟨other', hother', hagree'⟩ := ih (hagree.setSignal (some a)) hnext hsteps
          exact ⟨other', hother', by rwa [Nat.add_assoc, Nat.add_comm 1 n] at hagree'⟩

def lastSignal (net : Network A) : Except NetworkError A :=
  match net.layers.back? with
  | none => .error .noOutput
  | some layer => present layer.signal

theorem run_eq_of_accept_error {feed : Feed V} {e : NetworkError}
    (haccept : net.accept g feed = .error e) : net.run g feed = (.error e, net) := by
  simp [run, haccept]

/-- A run that accepts its vectors answers after its steps, or fails as they do. -/
theorem run_eq_of_steps {feed : Feed V} {r : Except NetworkError Unit} {net' : Network A}
    (haccept : net.accept g feed = .ok given)
    (hsteps : steps g given (List.range' 0 net.size) net = (r, net')) :
    net.run g feed = (r >>= fun _ => net'.lastSignal, net') := by
  rw [run, haccept, List.range_eq_range']
  dsimp only
  rw [hsteps]
  cases r with
  | error e => rfl
  | ok _ =>
      cases hback : net'.layers.back? with
      | none => simp [lastSignal, hback]
      | some layer => simp [lastSignal, hback]

/-- A run answers with the signal of the last layer, once each layer is done. -/
theorem run_eq_ok_iff {feed : Feed V} {out : A} {net' : Network A} :
    net.run g feed = (.ok out, net') ↔
      ∃ given, net.accept g feed = .ok given ∧
        steps g given (List.range' 0 net.size) net = (.ok (), net') ∧
        ∃ layer, net'.layers.back? = some layer ∧ layer.signal = some out := by
  rw [run, ← List.range_eq_range']
  constructor
  · intro hrun
    split at hrun
    · cases hrun
    · next given haccept =>
        split at hrun
        · cases hrun  -- a layer failed
        · next last hsteps =>
            split at hrun
            · cases hrun  -- there is no layer
            · next layer hlayer =>
                obtain ⟨hout, rfl⟩ := Prod.mk.inj hrun
                exact ⟨given, haccept, hsteps, layer, hlayer, present_eq_ok_iff.mp hout⟩
  · rintro ⟨given, haccept, hsteps, layer, hlayer, hout⟩
    simp only [haccept, hsteps, hlayer, hout, present]

/-- What the signals held before a run that answers does not matter. -/
theorem Follows.run_eq_of_mute_eq (hnet : net.Follows g output) {like : A}
    (hmute : net.mute = other.mute) (hfit : net.SignalsFit V g like)
    (hfit' : other.SignalsFit V g like) {feed : Feed V} {out : A} {net' : Network A}
    (hrun : net.run g feed = (.ok out, net')) : other.run g feed = (.ok out, net') := by
  obtain ⟨given, haccept, hsteps, hback⟩ := run_eq_ok_iff.mp hrun
  have hgroups := groups_eq_of_mute_eq hmute
  obtain ⟨other', hother', hagree⟩ := (agreeUpTo_zero hmute hfit hfit').steps_eq hnet hsteps
  -- at the end of the run the networks agree everywhere
  have hsame : net' = other' := by
    have hlen : net'.size = net.size := by
      rw [size_eq_length_groups, groups_eq_of_mute_eq (mute_of_steps hsteps), size_eq_length_groups]
    refine eq_of_layers_eq (Array.ext_getElem? fun j => ?_)
    by_cases hj : j < net.size
    · exact hagree.front j (by omega)
    -- behind the last layer neither network has anything
    · have hmute' := congrArg (·[j]?) hagree.mute
      have hnone : net'.layers[j]? = none := Array.getElem?_eq_none (by rw [← size]; omega)
      simp only [getElem?_mute, hnone, Option.map_none] at hmute'
      rw [hnone, Option.map_eq_none_iff.mp hmute'.symm]
  rw [run_eq_ok_iff]
  refine ⟨given, ?_, ?_, hback⟩
  · rw [← accept_congr hgroups, haccept]
  · rw [size_eq_length_groups, ← hgroups, ← size_eq_length_groups, hother', hsame]

end Network

end Feedforward
