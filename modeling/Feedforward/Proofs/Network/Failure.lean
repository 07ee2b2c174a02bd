import Feedforward.Proofs.Network.Shape

/-!
# Runs that fail

A run passes one layer after the other, and each of them stores what its group computes. It fails at
the first layer whose value is no vector of the size of its buffer: the layers in front of this one
hold their new values, and all else is as it was (`Passed`). Nothing but such a misfit can stop a
run, as long as the vectors are arrays and the activations take every array.

Weights make vectors of the right size, so if the activations keep shapes then only a source can be
the one that fails, and the run answers exactly if every vector has the size of its source.
-/

namespace Feedforward

variable {A V : Type} [Arithmetic A] [Readable V A]

namespace Graph

variable {g : Graph A} {data : RunData V A} {h output : Handle} {y z : A}

/-- The groups that the output reaches are there, and their activations take every array. -/
def Activates (g : Graph A) (output : Handle) : Prop :=
  ∀ h, g.Reaches output h → ∃ t, g.group? h = some t ∧ ∀ a, ∃ b, t.activation.evaluate a = .ok b

/-- No activation of a group that the output reaches changes the shape of an array. -/
def KeepsShapes (g : Graph A) (output : Handle) : Prop :=
  ∀ h t, g.Reaches output h → g.group? h = some t →
    ∀ a b, t.activation.evaluate a = .ok b → Arithmetic.shape b = Arithmetic.shape a

omit [Arithmetic A] in
theorem Activates.exists_activate (hactivates : g.Activates output) (hh : g.Reaches output h)
    (a : A) : ∃ b, g.activate h a = .ok b := by
  obtain ⟨t, ht, htotal⟩ := hactivates h hh
  obtain ⟨b, hb⟩ := htotal a
  exact ⟨b, by simp only [activate, ht, hb, ofArray]⟩

theorem KeepsShapes.shape_activate (hkeeps : g.KeepsShapes output) (hh : g.Reaches output h)
    {a b : A} (hb : g.activate h a = .ok b) : Arithmetic.shape b = Arithmetic.shape a := by
  rw [activate] at hb
  split at hb
  · cases hb
  · next t ht => exact hkeeps h t hh ht a b (ofArray_eq_ok_iff.mp hb)

/-- A source computes an array of the shape of the vector given for it. -/
theorem KeepsShapes.exists_vector (hkeeps : g.KeepsShapes output) (hh : g.Reaches output h)
    (hnil : g.inputs h = []) (hy : g.Computes data h y) :
    ∃ v x, data.vector h = some v ∧ Readable.read data.like v = .ok x ∧
      Arithmetic.shape x = Arithmetic.shape y := by
  cases hy with
  | source ht _ hv hx heval => exact ⟨_, _, hv, hx, (hkeeps h _ hh ht _ _ heval).symm⟩
  | layer values ht hne =>
      rw [inputs_of_group? ht] at hnil
      exact absurd hnil hne

end Graph

namespace Network

variable {g : Graph A} {start net net' : Network A} {output : Handle} {k : Nat} {like : A}
  {given : List (Nat × V)} {feed : Feed V} {layer : Layer A} {data : RunData V A}

/-! ## Vectors for the sources -/

omit [Arithmetic A] [Readable V A] in
/-- A position is given exactly if a vector is found for it. -/
theorem mem_fst_iff_exists_lookup {given : List (Nat × V)} {i : Nat} :
    i ∈ given.map (·.1) ↔ ∃ v, given.lookup i = some v := by
  induction given with
  | nil => simp
  | cons entry rest ih =>
      obtain ⟨j, w⟩ := entry
      rw [List.map_cons, List.mem_cons, ih, lookup_cons_eq_ite]
      by_cases hij : i = j
      · simp [hij]
      · simp [hij]

omit [Arithmetic A] [Readable V A] in
/-- A network that accepts vectors has one for each source. -/
theorem exists_lookup_of_accept (haccept : net.accept g feed = .ok given) {i : Nat}
    (hi : i ∈ net.sources g) : ∃ v, given.lookup i = some v := by
  rw [← mem_fst_iff_exists_lookup]
  cases feed with
  | aligned values =>
      rw [accept] at haccept
      split at haccept
      · next hlength =>
          cases haccept
          rwa [List.map_fst_zip (by omega)]
      · cases haccept
  -- entries were accepted, so that none of the sources is missing
  | keyed entries =>
      obtain ⟨located, -, hrest⟩ := bind_eq_ok_iff.mp haccept
      dsimp only at hrest
      split at hrest
      · cases hrest
      · split at hrest
        · cases hrest
        · next hmissing =>
            cases hrest
            rw [Bool.not_eq_true, Bool.not_eq_false', List.isEmpty_iff, List.filter_eq_nil_iff]
              at hmissing
            simpa using hmissing i hi

omit [Arithmetic A] [Readable V A] in
/-- Handles that differ each find the vector that was zipped with them. -/
theorem lookup_zip_eq_some_iff {hs : List Handle} (hnodup : hs.Nodup) {values : List V} {h : Handle}
    {v : V} : (hs.zip values).lookup h = some v ↔ (h, v) ∈ hs.zip values := by
  induction hs generalizing values with
  | nil => simp
  | cons k rest ih =>
      obtain ⟨hk, hrest⟩ := List.nodup_cons.mp hnodup
      cases values with
      | nil => simp
      | cons w ws =>
          rw [List.zip_cons_cons, lookup_cons_eq_ite, List.mem_cons, Prod.mk.injEq]
          by_cases hkh : h = k
          · have hfree : (k, v) ∉ rest.zip ws := fun hmem => hk (List.of_mem_zip hmem).1
            simp [hkh, hfree, eq_comm]
          · simp [hkh, ih hrest]

/-! ## One layer after the other -/

/-- A run from `start` has passed the layers in front of a position: each of them holds what its
group computes, which fitted. All else is as it was. -/
structure Passed (g : Graph A) (data : RunData V A) (start net : Network A) (k : Nat) : Prop
    extends Ran g data start net k where
  computed : ∀ j < k, ∀ layer, net.layers[j]? = some layer → ∃ y, g.Computes data layer.group y ∧
    Arithmetic.shape y = [g.cardinality layer.group] ∧
    layer.signal = some (Arithmetic.convert data.like y)

namespace Passed

theorem zero (start : Network A) : Passed g data start start 0 where
  toRan := .zero start
  computed := fun j hj => absurd hj (Nat.not_lt_zero j)

theorem groups_eq (hpassed : Passed g data start net k) : net.groups = start.groups :=
  groups_eq_of_mute_eq hpassed.mute

/-- A run passes a layer by storing a value that fits. -/
theorem of_newSignal (hpassed : Passed g (start.runData g feed like) start net k)
    (hstart : start.Follows g output) (haccept : start.accept g feed = .ok given)
    (hfit : start.SignalsFit V g like) {a : A} (hnew : net.newSignal g given k = .ok a) :
    Passed g (start.runData g feed like) start (net.setBuffer k .signal (some a)) (k + 1) where
  toRan := hpassed.toRan.setSignal fun layer hlayer =>
    hpassed.toRan.denotes_of_newSignal hstart haccept hfit hlayer hnew
  computed := by
    apply forall_front_setBuffer hpassed.computed
    intro layer hlayer
    have hsame := hpassed.toRan.getElem?_start hlayer
    obtain ⟨s, hs, hshape, halike⟩ := hfit layer (Array.mem_of_getElem? hsame)
    obtain ⟨y, hvalue, hy, rfl⟩ := exists_layerValue_of_newSignal hlayer hs hshape hnew
    refine ⟨y, hpassed.toRan.computes_of_layerValue hstart haccept hfit hlayer hvalue, hy, ?_⟩
    exact congrArg some (halike.convert y)

/-- However far a run comes, it has passed what is in front of it. It ends behind the last layer or
at one that fails. -/
theorem of_steps (hstart : start.Follows g output) (haccept : start.accept g feed = .ok given)
    (hfit : start.SignalsFit V g like) {r : Except NetworkError Unit}
    (hsteps : steps g given (List.range' 0 start.size) start = (r, net')) :
    ∃ k, Passed g (start.runData g feed like) start net' k ∧ ((r = .ok () ∧ k = start.size) ∨
      ∃ e, r = .error e ∧ k < start.size ∧ net'.newSignal g given k = .error e) := by
  have hrun := steps_induction (P := fun k net => Passed g (start.runData g feed like) start net k)
    (fun _ _ _ hpassed hnew => hpassed.of_newSignal hstart haccept hfit hnew) (.zero start) hsteps
  rwa [Nat.zero_add] at hrun

/-- What is stored fits, so the shapes are right wherever a run stands. -/
theorem shaped [LawfulArithmetic A] (hpassed : Passed g data start net k)
    (hstart : start.Shaped g output) : net.Shaped g output where
  follows := by
    rw [Follows, hpassed.groups_eq]
    exact hstart.follows
  weights := by
    intro layer hlayer
    -- a layer has the group and the weights that it had at the start
    obtain ⟨j, hj⟩ := Array.mem_iff_getElem?.mp hlayer
    obtain ⟨l, hl, hsame⟩ := exists_layer_of_mute_eq hpassed.mute hj
    rw [hsame]
    exact hstart.weights l (Array.mem_of_getElem? hl)
  signal := by  -- case: what was stored fitted, and the rest is as it was
    intro layer hlayer
    obtain ⟨j, hj⟩ := Array.mem_iff_getElem?.mp hlayer
    by_cases hjk : j < k
    · obtain ⟨y, -, hshape, hsignal⟩ := hpassed.computed j hjk layer hj
      exact ⟨_, hsignal, (LawfulArithmetic.shape_convert _ _).trans hshape⟩
    · rw [hpassed.rest j (by omega)] at hj
      exact hstart.signal layer (Array.mem_of_getElem? hj)

/-- Behind the last layer, every group has computed a vector of the size of its buffer. -/
theorem exists_computes (hpassed : Passed g data start net start.size)
    (hstart : start.Follows g output) {h : Handle} (hreach : g.Reaches output h) :
    ∃ y, g.Computes data h y ∧ Arithmetic.shape y = [g.cardinality h] := by
  obtain ⟨j, hj⟩ := List.mem_iff_getElem?.mp ((Graph.mem_order_iff hstart).mpr hreach)
  have hlt : j < start.size := by
    rw [size_eq_length_groups]
    exact (List.getElem?_eq_some_iff.mp hj).1
  rw [← hpassed.groups_eq] at hj
  obtain ⟨layer, hlayer, rfl⟩ := exists_layer_of_getElem?_groups hj
  obtain ⟨y, hy, hshape, -⟩ := hpassed.computed j hlt layer hlayer
  exact ⟨y, hy, hshape⟩

/-- Behind the last layer, every source was given a vector of its size if shapes are kept. -/
theorem exists_vector (hpassed : Passed g data start net start.size)
    (hstart : start.Follows g output) (hkeeps : g.KeepsShapes output) {h : Handle}
    (hh : h ∈ start.groups) (hnil : g.inputs h = []) :
    ∃ v x, data.vector h = some v ∧ Readable.read data.like v = .ok x ∧
      Arithmetic.shape x = [g.cardinality h] := by
  have hreach := (Graph.mem_order_iff hstart).mp hh
  obtain ⟨y, hy, hshape⟩ := hpassed.exists_computes hstart hreach
  obtain ⟨v, x, hv, hx, hsame⟩ := hkeeps.exists_vector hreach hnil hy
  exact ⟨v, x, hv, hx, hsame.trans hshape⟩

end Passed

/-- A run that has passed all layers answers with the signal of the last one. -/
theorem exists_run_of_passed (hstart : start.Follows g output)
    (haccept : start.accept g feed = .ok given)
    (hpassed : Passed g (start.runData g feed like) start net' start.size)
    (hsteps : steps g given (List.range' 0 start.size) start = (.ok (), net')) :
    ∃ out, start.run g feed = (.ok out, net') := by
  -- the output has a layer, so there is a last one
  have hlast : ∃ layer, net'.layers.back? = some layer := by
    have hback := Graph.getLast?_order hstart
    rw [← hpassed.groups_eq, groups, List.getLast?_map, Array.getLast?_toList] at hback
    obtain ⟨layer, hlayer, -⟩ := Option.map_eq_some_iff.mp hback
    exact ⟨layer, hlayer⟩
  obtain ⟨layer, hlayer⟩ := hlast
  obtain ⟨j, hj, hget⟩ := Array.mem_iff_getElem.mp (Array.mem_of_back? hlayer)
  have hsize : net'.size = start.size := by
    rw [size_eq_length_groups, hpassed.groups_eq, size_eq_length_groups]
  obtain ⟨y, -, -, hsignal⟩ := hpassed.computed j (hsize ▸ hj) layer
    (hget ▸ Array.getElem?_eq_getElem hj)
  exact ⟨_, run_eq_ok_iff.mpr ⟨given, haccept, hsteps, layer, hlayer, hsignal⟩⟩

/-- A run from `start` has stopped at the layer of a group: it has passed the layers in front of
this one, and what the group computes is no vector of the size of the buffer. -/
structure Stopped (g : Graph A) (data : RunData V A) (start net : Network A) (k : Nat) (h : Handle)
    (y : A) : Prop where
  group : start.groups[k]? = some h
  passed : Passed g data start net k
  computes : g.Computes data h y
  misfit : Arithmetic.shape y ≠ [g.cardinality h]

/-! ## Runs that nothing else can stop -/

/-- Vectors that are accepted and can be read, for a network whose buffers have the right shapes and
are of one kind and whose activations take every array. -/
structure Ready (net : Network A) (g : Graph A) (output : Handle) (like : A) (feed : Feed V)
    (given : List (Nat × V)) : Prop where
  shaped : net.Shaped g output
  fits : net.SignalsFit V g like
  activates : g.Activates output
  accepts : net.accept g feed = .ok given
  reads : ∀ h v, feed.vector? (net.groups.filter g.isSource) h = some v →
    ∃ x, Readable.read like v = .ok x

namespace Ready

variable [LawfulArithmetic A] (hready : start.Ready g output like feed given)
include hready

/-- Every layer at which a run stands computes something. A layer with inputs computes what its
activation makes of a vector of the right size. -/
theorem exists_layerValue (hpassed : Passed g (start.runData g feed like) start net k)
    (hlayer : net.layers[k]? = some layer) :
    ∃ y, net.layerValue g given k layer = .ok y ∧
      (g.KeepsShapes output → g.inputs layer.group ≠ [] →
        Arithmetic.shape y = [g.cardinality layer.group]) := by
  have hsame := hpassed.toRan.getElem?_start hlayer
  have hk := getElem?_groups_of_layer hsame
  have hreach : g.Reaches output layer.group :=
    (Graph.mem_order_iff hready.shaped.follows).mp (List.mem_of_getElem? hk)
  by_cases hnil : g.inputs layer.group = []
  · -- a source was given a vector, since the vectors were accepted
    obtain ⟨s, hs, -, halike⟩ := hready.fits layer (Array.mem_of_getElem? hsame)
    obtain ⟨v, hv⟩ := exists_lookup_of_accept hready.accepts
      (mem_sources_iff.mpr ⟨layer, hsame, Graph.isSource_iff.mpr hnil⟩)
    have hvector := (hready.shaped.follows.lookup_of_accept hready.accepts hk).symm.trans hv
    obtain ⟨x, hx⟩ := hready.reads _ v hvector
    obtain ⟨y, hy⟩ := hready.activates.exists_activate hreach x
    refine ⟨y, ?_, fun _ hne => absurd hnil hne⟩
    rw [layerValue_of_source hnil hs, hv]
    dsimp only
    rw [halike.read, hx]
    exact hy
  · obtain ⟨z, hshape, hvalue⟩ :=
      (hpassed.shaped hready.shaped).exists_layerValue given hlayer hnil
    obtain ⟨y, hy⟩ := hready.activates.exists_activate hreach z
    refine ⟨y, hvalue.trans hy, fun hkeeps _ => ?_⟩
    rw [hkeeps.shape_activate hreach hy, hshape]

/-- A layer fails only if its value does not fit. -/
theorem stopped_of_newSignal (hpassed : Passed g (start.runData g feed like) start net k)
    (hk : k < start.size) {e : NetworkError} (hnew : net.newSignal g given k = .error e) :
    ∃ h y, Stopped g (start.runData g feed like) start net k h y ∧
      e = .mismatch (.signal k) (g.cardinality h) (Arithmetic.size y) ∧
      (g.KeepsShapes output → g.inputs h = []) := by
  have hsame := Array.getElem?_eq_getElem hk
  have hlayer := (hpassed.rest k (Nat.le_refl k)).trans hsame
  obtain ⟨s, hs, hshape, -⟩ := hready.fits _ (Array.mem_of_getElem? hsame)
  obtain ⟨y, hvalue, hhidden⟩ := hready.exists_layerValue hpassed hlayer
  -- a new signal fails in the last of its steps only, which compares the shapes
  simp only [newSignal, hlayer, hvalue, hs, ok_bind, fitSignal_eq hshape] at hnew
  split at hnew
  · cases hnew
  · next hmisfit =>
      refine ⟨_, y, ?_, (Except.error.inj hnew).symm, ?_⟩
      · exact {
          group := getElem?_groups_of_layer hsame
          passed := hpassed
          computes := hpassed.toRan.computes_of_layerValue hready.shaped.follows hready.accepts
            hready.fits hlayer hvalue
          misfit := hmisfit }
      · intro hkeeps
        by_contra hne
        exact hmisfit (hhidden hkeeps hne)

/-- A run answers, or it stops at a layer whose value does not fit. -/
theorem run_cases :
    (∃ out net', start.run g feed = (.ok out, net')) ∨
    ∃ k h y net', start.run g feed =
        (.error (.mismatch (.signal k) (g.cardinality h) (Arithmetic.size y)), net') ∧
      Stopped g (start.runData g feed like) start net' k h y ∧
      (g.KeepsShapes output → g.inputs h = []) := by
  have hfollows := hready.shaped.follows
  cases hsteps : steps g given (List.range' 0 start.size) start with
  | mk r net' =>
      obtain ⟨k, hpassed, ⟨rfl, rfl⟩ | ⟨e, rfl, hk, hnew⟩⟩ :=
        Passed.of_steps hfollows hready.accepts hready.fits hsteps
      · obtain ⟨out, hrun⟩ := exists_run_of_passed hfollows hready.accepts hpassed hsteps
        exact .inl ⟨out, net', hrun⟩
      · obtain ⟨h, y, hstopped, rfl, hhidden⟩ := hready.stopped_of_newSignal hpassed hk hnew
        exact .inr ⟨k, h, y, net', run_eq_of_steps hready.accepts hsteps, hstopped, hhidden⟩

end Ready

/-! ## Vectors of the right sizes -/

/-- Where the activations keep shapes, a run answers exactly if there is a vector for each source
and it has the size of the source. -/
theorem exists_run_aligned_iff [LawfulArithmetic A] (hshaped : net.Shaped g output)
    (hfit : net.SignalsFit V g like) (hactivates : g.Activates output)
    (hkeeps : g.KeepsShapes output) (values : List V) :
    (∃ out net', net.run g (.aligned values) = (.ok out, net')) ↔
      List.Forall₂ (fun h v => ∃ x, Readable.read like v = .ok x ∧
        Arithmetic.shape x = [g.cardinality h]) (net.groups.filter g.isSource) values := by
  have hnodup : (net.groups.filter g.isSource).Nodup :=
    (Graph.nodup_order hshaped.follows).filter _
  have hlength : (net.sources g).length = (net.groups.filter g.isSource).length :=
    forall₂_sources.length_eq
  rw [List.forall₂_iff_zip]
  constructor
  · rintro ⟨out, net', hrun⟩  -- an answer read every vector
    obtain ⟨given, haccept, hsteps, -⟩ := run_eq_ok_iff.mp hrun
    obtain ⟨k, hpassed, ⟨-, rfl⟩ | ⟨e, he, -⟩⟩ :=
      Passed.of_steps hshaped.follows haccept hfit hsteps
    · rw [accept] at haccept
      split at haccept
      · next hvalues =>
          refine ⟨by omega, fun {h v} hmem => ?_⟩
          obtain ⟨hgroup, hsource⟩ := List.mem_filter.mp (List.of_mem_zip hmem).1
          obtain ⟨w, x, hw, hx, hshape⟩ := hpassed.exists_vector hshaped.follows hkeeps hgroup
            (Graph.isSource_iff.mp hsource)
          -- the vector that was read is the one beside the source
          obtain rfl : v = w :=
            Option.some.inj (((lookup_zip_eq_some_iff hnodup).mpr hmem).symm.trans hw)
          exact ⟨x, hx, hshape⟩
      · cases haccept
    · cases he
  · rintro ⟨hvalues, hsizes⟩  -- vectors of the right sizes are answered
    have hready : net.Ready g output like (.aligned values) ((net.sources g).zip values) :=
      { shaped := hshaped
        fits := hfit
        activates := hactivates
        accepts := by rw [accept, if_pos (by omega)]
        reads := by
          intro h v hv
          obtain ⟨x, hx, -⟩ := hsizes ((lookup_zip_eq_some_iff hnodup).mp hv)
          exact ⟨x, hx⟩ }
    obtain hrun | ⟨k, h, y, net', -, hstopped, hhidden⟩ := hready.run_cases
    · exact hrun
    · -- only a source could have stopped the run, and its vector has the right size
      have hreach := (Graph.mem_order_iff hshaped.follows).mp (List.mem_of_getElem? hstopped.group)
      obtain ⟨v, x, hv, hx, hshape⟩ :=
        hkeeps.exists_vector hreach (hhidden hkeeps) hstopped.computes
      obtain ⟨x', hx', hsize⟩ := hsizes ((lookup_zip_eq_some_iff hnodup).mp hv)
      obtain rfl := Except.ok.inj (hx.symm.trans hx')
      exact absurd (hshape.symm.trans hsize) hstopped.misfit

end Network

open Feedforward.Network

/-- Running a compiled network whose weights and signals have the right shapes and hold anything.
The activations take every array and may change its shape. If vectors are accepted and the run is
refused all the same, then at the first layer whose value does not fit its buffer: the layers in
front of it hold their new values, all else is as it was. Where the activations keep shapes this is
the layer of a source, and the run answers exactly if each vector has the size of its source. -/
theorem run_stops_at_first_misfit {V : Type} [Readable V Numeric] {g : Graph Numeric}
    {output : Handle} {alloc : Allocation Numeric} {gen gen' : Generator}
    {compiled net : Network Numeric} {like : Numeric}
    (hcompile : g.compile alloc output gen = (.ok compiled, gen'))
    (hgroups : net.groups = compiled.groups)
    (hweights : ∀ layer ∈ net.layers, g.WeightsFit layer.group layer.weights)
    (hfit : net.SignalsFit V g like) (hactivates : g.Activates output) :
    (∀ (feed : Feed V) (given : List (Nat × V)) (e : NetworkError) (net' : Network Numeric),
      net.accept g feed = .ok given →
      (∀ h v, feed.vector? (net.groups.filter g.isSource) h = some v →
        ∃ x, Readable.read like v = .ok x) →
      net.run g feed = (.error e, net') →
      ∃ k h y, net.groups[k]? = some h ∧
        (∀ z, g.Computes (net.runData g feed like) h z ↔ z = y) ∧
        Arithmetic.shape y ≠ [g.cardinality h] ∧
        e = .mismatch (.signal k) (g.cardinality h) (Arithmetic.size y) ∧
        (∀ j < k, ∀ layer, net'.layers[j]? = some layer →
          ∃ z, (∀ b, g.Computes (net.runData g feed like) layer.group b ↔ b = z) ∧
            Arithmetic.shape z = [g.cardinality layer.group] ∧
            layer.signal = some (Arithmetic.convert like z)) ∧
        (∀ j, k ≤ j → net'.layers[j]? = net.layers[j]?) ∧
        net'.groups = net.groups ∧
        net'.layers.toList.map (·.weights) = net.layers.toList.map (·.weights) ∧
        net'.layers.toList.map (·.error) = net.layers.toList.map (·.error) ∧
        (g.KeepsShapes output → g.inputs h = [])) ∧
    (g.KeepsShapes output → ∀ values : List V,
      (∃ out net', net.run g (.aligned values) = (.ok out, net')) ↔
        List.Forall₂ (fun h v => ∃ x, Readable.read like v = .ok x ∧
          Arithmetic.shape x = [g.cardinality h]) (net.groups.filter g.isSource) values) := by
  have hshaped : net.Shaped g output := {
    follows := by rw [Follows, hgroups]; exact Graph.follows_of_compile hcompile
    weights := hweights
    signal := fun layer hlayer =>
      let ⟨s, hs, hshape, _⟩ := hfit layer hlayer
      ⟨s, hs, hshape⟩ }
  refine ⟨?_, fun hkeeps => exists_run_aligned_iff hshaped hfit hactivates hkeeps⟩
  intro feed given e net' haccept hreads hrun
  have hready : net.Ready g output like feed given :=
    ⟨hshaped, hfit, hactivates, haccept, hreads⟩
  have hvalue : ∀ {h : Handle} {y : Numeric}, g.Computes (net.runData g feed like) h y →
      ∀ z, g.Computes (net.runData g feed like) h z ↔ z = y := by
    intro h y hy z
    refine ⟨fun hz => hz.unique hy, ?_⟩
    rintro rfl
    exact hy
  -- either outcome is one of those of `run_cases`
  obtain ⟨out, net₁, hanswer⟩ | ⟨k, h, y, net₁, herror, hstopped, hhidden⟩ := hready.run_cases
  · cases hrun.symm.trans hanswer
  · obtain ⟨he, rfl⟩ := Prod.mk.inj (hrun.symm.trans herror)
    have hpassed := hstopped.passed
    refine ⟨k, h, y, hstopped.group, hvalue hstopped.computes, hstopped.misfit,
      Except.error.inj he, ?_, hpassed.rest, hpassed.groups_eq, ?_, ?_, hhidden⟩
    · intro j hj layer hlayer
      obtain ⟨z, hz, hshape, hsignal⟩ := hpassed.computed j hj layer hlayer
      exact ⟨z, hvalue hz, hshape, hsignal⟩
    · exact map_layers_eq_of_mute_eq (·.weights) (fun _ => rfl) hpassed.mute
    · exact map_layers_eq_of_mute_eq (·.error) (fun _ => rfl) hpassed.mute

/-- The output reads from a source behind a layer that has inputs of its own. -/
def lateSource : Graph Numeric :=
  ⟨#[some ⟨1, .linear, [], none⟩, some ⟨1, .linear, [0], none⟩, some ⟨2, .linear, [], none⟩,
    some ⟨1, .linear, [2, 1], none⟩]⟩

theorem hasRoom_lateSource (h : Handle) : lateSource.HasRoom Numeric.doubles h :=
  hasRoom_iff.mpr <| match h with
    | 0 | 1 | 2 | 3 => ⟨rfl, fun _ => rfl⟩
    | _ + 4 => ⟨rfl, fun _ => rfl⟩

/-- A network for it whose signals are left over from elsewhere. -/
def lateSourceNetwork : Network Numeric :=
  .ofLayers [
    ⟨0, none, some (.float64 (.fill [1] 8)), none⟩,
    ⟨1, some (.float64 (.fill [1, 1] 2)), some (.float64 (.fill [1] 9)), none⟩,
    ⟨2, none, some (.float64 (.fill [2] 8)), none⟩,
    ⟨3, some (.float64 (.fill [1, 3] 1)), some (.float64 (.fill [1] 9)), none⟩]

/-- The vector for the second source is too long, so that two layers get new values first. -/
theorem run_lateSourceNetwork :
    ∃ compiled gen' net',
      lateSource.compile Numeric.doubles 3 (.ofSeed [0]) = (.ok compiled, gen') ∧
      lateSourceNetwork.groups = compiled.groups ∧
      (∀ layer ∈ lateSourceNetwork.layers, lateSource.WeightsFit layer.group layer.weights) ∧
      lateSourceNetwork.SignalsFit Value lateSource (.zeros [0] .float64) ∧
      lateSource.Activates 3 ∧
      lateSourceNetwork.run lateSource
          (.aligned [Value.list [.int 1], Value.list [.int 1, .int 2, .int 3]]) =
        (.error (.mismatch (.signal 2) 2 3), net') ∧
      ∀ j, 2 ≤ j → net'.layers[j]? = lateSourceNetwork.layers[j]? := by
  -- the order, and with it the groups of the network
  have horder : lateSource.order 3 = .ok lateSourceNetwork.groups := by cbv
  have hanswer : ∃ compiled gen', lateSource.compile Numeric.doubles 3
      (.ofSeed [0]) = (.ok compiled, gen') :=
    (Graph.exists_compile_iff (Numeric.lawful_allocation (by decide))).mpr
      ⟨Graph.acyclicFrom_of_order horder, fun h _ => hasRoom_lateSource h⟩
  obtain ⟨compiled, gen', hcompile⟩ := hanswer
  have hgroups : lateSourceNetwork.groups = compiled.groups :=
    Except.ok.inj (horder.symm.trans (Graph.follows_of_compile hcompile))
  -- all buffers have the shapes of their groups
  have hlayers : ∀ layer ∈ lateSourceNetwork.layers,
      lateSource.WeightsFit layer.group layer.weights ∧ ∃ s, layer.signal = some s ∧
        Arithmetic.shape s = [lateSource.cardinality layer.group] ∧
        Alike Value s (Numeric.zeros [0] .float64) := by
    intro layer hlayer
    simp only [lateSourceNetwork, Network.ofLayers, List.mem_toArray, List.mem_cons,
      List.not_mem_nil, or_false] at hlayer
    rcases hlayer with rfl | rfl | rfl | rfl
    all_goals refine ⟨⟨by decide, ?_⟩, _, rfl, rfl, Numeric.alike_of_kind_eq rfl⟩
    · intro w hw; cases hw
    · intro w hw; cases hw; rfl
    · intro w hw; cases hw
    · intro w hw; cases hw; rfl
  have hactivates : lateSource.Activates 3 := by
    intro h hreach
    rw [← Graph.mem_order_iff horder] at hreach
    simp only [lateSourceNetwork, Network.groups, Network.ofLayers, List.map_cons, List.map_nil,
      List.mem_cons, List.not_mem_nil, or_false] at hreach
    rcases hreach with rfl | rfl | rfl | rfl
    all_goals exact ⟨_, rfl, fun a => ⟨a, rfl⟩⟩
  have hrun : ∃ net', lateSourceNetwork.run lateSource
      (.aligned [Value.list [.int 1], Value.list [.int 1, .int 2, .int 3]]) =
        (.error (.mismatch (.signal 2) 2 3), net') := ⟨_, rfl⟩
  obtain ⟨net', hrun⟩ := hrun
  obtain ⟨hstops, -⟩ := run_stops_at_first_misfit hcompile hgroups (fun l hl => (hlayers l hl).1)
    (fun l hl => (hlayers l hl).2) hactivates
  -- both vectors are lists of numbers
  have hreads : ∀ h v, Feed.vector?
      (.aligned [Value.list [.int 1], Value.list [.int 1, .int 2, .int 3]])
      (lateSourceNetwork.groups.filter lateSource.isSource) h = some v →
      ∃ x, Readable.read (Numeric.zeros [0] .float64) v = .ok x := by
    intro h v hv
    have hmem := (List.of_mem_zip ((lookup_zip_eq_some_iff (by decide)).mp hv)).2
    simp only [List.mem_cons, List.not_mem_nil, or_false] at hmem
    rcases hmem with rfl | rfl
    all_goals exact ⟨_, rfl⟩
  obtain ⟨k, h, y, -, -, -, he, -, hrest, -⟩ := hstops _ _ _ _ rfl hreads hrun
  obtain rfl : 2 = k := Place.signal.inj (NetworkError.mismatch.inj he).1
  exact ⟨compiled, gen', net', hcompile, hgroups, fun l hl => (hlayers l hl).1,
    fun l hl => (hlayers l hl).2, hactivates, hrun, hrest⟩

end Feedforward
