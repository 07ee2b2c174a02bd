import Feedforward.Preset
import Feedforward.Proofs.Blueprint.Build
import Feedforward.Proofs.Network.Description
import Feedforward.Proofs.Network.Layout

/-!
# The network that a blueprint means

The layers of a network that is built from a blueprint and compiled are those that the blueprint
declares and its output reaches through names, and nothing else: neither the layers that the output
does not reach nor the copies that building makes. `Layout.Describes` compares the layout of the
network, with its positions, to the declarations, with their names.

Whether compiling answers can be read off the declarations as well (`Declaration.HasRoom`).
-/

namespace Feedforward

/-- An entry of a layout says what a layer declares. -/
structure LayerLayout.Describes (e : LayerLayout) (l : Layout) (ds : List Declaration)
    (d : Declaration) : Prop where
  name : e.name = some (.str d.name)
  cardinality : e.cardinality = d.cardinality
  activation : Text.string e.activation = d.activation
  inputs : e.inputs.map l.nameAt? = d.inputs.map fun n => some (.str n)
  weightShape : e.weightShape = if d.inputs = [] then none else some [d.cardinality, d.inputSize ds]

/-- A layout describes the declared layers that the output reaches, each of them once and the
output last. -/
structure Layout.Describes (l : Layout) (ds : List Declaration) (output : Text) : Prop where
  nodup : (l.layers.map (·.name)).Nodup
  entry : ∀ (i : Nat) (e : LayerLayout), l.layers[i]? = some e →
    e.index = i ∧ ∃ d ∈ ds, Declaration.Reached ds output d.name ∧ e.Describes l ds d
  exists_entry : ∀ d ∈ ds, Declaration.Reached ds output d.name →
    ∃ e ∈ l.layers, e.Describes l ds d
  last : l.layers.getLast?.bind (·.name) = some (.str output)

/-- There is room for the signal of a layer and for the draws of its weights. -/
def Declaration.HasRoom (ds : List Declaration) (memory : Nat) (kind : ElementKind)
    (d : Declaration) : Prop :=
  Numeric.room memory kind.width [d.cardinality] = .ok () ∧
    (d.inputs ≠ [] → Numeric.room memory Numeric.drawWidth [d.cardinality, d.inputSize ds] = .ok ())

instance (ds : List Declaration) (memory : Nat) (kind : ElementKind) (d : Declaration) :
    Decidable (d.HasRoom ds memory kind) := inferInstanceAs (Decidable (_ ∧ _))

/-- What has room has room in a greater memory. -/
theorem Declaration.HasRoom.mono {ds : List Declaration} {d : Declaration} {kind : ElementKind}
    {memory memory' : Nat} (hle : memory ≤ memory') (hroom : d.HasRoom ds memory kind) :
    d.HasRoom ds memory' kind :=
  ⟨Numeric.room_mono hle hroom.1, fun hne => Numeric.room_mono hle (hroom.2 hne)⟩

section Table

variable {A : Type} {g : Graph A} {registry : Registry A} {ds : List Declaration}
  {declared : Declared} {d : Declaration} {n output : Text} {h k : Handle} {a : Activation A}
  {us : List Handle}

/-- The group of a declared layer bears its name. -/
theorem StandsFor.nameOf?_eq (hstands : StandsFor g registry declared d h a us) :
    g.nameOf? h = some (.str d.name) := by
  rw [Graph.nameOf?, hstands.group]
  rfl

namespace Declares

/-- The name of a group in the table is the one that it stands behind. -/
theorem nameOf?_eq (htable : Declares g registry ds declared) (hn : declared.lookup n = some h) :
    g.nameOf? h = some (.str n) := by
  obtain ⟨d, -, rfl, a, us, hstands⟩ := htable.exists_standsFor_of_lookup hn
  exact hstands.nameOf?_eq

/-- What is said of a group that stands for a layer describes the layer. -/
theorem describes_of_shows (htable : Declares g registry ds declared)
    (hstands : StandsFor g registry declared d h a us) {e : LayerLayout} {l : Layout} {t : Group A}
    (ht : g.group? h = some t) (hshows : e.Shows l g h t) : e.Describes l ds d := by
  obtain rfl := Option.some.inj (hstands.group.symm.trans ht)
  refine ⟨hshows.name, hshows.cardinality, ?_, ?_, ?_⟩
  · rw [hshows.activation, hstands.activation_eq]
  · rw [hshows.inputs]
    exact hstands.map_eq fun n u hu => htable.nameOf?_eq hu
  · rw [hshows.weightShape, htable.inputSize_eq hstands]
    simp only [hstands.eq_nil_iff]

/-! ### Networks that are laid out from the output -/

section LaidOut

variable [Arithmetic A] {net : Network A} {zeros : Nat → A} {l : Layout}

/-- The groups of the network are those of the layers that the output reaches. -/
theorem mem_groups_iff (htable : Declares g registry ds declared)
    (houtput : declared.lookup output = some h) (hnet : net.LaidOut g zeros h) :
    k ∈ net.groups ↔ ∃ d ∈ ds, Declaration.Reached ds output d.name ∧
      declared.lookup d.name = some k := by
  rw [Graph.mem_order_iff hnet.follows, htable.reaches_iff houtput]
  constructor
  · rintro ⟨n, hn, hk⟩
    obtain ⟨d, hd, rfl, -⟩ := htable.exists_standsFor_of_lookup hk
    exact ⟨d, hd, hn, hk⟩
  · rintro ⟨d, -, hn, hk⟩
    exact ⟨d.name, hn, hk⟩

/-- The groups and the descriptions of what they stand for are in the same places. -/
theorem rel_describes (htable : Declares g registry ds declared)
    (houtput : declared.lookup output = some h) (hnet : net.LaidOut g zeros h)
    (hlayout : net.layout g = .ok l) (i : Nat) :
    Option.Rel (fun k e => e.index = i ∧ ∃ d ∈ ds, Declaration.Reached ds output d.name ∧
        declared.lookup d.name = some k ∧ e.Describes l ds d)
      net.groups[i]? l.layers[i]? := by
  have hrel := hnet.rel_shows hlayout i
  match hk : net.groups[i]?, l.layers[i]?, hrel with
  | none, none, _ => exact .none
  | some k, some e, .some ⟨hindex, t, ht, hshows⟩ =>
      obtain ⟨d, hd, hn, hlookup⟩ :=
        (htable.mem_groups_iff houtput hnet).mp (List.mem_of_getElem? hk)
      obtain ⟨d', hd', hname, a, us, hstands⟩ := htable.exists_standsFor_of_lookup hlookup
      obtain rfl := Declaration.eq_of_name_eq htable.nodup_names hd' hd hname
      exact .some ⟨hindex, d', hd', hn, hlookup, htable.describes_of_shows hstands ht hshows⟩

/-- No two groups of the network bear one name, though copies that were replaced may. -/
theorem nodup_nameOf? (htable : Declares g registry ds declared)
    (houtput : declared.lookup output = some h) (hnet : net.LaidOut g zeros h) :
    (net.groups.map g.nameOf?).Nodup := by
  refine (Graph.nodup_order hnet.follows).map_on fun u hu v hv heq => ?_
  obtain ⟨d, -, -, hn⟩ := (htable.mem_groups_iff houtput hnet).mp hu
  obtain ⟨e, -, -, hm⟩ := (htable.mem_groups_iff houtput hnet).mp hv
  -- groups of the same name stand behind the same name
  rw [htable.nameOf?_eq hn, htable.nameOf?_eq hm] at heq
  rw [Value.str.inj (Option.some.inj heq)] at hn
  exact Option.some.inj (hn.symm.trans hm)

/-- The layout describes what is declared. -/
theorem describes_of_layout (htable : Declares g registry ds declared)
    (houtput : declared.lookup output = some h) (hnet : net.LaidOut g zeros h)
    (hlayout : net.layout g = .ok l) : l.Describes ds output := by
  have hnames := Network.map_name_layers hlayout
  refine ⟨?_, fun i e he => ?_, fun d hd hreached => ?_, ?_⟩
  · rw [hnames]  -- names differ
    exact htable.nodup_nameOf? houtput hnet
  · have hrel := htable.rel_describes houtput hnet hlayout i  -- each entry describes a layer
    rw [he] at hrel
    match net.groups[i]?, hrel with
    | some k, .some ⟨hindex, d, hd, hn, _, hdescribes⟩ =>
        exact ⟨hindex, d, hd, hn, hdescribes⟩
  · obtain ⟨k, hk⟩ := htable.exists_lookup hd  -- each layer that is reached has an entry
    have hmem := (htable.mem_groups_iff houtput hnet).mpr ⟨d, hd, hreached, hk⟩
    obtain ⟨i, hi⟩ := List.mem_iff_getElem?.mp hmem
    have hrel := htable.rel_describes houtput hnet hlayout i
    rw [hi] at hrel
    match he : l.layers[i]?, hrel with
    | some e, .some ⟨_, d', hd', _, hk', hdescribes⟩ =>
        have hname := htable.eq_of_lookup hk' hk
        rw [Declaration.eq_of_name_eq htable.nodup_names hd' hd hname] at hdescribes
        exact ⟨e, List.mem_of_getElem? he, hdescribes⟩
  · have hlast := congrArg List.getLast? hnames  -- the last entry is the output
    rw [List.getLast?_map, List.getLast?_map, Graph.getLast?_order hnet.follows, Option.map_some,
      htable.nameOf?_eq houtput] at hlast
    match l.layers.getLast?, hlast with
    | some e, hlast => exact Option.some.inj hlast

end LaidOut

end Declares

end Table

section Numeric

variable {g : Graph Numeric} {registry : Registry Numeric} {ds : List Declaration}
  {declared : Declared} {d : Declaration} {output : Text} {h : Handle} {memory : Nat}
  {kind : ElementKind} {a : Activation Numeric} {us : List Handle}

namespace Declares

/-- Whether there is room for a group can be told from its declaration. -/
theorem hasRoom_iff (htable : Declares g registry ds declared)
    (hstands : StandsFor g registry declared d h a us) :
    g.HasRoom (Numeric.allocation memory kind) h ↔ d.HasRoom ds memory kind := by
  rw [Feedforward.hasRoom_iff, hstands.cardinality_eq, htable.inputSize_eq hstands,
    hstands.inputs_eq, ne_eq, hstands.eq_nil_iff]
  rfl

theorem forall_hasRoom_iff (htable : Declares g registry ds declared)
    (houtput : declared.lookup output = some h) :
    (∀ k, g.Reaches h k → g.HasRoom (Numeric.allocation memory kind) k) ↔
      ∀ d ∈ ds, Declaration.Reached ds output d.name → d.HasRoom ds memory kind := by
  constructor
  · intro hroom d hd hreached
    obtain ⟨k, a, us, hk, hstands⟩ := htable.exists_standsFor hd
    have hreach := (htable.reaches_iff houtput).mpr ⟨d.name, hreached, hk⟩
    exact (htable.hasRoom_iff hstands).mp (hroom k hreach)
  · intro hroom k hreach
    obtain ⟨n, hreached, hk⟩ := (htable.reaches_iff houtput).mp hreach
    obtain ⟨d, hd, rfl, a, us, hstands⟩ := htable.exists_standsFor_of_lookup hk
    exact (htable.hasRoom_iff hstands).mpr (hroom d hd hreached)

/-- Compiling answers where the layers that the output reaches have room. -/
theorem exists_compile_iff (htable : Declares g registry ds declared)
    (houtput : declared.lookup output = some h) (hkind : kind ≠ .int64) (gen : Generator) :
    (∃ net gen', g.compile (Numeric.allocation memory kind) h gen = (.ok net, gen')) ↔
      ∀ d ∈ ds, Declaration.Reached ds output d.name → d.HasRoom ds memory kind := by
  rw [Graph.exists_compile_iff (Numeric.lawful_allocation hkind),
    htable.forall_hasRoom_iff houtput]
  exact and_iff_right (htable.acyclicFrom houtput)

end Declares

/-- A network that is built from a blueprint and compiled. Compiling answers exactly where there is
room for the layers that the output reaches, and the layout of the network describes these layers. -/
theorem layout_of_build (g₀ g : Graph Numeric) (registry : Registry Numeric) (config : Value)
    (built : Built) (memory : Nat) (kind : ElementKind) (gen : Generator) (hkind : kind ≠ .int64)
    (hbuild : g₀.build registry config = (.ok built, g)) :
    ∃ ds output, config.declarations? = some ds ∧ config.outputName? = some output ∧
      (ds.map (·.name)).Nodup ∧
      ((∃ net gen',
          g.compile (Numeric.allocation memory kind) built.output gen = (.ok net, gen')) ↔
        ∀ d ∈ ds, Declaration.Reached ds output d.name → d.HasRoom ds memory kind) ∧
      ∀ net gen', g.compile (Numeric.allocation memory kind) built.output gen = (.ok net, gen') →
        ∃ l, net.layout g = .ok l ∧ l.Describes ds output := by
  obtain ⟨ds, hds, hname, htable, houtput⟩ := Graph.build_eq_ok hbuild
  refine ⟨ds, built.name, hds, hname, htable.nodup_names,
    htable.exists_compile_iff houtput hkind gen, fun net gen' hcompile => ?_⟩
  have hnet := Graph.laidOut_of_compile (Numeric.lawful_allocation hkind) hcompile
  obtain ⟨l, hlayout⟩ := hnet.follows.exists_layout (htable.exists_group houtput)
  exact ⟨l, hlayout, htable.describes_of_layout houtput hnet hlayout⟩

/-- A blueprint with a layer that the output does not reach and one that is read twice. -/
def shortcut : Value := .map <| Preset.blueprint 0 "merge" [
  Preset.source "in" 4,
  Preset.layer "aside" 9 "relu" ["in"],
  Preset.layer "left" 3 "relu" ["in", "in"],
  Preset.layer "merge" 1 "sigmoid" ["left", "in"]]

/-- What `shortcut` declares. -/
def shortcutLayers : List Declaration := [
  ⟨"in", 4, "linear", []⟩,
  ⟨"aside", 9, "relu", ["in"]⟩,
  ⟨"left", 3, "relu", ["in", "in"]⟩,
  ⟨"merge", 1, "sigmoid", ["left", "in"]⟩]

/-- The layout of `shortcut`: the layer beside the output is missing, and the layer that is read
twice stands twice among the inputs. -/
theorem exists_layout_shortcut :
    ElementKind.float64 ≠ .int64 ∧
    ∃ built g net gen' l, Graph.empty.build Registry.standard shortcut = (.ok built, g) ∧
      g.compile Numeric.doubles built.output (.ofSeed [0]) = (.ok net, gen') ∧
      net.layout g = .ok l ∧ l.Describes shortcutLayers "merge" := by
  have hkind : ElementKind.float64 ≠ .int64 := by decide
  have hlayers : shortcut.declarations? = some shortcutLayers := by rfl
  have houtput : shortcut.outputName? = some (.string "merge") := by rfl
  obtain ⟨built, g, hbuild⟩ : ∃ built g, Graph.empty.build Registry.standard shortcut =
      (.ok built, g) := ⟨_, _, by rfl⟩
  obtain ⟨ds, output, hds, hname, -, hanswer, hlayout⟩ :=
    layout_of_build .empty g .standard shortcut built Numeric.usualMemory .float64 (.ofSeed [0])
      hkind hbuild
  obtain rfl := Option.some.inj (hlayers.symm.trans hds)
  obtain rfl := Option.some.inj (houtput.symm.trans hname)
  have hroom : ∀ d ∈ shortcutLayers, d.HasRoom shortcutLayers Numeric.usualMemory .float64 := by
    decide
  obtain ⟨net, gen', hcompile⟩ := hanswer.mpr fun d hd _ => hroom d hd
  obtain ⟨l, hl, hdescribes⟩ := hlayout net gen' hcompile
  exact ⟨hkind, built, g, net, gen', l, hbuild, hcompile, hl, hdescribes⟩

/-- A blueprint of one layer, so large that there is no memory for its signal. -/
def oversizedBlueprint : Value := .map (Preset.blueprint 0 "x" [Preset.source "x" (2 ^ 59)])

/-- The blueprint is built, but no machine with less than `2 ^ 62` bytes compiles it. -/
theorem not_exists_compile_oversizedBlueprint :
    ∃ built g, Graph.empty.build Registry.standard oversizedBlueprint = (.ok built, g) ∧
      ¬ ∃ memory net gen', memory < 2 ^ 62 ∧
        g.compile (Numeric.allocation memory .float64) built.output (.ofSeed [0]) =
          (.ok net, gen') := by
  obtain ⟨built, g, hbuild⟩ : ∃ built g, Graph.empty.build Registry.standard oversizedBlueprint =
      (.ok built, g) := ⟨_, _, by rfl⟩
  obtain ⟨ds, hds, hname, htable, houtput⟩ := Graph.build_eq_ok hbuild
  obtain rfl : [⟨"x", 2 ^ 59, "linear", []⟩] = ds := Option.some.inj hds
  have hname : Text.string "x" = built.name := Option.some.inj hname
  refine ⟨built, g, hbuild, ?_⟩
  rintro ⟨memory, net, gen', hmemory, hcompile⟩
  have hanswer := (htable.exists_compile_iff houtput (by decide) (.ofSeed [0])).mp
    ⟨net, gen', hcompile⟩
  rw [← hname] at hanswer
  have hroom := (hanswer _ (List.mem_singleton_self _) .refl).1
  cases (Numeric.room_of_lt (by decide) hmemory).symm.trans hroom

end Numeric

end Feedforward
