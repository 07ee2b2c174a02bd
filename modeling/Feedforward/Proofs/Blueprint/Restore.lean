import Feedforward.Proofs.Blueprint.Independence
import Feedforward.Proofs.Blueprint.Spelling

/-!
# Networks restored from their layout

A layout names everything that a blueprint has to say, so that it can be read as one: its entries are
the layers, and the positions that an entry lists stand for the names found there. If the network
was built from a blueprint itself, then the order of its layers is one in which they can be declared,

    l.toBlueprint  =  blueprint es output        with es in order,

and building and compiling once more leads back to the same layout and the same weights.
-/

namespace Feedforward

variable {A : Type}

/-- The entry as a layer of a blueprint. -/
def LayerLayout.toBlueprint (e : LayerLayout) (l : Layout) : Value := .record [
  ("name", e.name.getD .null),
  ("cardinality", .int e.cardinality),
  ("activation", .str e.activation),
  ("inputs", .list (e.inputs.map fun i => (l.nameAt? i).getD .null))]

/-- The blueprint that declares the layers of a layout, the last of which is the output. -/
def Layout.toBlueprint (l : Layout) : Value := .record [
  ("layers", .list (l.layers.map (·.toBlueprint l))),
  ("output", (l.layers.getLast?.bind (·.name)).getD .null)]

/-- Lists whose elements are related through a third thing at every position are related to the list
of these. -/
theorem exists_forall₂_of_rel {α β γ : Type} {P : α → γ → Prop} {Q : β → γ → Prop} {xs : List α}
    {ys : List β} (h : ∀ i : Nat, Option.Rel (fun x y => ∃ z, P x z ∧ Q y z) xs[i]? ys[i]?) :
    ∃ zs, List.Forall₂ P xs zs ∧ List.Forall₂ Q ys zs := by
  induction xs generalizing ys with
  | nil =>
      have hfirst := h 0
      cases ys with
      | nil => exact ⟨[], .nil, .nil⟩
      | cons y ys => cases hfirst
  | cons x xs ih =>
      have hfirst := h 0
      cases ys with
      | nil => cases hfirst
      | cons y ys =>
          obtain ⟨zs, hxs, hys⟩ := ih fun i => h (i + 1)
          cases hfirst with
          | some hxy =>
              obtain ⟨z, hx, hy⟩ := hxy
              exact ⟨z :: zs, .cons hx hxs, .cons hy hys⟩

namespace Declares

variable {g : Graph A} {registry : Registry A} {ds es : List Declaration} {declared : Declared}
  {output : Text} {h : Handle} {l : Layout} {net : Network A}

/-! ## What the layout spells -/

section Layout

variable [Arithmetic A]

/-- An entry spells the layer that its group stands for. -/
theorem rel_toBlueprint (htable : Declares g registry ds declared)
    (houtput : declared.lookup output = some h) (hnet : net.Follows g h)
    (hlayout : net.layout g = .ok l) (i : Nat) :
    Option.Rel (fun k e => ∃ d, (d ∈ ds ∧ declared.lookup d.name = some k) ∧
        e.toBlueprint l = d.toValue)
      net.groups[i]? l.layers[i]? := by
  have hrel := Network.rel_getElem?_of_layout hlayout i
  match hi : net.layers[i]?, l.layers[i]?, hrel with
  | none, none, _ =>
      rw [Network.getElem?_groups, hi]
      exact .none
  | some layer, some e, .some he =>
      have hgroup := Network.getElem?_groups_of_layer hi
      have hreach := (Graph.mem_order_iff hnet).mp (List.mem_of_getElem? hgroup)
      obtain ⟨n, -, hn⟩ := (htable.reaches_iff houtput).mp hreach
      obtain ⟨d, hd, rfl, a, us, hstands⟩ := htable.exists_standsFor_of_lookup hn
      obtain ⟨js, t, hjs, ht, rfl⟩ := Network.layerLayout_eq_ok_iff.mp he
      obtain rfl := Option.some.inj (hstands.group.symm.trans ht)
      rw [hgroup]
      refine .some ⟨d, ⟨hd, hn⟩, ?_⟩
      -- the positions lead to the names of the inputs
      have hnames : js.map l.nameAt? = d.inputs.map fun n => some (.str n) := by
        rw [hnet.map_nameAt? hlayout hgroup hjs, hstands.inputs_eq]
        exact hstands.map_eq fun n u hu => htable.nameOf?_eq hu
      have hinputs : js.map (fun i => (l.nameAt? i).getD .null) = d.inputs.map .str := by
        have hvalues := congrArg (List.map (Option.getD · Value.null)) hnames
        rwa [List.map_map, List.map_map] at hvalues
      rw [LayerLayout.toBlueprint, hinputs, hstands.activation_eq]
      rfl

/-- The last entry of a layout is that of the output. -/
theorem getLast?_name (htable : Declares g registry ds declared)
    (houtput : declared.lookup output = some h) (hnet : net.Follows g h)
    (hlayout : net.layout g = .ok l) :
    l.layers.getLast?.bind (·.name) = some (.str output) := by
  have hlast := congrArg List.getLast? (Network.map_name_layers hlayout)
  rw [List.getLast?_map, List.getLast?_map, Graph.getLast?_order hnet, Option.map_some,
    htable.nameOf?_eq houtput] at hlast
  match l.layers.getLast?, hlast with
  | some e, hlast => exact Option.some.inj hlast

/-- The layout spells declared layers in the order of their groups. -/
theorem exists_toBlueprint_eq (htable : Declares g registry ds declared)
    (houtput : declared.lookup output = some h) (hnet : net.Follows g h)
    (hlayout : net.layout g = .ok l) :
    ∃ es, List.Forall₂ (fun k d => d ∈ ds ∧ declared.lookup d.name = some k) net.groups es ∧
      l.toBlueprint = Declaration.blueprint es output := by
  obtain ⟨es, hes, hlayers⟩ :=
    exists_forall₂_of_rel (htable.rel_toBlueprint houtput hnet hlayout)
  refine ⟨es, hes, ?_⟩
  have hvalues : l.layers.map (·.toBlueprint l) = es.map Declaration.toValue := by
    rw [← List.forall₂_eq_eq_eq, List.forall₂_map_left_iff, List.forall₂_map_right_iff]
    exact hlayers
  rw [Layout.toBlueprint, hvalues, htable.getLast?_name houtput hnet hlayout]
  rfl

end Layout

/-! ## The order of the groups -/

section Order

variable (hes : List.Forall₂ (fun k d => d ∈ ds ∧ declared.lookup d.name = some k) net.groups es)
include hes

/-- The order of the groups is an order in which their layers can be declared. -/
theorem ordered_of_follows (htable : Declares g registry ds declared) (hnet : net.Follows g h) :
    Declaration.Ordered registry es where
  nodup := by  -- names differ
    have hlookup : (es.map (·.name)).map (List.lookup · declared) = net.groups.map some := by
      rw [List.map_map, ← List.forall₂_eq_eq_eq, List.forall₂_map_left_iff,
        List.forall₂_map_right_iff]
      exact hes.flip.imp fun d k hd => hd.2
    apply List.Nodup.of_map (List.lookup · declared)
    rw [hlookup]
    exact (Graph.nodup_order hnet).map (Option.some_injective _)
  registered := by  -- activations are registered
    intro d hd
    obtain ⟨i, hi⟩ := List.mem_iff_getElem?.mp hd
    obtain ⟨k, -, hmem, -⟩ := exists_getElem?_left hes hi
    obtain ⟨_, a, _, -, hstands⟩ := htable.exists_standsFor hmem
    exact ⟨a, hstands.activation⟩
  inputs := by  -- inputs stand in front
    intro i d hi n hn
    obtain ⟨k, hk, hmem, hlookup⟩ := exists_getElem?_left hes hi
    obtain ⟨k', a, us, hlookup', hstands⟩ := htable.exists_standsFor hmem
    obtain rfl := Option.some.inj (hlookup.symm.trans hlookup')
    -- an input has a group in front, and the layer there has its name
    have hsome : declared.lookup n ∈ us.map some := hstands.inputs ▸ List.mem_map_of_mem hn
    obtain ⟨u, hu, hname⟩ := List.mem_map.mp hsome
    rw [← hstands.inputs_eq] at hu
    obtain ⟨j, hji, hj⟩ := Graph.exists_lt_of_mem_inputs_order hnet hk hu
    obtain ⟨e, he, -, hlast⟩ := exists_getElem?_right hes hj
    exact ⟨j, hji, e, he, htable.eq_of_lookup hlast hname.symm⟩

/-- The layers that the output reaches are among those of the groups. -/
theorem mem_of_reached (htable : Declares g registry ds declared)
    (houtput : declared.lookup output = some h) (hnet : net.Follows g h) {d : Declaration}
    (hd : d ∈ ds) (hreached : Declaration.Reached ds output d.name) : d ∈ es := by
  obtain ⟨k, hk⟩ := htable.exists_lookup hd
  have hreach := (htable.reaches_iff houtput).mpr ⟨d.name, hreached, hk⟩
  obtain ⟨i, hi⟩ := List.mem_iff_getElem?.mp ((Graph.mem_order_iff hnet).mpr hreach)
  obtain ⟨e, he, hmem, hlookup⟩ := exists_getElem?_right hes hi
  have hname := htable.eq_of_lookup hlookup hk
  rw [← Declaration.eq_of_name_eq htable.nodup_names hmem hd hname]
  exact List.mem_of_getElem? he

end Order

end Declares

/-- A network that is built from a blueprint and compiled has a layout. Read as a blueprint, in the
same graph or in another one, the layout is accepted as well, and compiling with the same generator
gives a network of the same layout and the same weights. -/
theorem build_toBlueprint_of_layout [Arithmetic A] (g₀ g g₁ : Graph A) (registry : Registry A)
    (config : Value) (built : Built) (alloc : Allocation A) (gen gen' : Generator) (net : Network A)
    (hbuild : g₀.build registry config = (.ok built, g))
    (hcompile : g.compile alloc built.output gen = (.ok net, gen')) :
    ∃ l, net.layout g = .ok l ∧ ∃ built' g' net',
      g₁.build registry l.toBlueprint = (.ok built', g') ∧
      g'.compile alloc built'.output gen = (.ok net', gen') ∧
      net'.layout g' = .ok l ∧
      net'.layers.toList.map (·.weights) = net.layers.toList.map (·.weights) := by
  -- the layers that are written down are those that the output reaches
  obtain ⟨ds, -, -, htable, houtput⟩ := Graph.build_eq_ok hbuild
  have hnet := Graph.follows_of_compile hcompile
  have hgroups := htable.exists_group houtput
  obtain ⟨l, hlayout⟩ := hnet.exists_layout hgroups
  obtain ⟨es, hes, hl⟩ := htable.exists_toBlueprint_eq houtput hnet hlayout
  have hsame : ∀ d ∈ ds, Declaration.Reached ds built.name d.name → d ∈ es := fun d hd =>
    Declares.mem_of_reached hes htable houtput hnet hd
  have hname : built.name ∈ es.map (·.name) := by
    obtain ⟨d, hd, hname, -⟩ := htable.exists_standsFor_of_lookup houtput
    rw [← hname]
    exact List.mem_map_of_mem (hsame d hd (hname ▸ .refl))
  -- they are built again, and the output with them
  obtain ⟨built', g', hbuild', htable', houtput'⟩ :=
    Graph.exists_build (Declares.ordered_of_follows hes htable hnet) hname g₁
  have hcarries := htable.carriesGroups htable' houtput hsame
  refine ⟨l, hlayout, built', g', ?_⟩
  rw [hl, ← htable.counterpart_output houtput houtput']
  -- both networks come from graphs that are the same up to handles, so they compile alike
  obtain ⟨fault, gen₁, hfault, -⟩ | ⟨net₁, net', gen₁, l', hnet₁, hnet', hl₁, hl', hweights⟩ :=
    hcarries.compile_eq_or_exists (htable.acyclicFrom houtput) hgroups alloc gen
  · cases hcompile.symm.trans hfault
  · cases hcompile.symm.trans hnet₁
    cases hlayout.symm.trans hl₁
    exact ⟨net', hbuild', hnet', hl', hweights⟩

/-- The layout of `shortcut` as a blueprint: it is accepted and compiled to the same layout. -/
theorem build_toBlueprint_shortcut :
    ∃ built g net gen' l built' g' net',
      Graph.empty.build Registry.standard shortcut = (.ok built, g) ∧
      g.compile Numeric.doubles built.output (.ofSeed [0]) = (.ok net, gen') ∧
      net.layout g = .ok l ∧ g.build Registry.standard l.toBlueprint = (.ok built', g') ∧
      g'.compile Numeric.doubles built'.output (.ofSeed [0]) = (.ok net', gen') ∧
      net'.layout g' = .ok l ∧
      net'.layers.toList.map (·.weights) = net.layers.toList.map (·.weights) := by
  obtain ⟨built, g, hbuild⟩ : ∃ built g, Graph.empty.build Registry.standard shortcut =
      (.ok built, g) := ⟨_, _, by rfl⟩
  obtain ⟨ds, hds, -, htable, houtput⟩ := Graph.build_eq_ok hbuild
  have hlayers : shortcut.declarations? = some shortcutLayers := by rfl
  obtain rfl := Option.some.inj (hlayers.symm.trans hds)
  have hroom : ∀ d ∈ shortcutLayers, d.HasRoom shortcutLayers Numeric.usualMemory .float64 := by
    decide
  obtain ⟨net, gen', hcompile⟩ :=
    (htable.exists_compile_iff houtput (by decide) (.ofSeed [0])).mpr fun d hd _ => hroom d hd
  obtain ⟨l, hlayout, built', g', net', hbuild', hcompile', hsame⟩ :=
    build_toBlueprint_of_layout .empty g g .standard shortcut built
      Numeric.doubles (.ofSeed [0]) gen' net hbuild hcompile
  exact ⟨built, g, net, gen', l, built', g', net', hbuild, hcompile, hlayout, hbuild', hcompile',
    hsame⟩

end Feedforward
