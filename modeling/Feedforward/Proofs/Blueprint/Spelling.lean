import Feedforward.Proofs.Blueprint.Build

/-!
# Blueprints that spell everything out

Any list of declarations can be written as a blueprint with a name, an activation and a list of
inputs for every layer (`Declaration.blueprint`), and reading it gives the declarations back. If the
list is `Ordered`, that is, if its names are new, its activations are known and its layers read from
layers in front of them, then building accepts the blueprint,

    Ordered ds  →  build g registry (blueprint ds output)  answers,

and of the groups that the graph gets along the way the table has one for each declaration.
-/

namespace Feedforward

variable {A : Type}

namespace Declaration

def fields (d : Declaration) : Fields := [
  (.str "name", .str d.name),
  (.str "cardinality", .int d.cardinality),
  (.str "activation", .str d.activation),
  (.str "inputs", .list (d.inputs.map .str))]

def toValue (d : Declaration) : Value := .map d.fields

/-- A blueprint that declares the layers. -/
def blueprint (ds : List Declaration) (output : Text) : Value :=
  .record [("layers", .list (ds.map toValue)), ("output", .str output)]

/-- Layers that can be declared one after the other: their names are new, their activations are
registered, and what they read from stands in front of them. -/
structure Ordered (registry : Registry A) (ds : List Declaration) : Prop where
  nodup : (ds.map (·.name)).Nodup
  registered : ∀ d ∈ ds, ∃ a, d.activation.string?.bind registry.find? = some a
  inputs : ∀ (i : Nat) (d : Declaration), ds[i]? = some d → ∀ n ∈ d.inputs,
    ∃ j < i, ∃ e, ds[j]? = some e ∧ e.name = n

/-! ## Reading back -/

section Reading

variable (d : Declaration)

@[simp] theorem at?_name : d.fields.at? "name" = some (.str d.name) := rfl

@[simp] theorem at?_cardinality : d.fields.at? "cardinality" = some (.int d.cardinality) := rfl

@[simp] theorem at?_activation : d.fields.at? "activation" = some (.str d.activation) := rfl

@[simp] theorem at?_inputs : d.fields.at? "inputs" = some (.list (d.inputs.map .str)) := rfl

end Reading

@[simp]
theorem mapM_toText?_str (ns : List Text) : (ns.map Value.str).mapM Value.toText? = some ns := by
  induction ns with
  | nil => rfl
  | cons n ns ih =>
      simp [ih, Value.toText?]

/-- What is spelled out does not depend on the position. -/
@[simp] theorem ofValue?_toValue (position : Nat) (d : Declaration) :
    ofValue? position d.toValue = some d := by
  have helements : (Value.list (d.inputs.map .str)).elements? = some (d.inputs.map .str) := rfl
  have hnat : (Value.int d.cardinality).toNat? = some d.cardinality := by
    simp [Value.toNat?]
  simp only [toValue, ofValue?, ofFields?, at?_name, at?_cardinality, at?_activation, at?_inputs,
    Option.bind_eq_bind, Option.bind_some, Option.elim_some, Option.pure_def, helements, hnat,
    mapM_toText?_str]
  rfl

/-- What is written as a blueprint is read as it was. -/
@[simp] theorem ofValues?_map_toValue (position : Nat) (ds : List Declaration) :
    ofValues? position (ds.map toValue) = some ds := by
  induction ds generalizing position with
  | nil => rfl
  | cons d ds ih =>
      simp [ofValues?, ih]

end Declaration

/-! ## Building -/

namespace Graph

open Declaration

variable {registry : Registry A} {declared declared' : Declared} {d : Declaration}
  {ds new : List Declaration} {output : Text}

/-- References that are found can all be connected. -/
theorem exists_connectAll {name : Text} {sources : List Value}
    (hsources : ∀ v ∈ sources, ∃ u, declared.resolve name v = .ok u) (g : Graph A) (h : Handle) :
    ∃ h' g', g.connectAll declared name sources h = (.ok h', g') := by
  induction sources generalizing g h with
  | nil => exact ⟨h, g, rfl⟩
  | cons v rest ih =>
      obtain ⟨⟨u, hu⟩, hrest⟩ := List.forall_mem_cons.mp hsources
      obtain ⟨h', g', hconnect⟩ := ih hrest (g.connect u h).2 (g.connect u h).1
      refine ⟨h', g', ?_⟩
      rw [connectAll, hu]
      exact hconnect

/-- A layer with a new name and a known activation is read as it was written. -/
theorem ofValue_toValue {a : Activation A} {position : Nat} (hfresh : declared.lookup d.name = none)
    (hfind : d.activation.string?.bind registry.find? = some a) :
    LayerPlan.ofValue registry declared position d.toValue =
      .ok ⟨d.name, .int d.cardinality, a, d.fields⟩ := by
  simp [toValue, LayerPlan.ofValue, LayerPlan.ofFields, Fields.layerName, Fields.textAt,
    Fields.activationName, Value.hasText, Value.text, hfresh, hfind, Requested.ofValue]

/-- A layer that reads from declared layers can be added. -/
theorem exists_addLayer (hinputs : ∀ n ∈ d.inputs, ∃ u, declared.lookup n = some u)
    (a : Activation A) (g : Graph A) :
    ∃ declared' g', g.addLayer declared ⟨d.name, .int d.cardinality, a, d.fields⟩ =
      (.ok declared', g') := by
  have hreferences : d.fields.references = .ok (d.inputs.map .str) :=
    Fields.references_eq_ok_iff.mpr rfl
  have hcheck : (Requested.int d.cardinality).check = .ok d.cardinality := by
    simp [Requested.check]
  have hsources : ∀ v ∈ (d.inputs.map Value.str).reverse,
      ∃ u, declared.resolve d.name v = .ok u := by
    intro v hv
    obtain ⟨n, hn, rfl⟩ := List.mem_map.mp (List.mem_reverse.mp hv)
    obtain ⟨u, hu⟩ := hinputs n hn
    exact ⟨u, Declared.resolve_eq_ok_iff.mpr ⟨n, rfl, hu⟩⟩
  rw [addLayer, declare, hcheck]
  dsimp only
  rw [hreferences]
  dsimp only
  obtain ⟨h, g', hconnect⟩ := exists_connectAll hsources
    (g.add ⟨d.cardinality, a, [], some (.str d.name)⟩).2 g.next
  rw [hconnect]
  exact ⟨_, g', rfl⟩

/-- Layers that are in order are added one after the other. -/
theorem exists_addLayers (hordered : Ordered registry (ds ++ new)) {g : Graph A}
    (htable : Declares g registry ds declared) (position : Nat) :
    ∃ declared' g', g.addLayers registry (new.map toValue) position declared =
      (.ok declared', g') := by
  induction new generalizing g ds declared position with
  | nil => exact ⟨declared, g, rfl⟩
  | cons d rest ih =>
      -- a name in the table belongs to a layer in front, and names do not repeat
      have hfresh : declared.lookup d.name = none := by
        by_contra hsome
        obtain ⟨h, hh⟩ := Option.ne_none_iff_exists'.mp hsome
        obtain ⟨e, he, hname, -⟩ := htable.exists_standsFor_of_lookup hh
        have hnodup := hordered.nodup
        rw [List.map_append, List.nodup_append] at hnodup
        exact hnodup.2.2 _ (List.mem_map_of_mem he) _ (by simp) hname
      obtain ⟨a, hfind⟩ := hordered.registered d (by simp)
      have hinputs : ∀ n ∈ d.inputs, ∃ u, declared.lookup n = some u := by
        intro n hn
        obtain ⟨j, hj, e, he, rfl⟩ := hordered.inputs ds.length d (by simp) n hn
        rw [List.getElem?_append_left hj] at he
        exact htable.exists_lookup (List.mem_of_getElem? he)
      have hplan : LayerPlan.ofValue registry declared position d.toValue = .ok _ :=
        ofValue_toValue hfresh hfind
      obtain ⟨declared₁, g₁, hadd⟩ := exists_addLayer hinputs a g
      obtain ⟨d', hd', -, htable₁⟩ := declares_addLayer hplan hadd htable
      obtain rfl := Option.some.inj ((ofValue?_toValue position d).symm.trans hd')
      -- from here on the layer counts as one of those in front
      rw [List.append_cons] at hordered
      obtain ⟨declared₂, g₂, hrest⟩ := ih hordered htable₁ (position + 1)
      refine ⟨declared₂, g₂, ?_⟩
      rw [List.map_cons, addLayers, hplan]
      dsimp only
      rw [hadd]
      exact hrest

theorem selectOutput_eq_ok {fields : Fields} {h : Handle}
    (houtput : fields.at? "output" = some (.str output)) (hh : declared.lookup output = some h) :
    selectOutput fields declared = .ok ⟨declared, output, h⟩ := by
  have htext : fields.textAt "output" "" = .ok output := by
    simp [Fields.textAt, houtput, Value.hasText, Value.text]
  simp [selectOutput, htext, hh]

/-- Building accepts layers that are in order, whatever is in the graph already. -/
theorem exists_build (hordered : Ordered registry ds) (houtput : output ∈ ds.map (·.name))
    (g : Graph A) :
    ∃ built g', g.build registry (blueprint ds output) = (.ok built, g') ∧
      Declares g' registry ds built.layers ∧
      built.layers.lookup output = some built.output := by
  have hadd : ∃ declared g', g.addLayers registry (ds.map toValue) 0 [] = (.ok declared, g') :=
    exists_addLayers (by rwa [List.nil_append]) .nil 0
  obtain ⟨declared, g', hadd⟩ := hadd
  obtain ⟨new, hnew, -, htable⟩ := declares_addLayers hadd .nil
  obtain rfl := Option.some.inj ((ofValues?_map_toValue 0 ds).symm.trans hnew)
  -- the output is one of the layers, so that its name is found
  obtain ⟨d, hd, rfl⟩ := List.mem_map.mp houtput
  obtain ⟨h, hh⟩ := htable.exists_lookup hd
  refine ⟨⟨declared, d.name, h⟩, g', ?_, htable, hh⟩
  have hfields : (blueprint ds d.name).blueprint =
      .ok [(.str "layers", .list (ds.map toValue)), (.str "output", .str d.name)] := rfl
  have hlayers : Fields.layers
      [(.str "layers", .list (ds.map toValue)), (.str "output", .str d.name)] =
        .ok (ds.map toValue) := by
    cases ds with
    | nil => cases hd
    | cons d rest => rfl
  rw [build, hfields]
  dsimp only
  rw [hlayers]
  dsimp only
  rw [hadd]
  dsimp only
  rw [selectOutput_eq_ok rfl hh]

end Graph

end Feedforward
