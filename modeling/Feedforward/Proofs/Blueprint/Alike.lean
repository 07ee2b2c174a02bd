import Feedforward.Proofs.Blueprint.Build
import Feedforward.Proofs.Value.Alike

/-!
# Blueprints up to the order of keys

Building looks keys up and goes through lists, so that the order of the keys of a blueprint does not
matter. There is one exception: where a name is wanted any value will do, and the text of a mapping
shows its keys in order; likewise a mapping will do for a list, and then stands for its keys.
Blueprints that have none of this are `Plain`, and

    build g registry config = ok built  →  build g registry config' = ok built

for every `config'` that is alike, with the same graph.
-/

namespace Feedforward

variable {A : Type}

/-- A layer whose name and activation are scalars, and whose inputs are a list. -/
structure Fields.PlainLayer (layer : Fields) : Prop where
  name : (layer.at? "name").all Value.isScalar
  activation : (layer.at? "activation").all Value.isScalar
  inputs : (layer.at? "inputs").all Value.isList

/-- A blueprint of plain layers whose output is a scalar. -/
structure Fields.Plain (config : Fields) : Prop where
  output : (config.at? "output").all Value.isScalar
  layers : ∀ items layer, config.at? "layers" = some (.list items) → .map layer ∈ items →
    Fields.PlainLayer layer

/-! ## Entries -/

namespace Value.Alike

variable {v v' : Value} {m m' : Fields}

theorem textAt_eq (h : Alike (.map m) (.map m')) {name : String}
    (hscalar : (m.at? name).all isScalar) (default : String) :
    m'.textAt name default = m.textAt name default := by
  rw [Fields.textAt, Fields.textAt, h.at?_eq_of_isScalar hscalar]

theorem requested_eq (h : Alike v v') : Requested.ofValue v' = Requested.ofValue v := by
  cases h <;> rfl

/-- Lists of scalars are alike only if they are equal. -/
theorem eq_of_forall_isScalar {vs vs' : List Value} (h : List.Forall₂ Alike vs vs')
    (hscalar : ∀ v ∈ vs, v.isScalar) : vs' = vs := by
  induction h with
  | nil => rfl
  | cons hfirst _ ih =>
      obtain ⟨hv, hvs⟩ := List.forall_mem_cons.mp hscalar
      rw [hfirst.eq_of_isScalar hv, ih hvs]

/-- References that are scalars are the same in alike layers, and in the same order. -/
theorem references_eq (h : Alike (.map m) (.map m')) (hplain : Fields.PlainLayer m)
    {vs : List Value} (hvs : m.references = .ok vs) (hscalar : ∀ v ∈ vs, v.isScalar) :
    m'.references = .ok vs := by
  have hlist := hplain.inputs
  rw [Fields.references_eq_ok_iff] at hvs ⊢
  cases hinputs : m.at? "inputs" with
  | none => rwa [h.at?_eq_none_iff.mpr hinputs, ← hinputs]
  | some v =>
      rw [hinputs] at hvs hlist
      obtain ⟨v', hv', halike⟩ := h.exists_at? hinputs
      obtain ⟨items, items', rfl, rfl, hitems⟩ := halike.exists_items hlist
      obtain rfl : items = vs := Option.some.inj hvs
      rw [hv', eq_of_forall_isScalar hitems hscalar]
      rfl

/-- Alike blueprints have alike layers, one for one. -/
theorem exists_layers (h : Alike (.map m) (.map m')) {layers : List Value}
    (hlayers : m.layers = .ok layers) :
    ∃ layers', m'.layers = .ok layers' ∧ List.Forall₂ Alike layers layers' := by
  have hat := Fields.layers_eq_ok hlayers
  obtain ⟨v', hat', halike⟩ := h.exists_at? hat
  obtain ⟨layers', rfl, hall⟩ := halike.exists_list
  rw [Fields.layers, hat] at hlayers
  refine ⟨layers', ?_, hall⟩
  rw [Fields.layers, hat']
  cases hall with
  | nil => cases hlayers
  | cons => rfl

end Value.Alike

/-! ## Layers -/

theorem LayerPlan.ofFields_eq_ok_iff {registry : Registry A} {declared : Declared} {position : Nat}
    {layer : Fields} {plan : LayerPlan A} :
    ofFields registry declared position layer = .ok plan ↔
      layer.layerName position = .ok plan.name ∧ declared.lookup plan.name = none ∧
        (∃ c, layer.at? "cardinality" = some c ∧ .ofValue c = plan.cardinality) ∧
        (∃ n, layer.activationName = .ok n ∧
          n.string?.bind registry.find? = some plan.activation) ∧
        layer = plan.fields := by
  rw [ofFields, bind_eq_ok_iff]
  constructor
  · rintro ⟨name, hname, h⟩
    dsimp only at h
    split at h
    · cases h
    · next hfresh =>
        split at h
        · cases h
        · next c hc =>
            obtain ⟨n, hn, h⟩ := bind_eq_ok_iff.mp h
            split at h
            · cases h
            · next activation hfind =>
                obtain rfl := Except.ok.inj h
                exact ⟨hname, Option.not_isSome_iff_eq_none.mp hfresh, ⟨c, hc, rfl⟩, ⟨n, hn, hfind⟩,
                  rfl⟩
  · rintro ⟨hname, hfresh, ⟨c, hc, hcardinality⟩, ⟨n, hn, hfind⟩, rfl⟩
    refine ⟨plan.name, hname, ?_⟩
    simp [hfresh, hc, hn, hfind, hcardinality]

namespace Value.Alike

variable {v v' : Value} {m m' : Fields} {registry : Registry A} {declared : Declared}
  {position : Nat} {plan : LayerPlan A}

/-- The plan of a layer is the same but for the entries that it keeps. -/
theorem exists_plan (h : Alike v v') (hplain : ∀ layer, v = .map layer → Fields.PlainLayer layer)
    (hplan : LayerPlan.ofValue registry declared position v = .ok plan) :
    ∃ fields', Alike (.map plan.fields) (.map fields') ∧ Fields.PlainLayer plan.fields ∧
      LayerPlan.ofValue registry declared position v' = .ok { plan with fields := fields' } := by
  obtain ⟨rfl, -⟩ := LayerPlan.ofValue_eq_ok hplan
  obtain ⟨fields', rfl⟩ := h.exists_map
  have hlayer := hplain _ rfl
  obtain ⟨hname, hfresh, ⟨c, hc, hcardinality⟩, ⟨n, hn, hfind⟩, -⟩ :=
    LayerPlan.ofFields_eq_ok_iff.mp hplan
  obtain ⟨c', hc', hrequested⟩ := h.exists_at? hc
  refine ⟨fields', h, hlayer, LayerPlan.ofFields_eq_ok_iff.mpr ⟨?_, hfresh, ?_, ?_, rfl⟩⟩
  · rw [Fields.layerName, h.textAt_eq hlayer.name]
    exact hname
  · exact ⟨c', hc', hrequested.requested_eq.trans hcardinality⟩
  · refine ⟨n, ?_, hfind⟩
    rw [Fields.activationName, h.textAt_eq hlayer.activation]
    exact hn

end Value.Alike

namespace Graph

variable {g g' : Graph A} {registry : Registry A} {declared declared' : Declared}

/-- References that are resolved are texts. -/
theorem isScalar_of_connectAll {name : Text} {sources : List Value} {h h' : Handle}
    {t : Group A} (ht : g.group? h = some t)
    (hconnect : g.connectAll declared name sources h = (.ok h', g')) :
    ∀ v ∈ sources, v.isScalar := by
  obtain ⟨us, hus, -⟩ := connectAll_eq_ok ht hconnect
  clear hconnect
  induction hus with
  | nil => exact List.forall_mem_nil _
  | @cons v _ _ _ hv _ ih =>
      refine List.forall_mem_cons.mpr ⟨?_, ih⟩
      obtain ⟨n, hn, -⟩ := hv
      cases v with
      | str => rfl
      | _ => cases hn

/-- Adding a layer reads nothing of its entries but its references. -/
theorem addLayer_alike {plan : LayerPlan A} {fields' : Fields}
    (halike : Value.Alike (.map plan.fields) (.map fields'))
    (hplain : Fields.PlainLayer plan.fields)
    (hadd : g.addLayer declared plan = (.ok declared', g')) :
    g.addLayer declared { plan with fields := fields' } = (.ok declared', g') := by
  rw [addLayer] at hadd ⊢
  dsimp only
  split at hadd
  · cases hadd
  · next bare g₁ hdeclare =>
      obtain ⟨n, -, -, hbare⟩ := declare_eq_ok hdeclare
      split at hadd
      · cases hadd
      · next vs hvs =>
          -- the references are connected one by one, so each of them was a key
          have hscalar : ∀ v ∈ vs, v.isScalar := by
            split at hadd
            · cases hadd
            · next hconnect =>
                intro v hv
                exact isScalar_of_connectAll hbare hconnect v (List.mem_reverse.mpr hv)
          rw [halike.references_eq hplain hvs hscalar]
          exact hadd

/-- Alike layers are added to the same table and the same graph. -/
theorem addLayers_alike {layers layers' : List Value} (h : List.Forall₂ Value.Alike layers layers')
    (hplain : ∀ layer, .map layer ∈ layers → Fields.PlainLayer layer) {position : Nat}
    (hadd : g.addLayers registry layers position declared = (.ok declared', g')) :
    g.addLayers registry layers' position declared = (.ok declared', g') := by
  induction h generalizing g declared position with
  | nil => exact hadd
  | cons hfirst _ ih =>
      rw [addLayers] at hadd ⊢
      split at hadd
      · cases hadd
      · next plan hplan =>
          obtain ⟨fields', halike, hlayer, hplan'⟩ := hfirst.exists_plan
            (fun layer hlayer => hplain layer (hlayer ▸ List.mem_cons_self)) hplan
          rw [hplan']
          dsimp only
          split at hadd
          · cases hadd
          · next hlayerAdded =>
              rw [addLayer_alike halike hlayer hlayerAdded]
              exact ih (fun layer hmem => hplain layer (List.mem_cons_of_mem _ hmem)) hadd

end Graph

/-! ## Blueprints -/

theorem Value.blueprint_map {m : Fields} (h : ∀ name ∈ requiredKeys, (m.at? name).isSome) :
    (Value.map m).blueprint = .ok m := by
  have hmissing : (requiredKeys.filter fun (name : String) =>
      !(m.map (·.1)).any (·.same (.str name))) = [] := by
    rw [List.filter_eq_nil_iff]
    intro name hname
    have hkey := Fields.isSome_at?_iff.mp (h name hname)
    have hany : (m.map (·.1)).any (·.same (.str name)) :=
      List.any_eq_true.mpr ⟨_, hkey, Key.same_str_iff.mpr rfl⟩
    rw [hany]
    decide
  rw [blueprint, keys_map, ok_bind]
  dsimp only
  rw [hmissing]
  rfl

namespace Value.Alike

variable {m m' : Fields} {registry : Registry A} {g g' : Graph A} {built : Built}

theorem selectOutput_eq (h : Alike (.map m) (.map m')) (hplain : Fields.Plain m)
    (declared : Declared) : Graph.selectOutput m' declared = Graph.selectOutput m declared := by
  rw [Graph.selectOutput, Graph.selectOutput, h.textAt_eq hplain.output]

/-- The order of keys does not matter for building. -/
theorem build_eq_ok (h : Alike (.map m) (.map m')) (hplain : Fields.Plain m)
    (hbuild : g.build registry (.map m) = (.ok built, g')) :
    g.build registry (.map m') = (.ok built, g') := by
  rw [Graph.build] at hbuild ⊢
  split at hbuild
  · cases hbuild
  · next fields hfields =>
      obtain ⟨hm, hkeys⟩ := Value.blueprint_eq_ok hfields
      -- `map m'` has the required keys, since `map m` has them
      cases hm
      rw [Value.blueprint_map fun name hname => h.isSome_at? (hkeys name hname)]
      dsimp only
      split at hbuild
      · cases hbuild
      · next layers hlayers =>
          obtain ⟨layers', hlayers', hall⟩ := h.exists_layers hlayers
          rw [hlayers']
          dsimp only
          split at hbuild
          · cases hbuild
          · next declared g₁ hadd =>
              -- from here on nothing but the layers and the name of the output is read
              have hmap := fun layer => hplain.layers layers layer (Fields.layers_eq_ok hlayers)
              rw [Graph.addLayers_alike hall hmap hadd]
              dsimp only
              rw [h.selectOutput_eq hplain]
              exact hbuild

end Value.Alike

end Feedforward
