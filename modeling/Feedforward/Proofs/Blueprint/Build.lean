import Feedforward.Proofs.Blueprint.Table
import Feedforward.Proofs.Network.Answer

/-!
# What building leaves in the graph

Building a blueprint adds groups to the graph and changes none (`Graph.Extends`): for each layer one
without inputs, and then a copy for each input, of which the last has them all. Only this last one
enters the table of the built network. Where building answers, the blueprint declares layers, and
the table comes from them:

    build g₀ registry config = ok built  →  Declares (declarations of config) (layers of built).
-/

namespace Feedforward

variable {A : Type}

namespace Graph

/-! ## Groups that stay -/

variable {g g' : Graph A}

/-- What a declaration that is not refused leaves behind: the graph as it was, with one group more.
-/
theorem declare_eq_ok {cardinality : Requested} {activation : Activation A} {us : List Handle}
    {name : Option Value} {h : Handle}
    (hdeclare : g.declare cardinality activation us name = (.ok h, g')) :
    ∃ n, cardinality.check = .ok n ∧ g.Extends g' ∧
      g'.group? h = some ⟨n, activation, us, name⟩ := by
  rw [declare] at hdeclare
  split at hdeclare
  · cases hdeclare
  · next n hn =>
      obtain ⟨hh, rfl⟩ := Prod.mk.inj hdeclare
      obtain rfl := Except.ok.inj hh
      exact ⟨n, hn, extends_push g _, group?_add g _⟩

/-- The copy reads from the source first. The group that is copied stays as it was. -/
theorem connect_spec {t : Group A} {target : Handle} (ht : g.group? target = some t)
    (source : Handle) : g.Extends (g.connect source target).2 ∧
      (g.connect source target).2.group? (g.connect source target).1 =
        some { t with inputs := source :: t.inputs } := by
  rw [connect, ht]
  exact ⟨extends_push g _, group?_add g _⟩

end Graph

/-! ## References -/

/-- Only a text refers to a layer, and it refers to the one of this name. -/
theorem Declared.resolve_eq_ok_iff {declared : Declared} {name : Text} {source : Value}
    {u : Handle} : declared.resolve name source = .ok u ↔
      ∃ n, source.toText? = some n ∧ declared.lookup n = some u := by
  cases source with
  | str t =>
      simp only [resolve, Value.toKey?, Value.toText?, Option.some.injEq, exists_eq_left']
      cases declared.lookup t <;> simp
  | other x =>
      rw [resolve, Value.toKey?]
      cases x.key? <;> simp [Value.toText?]
  | _ => simp [resolve, Value.toKey?, Value.toText?]

namespace Graph

variable {g g' : Graph A} {declared declared' : Declared} {registry : Registry A}

/-- Inputs are put in front one after the other, so that the last of them comes first. -/
theorem connectAll_eq_ok {name : Text} {sources : List Value} {h h' : Handle} {t : Group A}
    (ht : g.group? h = some t)
    (hconnect : g.connectAll declared name sources h = (.ok h', g')) :
    ∃ us, List.Forall₂ (fun v u => ∃ n, v.toText? = some n ∧ declared.lookup n = some u)
        sources us ∧
      g.Extends g' ∧ g'.group? h' = some { t with inputs := us.reverse ++ t.inputs } := by
  -- Each connection copies the group, so the induction goes over all graphs and handles.
  induction sources generalizing g h t with
  | nil =>
      obtain ⟨hh, rfl⟩ := Prod.mk.inj hconnect
      obtain rfl := Except.ok.inj hh
      exact ⟨[], .nil, .refl g, ht⟩
  | cons v rest ih =>
      rw [connectAll] at hconnect
      split at hconnect
      · cases hconnect
      · next u hu =>
          obtain ⟨hext, hcopy⟩ := connect_spec ht u
          obtain ⟨us, hus, hext', hlast⟩ := ih hcopy hconnect
          refine ⟨u :: us, .cons (Declared.resolve_eq_ok_iff.mp hu) hus, hext.trans hext', ?_⟩
          rw [hlast, List.reverse_cons, List.append_assoc]
          rfl

end Graph

/-! ## The entries of a blueprint -/

@[simp] theorem Key.toKey?_toValue (k : Key) : k.toValue.toKey? = some k := by cases k <;> rfl

@[simp]
theorem Value.keys_map (entries : Fields) : (Value.map entries).keys = .ok (entries.map (·.1)) := by
  have helements : (Value.map entries).elements? = some (entries.map (·.1.toValue)) := rfl
  have hkeys : (entries.map (·.1.toValue)).mapM Value.toKey? = some (entries.map (·.1)) := by
    clear helements
    induction entries with
    | nil => rfl
    | cons entry rest ih =>
        simp [ih]
  simp only [keys, helements, hkeys]

/-- A key that is there has a value. -/
theorem Fields.isSome_at?_of_any {entries : Fields} {name : String}
    (h : (entries.map (·.1)).any (·.same (.str name))) : (entries.at? name).isSome := by
  rw [at?]
  induction entries with
  | nil => cases h
  | cons entry rest ih =>
      obtain ⟨k, v⟩ := entry
      rw [get?]
      split
      · rfl
      · next hk =>
          refine ih ?_
          simpa [hk] using h

/-- Only a mapping is a blueprint. -/
theorem Value.blueprint_eq_ok {config : Value} {fields : Fields}
    (h : config.blueprint = .ok fields) :
    config = .map fields ∧ ∀ name ∈ requiredKeys, (fields.at? name).isSome := by
  cases config with
  | map entries =>
      rw [blueprint, keys_map, ok_bind] at h
      dsimp only at h
      split at h
      · cases h
      · next hmissing =>
          obtain rfl := Except.ok.inj h
          refine ⟨rfl, fun name hname => Fields.isSome_at?_of_any ?_⟩
          rw [Bool.not_eq_true, Bool.not_eq_false', List.isEmpty_iff, List.filter_eq_nil_iff]
            at hmissing
          simpa using hmissing name hname
  | _ =>
      -- only a mapping has entries, whatever keys the value has
      rw [blueprint] at h
      · obtain ⟨keys, -, h⟩ := bind_eq_ok_iff.mp h
        dsimp only at h
        split at h <;> cases h
      · simp

theorem Fields.layers_eq_ok {fields : Fields} {layers : List Value}
    (h : fields.layers = .ok layers) : fields.at? "layers" = some (.list layers) := by
  rw [Fields.layers] at h
  split at h
  · next hlayers => rw [hlayers, Except.ok.inj h]
  · cases h

/-! ## What a layer declares -/

theorem Fields.textAt_eq_ok {m : Fields} {name default : String} {t : Text}
    (h : m.textAt name default = .ok t) : (m.at? name).elim (.string default) Value.text = t := by
  rw [textAt] at h
  split at h
  · next hnone =>
      rw [hnone]
      exact Except.ok.inj h
  · next v hv =>
      split at h
      · rw [hv]
        exact Except.ok.inj h
      · cases h

theorem Fields.references_eq_ok_iff {m : Fields} {vs : List Value} :
    m.references = .ok vs ↔ (m.at? "inputs").elim (some []) Value.elements? = some vs := by
  rw [references]
  cases m.at? "inputs" with
  | none => simp
  | some v =>
      simp only [Option.elim_some]
      cases v.elements? <;> simp

/-- The values that are taken for a number of neurons are the natural numbers. -/
@[simp] theorem Requested.check_ofValue_eq_ok_iff {v : Value} {n : Nat} :
    (Requested.ofValue v).check = .ok n ↔ v.toNat? = some n := by
  cases v with
  | int k =>
      rw [ofValue, check, Value.toNat?]
      by_cases hk : k < 0 <;> simp [hk]
  | _ => simp [ofValue, check, Value.toNat?]

/-- References that are resolved are texts. -/
theorem exists_mapM_toText? {declared : Declared} {vs : List Value} {us : List Handle}
    (h : List.Forall₂ (fun v u => ∃ n, v.toText? = some n ∧ declared.lookup n = some u) vs us) :
    ∃ ns, vs.mapM Value.toText? = some ns ∧
      ns.map (List.lookup · declared) = us.map some := by
  induction h with
  | nil => exact ⟨[], rfl, rfl⟩
  | cons hv _ ih =>
      obtain ⟨n, hn, hu⟩ := hv
      obtain ⟨ns, hns, hus⟩ := ih
      refine ⟨n :: ns, ?_, ?_⟩
      · rw [List.mapM_cons, hn, hns]
        rfl
      · rw [List.map_cons, List.map_cons, hu, hus]

theorem LayerPlan.ofValue_eq_ok {registry : Registry A} {declared : Declared} {position : Nat}
    {v : Value} {plan : LayerPlan A} (h : ofValue registry declared position v = .ok plan) :
    v = .map plan.fields ∧ declared.lookup plan.name = none ∧
      (plan.fields.at? "name").elim (.string ("layer" ++ toString position)) Value.text =
        plan.name ∧
      (∃ c, plan.fields.at? "cardinality" = some c ∧ plan.cardinality = .ofValue c) ∧
      ((plan.fields.at? "activation").elim (.string "linear") Value.text).string?.bind
        registry.find? = some plan.activation := by
  match v, h with
  | .map layer, h =>
      rw [ofValue, ofFields] at h
      obtain ⟨name, hname, h⟩ := bind_eq_ok_iff.mp h
      dsimp only at h
      split at h
      · cases h
      · next hfresh =>
          split at h
          · cases h
          · next c hc =>
              obtain ⟨activationName, hactivation, h⟩ := bind_eq_ok_iff.mp h
              split at h
              · cases h
              · next activation hfind =>
                  obtain rfl := Except.ok.inj h
                  refine ⟨rfl, ?_, Fields.textAt_eq_ok hname, ⟨c, hc, rfl⟩, ?_⟩
                  · exact Option.not_isSome_iff_eq_none.mp hfresh
                  · rw [Fields.textAt_eq_ok hactivation]
                    exact hfind

/-! ## The table of a blueprint -/

namespace Graph

variable {g g' : Graph A} {registry : Registry A} {ds : List Declaration}
  {declared declared' : Declared} {position : Nat}

/-- A layer that is added is declared, and takes its place in the table. -/
theorem declares_addLayer {v : Value} {plan : LayerPlan A}
    (hplan : LayerPlan.ofValue registry declared position v = .ok plan)
    (hadd : g.addLayer declared plan = (.ok declared', g'))
    (h : Declares g registry ds declared) :
    ∃ d, Declaration.ofValue? position v = some d ∧ g.Extends g' ∧
      Declares g' registry (ds ++ [d]) declared' := by
  -- A group is declared first and then connected to its sources; both steps only extend the graph.
  obtain ⟨rfl, hfresh, hname, ⟨c, hc, hcardinality⟩, hfind⟩ := LayerPlan.ofValue_eq_ok hplan
  rw [addLayer] at hadd
  split at hadd
  · cases hadd
  · next bare g₁ hdeclare =>
      obtain ⟨n, hn, hext, hbare⟩ := declare_eq_ok hdeclare
      rw [hcardinality, Requested.check_ofValue_eq_ok_iff] at hn
      split at hadd
      · cases hadd
      · next vs hvs =>
          split at hadd
          · cases hadd
          · next last g₂ hconnect =>
              obtain ⟨hdeclared, rfl⟩ := Prod.mk.inj hadd
              obtain rfl := Except.ok.inj hdeclared
              obtain ⟨us, hus, hext', hlast⟩ := connectAll_eq_ok hbare hconnect
              -- the inputs were put in front from the last one to the first
              rw [← List.reverse_reverse us, List.forall₂_reverse_iff] at hus
              obtain ⟨ns, hns, hinputs⟩ := exists_mapM_toText? hus
              rw [List.append_nil] at hlast
              refine ⟨⟨plan.name, n, _, ns⟩, ?_, hext.trans hext',
                .snoc (h.mono (hext.trans hext')) hfresh ⟨hfind, hinputs, hlast⟩⟩
              simp only [Declaration.ofValue?, Declaration.ofFields?, hc, hn,
                Fields.references_eq_ok_iff.mp hvs, hns, hname, Option.bind_eq_bind,
                Option.bind_some, Option.pure_def]
              rfl

/-- Layers that are added one after the other are those that their values declare. -/
theorem declares_addLayers {layers : List Value}
    (hadd : g.addLayers registry layers position declared = (.ok declared', g'))
    (h : Declares g registry ds declared) :
    ∃ new, Declaration.ofValues? position layers = some new ∧ g.Extends g' ∧
      Declares g' registry (ds ++ new) declared' := by
  induction layers generalizing g ds declared position with
  | nil =>
      obtain ⟨hdeclared, rfl⟩ := Prod.mk.inj hadd
      obtain rfl := Except.ok.inj hdeclared
      exact ⟨[], rfl, .refl g, by rwa [List.append_nil]⟩
  | cons v rest ih =>  -- case: one layer more is declared
      rw [addLayers] at hadd
      split at hadd
      · cases hadd
      · next plan hplan =>
          split at hadd
          · cases hadd
          · next declared₁ g₁ hlayer =>
              obtain ⟨d, hd, hext, hfirst⟩ := declares_addLayer hplan hlayer h
              obtain ⟨new, hnew, hext', hrest⟩ := ih hadd hfirst
              refine ⟨d :: new, ?_, hext.trans hext', ?_⟩
              · rw [Declaration.ofValues?, hd, hnew]
                rfl
              · rwa [List.append_assoc] at hrest

/-- Whatever building accepts declares layers, and the table has a group for each of them. -/
theorem build_eq_ok {config : Value} {built : Built}
    (hbuild : g.build registry config = (.ok built, g')) :
    ∃ ds, config.declarations? = some ds ∧ config.outputName? = some built.name ∧
      Declares g' registry ds built.layers ∧
      built.layers.lookup built.name = some built.output := by
  rw [build] at hbuild
  split at hbuild
  · cases hbuild
  · next fields hfields =>
      split at hbuild
      · cases hbuild
      · next layers hlayers =>
          split at hbuild
          · cases hbuild
          · next declared g₁ hadd =>
              obtain ⟨hselect, rfl⟩ := Prod.mk.inj hbuild
              obtain ⟨ds, hds, -, hdeclares⟩ := declares_addLayers hadd (.nil (g := g))
              rw [List.nil_append] at hdeclares
              obtain ⟨rfl, hkeys⟩ := Value.blueprint_eq_ok hfields
              obtain ⟨v, hv⟩ := Option.isSome_iff_exists.mp (hkeys "output" (by decide))
              obtain ⟨name, hname, hlookup⟩ := bind_eq_ok_iff.mp hselect
              have hname := Fields.textAt_eq_ok hname
              rw [hv, Option.elim_some] at hname
              split at hlookup
              · next h hh =>
                  obtain rfl := Except.ok.inj hlookup
                  refine ⟨ds, ?_, ?_, hdeclares, hh⟩
                  · simp only [Value.declarations?, Value.entry?, Fields.layers_eq_ok hlayers, hds]
                  · simp only [Value.outputName?, Value.entry?, hv, Option.map_some, hname]
              · cases hlookup

end Graph

end Feedforward
