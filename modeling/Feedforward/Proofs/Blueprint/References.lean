import Feedforward.Proofs.Blueprint.Acceptance

/-!
# What references mean

The name of a layer and the output may be given as any value and count by their texts. A reference
counts as it is, so that only a text refers to a layer: the integer `1` does not refer to a layer
that is given the name `1`, while it selects this layer as the output. Of a blueprint that is
acceptable if its references, too, count by their texts (`Fields.AcceptableByText`),

    it is accepted  ↔  all of its references are texts (`TextReferences`),

and where it is refused, the layer that the reported reference spells stands in front.
-/

namespace Feedforward

variable {A : Type}

/-! ## References by their texts -/

/-- The value can be a key, and its text is the name of a layer in front of a position. -/
def SpellsBefore (layers : List Value) (i : Nat) (source : Value) : Prop :=
  source.toKey?.isSome ∧ source.hasText ∧ NameBefore layers i source.text

/-- The value at a position describes a layer that passes all checks, but for its references, which
spell names of layers in front. -/
def PassesByText (registry : Registry A) (layers : List Value) (i : Nat) (v : Value) : Prop :=
  (∀ check : LayerCheck, check ≠ .inputs → check.Passes registry layers i v) ∧
    ∃ (layer : Fields) (sources : List Value), v = .map layer ∧ layer.references = .ok sources ∧
      ∀ source ∈ sources, SpellsBefore layers i source

/-- A blueprint that could be built if references counted by their texts. -/
structure Fields.AcceptableByText (registry : Registry A) (config : Fields)
    (layers : List Value) : Prop where
  layers_eq : config.at? "layers" = some (.list layers)
  nonempty : layers ≠ []
  passes : ∀ i v, layers[i]? = some v → PassesByText registry layers i v
  output : ∃ v i, config.at? "output" = some v ∧ v.hasText ∧ NameAt layers i v.text

/-- All references of the layers are texts. -/
def TextReferences (layers : List Value) : Prop :=
  ∀ (i : Nat) (layer : Fields) (sources : List Value), layers[i]? = some (.map layer) →
    layer.references = .ok sources → ∀ source ∈ sources, ∃ n, source = .str n

section Spelling

variable {layers : List Value} {i : Nat} {source : Value} {registry : Registry A}

/-- A text means what it spells. -/
theorem SpellsBefore.refersBefore {n : Text} (h : SpellsBefore layers i (.str n)) :
    RefersBefore layers i (.str n) := ⟨n, rfl, h.2.2⟩

/-- A key has a text just if the value that it comes from has one. -/
theorem hasText_of_toKey? {key : Key} (hkey : source.toKey? = some key) :
    key.hasText = source.hasText := by
  cases source with
  | list items => cases hkey
  | map entries => cases hkey
  | other x =>
      obtain ⟨y, -, rfl⟩ := Option.map_eq_some_iff.mp hkey
      rfl
  | _ =>
      cases hkey
      rfl

/-- Layers that pass all checks only refer by texts. -/
theorem textReferences_of_allPass (hall : AllPass registry layers) : TextReferences layers := by
  intro i layer sources hlayer hsources source hsource
  obtain ⟨_, sources', hmap, hsources', hrefers⟩ := hall i _ hlayer .inputs
  obtain rfl := Value.map.inj hmap
  obtain rfl := Except.ok.inj (hsources.symm.trans hsources')
  obtain ⟨n, hn, -⟩ := hrefers source hsource
  exact ⟨n, hn⟩

end Spelling

/-! ## Unknown layers -/

theorem Fields.textAt_eq_error {m : Fields} {name default : String} {e : BlueprintError}
    (h : m.textAt name default = .error e) : e = .noText := by
  rw [textAt] at h
  split at h
  · cases h
  · split at h
    · cases h
    · exact (Except.error.inj h).symm

theorem Fields.references_eq_error {m : Fields} {e : BlueprintError}
    (h : m.references = .error e) : e = .notAList := by
  rw [references] at h
  split at h
  · cases h
  · split at h
    · exact (Except.error.inj h).symm
    · cases h

/-- The layer at a position reads from the value, which is not the name of a layer in front. -/
structure ReadsUnknown (layers : List Value) (i : Nat) (name : Text) (source : Value) : Prop where
  exists_layer : ∃ (layer : Fields) (sources : List Value), layers[i]? = some (.map layer) ∧
    layer.layerName i = .ok name ∧ layer.references = .ok sources ∧ source ∈ sources
  not_refersBefore : ¬ RefersBefore layers i source

section Unknown

variable {registry : Registry A} {layers : List Value} {i : Nat} {v source : Value} {name : Text}
  {e : BlueprintError}

/-- The only check that reports an unknown layer is the last one. -/
theorem readsUnknown_of_refusedAt (hv : layers[i]? = some v)
    (hrefused : RefusedAt registry layers i v (.unknownLayer name source)) :
    ReadsUnknown layers i name source := by
  obtain ⟨check, -, -, hraises⟩ := hrefused
  generalize he : BlueprintError.unknownLayer name source = e at hraises
  cases hraises with
  | noName h => cases he.trans (Fields.textAt_eq_error h)
  | noActivation h => cases he.trans (Fields.textAt_eq_error h)
  | noInputs h => cases he.trans (Fields.references_eq_error h)
  | @inputs layer n front back s key hname hsources hback hunknown hkey =>
      split at he
      · cases he
        exact ⟨⟨layer, _, hv, hname, hsources, by simp⟩, hunknown⟩
      · cases he
  | _ => cases he

/-- A layer that only fails for what its references are compared by is refused because of one that
spells the name of a layer in front, and is no text. -/
theorem exists_readsUnknown_of_refusedAt (hv : layers[i]? = some v)
    (hpasses : PassesByText registry layers i v) (hrefused : RefusedAt registry layers i v e) :
    ∃ name source, e = .unknownLayer name source ∧ ReadsUnknown layers i name source ∧
      SpellsBefore layers i source := by
  obtain ⟨check, -, hfails, hraises⟩ := hrefused
  obtain ⟨hchecks, layer, sources, rfl, hsources, hspells⟩ := hpasses
  -- by text everything else passes, so the check that fails is the one of the inputs
  obtain rfl : check = .inputs := by
    by_contra hcheck
    exact hfails (hchecks check hcheck)
  cases hraises with
  | noInputs h => cases hsources.symm.trans h
  | @notAKey _ front back source hrefs hback hkey =>
      obtain rfl := Except.ok.inj (hsources.symm.trans hrefs)
      have hspelled := (hspells source (by simp)).1
      rw [hkey] at hspelled
      cases hspelled
  | @inputs _ n front back source key hname hrefs hback hunknown hkey =>
      obtain rfl := Except.ok.inj (hsources.symm.trans hrefs)
      have hspelled := hspells source (by simp)
      refine ⟨n, source, ?_, ⟨⟨layer, _, hv, hname, hsources, by simp⟩, hunknown⟩, hspelled⟩
      rw [if_pos ((hasText_of_toKey? hkey).trans hspelled.2.1)]

end Unknown

theorem Value.blueprint_ne_unknownLayer {config : Value} {name : Text} {source : Value} :
    config.blueprint ≠ .error (.unknownLayer name source) := by
  intro h
  rcases bind_eq_error_iff.mp h with hkeys | ⟨keys, -, h⟩
  · rw [keys] at hkeys
    split at hkeys
    · cases hkeys
    · split at hkeys <;> cases hkeys
  · dsimp only at h
    split at h
    · cases h
    · split at h <;> cases h

/-- What has no layers is not refused because of an unknown one. -/
theorem exists_layers_of_unknownLayer {g g' : Graph A} {registry : Registry A} {config : Value}
    {name : Text} {source : Value}
    (hbuild : g.build registry config = (.error (.unknownLayer name source), g')) :
    ∃ (fields : Fields) (layers : List Value), config = .map fields ∧
      (fields.at? "output").isSome ∧ fields.layers = .ok layers := by
  rw [Graph.build] at hbuild
  split at hbuild
  · next e he =>
      obtain rfl := Except.error.inj (Prod.mk.inj hbuild).1
      exact absurd he Value.blueprint_ne_unknownLayer
  · next fields hfields =>
      obtain ⟨rfl, hkeys⟩ := Value.blueprint_eq_ok hfields
      cases hlayers : fields.layers with
      | ok layers => exact ⟨fields, layers, rfl, hkeys "output" (by decide), hlayers⟩
      | error e =>
          rw [hlayers] at hbuild
          obtain rfl := Except.error.inj (Prod.mk.inj hbuild).1
          rw [Fields.layers] at hlayers
          split at hlayers <;> cases hlayers

/-! ## What is built -/

namespace Declaration

/-- What layers declare together each of them declares at its position. -/
theorem exists_ofValue?_of_ofValues? {position i : Nat} {layers : List Value}
    {ds : List Declaration} {v : Value} (h : ofValues? position layers = some ds)
    (hv : layers[i]? = some v) : ∃ d ∈ ds, ofValue? (position + i) v = some d := by
  induction layers generalizing position i ds with
  | nil => cases hv
  | cons w rest ih =>
      obtain ⟨d, hd, h⟩ := Option.bind_eq_some_iff.mp h
      obtain ⟨others, hothers, h⟩ := Option.bind_eq_some_iff.mp h
      obtain rfl := Option.some.inj h
      cases i with
      | zero =>
          obtain rfl := Option.some.inj hv
          exact ⟨d, List.mem_cons_self, hd⟩
      | succ i =>
          obtain ⟨e, he, hvalue⟩ := ih hothers hv
          refine ⟨e, List.mem_cons_of_mem d he, ?_⟩
          rwa [← Nat.add_assoc, Nat.add_right_comm]

/-- Values that are all read as texts are texts. -/
theorem eq_map_str_of_mapM {vs : List Value} {ns : List Text}
    (h : vs.mapM Value.toText? = some ns) : vs = ns.map .str := by
  induction vs generalizing ns with
  | nil =>
      obtain rfl := Option.some.inj h
      rfl
  | cons v rest ih =>
      rw [List.mapM_cons] at h
      obtain ⟨n, hn, h⟩ := Option.bind_eq_some_iff.mp h
      obtain ⟨ns', hns', h⟩ := Option.bind_eq_some_iff.mp h
      obtain rfl := Option.some.inj h
      rw [ih hns', List.map_cons]
      cases v with
      | str t => rw [Option.some.inj hn]
      | _ => cases hn

/-- The references of a layer are the names of its inputs. -/
theorem references_of_ofFields? {position : Nat} {layer : Fields} {d : Declaration}
    (h : ofFields? position layer = some d) :
    layer.references = .ok (d.inputs.map .str) ∧
      d.name = (layer.at? "name").elim (.string ("layer" ++ toString position)) Value.text := by
  obtain ⟨c, -, h⟩ := Option.bind_eq_some_iff.mp h
  obtain ⟨k, -, h⟩ := Option.bind_eq_some_iff.mp h
  obtain ⟨sources, hsources, h⟩ := Option.bind_eq_some_iff.mp h
  obtain ⟨ns, hns, h⟩ := Option.bind_eq_some_iff.mp h
  obtain rfl := Option.some.inj h
  refine ⟨Fields.references_eq_ok_iff.mpr ?_, rfl⟩
  rw [hsources, eq_map_str_of_mapM hns]

end Declaration

namespace Graph

variable {g g' : Graph A} {registry : Registry A} {fields : Fields} {layers : List Value}
  {built : Built} {declared : Declared} {v : Value}

/-- The output goes by its text: it may be a number whose digits are a name. -/
theorem selectOutput_eq_ok_iff (hv : fields.at? "output" = some v) :
    selectOutput fields declared = .ok built ↔
      v.hasText ∧ declared.lookup v.text = some built.output ∧ built.name = v.text ∧
        built.layers = declared := by
  rw [selectOutput, Fields.textAt, hv]
  dsimp only
  by_cases htext : v.hasText
  · rw [if_pos htext, ok_bind]
    constructor
    · intro h  -- an answer comes from the table
      split at h
      · next h' hlookup =>
          obtain rfl := Except.ok.inj h
          exact ⟨htext, hlookup, rfl, rfl⟩
      · cases h
    · rintro ⟨-, hlookup, hname, hlayers⟩  -- the table gives the answer
      rw [hlookup, ← hname, ← hlayers]
      rfl
  · rw [if_neg htext]
    constructor
    · intro h
      cases h
    · rintro ⟨h, -⟩
      exact absurd h htext

/-- The layers are added, and the output is looked up in their table. -/
theorem build_map_eq_ok_iff (hlayers : fields.layers = .ok layers)
    (hv : fields.at? "output" = some v) :
    g.build registry (.map fields) = (.ok built, g') ↔
      g.addLayers registry layers 0 [] = (.ok built.layers, g') ∧ v.hasText ∧
        built.layers.lookup v.text = some built.output ∧ built.name = v.text := by
  have hblueprint : (Value.map fields).blueprint = .ok fields :=
    Value.blueprint_map (by simp [requiredKeys, Fields.layers_eq_ok hlayers, hv])
  rw [build, hblueprint]
  dsimp only
  rw [hlayers]
  dsimp only
  constructor
  · intro h
    split at h
    · cases h
    · next declared g₁ hadd =>
        obtain ⟨hselect, rfl⟩ := Prod.mk.inj h
        obtain ⟨htext, hlookup, hname, rfl⟩ := (selectOutput_eq_ok_iff hv).mp hselect
        exact ⟨hadd, htext, hlookup, hname⟩
  · rintro ⟨hadd, htext, hlookup, hname⟩
    rw [hadd]
    exact Prod.ext ((selectOutput_eq_ok_iff hv).mpr ⟨htext, hlookup, hname, rfl⟩) rfl

/-- The references of a layer are names of layers in front, and its group in the table reads from
the groups of these names, in edge order. -/
def Wires (g : Graph A) (declared : Declared) (layers : List Value) (i : Nat) (layer : Fields) :
    Prop :=
  ∃ (name : Text) (ns : List Text) (h : Handle), layer.layerName i = .ok name ∧
    layer.references = .ok (ns.map .str) ∧ (∀ n ∈ ns, NameBefore layers i n) ∧
    declared.lookup name = some h ∧ (g.inputs h).map some = ns.map (List.lookup · declared)

/-- If all layers pass, every one of them is wired as its references say. -/
theorem exists_inputs_of_build (hbuild : g.build registry (.map fields) = (.ok built, g'))
    (hat : fields.at? "layers" = some (.list layers)) (hall : AllPass registry layers) {i : Nat}
    {layer : Fields} (hlayer : layers[i]? = some (.map layer)) :
    g'.Wires built.layers layers i layer := by
  obtain ⟨ds, hds, -, htable, -⟩ := build_eq_ok hbuild
  simp only [Value.declarations?, Value.entry?, hat] at hds
  obtain ⟨d, hd, hvalue⟩ := Declaration.exists_ofValue?_of_ofValues? hds hlayer
  rw [Nat.zero_add] at hvalue
  obtain ⟨hrefs, hname⟩ := Declaration.references_of_ofFields? hvalue
  obtain ⟨h, a, us, hlookup, hstands⟩ := htable.exists_standsFor hd
  obtain ⟨n, hn, -⟩ := passes_name_iff.mp (hall i _ hlayer .name)
  obtain ⟨sources, hsources, hbefore⟩ := passes_inputs_iff.mp (hall i _ hlayer .inputs)
  -- what the layer reads and what the check reads are the same list
  obtain rfl := Except.ok.inj (hrefs.symm.trans hsources)
  have hnamed : n = d.name := (Fields.textAt_eq_ok hn).symm.trans hname.symm
  refine ⟨d.name, d.inputs, h, hnamed ▸ hn, hrefs, fun m hm => ?_, hlookup, ?_⟩
  · obtain ⟨_, hstr, hm⟩ := hbefore (.str m) (List.mem_map_of_mem hm)
    obtain rfl := Value.str.inj hstr
    exact hm
  · rw [hstands.inputs_eq, hstands.inputs]

/-- The output is selected by its text, whatever kind of value it is. -/
theorem build_other_output (hbuild : g.build registry (.map fields) = (.ok built, g'))
    (hat : fields.at? "layers" = some (.list layers)) {fields' : Fields}
    (hsame : fields'.at? "layers" = fields.at? "layers") (hv : fields'.at? "output" = some v)
    (htext : v.hasText) {j : Nat} (hname : NameAt layers j v.text) :
    ∃ h, built.layers.lookup v.text = some h ∧
      g.build registry (.map fields') = (.ok ⟨built.layers, v.text, h⟩, g') := by
  obtain ⟨_, layers', hfields, houtput, hlayers⟩ := exists_layers_of_build hbuild
  obtain rfl := Value.map.inj hfields
  obtain ⟨w, hw⟩ := Option.isSome_iff_exists.mp houtput
  obtain ⟨hat', hne⟩ := Fields.layers_eq_ok_iff.mp hlayers
  obtain rfl := Value.list.inj (Option.some.inj (hat.symm.trans hat'))
  obtain ⟨hadd, -⟩ := (build_map_eq_ok_iff hlayers hw).mp hbuild
  -- the layers were added before the output was looked up, which is all that differs
  rcases addLayers_spec registry g layers List.drop_zero (tabulates_nil layers)
    (fun j hj => absurd hj (Nat.not_lt_zero j)) with
    ⟨declared, g₁, hadd', -, htable⟩ | ⟨e, g₁, hadd', -⟩
  · obtain ⟨hdeclared, rfl⟩ := Prod.mk.inj (hadd.symm.trans hadd')
    obtain rfl := Except.ok.inj hdeclared
    obtain ⟨h, hh⟩ := (htable v.text).mpr
      ((nameBefore_iff_of_length_le (Nat.le_refl _)).mpr ⟨j, hname⟩)
    have hlayers' : fields'.layers = .ok layers :=
      Fields.layers_eq_ok_iff.mpr ⟨hsame.trans hat, hne⟩
    exact ⟨h, hh, (build_map_eq_ok_iff hlayers' hv).mpr ⟨hadd, htext, hh, rfl⟩⟩
  · cases (Prod.mk.inj (hadd.symm.trans hadd')).1

end Graph

/-- Reports of an unknown layer come from a layer that reads from a value which is not the name of a
layer in front. -/
theorem exists_readsUnknown_of_build {g g' : Graph A} {registry : Registry A}
    {config source : Value} {name : Text}
    (hbuild : g.build registry config = (.error (.unknownLayer name source), g')) :
    ∃ (fields : Fields) (layers : List Value) (i : Nat), config = .map fields ∧
      fields.at? "layers" = some (.list layers) ∧ ReadsUnknown layers i name source := by
  obtain ⟨fields, layers, rfl, houtput, hlayers⟩ := exists_layers_of_unknownLayer hbuild
  rcases build_spec g registry houtput hlayers with
    ⟨_, _, haccepted, -⟩ | ⟨e, _, hrefused, hfault⟩
  · cases hbuild.symm.trans haccepted
  · obtain ⟨he, -⟩ := Prod.mk.inj (hbuild.symm.trans hrefused)
    obtain rfl := Except.error.inj he
    rcases hfault with ⟨i, v, hv, -, hrefusedAt⟩ | ⟨-, w, -, hfault⟩
    · exact ⟨fields, layers, i, rfl, Fields.layers_eq_ok hlayers,
        readsUnknown_of_refusedAt hv hrefusedAt⟩
    · rcases hfault with ⟨-, he⟩ | ⟨-, -, he⟩ <;> cases he

/-- Of a blueprint that is acceptable if references count by their texts, either all references are
texts and it is built, or one that is no text is reported. -/
theorem build_spec_of_acceptableByText {registry : Registry A} {fields : Fields}
    {layers : List Value} (g : Graph A) (h : fields.AcceptableByText registry layers) :
    (∃ built g', g.build registry (.map fields) = (.ok built, g') ∧ TextReferences layers) ∨
    ∃ g' i name source, g.build registry (.map fields) = (.error (.unknownLayer name source), g') ∧
      ReadsUnknown layers i name source ∧ SpellsBefore layers i source ∧ ∀ n, source ≠ .str n := by
  obtain ⟨v, j, hv, htext, hname⟩ := h.output
  have hlayers := Fields.layers_eq_ok_iff.mpr ⟨h.layers_eq, h.nonempty⟩
  rcases build_spec g registry (Option.isSome_iff_exists.mpr ⟨v, hv⟩) hlayers with
    -- A reference is refused only for a source that is no text, though it spells one.
    ⟨built, g', hbuild, haccepted⟩ |
    ⟨e, g', hbuild, ⟨i, w, hw, -, hrefused⟩ | ⟨-, w, hw, hfault⟩⟩
  · exact .inl ⟨built, g', hbuild, textReferences_of_allPass haccepted.allPass⟩
  · obtain ⟨name, source, rfl, hunknown, hspells⟩ :=
      exists_readsUnknown_of_refusedAt hw (h.passes i w hw) hrefused
    refine .inr ⟨g', i, name, source, hbuild, hunknown, hspells, ?_⟩
    rintro n rfl
    exact hunknown.not_refersBefore hspells.refersBefore
  · obtain rfl := Option.some.inj (hv.symm.trans hw)
    rcases hfault with ⟨hnone, -⟩ | ⟨-, hstranger, -⟩
    · cases htext.symm.trans hnone
    · exact absurd hname (hstranger j)

/-- In a network that was built, all references are names of layers in front, every layer is
connected to the layers of its references, and any value whose text is the name of a layer selects
this layer as the output. No layer is reported as unknown by a text that a layer in front has as its
name. Of the blueprints that are acceptable if references count by their texts, those are built
whose references are texts. The others are refused, and what is reported is a value that is no text
although its text is the name of a layer in front. -/
theorem build_references (g : Graph A) (registry : Registry A) (config : Value) :
    (∀ built g', g.build registry config = (.ok built, g') →
      ∃ (fields : Fields) (layers : List Value), config = .map fields ∧
        fields.at? "layers" = some (.list layers) ∧
        (∀ i layer, layers[i]? = some (.map layer) → g'.Wires built.layers layers i layer) ∧
        ∀ (fields' : Fields) (v : Value) (j : Nat), fields'.at? "layers" = fields.at? "layers" →
          fields'.at? "output" = some v → v.hasText → NameAt layers j v.text →
          ∃ h, built.layers.lookup v.text = some h ∧
            g.build registry (.map fields') = (.ok ⟨built.layers, v.text, h⟩, g')) ∧
    (∀ name source g', g.build registry config = (.error (.unknownLayer name source), g') →
      ∃ (fields : Fields) (layers : List Value) (i : Nat), config = .map fields ∧
        fields.at? "layers" = some (.list layers) ∧ ReadsUnknown layers i name source ∧
        ∀ n j, source = .str n → j < i → ¬ NameAt layers j n) ∧
    ∀ (fields : Fields) (layers : List Value), config = .map fields →
      fields.AcceptableByText registry layers →
      ((∃ built g', g.build registry config = (.ok built, g')) ↔ TextReferences layers) ∧
      ∀ e g', g.build registry config = (.error e, g') →
        ∃ i name source, e = .unknownLayer name source ∧ ReadsUnknown layers i name source ∧
          SpellsBefore layers i source ∧ ∀ n, source ≠ .str n := by
  refine ⟨?_, ?_, ?_⟩
  · intro built g' hbuild  -- what is built
    obtain ⟨fields, layers, rfl, houtput, hlayers⟩ := exists_layers_of_build hbuild
    have hat := Fields.layers_eq_ok hlayers
    rcases build_spec g registry houtput hlayers with ⟨_, _, -, hacceptable⟩ | ⟨e, _, hrefused, -⟩
    · refine ⟨fields, layers, rfl, hat, fun i layer hlayer => ?_, ?_⟩
      · exact Graph.exists_inputs_of_build hbuild hat hacceptable.allPass hlayer
      · intro fields' v j hsame hv htext hname
        exact Graph.build_other_output hbuild hat hsame hv htext hname
    · cases hbuild.symm.trans hrefused
  · intro name source g' hbuild  -- what is refused
    obtain ⟨fields, layers, i, hconfig, hat, hunknown⟩ := exists_readsUnknown_of_build hbuild
    refine ⟨fields, layers, i, hconfig, hat, hunknown, ?_⟩
    rintro n j rfl hj hname
    exact hunknown.not_refersBefore ⟨n, rfl, j, hj, hname⟩
  · rintro fields layers rfl hacceptable  -- which of them it is
    rcases build_spec_of_acceptableByText g hacceptable with
      ⟨built, g₁, hbuild, htexts⟩ | ⟨g₁, i, name, source, hbuild, hunknown, hspells, hnone⟩
    · refine ⟨⟨fun _ => htexts, fun _ => ⟨built, g₁, hbuild⟩⟩, fun e g' hrefused => ?_⟩
      cases hbuild.symm.trans hrefused
    · refine ⟨⟨?_, fun htexts => ?_⟩, fun e g' hrefused => ?_⟩
      · rintro ⟨_, _, haccepted⟩
        cases hbuild.symm.trans haccepted
      · obtain ⟨layer, sources, hlayer, -, hsources, hmem⟩ := hunknown.exists_layer
        obtain ⟨n, hn⟩ := htexts i layer sources hlayer hsources source hmem
        exact absurd hn (hnone n)
      · obtain ⟨he, -⟩ := Prod.mk.inj (hbuild.symm.trans hrefused)
        exact ⟨i, name, source, (Except.error.inj he).symm, hunknown, hspells, hnone⟩

section Numbered

/-- A layer that is given a number as its name. -/
def numberedLayer : Fields := [(.str "name", .int 1), (.str "cardinality", .int 1)]

/-- A layer with one reference. -/
def readingLayer (reference : Value) : Fields := [
  (.str "name", .str "b"), (.str "cardinality", .int 1), (.str "inputs", .list [reference])]

/-- A layer that is given a number as its name, and one that reads from it by the reference. -/
def numberedLayers (reference : Value) : List Value :=
  [.map numberedLayer, .map (readingLayer reference)]

def numberedBlueprint (reference output : Value) : Fields :=
  [(.str "layers", .list (numberedLayers reference)), (.str "output", output)]

variable {reference output : Value}

theorem hasText_one : (Value.int 1).hasText := by
  show Text.isWritable 1
  decide +kernel

theorem layerName_numberedLayer : numberedLayer.layerName 0 = .ok "1" := by
  have hat : numberedLayer.at? "name" = some (.int 1) := rfl
  rw [Fields.layerName, Fields.textAt, hat]
  exact if_pos hasText_one

theorem nameAt_numberedLayers : NameAt (numberedLayers reference) 0 "1" :=
  ⟨numberedLayer, rfl, layerName_numberedLayer⟩

/-- The layer that reads is the second one, whatever it reads. -/
theorem not_nameAt_numberedLayers : ¬ NameAt (numberedLayers reference) 0 "b" := by
  rw [nameAt_iff rfl, layerName_numberedLayer]
  intro h
  exact absurd (Except.ok.inj h) (by decide)

/-- The reference may be the number or its text, and the output likewise. -/
theorem acceptableByText_numberedBlueprint (hkey : reference.toKey?.isSome)
    (hreference : reference.hasText) (hone : reference.text = "1") (houtput : output.hasText)
    (hname : ∃ i, NameAt (numberedLayers reference) i output.text) :
    (numberedBlueprint reference output).AcceptableByText .standard (numberedLayers reference) where
  layers_eq := rfl
  nonempty := List.cons_ne_nil _ _
  output := ⟨output, hname.choose, rfl, houtput, hname.choose_spec⟩
  passes
    | 0, _, rfl => by
        refine ⟨fun check hcheck => ?_, numberedLayer, [], rfl, rfl, List.forall_mem_nil _⟩
        match check with
        | .mapping => exact ⟨_, rfl⟩
        | .name =>
            refine ⟨_, "1", rfl, layerName_numberedLayer, ?_⟩
            rintro ⟨j, hj, -⟩
            cases hj
        | .cardinality => exact ⟨_, _, rfl, rfl⟩
        | .activation => exact ⟨_, rfl, .linear, List.mem_cons_self, rfl⟩
        | .kind => exact ⟨_, 1, rfl, rfl⟩
        | .sign => exact ⟨_, 1, rfl, rfl, by decide⟩
        | .inputs => exact absurd rfl hcheck
    | 1, _, rfl => by
        refine ⟨fun check hcheck => ?_, readingLayer reference, [reference], rfl, rfl, ?_⟩
        · match check with
          | .mapping => exact ⟨_, rfl⟩
          | .name =>
              refine ⟨_, "b", rfl, rfl, ?_⟩
              rintro ⟨j, hj, hb⟩
              obtain rfl : j = 0 := by omega
              exact not_nameAt_numberedLayers hb
          | .cardinality => exact ⟨_, _, rfl, rfl⟩
          | .activation => exact ⟨_, rfl, .linear, List.mem_cons_self, rfl⟩
          | .kind => exact ⟨_, 1, rfl, rfl⟩
          | .sign => exact ⟨_, 1, rfl, rfl, by decide⟩
          | .inputs => exact absurd rfl hcheck
        · rw [List.forall_mem_singleton]
          exact ⟨hkey, hreference, 0, Nat.zero_lt_one, hone ▸ nameAt_numberedLayers⟩

/-- There is one reference in all. -/
theorem eq_of_mem_references {i : Nat} {layer : Fields} {sources : List Value} {source : Value}
    (hlayer : (numberedLayers reference)[i]? = some (.map layer))
    (hsources : layer.references = .ok sources) (hmem : source ∈ sources) :
    i = 1 ∧ layer = readingLayer reference ∧ source = reference := by
  match i with
  | 0 =>
      obtain rfl := Value.map.inj (Option.some.inj hlayer)
      obtain rfl := Except.ok.inj hsources
      cases hmem
  | 1 =>
      obtain rfl := Value.map.inj (Option.some.inj hlayer)
      obtain rfl := Except.ok.inj hsources
      exact ⟨rfl, rfl, List.mem_singleton.mp hmem⟩
  | i + 2 => cases hlayer

/-- The number does not refer to the layer that is given it as its name, but selects this layer as
the output. The text of the number does both. -/
theorem build_references_numbered :
    (numberedBlueprint (.int 1) (.str "b")).AcceptableByText .standard (numberedLayers (.int 1)) ∧
    (∃ g', (Graph.empty : Graph Numeric).build .standard
        (.map (numberedBlueprint (.int 1) (.str "b"))) =
      (.error (.unknownLayer "b" (.int 1)), g')) ∧
    ∃ built g' h, (Graph.empty : Graph Numeric).build .standard
        (.map (numberedBlueprint (.str "1") (.str "b"))) = (.ok built, g') ∧
      built.layers.lookup ("1" : Text) = some h ∧
      (Graph.empty : Graph Numeric).build .standard
        (.map (numberedBlueprint (.str "1") (.int 1))) = (.ok ⟨built.layers, "1", h⟩, g') := by
  have hb (reference : Value) : ∃ i, NameAt (numberedLayers reference) i (Value.str "b").text :=
    ⟨1, readingLayer reference, rfl, rfl⟩
  have hnumber : (numberedBlueprint (.int 1) (.str "b")).AcceptableByText .standard
      (numberedLayers (.int 1)) :=
    acceptableByText_numberedBlueprint rfl hasText_one rfl rfl (hb _)
  have htext : (numberedBlueprint (.str "1") (.str "b")).AcceptableByText .standard
      (numberedLayers (.str "1")) :=
    acceptableByText_numberedBlueprint rfl rfl rfl rfl (hb _)
  obtain ⟨-, -, hbyNumber⟩ := build_references (Graph.empty : Graph Numeric) .standard
    (.map (numberedBlueprint (.int 1) (.str "b")))
  obtain ⟨hbuilt, -, hbyText⟩ := build_references (Graph.empty : Graph Numeric) .standard
    (.map (numberedBlueprint (.str "1") (.str "b")))
  refine ⟨hnumber, ?_, ?_⟩
  · obtain ⟨haccepted, hreport⟩ := hbyNumber _ _ rfl hnumber
    cases hbuild : (Graph.empty : Graph Numeric).build .standard
        (.map (numberedBlueprint (.int 1) (.str "b"))) with
    | mk answer g' =>
        cases answer with
        | ok built =>
            obtain ⟨n, hn⟩ := haccepted.mp ⟨built, g', hbuild⟩ 1 _ _ rfl rfl _ List.mem_cons_self
            cases hn
        | error e =>
            obtain ⟨i, name, source, rfl, hunknown, -⟩ := hreport e g' hbuild
            obtain ⟨layer, sources, hlayer, hname, hsources, hmem⟩ := hunknown.exists_layer
            obtain ⟨rfl, rfl, rfl⟩ := eq_of_mem_references hlayer hsources hmem
            obtain rfl := Except.ok.inj hname
            exact ⟨g', rfl⟩
  · obtain ⟨haccepted, -⟩ := hbyText _ _ rfl htext
    obtain ⟨built, g', hbuild⟩ := haccepted.mpr fun i layer sources hlayer hsources source hmem =>
      ⟨"1", (eq_of_mem_references hlayer hsources hmem).2.2⟩
    obtain ⟨fields, layers, hconfig, hat, -, houtput⟩ := hbuilt built g' hbuild
    obtain rfl := Value.map.inj hconfig
    obtain rfl := Value.list.inj (Option.some.inj hat)
    obtain ⟨h, hlookup, hother⟩ := houtput (numberedBlueprint (.str "1") (.int 1)) (.int 1) 0 rfl
      rfl hasText_one nameAt_numberedLayers
    exact ⟨built, g', h, hbuild, hlookup, hother⟩

end Numbered

end Feedforward
