import Feedforward.Proofs.Blueprint.Check

/-!
# Which blueprints are accepted

A blueprint is accepted just if it has the keys `layers` and `output`, all of its layers pass all
checks, and the output is one of their names (`Fields.Acceptable`). Otherwise the first layer that
fails a check decides, and of its checks the first one that fails:

    build g registry config = error e  →  FirstFault registry layers e

unless all layers pass and only the output is refused.
-/

namespace Feedforward

variable {A : Type}

/-- The layers are refused with an error, which is that of the first one that fails a check. -/
def FirstFault (registry : Registry A) (layers : List Value) (e : BlueprintError) : Prop :=
  ∃ i v, layers[i]? = some v ∧
    (∀ j < i, ∀ w, layers[j]? = some w → ∀ check : LayerCheck, check.Passes registry layers j w) ∧
    RefusedAt registry layers i v e

/-- All layers pass all checks. -/
def AllPass (registry : Registry A) (layers : List Value) : Prop :=
  ∀ i v, layers[i]? = some v → ∀ check : LayerCheck, check.Passes registry layers i v

/-- A blueprint that can be built. -/
structure Fields.Acceptable (registry : Registry A) (config : Fields) (layers : List Value) :
    Prop where
  layers_eq : config.at? "layers" = some (.list layers)
  nonempty : layers ≠ []
  allPass : AllPass registry layers
  output : ∃ v i, config.at? "output" = some v ∧ v.hasText ∧ NameAt layers i v.text

/-- The output of a blueprint is refused with an error: it has no text, or it is no name. -/
def Fields.OutputFault (config : Fields) (layers : List Value) (e : BlueprintError) : Prop :=
  ∃ v, config.at? "output" = some v ∧
    (v.hasText = false ∧ e = .noText ∨
      v.hasText ∧ (∀ i, ¬ NameAt layers i v.text) ∧ e = .undeclaredOutput v.text)

/-! ## All layers -/

section Layers

variable {registry : Registry A} {layers : List Value} {i : Nat} {declared : Declared}
  {g : Graph A} {e : BlueprintError}

variable (registry g) in
/-- Either all layers pass all checks, and the table holds their names in the end, or the first
layer that fails a check decides. -/
theorem addLayers_spec (rest : List Value) (hrest : layers.drop i = rest)
    (htable : Tabulates declared layers i)
    (hfront : ∀ j < i, ∀ w, layers[j]? = some w → ∀ check : LayerCheck,
      check.Passes registry layers j w) :
    (∃ declared' g', g.addLayers registry rest i declared = (.ok declared', g') ∧
      AllPass registry layers ∧ Tabulates declared' layers layers.length) ∨
    ∃ e g', g.addLayers registry rest i declared = (.error e, g') ∧
      FirstFault registry layers e := by
  -- The induction is on the layers still to come; those in front of `i` have passed and are in the
  -- table.
  induction rest generalizing g declared i with
  | nil =>
      have hi := List.drop_eq_nil_iff.mp hrest
      refine .inl ⟨declared, g, rfl, fun j w hw => hfront j ?_ w hw, fun n => ?_⟩
      · exact Nat.lt_of_lt_of_le (List.getElem?_eq_some_iff.mp hw).1 hi
      · rw [htable n, nameBefore_iff_of_length_le hi, nameBefore_iff_of_length_le (Nat.le_refl _)]
  | cons v rest ih =>
      have hv : layers[i]? = some v := by
        rw [← List.head?_drop, hrest]
        rfl
      rw [Graph.addLayers]
      cases hplan : LayerPlan.ofValue registry declared i v with
      | error e => exact .inr ⟨e, g, rfl, i, v, hv, hfront, refusedAt_of_ofValue htable hplan⟩
      | ok plan =>
          dsimp only
          cases hadd : g.addLayer declared plan with
          | mk added g₁ =>
              cases added with
              | error e =>
                  exact .inr ⟨e, g₁, rfl, i, v, hv, hfront, refusedAt_of_addLayer htable hplan hadd⟩
              | ok declared₁ =>
                  obtain ⟨hpasses, htable₁⟩ := passes_of_addLayer htable hv hplan hadd
                  -- the layer passed, so that one layer more stands in front of the rest
                  refine ih _ ?_ htable₁ fun j hj w hw => ?_
                  · rw [← List.tail_drop, hrest]
                    rfl
                  · rcases Nat.lt_succ_iff_lt_or_eq.mp hj with hj | rfl
                    · exact hfront j hj w hw
                    · rw [hv] at hw
                      rwa [← Option.some.inj hw]

/-- The first fault is one. -/
theorem FirstFault.not_allPass (h : FirstFault registry layers e) : ¬ AllPass registry layers := by
  obtain ⟨i, v, hv, -, check, -, hfails, -⟩ := h
  exact fun hall => hfails (hall i v hv check)

end Layers

/-! ## Blueprints -/

section Blueprint

variable {registry : Registry A} {g g' : Graph A} {fields : Fields} {layers : List Value}
  {declared : Declared}

/-- A blueprint without layers is none. -/
theorem Fields.layers_eq_ok_iff :
    fields.layers = .ok layers ↔ fields.at? "layers" = some (.list layers) ∧ layers ≠ [] := by
  constructor
  · intro h
    refine ⟨layers_eq_ok h, ?_⟩
    rintro rfl
    rw [Fields.layers, layers_eq_ok h] at h
    cases h
  · rintro ⟨h, hne⟩
    obtain ⟨v, rest, rfl⟩ := List.exists_cons_of_ne_nil hne
    rw [Fields.layers, h]

/-- The output is looked up once all layers are added. -/
theorem selectOutput_spec {v : Value} (hv : fields.at? "output" = some v)
    (htable : Tabulates declared layers layers.length) :
    (∃ built, Graph.selectOutput fields declared = .ok built ∧
      ∃ i, v.hasText ∧ NameAt layers i v.text) ∨
    ∃ e, Graph.selectOutput fields declared = .error e ∧ fields.OutputFault layers e := by
  -- once all layers are declared, the table has the names of all of them
  have hnames (n : Text) : (∃ h, declared.lookup n = some h) ↔ ∃ i, NameAt layers i n :=
    (htable n).trans (nameBefore_iff_of_length_le (Nat.le_refl _))
  rw [Graph.selectOutput, Fields.textAt, hv]
  dsimp only
  by_cases htext : v.hasText
  · rw [if_pos htext, ok_bind]
    cases hlookup : declared.lookup v.text with
    | some h =>
        obtain ⟨i, hi⟩ := (hnames v.text).mp ⟨h, hlookup⟩
        exact .inl ⟨_, rfl, i, htext, hi⟩
    | none =>
        refine .inr ⟨_, rfl, v, hv, .inr ⟨htext, fun i hi => ?_, rfl⟩⟩
        obtain ⟨h, hh⟩ := (hnames v.text).mpr ⟨i, hi⟩
        rw [hlookup] at hh
        cases hh
  · rw [if_neg htext]
    exact .inr ⟨_, rfl, v, hv, .inl ⟨Bool.not_eq_true _ ▸ htext, rfl⟩⟩

/-- A blueprint with both keys and some layers is accepted, or it is refused because of a layer or
else because of its output. -/
theorem build_spec (g : Graph A) (registry : Registry A) (houtput : (fields.at? "output").isSome)
    (hlayers : fields.layers = .ok layers) :
    (∃ built g', g.build registry (.map fields) = (.ok built, g') ∧
      fields.Acceptable registry layers) ∨
    ∃ e g', g.build registry (.map fields) = (.error e, g') ∧
      (FirstFault registry layers e ∨ AllPass registry layers ∧ fields.OutputFault layers e) := by
  obtain ⟨hat, hne⟩ := Fields.layers_eq_ok_iff.mp hlayers
  obtain ⟨v, hv⟩ := Option.isSome_iff_exists.mp houtput
  have hblueprint : (Value.map fields).blueprint = .ok fields :=
    Value.blueprint_map (by simp [requiredKeys, hat, hv])
  rw [Graph.build, hblueprint]
  dsimp only
  rw [hlayers]
  dsimp only
  -- nothing stands in front of the first layer, and nothing is declared yet
  rcases addLayers_spec registry g layers List.drop_zero (tabulates_nil layers)
    (fun j hj => absurd hj (Nat.not_lt_zero j)) with
    ⟨declared, g', hadd, hpass, htable⟩ | ⟨e, g', hadd, hfault⟩
  · rw [hadd]
    dsimp only
    rcases selectOutput_spec hv htable with ⟨built, hselect, i, htext, hi⟩ | ⟨e, hselect, hfault⟩
    · exact .inl ⟨built, g', by rw [hselect], hat, hne, hpass, v, i, hv, htext, hi⟩
    · exact .inr ⟨e, g', by rw [hselect], .inr ⟨hpass, hfault⟩⟩
  · rw [hadd]
    exact .inr ⟨e, g', rfl, .inl hfault⟩

/-- What is accepted has both keys, and some layers. -/
theorem exists_layers_of_build {config : Value} {built : Built}
    (hbuild : g.build registry config = (.ok built, g')) :
    ∃ (fields : Fields) (layers : List Value), config = .map fields ∧
      (fields.at? "output").isSome ∧ fields.layers = .ok layers := by
  rw [Graph.build] at hbuild
  split at hbuild
  · cases hbuild
  · next fields hfields =>
      obtain ⟨rfl, hkeys⟩ := Value.blueprint_eq_ok hfields
      cases hlayers : fields.layers with
      | error e =>
          rw [hlayers] at hbuild
          cases hbuild
      | ok layers => exact ⟨fields, layers, rfl, hkeys "output" (by decide), hlayers⟩

/-- A blueprint is accepted just if it is a mapping with both keys whose layers pass all checks and
whose output is one of their names. Where a layer fails a check, the first such layer and the first
such check of this layer decide on the error; otherwise the output does. -/
theorem build_accepts_iff (g : Graph A) (registry : Registry A) (config : Value) :
    ((∃ built g', g.build registry config = (.ok built, g')) ↔
      ∃ (fields : Fields) (layers : List Value), config = .map fields ∧
        fields.Acceptable registry layers) ∧
    ∀ (fields : Fields) layers e g', config = .map fields → (fields.at? "output").isSome →
      fields.at? "layers" = some (.list layers) → layers ≠ [] →
      g.build registry config = (.error e, g') →
      (¬ AllPass registry layers → FirstFault registry layers e) ∧
      (AllPass registry layers → fields.OutputFault layers e) := by
  refine ⟨⟨?_, ?_⟩, ?_⟩
  · rintro ⟨built, g', hbuild⟩  -- accepted: what is built passes
    obtain ⟨fields, layers, rfl, houtput, hlayers⟩ := exists_layers_of_build hbuild
    rcases build_spec g registry houtput hlayers with ⟨_, _, _, hacceptable⟩ | ⟨e, _, hrefused, _⟩
    · exact ⟨fields, layers, rfl, hacceptable⟩
    · rw [hbuild] at hrefused
      cases hrefused
  · rintro ⟨fields, layers, rfl, hacceptable⟩  -- passing: the other outcomes need a fault
    obtain ⟨v, i, hv, htext, hi⟩ := hacceptable.output
    have hlayers := Fields.layers_eq_ok_iff.mpr ⟨hacceptable.layers_eq, hacceptable.nonempty⟩
    rcases build_spec g registry (Option.isSome_iff_exists.mpr ⟨v, hv⟩) hlayers with
      ⟨built, g', hbuild, -⟩ | ⟨e, g', -, hfault | ⟨-, w, hw, hfault⟩⟩
    · exact ⟨built, g', hbuild⟩
    · exact absurd hacceptable.allPass hfault.not_allPass
    · rw [hv] at hw
      obtain rfl := Option.some.inj hw
      rcases hfault with ⟨hnone, -⟩ | ⟨-, hstranger, -⟩
      · rw [htext] at hnone
        cases hnone
      · exact absurd hi (hstranger i)
  -- refused: the fault is that of the check that fails
  · rintro fields layers e g' rfl houtput hat hne hbuild
    rcases build_spec g registry houtput (Fields.layers_eq_ok_iff.mpr ⟨hat, hne⟩) with
      ⟨_, _, haccepted, -⟩ | ⟨e', _, hrefused, hfault⟩
    · rw [hbuild] at haccepted
      cases haccepted
    · rw [hbuild] at hrefused
      obtain rfl := Except.error.inj (Prod.mk.inj hrefused).1
      rcases hfault with hfault | ⟨hpass, hfault⟩
      · exact ⟨fun _ => hfault, fun hpass => absurd hpass hfault.not_allPass⟩
      · exact ⟨fun hfails => absurd hpass hfails, fun _ => hfault⟩

/-- A layer that reads twice from one without a name. -/
def unnamedLayers : Value :=
  .record [("output", .str "layer1"), ("layers", .list [
    .record [("cardinality", .int 3)],
    .record [("cardinality", .int 1), ("inputs", .list [.str "layer0", .str "layer0"])]])]

/-- Layers of which the second one has the name of the first by default. It fails four more checks,
and the third one is no layer at all. -/
def collidingLayers : List Value := [
  .record [("name", .str "layer1"), ("cardinality", .int 2)],
  .record [("cardinality", .bool true), ("activation", .str "gelu"), ("inputs", .int 7)],
  .null]

/-- A layer without a name can be read by the name that it gets. Of two layers with one name the
second one is refused, for the first check that it fails, and before the layer behind it is looked
at. -/
theorem build_collidingLayers :
    (∃ fields layers, unnamedLayers = .map fields ∧
      Fields.Acceptable .standard fields layers) ∧
    ∃ g', (Graph.empty : Graph Numeric).build .standard
        (.record [("output", .str "none"), ("layers", .list collidingLayers)]) =
          (.error (.duplicateName "layer1"), g') ∧
      FirstFault .standard collidingLayers (.duplicateName "layer1") := by
  constructor
  · obtain ⟨haccepts, -⟩ := build_accepts_iff (Graph.empty : Graph Numeric) .standard unnamedLayers
    exact haccepts.mp ⟨_, _, rfl⟩
  · obtain ⟨-, hrefuses⟩ := build_accepts_iff (Graph.empty : Graph Numeric) .standard
      (.record [("output", .str "none"), ("layers", .list collidingLayers)])
    obtain ⟨hfault, -⟩ := hrefuses _ collidingLayers _ _ rfl rfl rfl (by simp [collidingLayers]) rfl
    refine ⟨_, rfl, hfault fun hall => ?_⟩
    obtain ⟨layer, n, hlayer, hn, hfresh⟩ := hall 1 _ rfl .name
    cases hlayer
    obtain rfl := Except.ok.inj hn
    exact hfresh ⟨0, by decide, _, rfl, rfl⟩

end Blueprint

end Feedforward
