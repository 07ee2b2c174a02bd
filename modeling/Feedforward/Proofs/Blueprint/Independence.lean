import Feedforward.Proofs.Blueprint.Layout
import Feedforward.Proofs.Network.Renaming

/-!
# What of a blueprint matters

Two blueprints may declare their layers in different orders, and layers that the output does not
reach. Building them hands out different handles and makes different numbers of copies. If they have
the same output, and the second one declares all that the output of the first one reaches, then the
names lead from the groups of the one to those of the other: `counterpart` carries them over, and
compiling cannot tell the difference (`compile_eq_of_same_declarations`).
-/

namespace Feedforward

variable {A : Type}

/-- The group of another table that stands behind the same name. -/
def counterpart (g : Graph A) (declared : Declared) (h : Handle) : Handle :=
  match g.nameOf? h with
  | some (.str n) => (declared.lookup n).getD 0
  | _ => 0

section

variable {g₁ g₂ : Graph A} {registry : Registry A} {ds₁ ds₂ : List Declaration}
  {declared₁ declared₂ : Declared} {n output : Text} {u h₁ h₂ : Handle}

theorem Declares.counterpart_eq (htable₁ : Declares g₁ registry ds₁ declared₁)
    (declared₂ : Declared) (hn : declared₁.lookup n = some u) :
    counterpart g₁ declared₂ u = (declared₂.lookup n).getD 0 := by
  rw [counterpart, htable₁.nameOf?_eq hn]

/-- Groups that stand for the same layer read from counterparts. -/
theorem StandsFor.rename_eq {d : Declaration} {v : Handle} {a b : Activation A}
    {us vs : List Handle} (htable₁ : Declares g₁ registry ds₁ declared₁)
    (hstands₁ : StandsFor g₁ registry declared₁ d u a us)
    (hstands₂ : StandsFor g₂ registry declared₂ d v b vs) :
    g₂.group? v = (g₁.group? u).map (·.rename (counterpart g₁ declared₂)) := by
  obtain rfl := Option.some.inj (hstands₁.activation.symm.trans hstands₂.activation)
  have hus := hstands₁.map_eq fun n u hu => htable₁.counterpart_eq declared₂ hu
  have hvs : vs.map id = d.inputs.map fun n => (declared₂.lookup n).getD 0 :=
    hstands₂.map_eq fun n v hv => by rw [hv]; rfl
  rw [List.map_id] at hvs
  rw [hstands₂.group, hstands₁.group, hvs, ← hus]
  rfl

/-- A group that is reached and its counterpart stand behind one name, for the same layer. -/
theorem Declares.exists_counterpart (htable₁ : Declares g₁ registry ds₁ declared₁)
    (htable₂ : Declares g₂ registry ds₂ declared₂) (houtput : declared₁.lookup output = some h₁)
    (hsame : ∀ d ∈ ds₁, Declaration.Reached ds₁ output d.name → d ∈ ds₂)
    (hu : g₁.Reaches h₁ u) :
    ∃ n, declared₁.lookup n = some u ∧
      declared₂.lookup n = some (counterpart g₁ declared₂ u) ∧
      g₂.group? (counterpart g₁ declared₂ u) =
        (g₁.group? u).map (·.rename (counterpart g₁ declared₂)) := by
  obtain ⟨n, hreached, hn⟩ := (htable₁.reaches_iff houtput).mp hu
  obtain ⟨d, hd, rfl, a, us, hstands₁⟩ := htable₁.exists_standsFor_of_lookup hn
  obtain ⟨v, b, vs, hv, hstands₂⟩ := htable₂.exists_standsFor (hsame d hd hreached)
  have hcounterpart : counterpart g₁ declared₂ u = v := by
    rw [htable₁.counterpart_eq _ hn, hv]
    rfl
  rw [hcounterpart]
  exact ⟨d.name, hn, hv, hstands₁.rename_eq htable₁ hstands₂⟩

/-- The counterparts carry the groups that the output reaches over to the other graph. -/
theorem Declares.carriesGroups (htable₁ : Declares g₁ registry ds₁ declared₁)
    (htable₂ : Declares g₂ registry ds₂ declared₂) (houtput : declared₁.lookup output = some h₁)
    (hsame : ∀ d ∈ ds₁, Declaration.Reached ds₁ output d.name → d ∈ ds₂) :
    g₁.CarriesGroups g₂ (counterpart g₁ declared₂) h₁ := by
  constructor
  · intro u v hu hv heq
    obtain ⟨n, hn, hn₂, -⟩ := htable₁.exists_counterpart htable₂ houtput hsame hu
    obtain ⟨m, hm, hm₂, -⟩ := htable₁.exists_counterpart htable₂ houtput hsame hv
    rw [heq] at hn₂
    rw [htable₂.eq_of_lookup hn₂ hm₂] at hn
    exact Option.some.inj (hn.symm.trans hm)
  · intro u hu
    obtain ⟨-, -, -, hgroup⟩ := htable₁.exists_counterpart htable₂ houtput hsame hu
    exact hgroup

/-- The counterpart of the output is the output. -/
theorem Declares.counterpart_output (htable₁ : Declares g₁ registry ds₁ declared₁)
    (houtput₁ : declared₁.lookup output = some h₁) (houtput₂ : declared₂.lookup output = some h₂) :
    counterpart g₁ declared₂ h₁ = h₂ := by
  rw [htable₁.counterpart_eq _ houtput₁, houtput₂]
  rfl

end

/-- Two blueprints with the same output, of which the second declares every layer that the output of
the first reaches, in whatever order and whatever else is declared. Compiling either of them answers
exactly where there is room for these layers. With one generator, both are refused because of the
same array, or both networks have the same layout and the same weights. A layer that is named after
its position is declared with this name. -/
theorem compile_eq_of_same_declarations (g₁ g₂ g₁' g₂' : Graph Numeric)
    (registry : Registry Numeric) (config₁ config₂ : Value) (built₁ built₂ : Built)
    (ds₁ ds₂ : List Declaration) (output : Text) (memory : Nat) (kind : ElementKind)
    (gen : Generator) (hkind : kind ≠ .int64)
    (hbuild₁ : g₁.build registry config₁ = (.ok built₁, g₁'))
    (hbuild₂ : g₂.build registry config₂ = (.ok built₂, g₂'))
    (hds₁ : config₁.declarations? = some ds₁) (hds₂ : config₂.declarations? = some ds₂)
    (houtput₁ : config₁.outputName? = some output) (houtput₂ : config₂.outputName? = some output)
    (hsame : ∀ d ∈ ds₁, Declaration.Reached ds₁ output d.name → d ∈ ds₂) :
    ((∃ net gen',
        g₁'.compile (Numeric.allocation memory kind) built₁.output gen = (.ok net, gen')) ↔
      ∀ d ∈ ds₁, Declaration.Reached ds₁ output d.name → d.HasRoom ds₁ memory kind) ∧
    ((∃ fault gen',
      g₁'.compile (Numeric.allocation memory kind) built₁.output gen =
        (.error (.array fault), gen') ∧
      g₂'.compile (Numeric.allocation memory kind) built₂.output gen =
        (.error (.array fault), gen')) ∨
    ∃ net₁ net₂ gen' l,
      g₁'.compile (Numeric.allocation memory kind) built₁.output gen = (.ok net₁, gen') ∧
      g₂'.compile (Numeric.allocation memory kind) built₂.output gen = (.ok net₂, gen') ∧
      net₁.layout g₁' = .ok l ∧ net₂.layout g₂' = .ok l ∧
      net₂.layers.toList.map (·.weights) = net₁.layers.toList.map (·.weights)) := by
  obtain ⟨es₁, hes₁, hname₁, htable₁, hlookup₁⟩ := Graph.build_eq_ok hbuild₁
  obtain ⟨es₂, hes₂, hname₂, htable₂, hlookup₂⟩ := Graph.build_eq_ok hbuild₂
  obtain rfl := Option.some.inj (hds₁.symm.trans hes₁)
  obtain rfl := Option.some.inj (hds₂.symm.trans hes₂)
  rw [← Option.some.inj (houtput₁.symm.trans hname₁)] at hlookup₁
  rw [← Option.some.inj (houtput₂.symm.trans hname₂)] at hlookup₂
  have hcarries := htable₁.carriesGroups htable₂ hlookup₁ hsame
  have hgroups := htable₁.exists_group hlookup₁
  refine ⟨htable₁.exists_compile_iff hlookup₁ hkind gen, ?_⟩
  rw [← htable₁.counterpart_output hlookup₁ hlookup₂]
  exact hcarries.compile_eq_or_exists (htable₁.acyclicFrom hlookup₁) hgroups _ gen

/-- Two layers that read from one source and are read together. -/
def sides : Value := .map <| Preset.blueprint 0 "merge" [
  Preset.source "in" 4,
  Preset.layer "left" 3 "relu" ["in", "in"],
  Preset.layer "right" 2 "tanh" ["in"],
  Preset.layer "merge" 1 "sigmoid" ["left", "right"]]

/-- The layers of `sides` in another order, among layers that are not used. -/
def sidesReordered : Value := .map <| Preset.blueprint 7 "merge" [
  Preset.source "spare" 5,
  Preset.source "in" 4,
  Preset.layer "right" 2 "tanh" ["in"],
  Preset.layer "left" 3 "relu" ["in", "in"],
  Preset.layer "merge" 1 "sigmoid" ["left", "right"],
  Preset.layer "after" 2 "linear" ["merge", "spare"]]

/-- What `sides` declares. -/
def sidesLayers : List Declaration := [
  ⟨"in", 4, "linear", []⟩,
  ⟨"left", 3, "relu", ["in", "in"]⟩,
  ⟨"right", 2, "tanh", ["in"]⟩,
  ⟨"merge", 1, "sigmoid", ["left", "right"]⟩]

/-- `sides` and `sidesReordered` compile to one layout with one list of weights, though their groups
have different handles. -/
theorem compile_sidesReordered_eq :
    ElementKind.float64 ≠ .int64 ∧ sides.declarations? = some sidesLayers ∧
    (∃ ds, sidesReordered.declarations? = some ds ∧ ∀ d ∈ sidesLayers, d ∈ ds) ∧
    ∃ built₁ built₂ g₁ g₂ net₁ net₂ gen' l,
      Graph.empty.build Registry.standard sides = (.ok built₁, g₁) ∧
      Graph.empty.build Registry.standard sidesReordered = (.ok built₂, g₂) ∧
      g₁.compile Numeric.doubles built₁.output (.ofSeed [0]) = (.ok net₁, gen') ∧
      g₂.compile Numeric.doubles built₂.output (.ofSeed [0]) = (.ok net₂, gen') ∧
      net₁.layout g₁ = .ok l ∧ net₂.layout g₂ = .ok l ∧
      net₂.layers.toList.map (·.weights) = net₁.layers.toList.map (·.weights) := by
  have hkind : ElementKind.float64 ≠ .int64 := by decide
  have hlayers : sides.declarations? = some sidesLayers := by rfl
  obtain ⟨ds, hds, hsub⟩ :
      ∃ ds, sidesReordered.declarations? = some ds ∧ ∀ d ∈ sidesLayers, d ∈ ds :=
    ⟨_, by rfl, by decide⟩
  obtain ⟨built₁, g₁, hbuild₁⟩ : ∃ built g,
      Graph.empty.build Registry.standard sides = (.ok built, g) := ⟨_, _, by rfl⟩
  obtain ⟨built₂, g₂, hbuild₂⟩ : ∃ built g,
      Graph.empty.build Registry.standard sidesReordered = (.ok built, g) := ⟨_, _, by rfl⟩
  obtain ⟨hanswer, hsame⟩ := compile_eq_of_same_declarations .empty .empty g₁ g₂ .standard sides
    sidesReordered built₁ built₂ sidesLayers ds "merge" Numeric.usualMemory .float64 (.ofSeed [0])
    hkind hbuild₁ hbuild₂ hlayers hds rfl rfl fun d hd _ => hsub d hd
  -- the layers are small enough, so the other outcome does not occur
  have hroom : ∀ d ∈ sidesLayers, d.HasRoom sidesLayers Numeric.usualMemory .float64 := by decide
  obtain ⟨net, gen', hcompile⟩ := hanswer.mpr fun d hd _ => hroom d hd
  refine ⟨hkind, hlayers, ⟨ds, hds, hsub⟩, built₁, built₂, g₁, g₂, ?_⟩
  rcases hsame with ⟨fault, gen₁, hfault, -⟩ | ⟨net₁, net₂, gen₁, l, hnets⟩
  · cases hcompile.symm.trans hfault
  · exact ⟨net₁, net₂, gen₁, l, hbuild₁, hbuild₂, hnets⟩

end Feedforward
