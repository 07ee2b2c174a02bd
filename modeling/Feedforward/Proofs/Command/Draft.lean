import Feedforward.Command.Draft
import Feedforward.Proofs.Blueprint.Alike
import Feedforward.Proofs.Blueprint.Layout
import Feedforward.Proofs.Network.Session

/-!
# What a draft depends on

A draft is a network that is built, compiled and described. None of the three sees the order of the
keys of the configuration, and only the weights depend on the seed. So a configuration that is alike
has a draft with the same layout, and if the seed is in the configuration then also with the same
weights (`exists_compileConfig`).
-/

namespace Feedforward.Command

variable {around : Surroundings} {unseeded : Seed} {config config' : Fields} {g : Graph Numeric}
  {net : Network Numeric} {d : Draft} {seed : Seed}

/-- The configuration has a seed. -/
def Seeded (config : Fields) : Prop := ∃ v, config.at? "seed" = some v ∧ v ≠ .null

/-- A configuration is compiled if it is a blueprint with a seed and its network can be compiled. -/
theorem compileConfig_eq_ok_iff :
    (compileConfig around config).2 = .ok (g, net) ↔
      ∃ built seed gen,
        (Graph.empty : Graph Numeric).build Registry.standard (.map config) = (.ok built, g) ∧
        chooseSeed around.unseeded config = .ok seed ∧
        g.compile (Numeric.allocation around.memory .float64) built.output (.ofSeed seed) =
          (.ok net, gen) := by
  rw [compileConfig]
  constructor
  -- each of the three steps may fail, and only the last one leaves a network
  · intro h
    split at h
    · cases h
    · next built g' hbuild =>
        dsimp only at h
        split at h
        · cases h
        · next seed hseed =>
            split at h
            · cases h
            · next net' hcompile =>
                cases h
                exact ⟨built, seed, _, hbuild, hseed, Prod.ext hcompile rfl⟩
  · rintro ⟨built, seed, gen, hbuild, hseed, hcompile⟩
    rw [hbuild]
    dsimp only
    rw [hseed]
    dsimp only
    rw [hcompile]

/-- A draft holds the graph of the configuration, the layout of its network, and the configuration
itself. -/
theorem draft_eq_ok_iff :
    (draft around config).2 = .ok d ↔
      ∃ net, (compileConfig around config).2 = .ok (d.graph, net) ∧
        net.layout d.graph = .ok d.layout ∧ d.config = config := by
  rw [draft]
  obtain ⟨graph, config', layout⟩ := d
  constructor
  · intro h
    split at h
    · cases h
    · next hcompile =>
        split at h
        · cases h
        · next hlayout =>
            cases h
            exact ⟨_, congrArg Prod.snd hcompile, hlayout, rfl⟩
  · rintro ⟨net, hcompile, hlayout, rfl⟩
    split
    · next hfail => cases hcompile.symm.trans (congrArg Prod.snd hfail)
    · next hok =>
        cases hcompile.symm.trans (congrArg Prod.snd hok)
        rw [hlayout]

/-! ## Seeds -/

/-- Lists and mappings are no seeds. -/
theorem isScalar_of_seedOf {v : Value} {n : Int} (h : seedOf v = .ok n) : v.isScalar := by
  cases v with
  | list => cases h
  | map => cases h
  | _ => rfl

/-- A seed that is accepted is no list and no mapping, so that it is the same in alike
configurations. -/
theorem isScalar_seed (h : chooseSeed unseeded config = .ok seed) :
    (config.at? "seed").all Value.isScalar := by
  rw [chooseSeed] at h
  split at h
  · next hnone => rw [hnone]; rfl
  · next hnull => rw [hnull]; rfl
  · next v _ hv =>
      rw [hv]
      split at h
      · cases h
      · next hseed => exact isScalar_of_seedOf hseed

/-- The seed that is taken instead of a missing one does not matter where there is one. -/
theorem chooseSeed_of_seeded (hseeded : Seeded config) (other : Seed) :
    chooseSeed other config = chooseSeed unseeded config := by
  obtain ⟨v, hv, hne⟩ := hseeded
  rw [chooseSeed, chooseSeed, hv]
  cases v with
  | null => exact absurd rfl hne
  | _ => rfl

/-- Whether a seed is accepted does not depend on the one that is taken where there is none. -/
theorem exists_chooseSeed (h : chooseSeed unseeded config = .ok seed) (other : Seed) :
    ∃ seed', chooseSeed other config = .ok seed' := by
  by_cases hseeded : Seeded config
  · exact ⟨seed, (chooseSeed_of_seeded hseeded other).trans h⟩
  · refine ⟨other, ?_⟩
    rw [chooseSeed]
    split
    · rfl
    · rfl
    · next v hne hv => exact absurd ⟨v, hv, hne⟩ hseeded

theorem chooseSeed_alike (halike : Value.Alike (.map config) (.map config'))
    (h : chooseSeed unseeded config = .ok seed) (other : Seed) :
    chooseSeed other config' = chooseSeed other config := by
  rw [chooseSeed, chooseSeed, halike.at?_eq_of_isScalar (isScalar_seed h)]

/-! ## Networks -/

/-- A configuration that is alike leads to the same graph and to a network with the same layout; if
there is a seed in it, to the same network. It may be compiled with more memory. -/
theorem exists_compileConfig (halike : Value.Alike (.map config) (.map config'))
    (hplain : Fields.Plain config) (h : (compileConfig around config).2 = .ok (g, net))
    (other : Surroundings) (hmemory : around.memory ≤ other.memory) :
    ∃ net', (compileConfig other config').2 = .ok (g, net') ∧ net'.layout g = net.layout g ∧
      (Seeded config → net' = net) := by
  obtain ⟨built, seed, gen, hbuild, hseed, hcompile⟩ := compileConfig_eq_ok_iff.mp h
  have hbuild' := halike.build_eq_ok hplain hbuild
  obtain ⟨seed', hseed'⟩ := exists_chooseSeed hseed other.unseeded
  have hlaw : (Numeric.allocation other.memory .float64).Lawful _ :=
    Numeric.lawful_allocation (show ElementKind.float64 ≠ .int64 by decide)
  replace hcompile := Graph.compile_mono (Numeric.allocation_within hmemory) hcompile
  -- the generator has no part in whether compiling answers
  have hanswers := (Graph.exists_compile_iff hlaw).mp ⟨net, gen, hcompile⟩
  obtain ⟨net', gen', hcompile'⟩ := (Graph.exists_compile_iff hlaw).mpr hanswers
  refine ⟨net', ?_, ?_, fun hseeded => ?_⟩
  · rw [compileConfig_eq_ok_iff]  -- the network
    exact ⟨built, seed', gen', hbuild',
      (chooseSeed_alike halike hseed other.unseeded).trans hseed', hcompile'⟩
  -- its layout, which shows no weights
  · exact ((Graph.laidOut_of_compile hlaw hcompile').intact hlaw).shaped.layout_eq
      ((Graph.laidOut_of_compile hlaw hcompile).intact hlaw).shaped
  -- with a seed in the configuration, the weights
  · rw [chooseSeed_of_seeded hseeded, hseed] at hseed'
    rw [← Except.ok.inj hseed', hcompile] at hcompile'
    exact (Except.ok.inj (Prod.mk.inj hcompile').1).symm

/-! ## Drafts that are there -/

/-- Where the layers have room and the seed is one, there is a draft. -/
theorem exists_draft {built : Built} {ds : List Declaration}
    (hbuild : (Graph.empty : Graph Numeric).build Registry.standard (.map config) = (.ok built, g))
    (hds : (Value.map config).declarations? = some ds)
    (hroom : ∀ d ∈ ds, d.HasRoom ds around.memory .float64)
    (hseed : chooseSeed around.unseeded config = .ok seed) :
    ∃ d, (draft around config).2 = .ok d := by
  obtain ⟨ds', hds', -, htable, houtput⟩ := Graph.build_eq_ok hbuild
  obtain rfl := Option.some.inj (hds.symm.trans hds')
  obtain ⟨net, gen, hcompile⟩ :=
    (htable.exists_compile_iff houtput (by decide) (.ofSeed seed)).mpr fun d hd _ => hroom d hd
  obtain ⟨l, hlayout⟩ :=
    (Graph.follows_of_compile hcompile).exists_layout (htable.exists_group houtput)
  have hnet := compileConfig_eq_ok_iff.mpr ⟨built, seed, gen, hbuild, hseed, hcompile⟩
  exact ⟨⟨g, config, l⟩, draft_eq_ok_iff.mpr ⟨net, hnet, hlayout, rfl⟩⟩

/-- The layout of a draft is that of any network of the same shapes. -/
theorem layout_eq_of_shaped {built : Built} {other : Network Numeric}
    (hdraft : (draft around config).2 = .ok d)
    (hbuild : (Graph.empty : Graph Numeric).build Registry.standard (.map config) = (.ok built, g))
    (hother : other.Shaped g built.output) : other.layout g = .ok d.layout := by
  obtain ⟨net, hnet, hlayout, -⟩ := draft_eq_ok_iff.mp hdraft
  obtain ⟨built', seed, gen, hbuild', -, hcompile⟩ := compileConfig_eq_ok_iff.mp hnet
  cases hbuild.symm.trans hbuild'
  have hlaw : (Numeric.allocation around.memory .float64).Lawful _ :=
    Numeric.lawful_allocation (show ElementKind.float64 ≠ .int64 by decide)
  rw [← hlayout]
  exact hother.layout_eq ((Graph.laidOut_of_compile hlaw hcompile).intact hlaw).shaped

/-- A preset with two layers of its own. -/
def twoLayers : Fields := Preset.blueprint 0 "out" [
  .record [("cardinality", .int 1)],
  .record [("name", .str "out"), ("inputs", .list [.str "layer0"]), ("cardinality", .int 1)]]

/-- The graph of `twoLayers`, in which the second layer stands without its input first. -/
def twoLayersGraph : Graph Numeric := ⟨#[
  some ⟨1, .linear, [], some (.str "layer0")⟩,
  some ⟨1, .linear, [], some (.str "out")⟩,
  some ⟨1, .linear, [0], some (.str "out")⟩]⟩

/-- The network of `twoLayers` before anything is drawn. -/
def twoLayersNetwork : Network Numeric :=
  let zeros (n : Nat) : Numeric := .zeros [n] .float64
  .ofLayers [twoLayersGraph.layerOf zeros 0 none,
    twoLayersGraph.layerOf zeros 2 (some (.zeros [1, 1] .float64))]

def twoLayersLayout : Layout := ⟨[
  ⟨0, some (.str "layer0"), 1, "linear", [], none⟩,
  ⟨1, some (.str "out"), 1, "linear", [0], some [1, 1]⟩], 1⟩

theorem build_twoLayers : (Graph.empty : Graph Numeric).build Registry.standard (.map twoLayers) =
    (.ok ⟨[("out", 2), ("layer0", 0)], "out", 2⟩, twoLayersGraph) := by rfl

theorem shaped_twoLayersNetwork : twoLayersNetwork.Shaped twoLayersGraph 2 where
  follows := by
    have horder : twoLayersGraph.order 2 = .ok [0, 2] := by cbv
    exact horder
  weights := by
    intro layer hlayer
    obtain rfl | rfl := List.mem_pair.mp (List.mem_toArray.mp hlayer)
    · exact ⟨iff_of_true rfl rfl, fun w hw => by cases hw⟩
    · refine ⟨iff_of_false (Option.some_ne_none _) (List.cons_ne_nil 0 []), fun w hw => ?_⟩
      cases hw
      rfl
  signal := by
    intro layer hlayer
    obtain rfl | rfl := List.mem_pair.mp (List.mem_toArray.mp hlayer)
    · exact ⟨_, rfl, rfl⟩
    · exact ⟨_, rfl, rfl⟩

/-- What the run on `twoLayers` comes to. -/
theorem exists_draft_twoLayers (hmemory : Numeric.usualMemory ≤ around.memory) :
    ∃ d, (draft around twoLayers).2 = .ok d ∧ d.layout = twoLayersLayout := by
  obtain ⟨ds, hds, hroom⟩ : ∃ ds, (Value.map twoLayers).declarations? = some ds ∧
      ∀ d ∈ ds, d.HasRoom ds Numeric.usualMemory .float64 := ⟨_, by rfl, by decide⟩
  obtain ⟨d, hdraft⟩ : ∃ d, (draft around twoLayers).2 = .ok d :=
    exists_draft build_twoLayers hds (fun d hd => (hroom d hd).mono hmemory) (by rfl)
  have hlayout := layout_eq_of_shaped hdraft build_twoLayers shaped_twoLayersNetwork
  exact ⟨d, hdraft, (Except.ok.inj hlayout).symm⟩

end Feedforward.Command
