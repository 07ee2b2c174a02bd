import Feedforward.Proofs.Command.Run
import Feedforward.Proofs.Yaml.Plain

/-!
# Documents that are no mappings

A run takes a mapping from its document or ends. A JSON text with any other value ends it. A YAML
text does so only if its value does not count as nothing: null, false, zeros and what is empty count
as an absent document (`Document.CountsAsAbsent`), and the run goes on with its preset. None of this
depends on how YAML is read.
-/

namespace Feedforward.Command

open Document

variable {files : FileTree} {around : Surroundings} {words : List String} {a : Arguments}
  {readYaml : Yaml.Reader} {p : Path} {s : String} {v : Value} {m : Fields} {x : Language}

/-! ## Runs with a document -/

/-- The settings ask for a document, which is a text in a language. -/
structure Asks (files : FileTree) (words : List String) (a : Arguments) (p : Path) (s : String)
    (x : Language) : Prop where
  parse : Arguments.parse words = .ok a
  listPresets : a.listPresets = false
  config : a.config = some p
  text : ∃ content, files.read p = .ok content ∧ decode? content = some s
  language : Language.ofSuffix? p.suffix = some x

theorem readDocument_ok_eq_ok_iff {content : ByteArray} :
    readDocument readYaml p (.ok content) = .ok m ↔ Document.read readYaml p content = .ok m := by
  rw [readDocument]
  cases Document.read readYaml p content <;> simp

theorem readDocument_ok_eq_error_iff {content : ByteArray} {e : DocumentError} :
    readDocument readYaml p (.ok content) = .error (.document e) ↔
      Document.read readYaml p content = .error e := by
  rw [readDocument]
  cases Document.read readYaml p content <;> simp

namespace Asks

/-- A document is accepted if its value is a mapping, or if it counts as absent. -/
theorem accepts_iff (h : Asks files words a p s x) :
    readDocument readYaml p (files.read p) = .ok m ↔
      Denotes readYaml s (.map m) x ∨ m = [] ∧ CountsAsAbsent readYaml s x := by
  obtain ⟨content, hread, htext⟩ := h.text
  rw [hread, readDocument_ok_eq_ok_iff, read_eq_ok_iff htext h.language, parse_eq_ok_iff,
    Value.map.injEq, and_comm]
  constructor
  · rintro (habsent | ⟨-, hdenotes⟩)
    · exact .inr habsent
    · exact .inl hdenotes
  · rintro (hdenotes | habsent)
    · by_cases habsent : CountsAsAbsent readYaml s x
      · -- a mapping that counts as nothing is the empty one
        exact .inl ⟨List.isEmpty_iff.mp ((countsAsAbsent_iff hdenotes).mp habsent).2, habsent⟩
      · exact .inr ⟨habsent, hdenotes⟩
    · exact .inl habsent

/-- A document is refused if its value is no mapping and, in YAML, does not count as nothing. -/
theorem refuses_iff (h : Asks files words a p s x) :
    readDocument readYaml p (files.read p) = .error (.document (.notAMapping p.name)) ↔
      ∃ v, Denotes readYaml s v x ∧ (∀ m, v ≠ .map m) ∧ (x = .yaml → ¬ v.isVoid) := by
  obtain ⟨content, hread, htext⟩ := h.text
  rw [hread, readDocument_ok_eq_error_iff, read_eq_notAMapping_iff htext h.language]
  refine exists_congr fun v => ?_
  rw [parse_eq_ok_iff]
  constructor
  · rintro ⟨⟨-, rfl⟩ | ⟨habsent, hdenotes⟩, hmap⟩
    · exact absurd rfl (hmap [])
    · rw [countsAsAbsent_iff hdenotes, not_and] at habsent
      exact ⟨hdenotes, hmap, habsent⟩
  · rintro ⟨hdenotes, hmap, hvoid⟩
    rw [← not_and, ← countsAsAbsent_iff hdenotes] at hvoid
    exact ⟨.inr ⟨hvoid, hdenotes⟩, hmap⟩

theorem run_eq (h : Asks files words a p s x) (around : Surroundings) :
    run files around words = .of files (treeDisk.runArguments around a) := by
  rw [run, Disk.run, h.parse]

/-- A run without its document ends at once. -/
theorem run_of_error (h : Asks files words a p s x) (around : Surroundings) {e : Failure}
    (herror : readDocument around.readYaml p (files.read p) = .error e) :
    ∃ e', run files around words = ⟨⟨.failure e', "", []⟩, files⟩ ∧
      (a.logLevel.isSome → a.preset.isSome → e' = e) := by
  rw [h.run_eq, Disk.runArguments]
  split
  · next hlevel => exact ⟨_, rfl, fun h => by rw [hlevel] at h; cases h⟩
  · rw [h.listPresets, if_neg Bool.false_ne_true, Outcome.of_bind, run_loadConfig,
      readConfig_of_config h.config, herror]
    cases hchoose : choosePreset a with
    | error e' =>
        refine ⟨e', rfl, fun _ hpreset => ?_⟩
        obtain ⟨preset, hpreset⟩ := exists_choosePreset h.parse hpreset
        cases hchoose.symm.trans hpreset
    | ok preset => exact ⟨e, rfl, fun _ _ => rfl⟩

/-- A run with an empty document is a run without a document. -/
theorem run_of_empty (h : Asks files words a p s x) (around : Surroundings)
    (hempty : readDocument around.readYaml p (files.read p) = .ok []) :
    run files around words =
      .of files (treeDisk.runArguments around { a with config := none }) := by
  have hconfig : readConfig files around a = readConfig files around { a with config := none } := by
    rw [readConfig_of_config h.config, readConfig_of_no_config rfl, hempty]
    -- nothing is merged into the preset
    rfl
  rw [h.run_eq, Disk.runArguments, Disk.runArguments]
  cases a.logLevel with
  | none => rfl
  | some level =>
      dsimp only
      rw [h.listPresets, if_neg Bool.false_ne_true, if_neg Bool.false_ne_true, Outcome.of_bind,
        Outcome.of_bind, run_loadConfig, run_loadConfig, hconfig]
      rfl

end Asks

/-! ## Runs of the bare preset -/

/-- The preset that is taken when none is named. -/
def barePreset : Fields := Preset.blueprint 0 "out" [
  Preset.source "in" 3,
  Preset.layer "hidden" 2 "linear" ["in"],
  Preset.layer "out" 1 "linear" ["hidden"]]

/-- The graph of `barePreset`, in which layers stand without their inputs first. -/
def barePresetGraph : Graph Numeric := ⟨#[
  some ⟨3, .linear, [], some (.str "in")⟩,
  some ⟨2, .linear, [], some (.str "hidden")⟩,
  some ⟨2, .linear, [0], some (.str "hidden")⟩,
  some ⟨1, .linear, [], some (.str "out")⟩,
  some ⟨1, .linear, [2], some (.str "out")⟩]⟩

/-- The network of `barePreset` before anything is drawn. -/
def barePresetNetwork : Network Numeric :=
  let zeros (n : Nat) : Numeric := .zeros [n] .float64
  .ofLayers [barePresetGraph.layerOf zeros 0 none,
    barePresetGraph.layerOf zeros 2 (some (.zeros [2, 3] .float64)),
    barePresetGraph.layerOf zeros 4 (some (.zeros [1, 2] .float64))]

/-- Building leaves five groups, two of which are copies without their inputs. -/
theorem build_barePreset :
    (Graph.empty : Graph Numeric).build Registry.standard (.map barePreset) =
      (.ok ⟨[("out", 4), ("hidden", 2), ("in", 0)], "out", 4⟩, barePresetGraph) := by rfl

/-- The layers of the preset, of which two have weights. -/
theorem shaped_barePresetNetwork : barePresetNetwork.Shaped barePresetGraph 4 where
  follows := by
    have horder : barePresetGraph.order 4 = .ok [0, 2, 4] := by cbv
    exact horder
  weights := by
    intro layer hlayer
    obtain rfl | rfl | rfl : layer = _ ∨ layer = _ ∨ layer = _ := by
      simpa using List.mem_toArray.mp hlayer
    · exact ⟨iff_of_true rfl rfl, by rintro w ⟨⟩⟩
    · exact ⟨iff_of_false (Option.some_ne_none _) (List.cons_ne_nil _ _), by rintro w ⟨⟩; rfl⟩
    · exact ⟨iff_of_false (Option.some_ne_none _) (List.cons_ne_nil _ _), by rintro w ⟨⟩; rfl⟩
  signal := by
    intro layer hlayer
    obtain rfl | rfl | rfl : layer = _ ∨ layer = _ ∨ layer = _ := by
      simpa using List.mem_toArray.mp hlayer
    · exact ⟨_, rfl, rfl⟩
    · exact ⟨_, rfl, rfl⟩
    · exact ⟨_, rfl, rfl⟩

/-- A run without arguments succeeds, whatever the files are. -/
theorem run_bare_delivers (files : FileTree) (hmemory : Numeric.usualMemory ≤ around.memory) :
    ∃ d, (run files around []).Delivers files around.stamp d none := by
  obtain ⟨ds, hds, hroom⟩ : ∃ ds, (Value.map barePreset).declarations? = some ds ∧
      ∀ d ∈ ds, d.HasRoom ds Numeric.usualMemory .float64 := ⟨_, by rfl, by decide⟩
  obtain ⟨d, hdraft⟩ : ∃ d, (draft around barePreset).2 = .ok d :=
    exists_draft build_barePreset hds (fun d hd => (hroom d hd).mono hmemory) (by rfl)
  have hlayout := layout_eq_of_shaped hdraft build_barePreset shaped_barePresetNetwork
  refine ⟨d, run_delivers (a := Arguments.default) rfl rfl rfl (by rfl) hdraft ?_ nofun⟩
  rw [← Except.ok.inj hlayout]
  decide +kernel

/-! ## What a run makes of its document -/

/-- What a run makes of its document, whatever reads YAML. It refuses values that are no mappings,
unless the document is YAML and its value counts as nothing; a run that refuses its document prints
nothing and writes nothing. The mappings that it takes are those in documents, and the empty one for
a document that counts as absent; it goes on then as if there were none. A YAML document that is
read as a plain scalar counts as absent if it is spelled like null, false or zero. -/
theorem run_without_mapping (h : Asks files words a p s x) (around : Surroundings) :
    (readDocument around.readYaml p (files.read p) = .error (.document (.notAMapping p.name)) ↔
      ∃ v, Denotes around.readYaml s v x ∧ (∀ m, v ≠ .map m) ∧ (x = .yaml → ¬ v.isVoid)) ∧
    (∀ e, readDocument around.readYaml p (files.read p) = .error e →
      ∃ e', run files around words = ⟨⟨.failure e', "", []⟩, files⟩ ∧
        (a.logLevel.isSome → a.preset.isSome → e' = e)) ∧
    (∀ m, readDocument around.readYaml p (files.read p) = .ok m ↔
      Denotes around.readYaml s (.map m) x ∨ m = [] ∧ CountsAsAbsent around.readYaml s x) ∧
    (CountsAsAbsent around.readYaml s x → run files around words =
      .of files (treeDisk.runArguments around { a with config := none })) ∧
    (Yaml.ReadsPlain around.readYaml s →
      (CountsAsAbsent around.readYaml s .yaml ↔ Yaml.VoidSpelling s)) :=
  ⟨h.refuses_iff, fun _ => h.run_of_error around, fun _ => h.accepts_iff,
    fun habsent => h.run_of_empty around (h.accepts_iff.mpr (.inr ⟨rfl, habsent⟩)),
    fun hplain => hplain.exists_isVoid_iff⟩

/-- A document in each of the two languages. -/
def netFiles (json yaml : String) : FileTree := ⟨[
  (FileTree.work ++ ["net.json"], .file json.toUTF8),
  (FileTree.work ++ ["net.yaml"], .file yaml.toUTF8)]⟩

def documentArguments (p : Path) : Arguments := { Arguments.default with config := some p }

/-- A file in the working directory whose name is given with `--config`. -/
theorem asks_of_file {name : String} (hname : FileTree.IsFileName name)
    (hfile : files.entry? (FileTree.work ++ [name]) = some (.file s.toUTF8))
    (hbreaks : '\r' ∉ s.toList)
    (hparse : Arguments.parse ["--config", name] = .ok (documentArguments ⟨"", [name]⟩))
    (hlanguage : Language.ofSuffix? (Path.suffix ⟨"", [name]⟩) = some x) :
    Asks files ["--config", name] (documentArguments ⟨"", [name]⟩) ⟨"", [name]⟩ s x where
  parse := hparse
  listPresets := rfl
  config := rfl
  text := ⟨s.toUTF8, FileTree.read_name hname hfile, decode?_toUTF8 hbreaks⟩
  language := hlanguage

theorem asks_netFiles_json (json yaml : String) (hbreaks : '\r' ∉ json.toList) :
    Asks (netFiles json yaml) ["--config", "net.json"] (documentArguments (.ofText "net.json"))
      (.ofText "net.json") json .json :=
  asks_of_file ⟨by decide, by decide, by decide⟩ rfl hbreaks (by rfl) (by decide +kernel)

theorem asks_netFiles_yaml (json yaml : String) (hbreaks : '\r' ∉ yaml.toList) :
    Asks (netFiles json yaml) ["--config", "net.yaml"] (documentArguments (.ofText "net.yaml"))
      (.ofText "net.yaml") yaml .yaml :=
  asks_of_file ⟨by decide, by decide, by decide⟩ rfl hbreaks (by rfl) (by decide +kernel)

/-- Zero is no mapping. In JSON it is refused, and in YAML it counts as nothing. -/
theorem run_without_mapping_zeros :
    Asks (netFiles "0" "-0x0_0") ["--config", "net.json"]
      (documentArguments (.ofText "net.json")) (.ofText "net.json") "0" .json ∧
    Asks (netFiles "0" "-0x0_0") ["--config", "net.yaml"]
      (documentArguments (.ofText "net.yaml")) (.ofText "net.yaml") "-0x0_0" .yaml ∧
    Yaml.ReadsPlain someSurroundings.readYaml "-0x0_0" ∧
    run (netFiles "0" "-0x0_0") someSurroundings ["--config", "net.json"] =
      ⟨⟨.failure (.document (.notAMapping "net.json")), "", []⟩, netFiles "0" "-0x0_0"⟩ ∧
    run (netFiles "0" "-0x0_0") someSurroundings ["--config", "net.yaml"] =
      .of (netFiles "0" "-0x0_0") (treeDisk.runArguments someSurroundings Arguments.default) := by
  have hjson := asks_netFiles_json "0" "-0x0_0" (by decide)
  have hyaml := asks_netFiles_yaml "0" "-0x0_0" (by decide)
  obtain ⟨hrefused, hfails, -⟩ := run_without_mapping hjson someSurroundings
  obtain ⟨-, -, -, habsent, hspelling⟩ := run_without_mapping hyaml someSurroundings
  have hplain : Yaml.ReadsPlain someSurroundings.readYaml "-0x0_0" := by
    intro v
    have hread : someSurroundings.readYaml "-0x0_0" = .ok (.int 0) := by rfl
    have hvalue : Yaml.plainValue "-0x0_0" = .ok (.int 0) := by rfl
    rw [hread, hvalue, Except.ok.injEq, Except.ok.injEq]
  refine ⟨hjson, hyaml, hplain, ?_, ?_⟩
  -- as JSON a zero is no mapping
  · obtain ⟨e, he, hsame⟩ := hfails _ (hrefused.mpr ⟨.int 0, by rfl, nofun, nofun⟩)
    rw [he, hsame rfl rfl]
    rfl
  · have hzero : Yaml.SpellsZero ['0', 'x', '0', '_', '0'] :=  -- as YAML it counts as nothing
      .hexadecimal (by simp [Yaml.Zeros]) (by decide)
    rw [habsent ((hspelling hplain).mpr (.integer hzero))]
    rfl

/-- The empty list is refused in JSON. In YAML it stands for the empty mapping, and the preset is
compiled. -/
theorem emptyList_runs_preset :
    Json.read "[]" = .ok (.list []) ∧ someSurroundings.readYaml "[]" = .ok (.list []) ∧
    readDocument someSurroundings.readYaml (.ofText "net.json")
      ((netFiles "[]" "[]").read (.ofText "net.json")) =
        .error (.document (.notAMapping "net.json")) ∧
    readDocument someSurroundings.readYaml (.ofText "net.yaml")
      ((netFiles "[]" "[]").read (.ofText "net.yaml")) = .ok [] ∧
    (run (netFiles "[]" "[]") someSurroundings ["--config", "net.yaml"]).ending = .success ∧
    ∃ s, (run (netFiles "[]" "[]") someSurroundings ["--config", "net.yaml"]).output =
      s ++ "\n" := by
  have hjson := asks_netFiles_json "[]" "[]" (by decide)
  have hyaml := asks_netFiles_yaml "[]" "[]" (by decide)
  have hlist : someSurroundings.readYaml "[]" = .ok (.list []) := by rfl
  have hempty := hyaml.accepts_iff.mpr (.inr ⟨rfl, .list [], hlist, rfl⟩)
  have hrun : run (netFiles "[]" "[]") someSurroundings ["--config", "net.yaml"] =
      run (netFiles "[]" "[]") someSurroundings [] := by
    rw [hyaml.run_of_empty someSurroundings hempty]
    rfl
  obtain ⟨d, hdelivers⟩ :=
    run_bare_delivers (netFiles "[]" "[]") (Nat.le_refl someSurroundings.memory)
  obtain ⟨s, -, houtput⟩ := hdelivers.output
  refine ⟨by rfl, hlist, hjson.refuses_iff.mpr ⟨.list [], by rfl, nofun, nofun⟩, hempty, ?_, s, ?_⟩
  · rw [hrun]
    exact hdelivers.ending
  · rw [hrun]
    exact houtput

end Feedforward.Command
