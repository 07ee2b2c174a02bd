import Feedforward.Proofs.Command.Arguments
import Feedforward.Proofs.Command.Run

/-!
# Running again from a layout file

A layout file holds the configuration of the run that wrote it: the preset with the document merged
into it and the seed of the command line. It is complete, so that a second run that is given it as
its document takes nothing from a preset, and comes to the same layout.

Writing puts the keys of mappings in order, so that the second run reads a configuration that is
alike and not the same one. What it makes of it is the same all the same, for configurations that
are `Plain`, and what it writes of it as well, for those that are `Textual`.
-/

namespace Feedforward

/-- The mapping without what stands at a text. -/
def Fields.without (m : Fields) (name : String) : Fields := m.filter fun e => !e.1.same (.str name)

/-- The file at a path is the mapping in JSON, spread over lines. -/
def FileTree.Dumps (t : FileTree) (p : Path) (m : Fields) : Prop :=
  ∃ text, Json.write (.lines 2) (.map m) = .ok text ∧ t.read p = .ok text.toUTF8

/-- The settings take a document instead of a preset and leave the seed to it. -/
structure Arguments.Reruns (a : Arguments) (p : Path) : Prop where
  preset : a.preset.isSome
  config : a.config = some p
  seed : a.seed = .absent
  listPresets : a.listPresets = false
  logLevel : a.logLevel.isSome

namespace Command

variable {files files' t : FileTree} {around around' : Surroundings} {a a' : Arguments}
  {words words' : List String} {p p' : Path} {config config' : Fields} {d : Draft} {o : Outcome}
  {stamp : Stamp} {dump : Option Path}

/-- What was printed is the mapping in JSON, on a line. -/
def Outcome.Prints (o : Outcome) (m : Fields) : Prop :=
  ∃ s, Json.write .oneLine (.map m) = .ok s ∧ o.output = s ++ "\n"

/-! ## What was written -/

def Draft.layoutFields (d : Draft) : Fields := d.layout.fields.map fun (name, v) => (.str name, v)

def Draft.printed (d : Draft) (dump : Option Path) : Fields :=
  d.layoutFields ++ dump.elim [] fun p => [(.str "layout_path", .str p.text)]

def Draft.dumped (d : Draft) (stamp : Stamp) : Fields := [
  (.str "git_sha", .str stamp.revision),
  (.str "generated_at", .str stamp.time),
  (.str "config", .map d.config),
  (.str "layout", .map d.layoutFields)]

theorem Draft.summaryValue_eq (d : Draft) (dump : Option Path) :
    d.summaryValue dump = .map (d.printed dump) := by
  cases dump <;> rfl

/-- What is printed is the layout, but for the place where it was written. -/
@[simp] theorem Draft.without_printed (d : Draft) (dump : Option Path) :
    (d.printed dump).without "layout_path" = d.layoutFields := by
  cases dump <;> rfl

theorem Outcome.Delivers.prints (h : o.Delivers files stamp d dump) :
    o.Prints (d.printed dump) := by
  obtain ⟨s, hs, houtput⟩ := h.output
  rw [Draft.summaryValue_eq] at hs
  exact ⟨s, hs, houtput⟩

theorem Outcome.Delivers.dumps (h : o.Delivers files stamp d (some p)) :
    o.files.Dumps p (d.dumped stamp) := by
  obtain ⟨text, place, htext, hread, -⟩ := h.files
  exact ⟨text, Draft.report_eq_ok_iff.mp htext, hread⟩

/-! ## The second configuration -/

theorem isComplete_iff : isComplete config ↔ ∀ name ∈ requiredKeys, (config.at? name).isSome := by
  rw [isComplete, List.all_eq_true]
  rfl

/-- What a draft was made of has the required keys. -/
theorem isComplete_of_draft (h : (draft around config).2 = .ok d) : isComplete config := by
  obtain ⟨net, hcompile, -⟩ := draft_eq_ok_iff.mp h
  obtain ⟨built, seed, gen, hbuild, -⟩ := compileConfig_eq_ok_iff.mp hcompile
  rw [Graph.build] at hbuild
  split at hbuild
  · cases hbuild
  · next hfields =>
      obtain ⟨hm, hkeys⟩ := Value.blueprint_eq_ok hfields
      cases hm
      exact isComplete_iff.mpr hkeys

/-- A complete document is the configuration of the run. -/
theorem readConfig_eq {content : ByteArray} (hparse : Arguments.parse words = .ok a)
    (ha : a.Reruns p) (hread : files.read p = .ok content)
    (hdocument : Document.read around.readYaml p content = .ok config)
    (hcomplete : isComplete config) : readConfig files around a = .ok config := by
  obtain ⟨preset, hpreset⟩ := exists_choosePreset hparse ha.preset
  simp [readConfig_of_config ha.config, hpreset, readDocument_eq_ok hread hdocument, configure,
    ha.seed, applyDocument, hcomplete, applySeed]

/-! ## The second run -/

/-- A run that wrote a layout file, and a second one with the configuration of the file and at least
the memory of the first. YAML may be read in any way, and by the second run in another. -/
theorem rerun_reproduces (hparse : Arguments.parse words = .ok a) (hlist : a.listPresets = false)
    (hdump : a.dumpLayout = some p) (hsuccess : (run files around words).ending = .success)
    (hconfig : readConfig files around a = .ok config) (hplain : Fields.Plain config)
    (hparse' : Arguments.parse words' = .ok a') (ha' : a'.Reruns p')
    (hholds : files'.Holds around'.readYaml p' config)
    (hmemory : around.memory ≤ around'.memory)
    (haccepts : ∀ q, a'.dumpLayout = some q → files'.Accepts q) :
    ∃ printed dumped printed' config',
      (run files around words).Prints printed ∧
      (run files around words).files.Dumps p dumped ∧
      dumped.at? "config" = some (.map config) ∧
      dumped.at? "layout" = some (.map (printed.without "layout_path")) ∧
      (run files' around' words').ending = .success ∧
      (run files' around' words').Prints printed' ∧
      printed'.without "layout_path" = printed.without "layout_path" ∧
      readConfig files' around' a' = .ok config' ∧ Value.Alike (.map config) (.map config') ∧
      (Value.Textual (.map config) →
        ∀ l, Json.write l (.map config') = Json.write l (.map config)) ∧
      (∀ q, a'.dumpLayout = some q → ∃ dumped', (run files' around' words').files.Dumps q dumped' ∧
        dumped'.at? "config" = some (.map config') ∧
        dumped'.at? "layout" = dumped.at? "layout") ∧
      ∃ g net net', (compileConfig around config).2 = .ok (g, net) ∧
        (compileConfig around' config').2 = .ok (g, net') ∧
        (Seeded config → net' = net) := by
  -- a run that ends in success is one that delivers
  obtain hclean | ⟨b, config₁, log, d, hb, hconfig₁, hdraft, hdelivers⟩ :=
    run_cases files around words (by simp [hparse]) (by simpa [hparse] using hlist)
  · exact absurd hsuccess hclean.ending_ne_success
  · obtain rfl := Except.ok.inj (hparse.symm.trans hb)
    obtain rfl := Except.ok.inj (hconfig.symm.trans hconfig₁)
    rw [hdump] at hdelivers
    have hdraft : (draft around config).2 = .ok d := congrArg Prod.snd hdraft
    obtain ⟨hwritable, hlayout⟩ := hdelivers.writable
    have hcomplete := isComplete_iff.mp (isComplete_of_draft hdraft)
    obtain ⟨net, hcompile, hnet, rfl⟩ := draft_eq_ok_iff.mp hdraft
    -- the second run
    obtain ⟨content, config', hread, hdocument, halike⟩ := hholds
    have hconfig' := readConfig_eq hparse' ha' hread hdocument
      (isComplete_iff.mpr fun name hname => halike.isSome_at? (hcomplete name hname))
    obtain ⟨net', hcompile', hnet', hsame⟩ :=
      exists_compileConfig halike hplain hcompile around' hmemory
    have hdraft' : (draft around' config').2 = .ok ⟨d.graph, config', d.layout⟩ :=
      draft_eq_ok_iff.mpr ⟨net', hcompile', hnet'.trans hnet, rfl⟩
    have hdelivers' := run_delivers hparse' ha'.logLevel ha'.listPresets hconfig' hdraft' hlayout
      fun q hq => ⟨halike.writable hwritable, haccepts q hq⟩
    refine ⟨_, _, _, config', hdelivers.prints, hdelivers.dumps, rfl, ?_, hdelivers'.ending,
      hdelivers'.prints, ?_, hconfig', halike, fun htextual l => halike.write_eq htextual l,
      fun q hq => ?_, ⟨d.graph, net, net', hcompile, hcompile', hsame⟩⟩
    · rw [Draft.without_printed]
      rfl
    · rw [Draft.without_printed, Draft.without_printed]
      rfl
    · rw [hq] at hdelivers'
      exact ⟨_, hdelivers'.dumps, rfl, rfl⟩

/-- The configuration of `twoLayers` with its keys in order. -/
def twoLayersOrdered : Fields := [
  (.str "layers", .list [
    .record [("cardinality", .int 1)],
    .record [("cardinality", .int 1), ("inputs", .list [.str "layer0"]), ("name", .str "out")]]),
  (.str "output", .str "out"),
  (.str "seed", .int 0)]

def twoLayersOrderedText : String :=
  "\x7b\"layers\":[\x7b\"cardinality\":1\x7d," ++
    "\x7b\"cardinality\":1,\"inputs\":[\"layer0\"],\"name\":\"out\"\x7d]," ++
    "\"output\":\"out\",\"seed\":0\x7d"

def twoLayersOrderedFiles : FileTree :=
  ⟨[(FileTree.work ++ ["dumped.json"], .file twoLayersOrderedText.toUTF8)]⟩

def rerunWords : List String := ["--config", "dumped.json", "--dump-layout", "out.json"]

def rerunArguments : Arguments :=
  ⟨some Preset.defaultName, some (.ofText "dumped.json"), .absent, false, some (.ofText "out.json"),
    some .warning⟩

/-- The two configurations differ in the order of the keys of one layer and of the blueprint. -/
theorem alike_twoLayers : Value.Alike (.map twoLayers) (.map twoLayersOrdered) := by
  have hinputs : Value.Alike (.list [.str "layer0"]) (.list [.str "layer0"]) :=
    .of_forall₂ (.cons (.scalar rfl) .nil)
  have hsource : Value.Alike (.record [("cardinality", .int 1)])
      (.record [("cardinality", .int 1)]) :=
    .of_nodup (by decide) (.refl _) (List.forall_mem_singleton.mpr ⟨_, .head _, .scalar rfl⟩)
  have hout : Value.Alike
      (.record
        [("name", .str "out"), ("inputs", .list [.str "layer0"]), ("cardinality", .int 1)])
      (.record
        [("cardinality", .int 1), ("inputs", .list [.str "layer0"]), ("name", .str "out")]) := by
    refine .of_nodup (by decide) (by decide) (List.forall_mem_cons.mpr ⟨?_,
      List.forall_mem_cons.mpr ⟨?_, List.forall_mem_singleton.mpr ?_⟩⟩)
    · exact ⟨_, .tail _ (.tail _ (.head _)), .scalar rfl⟩
    · exact ⟨_, .tail _ (.head _), hinputs⟩
    · exact ⟨_, .head _, .scalar rfl⟩
  -- the entries of both maps are matched by name
  refine .of_nodup (by decide) (by decide) (List.forall_mem_cons.mpr ⟨?_,
    List.forall_mem_cons.mpr ⟨?_, List.forall_mem_singleton.mpr ?_⟩⟩)
  · exact ⟨_, .tail _ (.tail _ (.head _)), .of_forall₂ (.cons hsource (.cons hout .nil))⟩
  · exact ⟨_, .tail _ (.head _), .scalar rfl⟩
  · exact ⟨_, .head _, .scalar rfl⟩

theorem plain_twoLayers : Fields.Plain twoLayers where
  output := rfl
  layers := by
    intro items layer hitems hlayer
    cases hitems
    obtain h | h := List.mem_pair.mp hlayer
    · cases h
      exact ⟨rfl, rfl, rfl⟩
    · cases h
      exact ⟨rfl, rfl, rfl⟩

theorem textual_twoLayers : Value.Textual (.map twoLayers) := by
  have hint (n : Int) : Value.Textual (.int n) := .scalar rfl
  have hstr (t : Text) : Value.Textual (.str t) := .scalar rfl
  have hsource : Value.Textual (.record [("cardinality", .int 1)]) :=
    Value.textual_record (by decide) (by simp [hint])
  have hinputs : Value.Textual (.list [.str "layer0"]) := .list (by simp [hstr])
  have hout : Value.Textual (.record
      [("name", .str "out"), ("inputs", .list [.str "layer0"]), ("cardinality", .int 1)]) :=
    Value.textual_record (by decide) (by simp [hstr, hinputs, hint])
  have hlayers := Value.Textual.list (List.forall_mem_cons.mpr
    ⟨hsource, List.forall_mem_singleton.mpr hout⟩)
  refine .map (by decide) ?_ ?_
  · simp [twoLayers, Preset.blueprint, Json.HasTextKey]
  · simp [twoLayers, Preset.blueprint, hint, hstr, hlayers]

set_option maxRecDepth 4000 in
/-- However YAML is read, the file holds the configuration, as it is JSON. -/
theorem holds_twoLayersOrderedFiles (readYaml : Yaml.Reader) :
    twoLayersOrderedFiles.Holds readYaml (.ofText "dumped.json") twoLayers := by
  refine ⟨twoLayersOrderedText.toUTF8, twoLayersOrdered, ?_, ?_, alike_twoLayers⟩
  · exact FileTree.read_name ⟨by decide, by decide, by decide⟩ rfl
  · exact Document.read_toUTF8 (by decide +kernel) (by decide +kernel) (by decide +kernel) (by rfl)

theorem parse_rerunWords : Arguments.parse rerunWords = .ok rerunArguments := by rfl

theorem accepts_twoLayersOrderedFiles : twoLayersOrderedFiles.Accepts (.ofText "out.json") :=
  FileTree.accepts_name ⟨by decide, by decide, by decide⟩ rfl

/-- A run on `twoLayers` that writes a layout file, and a run with the configuration of the file.
Both print the same layout but for its place, and compile the same weights from the seed zero. -/
theorem rerun_twoLayers :
    (run twoLayersFiles someSurroundings twoLayersWords).ending = .success ∧
    readConfig twoLayersFiles someSurroundings twoLayersArguments = .ok twoLayers ∧
    Fields.Plain twoLayers ∧
    rerunArguments.Reruns (.ofText "dumped.json") ∧
    twoLayersOrderedFiles.Holds someSurroundings.readYaml (.ofText "dumped.json") twoLayers ∧
    ∃ printed printed',
      (run twoLayersFiles someSurroundings twoLayersWords).Prints printed ∧
      (run twoLayersOrderedFiles someSurroundings rerunWords).ending = .success ∧
      (run twoLayersOrderedFiles someSurroundings rerunWords).Prints printed' ∧
      printed'.without "layout_path" = printed.without "layout_path" ∧
      ∃ config' g net,
        readConfig twoLayersOrderedFiles someSurroundings rerunArguments = .ok config' ∧
        (∀ l, Json.write l (.map config') = Json.write l (.map twoLayers)) ∧
        (compileConfig someSurroundings twoLayers).2 = .ok (g, net) ∧
        (compileConfig someSurroundings config').2 = .ok (g, net) := by
  obtain ⟨d, hdelivers⟩ := delivers_twoLayers (Nat.le_refl someSurroundings.memory)
  have hreruns : rerunArguments.Reruns (.ofText "dumped.json") := ⟨rfl, rfl, rfl, rfl, rfl⟩
  have haccepts : ∀ q, rerunArguments.dumpLayout = some q → twoLayersOrderedFiles.Accepts q := by
    intro q hq
    cases hq
    exact accepts_twoLayersOrderedFiles
  -- both runs succeed, and the configuration has a seed, so the networks are the same
  obtain ⟨printed, dumped, printed', config', hprints, -, -, -, hending, hprints', hsame, hconfig',
    -, hwrite, -, g, net, net', hnet, hnet', hseeded⟩ :=
    rerun_reproduces parse_twoLayersWords rfl rfl hdelivers.ending (readConfig_twoLayers _)
      plain_twoLayers parse_rerunWords hreruns (holds_twoLayersOrderedFiles _) (Nat.le_refl _)
      haccepts
  have hseed : Seeded twoLayers := ⟨.int 0, rfl, by simp⟩
  rw [hseeded hseed] at hnet'
  exact ⟨hdelivers.ending, readConfig_twoLayers _, plain_twoLayers, hreruns,
    holds_twoLayersOrderedFiles _, printed, printed', hprints, hending, hprints', hsame, config', g,
    net, hconfig', hwrite textual_twoLayers, hnet, hnet'⟩

end Command

end Feedforward
