import Feedforward.Command.Run
import Feedforward.Proofs.Command.Arguments
import Feedforward.Proofs.Command.Draft
import Feedforward.Proofs.Document
import Feedforward.Proofs.Files.Tree
import Feedforward.Proofs.Json.Writing

/-!
# All or nothing

A run has two effects: it writes the layout file, if one is asked for, and then prints the summary.
Whatever can go wrong goes wrong before the first of them takes place. A configuration with something
in it that JSON has no form for is found out when the text of the file is made, before the file is
touched. The summary is the one thing that is still to be written when the file is there, and a
layout that could be written to the file can be written in the summary (`Draft.exists_summary`).

So a run that does not end in success has printed nothing and changed no file (`Outcome.Spotless`),
and any other one has printed one line and written no other file (`Outcome.Delivers`).
-/

namespace Feedforward.Command

variable {files t : FileTree} {stamp : Stamp} {around : Surroundings} {config : Fields} {d : Draft}
  {dump : Option Path}

/-! ## What a draft writes -/

def Draft.summaryValue (d : Draft) (written : Option Path) : Value :=
  .record (d.layout.fields ++ written.elim [] fun p => [("layout_path", Value.str p.text)])

/-- The line is the summary in JSON. -/
theorem Draft.summary_eq_ok_iff {line : String} :
    d.summary dump = .ok line ↔
      ∃ s, Json.write .oneLine (d.summaryValue dump) = .ok s ∧ line = s ++ "\n" := by
  have hvalue : Value.record (d.layout.fields ++ dump.elim [] fun p =>
      [("layout_path", Value.str p.text)]) = d.summaryValue dump := rfl
  rw [Draft.summary, hvalue]
  cases Json.write .oneLine (d.summaryValue dump) <;> simp [eq_comm]

/-- The layout file is the report in JSON, spread over lines. -/
theorem Draft.report_eq_ok_iff {text : String} :
    d.report stamp = .ok text ↔
      Json.write (.lines 2) (d.layout.report stamp d.config) = .ok text := by
  rw [report, Layout.reportText]
  cases Json.write (.lines 2) (d.layout.report stamp d.config) <;> simp

/-- Everything in a report can be written but for what is in the configuration and in the layout. -/
@[simp] theorem writable_report_iff (l : Layout) (stamp : Stamp) (config : Fields) :
    Json.writable (l.report stamp config) ↔
      Json.writable (.map config) ∧ Json.writable l.toValue := by
  simp [Layout.report, Json.writable_record, Json.writable]

/-- The place of the layout file can always be written. -/
@[simp] theorem Draft.writable_summaryValue_iff :
    Json.writable (d.summaryValue dump) ↔ Json.writable d.layout.toValue := by
  rw [summaryValue, Layout.toValue, Json.writable_record, Json.writable_record,
    List.forall_mem_append, and_iff_left_iff_imp]
  intro _ f hf
  cases dump with
  | none => cases hf
  | some p =>
      rw [List.mem_singleton.mp hf]
      rfl

/-- Once the layout file is written, nothing can go wrong with the summary. -/
theorem Draft.exists_summary {text : String} (h : d.report stamp = .ok text) :
    ∃ s, Json.write .oneLine (d.summaryValue dump) = .ok s := by
  have hreport := Json.exists_write_iff.mp ⟨text, Draft.report_eq_ok_iff.mp h⟩
  rw [Json.exists_write_iff, Draft.writable_summaryValue_iff]
  exact ((writable_report_iff _ _ _).mp hreport).2

/-! ## Steps of a run -/

/-- What is done in two steps is done in the second on the files that the first leaves. -/
@[simp] theorem Outcome.of_bind {α : Type} (files : FileTree) (x : StateM FileTree α)
    (f : α → StateM FileTree Reply) :
    Outcome.of files (x >>= f) = .of (x.run files).2 (f (x.run files).1) :=
  rfl

theorem run_bind {α β : Type} (files : FileTree) (x : StateM FileTree α)
    (f : α → StateM FileTree β) :
    (x >>= f).run files = (f (x.run files).1).run (x.run files).2 :=
  rfl

@[simp] theorem run_deliver (files : FileTree) (p : Path) (text : Except ReportError String) :
    (treeDisk.deliver p text).run files = files.deliver p text :=
  rfl

@[simp] theorem run_loadDocument_none (files : FileTree) (readYaml : Yaml.Reader) :
    (treeDisk.loadDocument readYaml none).run files = (.ok none, files) :=
  rfl

@[simp] theorem run_loadDocument_some (files : FileTree) (readYaml : Yaml.Reader) (p : Path) :
    (treeDisk.loadDocument readYaml (some p)).run files =
      ((readDocument readYaml p (files.read p)).map some, files) :=
  rfl

/-- Reading the configuration leaves the files alone. -/
@[simp] theorem run_loadConfig (files : FileTree) (around : Surroundings) (a : Arguments) :
    (treeDisk.loadConfig around a).run files = (readConfig files around a, files) := by
  refine Prod.ext rfl ?_
  rw [Disk.loadConfig]
  cases choosePreset a with
  | error e => rfl
  | ok preset =>
      dsimp only
      rw [run_bind]
      cases a.config with
      | none => rfl
      | some p =>
          rw [run_loadDocument_some]
          cases readDocument around.readYaml p (files.read p) <;> rfl

/-- A run that asks for a document reads it once its preset is chosen. -/
theorem readConfig_of_config {a : Arguments} {p : Path} (hconfig : a.config = some p) :
    readConfig files around a = choosePreset a >>= fun preset =>
      readDocument around.readYaml p (files.read p) >>= fun document =>
        configure a preset (some document) := by
  rw [readConfig, Disk.loadConfig]
  cases choosePreset a with
  | error e => rfl
  | ok preset =>
      dsimp only
      rw [run_bind, hconfig, run_loadDocument_some, ok_bind]
      cases readDocument around.readYaml p (files.read p) <;> rfl

/-- A run that asks for no document starts from its preset. -/
theorem readConfig_of_no_config {a : Arguments} (hconfig : a.config = none) :
    readConfig files around a = choosePreset a >>= fun preset => configure a preset none := by
  rw [readConfig, Disk.loadConfig]
  cases choosePreset a with
  | error e => rfl
  | ok preset =>
      dsimp only
      rw [run_bind, hconfig, run_loadDocument_none]
      rfl

/-- The answer of the tree is passed on, and so is the tree that it leaves. -/
theorem run_writeReport (files : FileTree) (stamp : Stamp) (d : Draft) (p : Path) :
    (treeDisk.writeReport stamp d (some p)).run files =
      match files.deliver p (d.report stamp) with
      | (.error e, t) => (.error (.report d.graph e), t)
      | (.ok (), t) => (.ok (), t) := by
  rw [Disk.writeReport, run_bind, run_deliver]
  obtain ⟨answer, t⟩ := files.deliver p (d.report stamp)
  cases answer <;> rfl

/-! ## What a run leaves -/

/-- The layout file holds the report, if one is asked for, and no other file has changed. -/
def Delivered (files t : FileTree) (stamp : Stamp) (d : Draft) : Option Path → Prop
  | none => t = files
  | some p => ∃ text place, d.report stamp = .ok text ∧ t.read p = .ok text.toUTF8 ∧
      t.resolve p = .ok place ∧ t.content? place = some text.toUTF8 ∧
      ∀ q, q ≠ place → t.content? q = files.content? q

/-- Nothing was printed, and all files are what they were. -/
structure Outcome.Spotless (o : Outcome) (files : FileTree) : Prop where
  ending : o.ending = .usage ∨ ∃ e, o.ending = .failure e
  output : o.output = ""
  files : files.SameFiles o.files

/-- One line was printed, and no file was written but the one that was asked for. -/
structure Outcome.Delivers (o : Outcome) (files : FileTree) (stamp : Stamp) (d : Draft)
    (dump : Option Path) : Prop where
  ending : o.ending = .success
  output : ∃ s, Json.write .oneLine (d.summaryValue dump) = .ok s ∧ o.output = s ++ "\n"
  files : Delivered files o.files stamp d dump

variable {o : Outcome} {a : Arguments}

theorem Outcome.Spotless.ending_ne_success (h : o.Spotless files) : o.ending ≠ .success := by
  intro hsuccess
  obtain husage | ⟨e, hfailure⟩ := h.ending
  · cases hsuccess.symm.trans husage
  · cases hsuccess.symm.trans hfailure

/-- A failure before anything is written is spotless. -/
theorem spotless_failure (files : FileTree) (e : Failure) (log : List LogRecord) :
    Outcome.Spotless ⟨⟨.failure e, "", log⟩, files⟩ files :=
  ⟨.inr ⟨e, rfl⟩, rfl, .refl files⟩

/-- What was written to the layout file can be written. -/
theorem Outcome.Delivers.writable {p : Path} (h : o.Delivers files stamp d (some p)) :
    Json.writable (.map d.config) ∧ Json.writable d.layout.toValue := by
  obtain ⟨text, place, htext, -⟩ := h.files
  exact (writable_report_iff d.layout stamp d.config).mp
    (Json.exists_write_iff.mp ⟨text, Draft.report_eq_ok_iff.mp htext⟩)

/-- The layout file is written, or nothing is and all files are what they were. -/
theorem writeReport_cases (files : FileTree) (stamp : Stamp) (d : Draft) (dump : Option Path) :
    (∃ e t, (treeDisk.writeReport stamp d dump).run files = (.error e, t) ∧ files.SameFiles t) ∨
    ∃ t, (treeDisk.writeReport stamp d dump).run files = (.ok (), t) ∧
      Delivered files t stamp d dump := by
  cases dump with
  | none => exact .inr ⟨files, rfl, rfl⟩
  | some p =>
      rw [run_writeReport]
      obtain ⟨e, t, hdeliver, hsame⟩ | ⟨text, t, place, hdeliver, htext, hread, hplace⟩ :=
        files.deliver_cases p (d.report stamp)
      · rw [hdeliver]
        exact .inl ⟨_, t, rfl, hsame⟩
      · rw [hdeliver]
        exact .inr ⟨t, rfl, text, place, htext, hread, hplace⟩

/-- The file is the first to be written, and once it is there nothing goes wrong. -/
theorem finish_cases (files : FileTree) (around : Surroundings) (a : Arguments)
    (log : List LogRecord) (d : Draft) :
    (Outcome.of files (treeDisk.finish around a log d)).Spotless files ∨
      (Outcome.of files (treeDisk.finish around a log d)).Delivers files around.stamp d
        a.dumpLayout := by
  rw [Disk.finish, Outcome.of_bind]
  obtain ⟨e, t, hwrite, hsame⟩ | ⟨t, hwrite, hdelivered⟩ :=
    -- the report is written first: if that fails nothing has changed
    writeReport_cases files around.stamp d a.dumpLayout
  · rw [hwrite]
    exact .inl ⟨.inr ⟨_, rfl⟩, rfl, hsame⟩
  · rw [hwrite]
    dsimp only
    cases hsummary : d.summary a.dumpLayout with
    | ok line =>
        obtain ⟨s, hs, rfl⟩ := Draft.summary_eq_ok_iff.mp hsummary
        exact .inr ⟨rfl, ⟨s, hs, rfl⟩, hdelivered⟩
    | error e =>
        refine .inl ⟨.inr ⟨_, rfl⟩, rfl, ?_⟩
        cases hdump : a.dumpLayout with
        | none =>
            rw [hdump] at hdelivered
            rw [show t = files from hdelivered]
            exact .refl files
        | some p =>
            -- the file is there, so that the summary cannot have been refused
            rw [hdump] at hdelivered hsummary
            obtain ⟨text, -, htext, -⟩ := hdelivered
            obtain ⟨s, hs⟩ := Draft.exists_summary htext
            cases hsummary.symm.trans (Draft.summary_eq_ok_iff.mpr ⟨s, hs, rfl⟩)

/-- A run on a configuration is spotless, or it has drafted something and delivers it. -/
theorem runConfig_cases (files : FileTree) (around : Surroundings) (level : LogLevel)
    (a : Arguments) (config : Fields) :
    (Outcome.of files (treeDisk.runConfig around level a config)).Spotless files ∨
      ∃ log d, draft around config = (log, .ok d) ∧
        (Outcome.of files (treeDisk.runConfig around level a config)).Delivers files around.stamp d
          a.dumpLayout := by
  rw [Disk.runConfig]
  split
  next log drafted hdraft =>
    extract_lets log
    split
    · exact .inl (spotless_failure files _ _)
    · next d =>
        obtain hclean | hdelivers := finish_cases files around a log d
        · exact .inl hclean
        · exact .inr ⟨_, d, hdraft, hdelivers⟩

/-- A run is spotless, or it delivers what it has drafted of its configuration. -/
theorem run_cases (files : FileTree) (around : Surroundings) (words : List String)
    (hhelp : Arguments.parse words ≠ .error .help)
    (hlist : ∀ a, Arguments.parse words = .ok a → a.listPresets = false) :
    (run files around words).Spotless files ∨
      ∃ a config log d, Arguments.parse words = .ok a ∧ readConfig files around a = .ok config ∧
        draft around config = (log, .ok d) ∧
        (run files around words).Delivers files around.stamp d a.dumpLayout := by
  -- Each of the early outcomes leaves the files alone; only the last one goes on to write.
  rw [run, Disk.run]
  split
  · next h => exact absurd h hhelp
  · exact .inl ⟨.inl rfl, rfl, .refl files⟩
  · next a ha =>
      rw [Disk.runArguments]
      split
      · exact .inl (spotless_failure files _ _)
      · next level _ =>
          rw [if_neg (by simp [hlist a ha]), Outcome.of_bind, run_loadConfig]
          dsimp only
          split
          · exact .inl (spotless_failure files _ _)
          · next config hconfig =>
              obtain hclean | ⟨log, d, hdraft, hdelivers⟩ :=
                runConfig_cases files around level a config
              · exact .inl hclean
              · exact .inr ⟨a, config, log, d, ha, hconfig, hdraft, hdelivers⟩

/-! ## Runs that succeed -/

theorem readDocument_eq_ok {readYaml : Yaml.Reader} {p : Path} {content : ByteArray}
    (hread : files.read p = .ok content)
    (hdocument : Document.read readYaml p content = .ok config) :
    readDocument readYaml p (files.read p) = .ok config := by
  rw [hread, readDocument, hdocument]

/-- A draft holds the configuration that it was made of. -/
theorem Draft.config_eq (hdraft : (draft around config).2 = .ok d) : d.config = config := by
  obtain ⟨net, -, -, hd⟩ := draft_eq_ok_iff.mp hdraft
  exact hd

theorem Draft.exists_report (hconfig : Json.writable (.map d.config))
    (hlayout : Json.writable d.layout.toValue) (stamp : Stamp) :
    ∃ text, d.report stamp = .ok text := by
  obtain ⟨text, htext⟩ := Json.exists_write_iff.mpr
    ((writable_report_iff d.layout stamp d.config).mpr ⟨hconfig, hlayout⟩)
  exact ⟨text, Draft.report_eq_ok_iff.mpr htext⟩

/-- What can be written is written, if the path of the layout file can be written to. -/
theorem finish_delivers (hlayout : Json.writable d.layout.toValue)
    (hdump : ∀ p, a.dumpLayout = some p → Json.writable (.map d.config) ∧ files.Accepts p)
    (log : List LogRecord) :
    (Outcome.of files (treeDisk.finish around a log d)).Delivers files around.stamp d
      a.dumpLayout := by
  have hwrite : ∃ t,
      (treeDisk.writeReport around.stamp d a.dumpLayout).run files = (.ok (), t) := by
    cases hpath : a.dumpLayout with
    | none => exact ⟨files, rfl⟩
    | some p =>
        obtain ⟨hconfig, haccepts⟩ := hdump p hpath
        obtain ⟨text, htext⟩ := Draft.exists_report hconfig hlayout around.stamp
        obtain ⟨t, hdeliver⟩ := haccepts.exists_deliver text
        rw [run_writeReport, htext, hdeliver]
        exact ⟨t, rfl⟩
  -- The report can be written, so the other case of `writeReport_cases` does not occur.
  obtain ⟨t, hwrite⟩ := hwrite
  obtain ⟨s, hs⟩ : ∃ s, Json.write .oneLine (d.summaryValue a.dumpLayout) = .ok s :=
    Json.exists_write_iff.mpr (Draft.writable_summaryValue_iff.mpr hlayout)
  obtain ⟨e, t', hfail, -⟩ | ⟨t', hok, hdelivered⟩ :=
    writeReport_cases files around.stamp d a.dumpLayout
  · cases hwrite.symm.trans hfail
  · obtain rfl := (Prod.mk.inj (hwrite.symm.trans hok)).2
    rw [Disk.finish, Outcome.of_bind, hwrite]
    dsimp only
    rw [Draft.summary_eq_ok_iff.mpr ⟨s, hs, rfl⟩]
    exact ⟨rfl, ⟨s, hs, rfl⟩, hdelivered⟩

/-- A run delivers if all of its steps can be taken. -/
theorem run_delivers {words : List String} (hparse : Arguments.parse words = .ok a)
    (hlevel : a.logLevel.isSome) (hlist : a.listPresets = false)
    (hconfig : readConfig files around a = .ok config)
    (hdraft : (draft around config).2 = .ok d) (hlayout : Json.writable d.layout.toValue)
    (hdump : ∀ p, a.dumpLayout = some p → Json.writable (.map config) ∧ files.Accepts p) :
    (run files around words).Delivers files around.stamp d a.dumpLayout := by
  obtain ⟨level, hlevel⟩ := Option.isSome_iff_exists.mp hlevel
  rw [← Draft.config_eq hdraft] at hdump
  rw [run, Disk.run, hparse]
  dsimp only
  rw [Disk.runArguments, hlevel]
  dsimp only
  rw [if_neg (by simp [hlist]), Outcome.of_bind, run_loadConfig, hconfig]
  dsimp only
  rw [Disk.runConfig]
  -- the draft is there, so that finishing is all that is left
  split
  next log drafted h =>
    rw [h] at hdraft
    dsimp only at hdraft
    rw [hdraft]
    exact finish_delivers hlayout hdump _

/-! ## All or nothing -/

/-- A run that is not asked for help or for the names of the presets, with any reader of YAML. Either
it ends in an error, and then nothing was printed and all files are what they were. Or it ends well,
and then one line of JSON was printed, and the layout file is all that was written, if there is one.
Directories are left out of account. A run that is to write a configuration for which JSON has no
form ends in an error. -/
theorem run_all_or_nothing (files : FileTree) (around : Surroundings) (words : List String)
    (hhelp : Arguments.parse words ≠ .error .help)
    (hlist : ∀ a, Arguments.parse words = .ok a → a.listPresets = false) :
    ((run files around words).Spotless files ∨
      ∃ a config log d s, Arguments.parse words = .ok a ∧ readConfig files around a = .ok config ∧
        draft around config = (log, .ok d) ∧
        (run files around words).ending = .success ∧
        Json.write .oneLine (d.summaryValue a.dumpLayout) = .ok s ∧
        (run files around words).output = s ++ "\n" ∧ '\n' ∉ s.toList ∧
        Delivered files (run files around words).files around.stamp d a.dumpLayout) ∧
    ∀ a p config, Arguments.parse words = .ok a → a.dumpLayout = some p →
      readConfig files around a = .ok config → ¬ Json.writable (.map config) →
        (run files around words).Spotless files := by
  obtain hclean | ⟨a, config, log, d, hparse, hconfig, hdraft, hdelivers⟩ :=
    run_cases files around words hhelp hlist
  · exact ⟨.inl hclean, fun _ _ _ _ _ _ _ => hclean⟩
  · obtain ⟨s, hs, houtput⟩ := hdelivers.output
    refine ⟨.inr ⟨a, config, log, d, s, hparse, hconfig, hdraft, hdelivers.ending, hs, houtput,
      (Json.isLine_write hs).not_mem_newline, hdelivers.files⟩, ?_⟩
    intro a' p config' hparse' hdump hconfig' hforeign
    obtain rfl := Except.ok.inj (hparse.symm.trans hparse')
    obtain rfl := Except.ok.inj (hconfig.symm.trans hconfig')
    -- what a run has written to its layout file could be written
    rw [hdump] at hdelivers
    rw [← Draft.config_eq (congrArg Prod.snd hdraft)] at hforeign
    exact absurd hdelivers.writable.1 hforeign

/-- A document with the layers of `twoLayers`. -/
def twoLayersText : String :=
  "\x7b\"layers\":[\x7b\"cardinality\":1\x7d," ++
    "\x7b\"name\":\"out\",\"inputs\":[\"layer0\"],\"cardinality\":1\x7d]\x7d"

def twoLayersDocument : Fields := [(.str "layers", .list [
  .record [("cardinality", .int 1)],
  .record [("name", .str "out"), ("inputs", .list [.str "layer0"]), ("cardinality", .int 1)]])]

def twoLayersFiles : FileTree := ⟨[(FileTree.work ++ ["net.json"], .file twoLayersText.toUTF8)]⟩

def twoLayersWords : List String := ["--config", "net.json", "--dump-layout", "out.json"]

def twoLayersArguments : Arguments :=
  ⟨some Preset.defaultName, some (.ofText "net.json"), .absent, false, some (.ofText "out.json"),
    some .warning⟩

def someSurroundings : Surroundings :=
  ⟨⟨"unknown", "1970-01-01T00:00:00Z"⟩, [0], Numeric.usualMemory, Yaml.read⟩

theorem parse_twoLayersWords : Arguments.parse twoLayersWords = .ok twoLayersArguments := by rfl

theorem read_twoLayersFiles :
    twoLayersFiles.read (.ofText "net.json") = .ok twoLayersText.toUTF8 :=
  FileTree.read_name ⟨by decide, by decide, by decide⟩ rfl

set_option maxRecDepth 4000 in
/-- The document is JSON, so that it does not matter how YAML is read. -/
theorem read_twoLayersText (readYaml : Yaml.Reader) :
    Document.read readYaml (.ofText "net.json") twoLayersText.toUTF8 = .ok twoLayersDocument :=
  Document.read_toUTF8 (by decide +kernel) (by decide +kernel) (by decide +kernel) (by rfl)

theorem readConfig_twoLayers (around : Surroundings) :
    readConfig twoLayersFiles around twoLayersArguments = .ok twoLayers := by
  have hdocument := readDocument_eq_ok read_twoLayersFiles (read_twoLayersText around.readYaml)
  obtain ⟨preset, hpreset, hmerge⟩ : ∃ preset, choosePreset twoLayersArguments = .ok preset ∧
      applyDocument preset (some twoLayersDocument) = twoLayers := ⟨_, by rfl, by rfl⟩
  rw [readConfig_of_config (p := .ofText "net.json") rfl]
  simp only [hpreset, ok_bind, hdocument, configure, hmerge]
  rfl

theorem accepts_twoLayersFiles : twoLayersFiles.Accepts (.ofText "out.json") :=
  FileTree.accepts_name ⟨by decide, by decide, by decide⟩ rfl

/-- The layers of `twoLayers` are delivered on any machine with the usual memory. -/
theorem delivers_twoLayers (hmemory : Numeric.usualMemory ≤ around.memory) :
    ∃ d, (run twoLayersFiles around twoLayersWords).Delivers twoLayersFiles around.stamp d
      (some (.ofText "out.json")) := by
  obtain ⟨d, hdraft, hlayout⟩ := exists_draft_twoLayers hmemory
  refine ⟨d, run_delivers parse_twoLayersWords rfl rfl (readConfig_twoLayers around) hdraft ?_ ?_⟩
  · rw [hlayout]
    decide +kernel
  · intro p hp
    cases hp
    exact ⟨by decide +kernel, accepts_twoLayersFiles⟩

/-- A YAML document with a day under a key that nothing reads. -/
def datedText : String := "made: 2020-01-01\n"

def datedFiles : FileTree := ⟨[(FileTree.work ++ ["net.yaml"], .file datedText.toUTF8)]⟩

def datedWords : List String := ["--config", "net.yaml", "--dump-layout", "out.json"]

def datedArguments : Arguments :=
  { twoLayersArguments with config := some (.ofText "net.yaml") }

theorem parse_datedWords : Arguments.parse datedWords = .ok datedArguments := by rfl

def datedDocument : Fields :=
  [(.str "made", .other (Yaml.dayKey 2020 1 1 "2020-01-01").toForeign)]

/-- That something is a key shows only at the colon, when two tokens are put in front of it. -/
theorem scan_datedText : Yaml.Token.scan datedText.toList =
    [.blockMapping, .key, .scalar (.plain "made"), .value, .scalar (.plain "2020-01-01"), .blockEnd,
      .finish] := by
  have hmarked : Yaml.Token.scan datedText.toList =
      ((#[.scalar (.plain "made")].insertIdxIfInBounds 0 .key).insertIdxIfInBounds 0 .blockMapping
        |>.push .value |>.push (.scalar (.plain "2020-01-01")) |>.push .blockEnd
        |>.push .finish).toList := by rfl
  rw [hmarked]
  simp

theorem read_datedText : Yaml.read datedText = .ok (.map datedDocument) := by
  rw [Yaml.read, scan_datedText]
  rfl

/-- The document is read, and the day becomes part of the configuration. -/
theorem readConfig_dated : ∃ config,
    readConfig datedFiles someSurroundings datedArguments = .ok config ∧
      ¬ Json.writable (.map config) := by
  -- the file is found and decodes, and its text is read with a date in it
  have hread : datedFiles.read (.ofText "net.yaml") = .ok datedText.toUTF8 :=
    FileTree.read_name ⟨by decide, by decide, by decide⟩ rfl
  have hdocument : Document.read Yaml.read (.ofText "net.yaml") datedText.toUTF8 =
      .ok datedDocument :=
    (Document.read_eq_ok_iff (x := .yaml) (Document.decode?_toUTF8 (by decide))
      (by decide +kernel)).mpr (by rw [Document.parse, read_datedText]; rfl)
  obtain ⟨preset, hpreset, hforeign⟩ : ∃ preset, choosePreset datedArguments = .ok preset ∧
      ¬ Json.writable (.map (applyDocument preset (some datedDocument))) :=
    ⟨_, by rfl, by decide +kernel⟩
  refine ⟨applyDocument preset (some datedDocument), ?_, hforeign⟩
  have hyaml : readDocument someSurroundings.readYaml (.ofText "net.yaml")
      (datedFiles.read (.ofText "net.yaml")) = .ok datedDocument :=
    readDocument_eq_ok hread hdocument
  rw [readConfig_of_config (p := .ofText "net.yaml") rfl]
  simp only [hpreset, ok_bind, hyaml]
  rfl

/-- The layers of `twoLayers` are written and a line is printed. The day is refused by JSON, and
nothing happens. -/
theorem run_all_or_nothing_twoLayers :
    (Arguments.parse twoLayersWords ≠ .error .help ∧
    (∀ a, Arguments.parse twoLayersWords = .ok a → a.listPresets = false) ∧
    ∃ d s, (run twoLayersFiles someSurroundings twoLayersWords).ending = .success ∧
      Json.write .oneLine (d.summaryValue (some (.ofText "out.json"))) = .ok s ∧
      (run twoLayersFiles someSurroundings twoLayersWords).output = s ++ "\n" ∧ '\n' ∉ s.toList ∧
      Delivered twoLayersFiles (run twoLayersFiles someSurroundings twoLayersWords).files
        someSurroundings.stamp d (some (.ofText "out.json"))) ∧
    (run datedFiles someSurroundings datedWords).Spotless datedFiles := by
  have hhelp : Arguments.parse twoLayersWords ≠ .error .help := by simp [parse_twoLayersWords]
  have hlist : ∀ a, Arguments.parse twoLayersWords = .ok a → a.listPresets = false := by
    intro a ha
    cases parse_twoLayersWords.symm.trans ha
    rfl
  constructor
  · obtain ⟨d', hdelivers⟩ := delivers_twoLayers (Nat.le_refl someSurroundings.memory)
    obtain ⟨hclean | ⟨a, config, log, d, s, ha, -, -, hending, hs, houtput, hline, hfiles⟩, -⟩ :=
      run_all_or_nothing twoLayersFiles someSurroundings twoLayersWords hhelp hlist
    · exact absurd hdelivers.ending hclean.ending_ne_success
    · cases parse_twoLayersWords.symm.trans ha
      exact ⟨hhelp, hlist, d, s, hending, hs, houtput, hline, hfiles⟩
  -- the date makes the configuration unwritable
  · obtain ⟨config, hconfig, hforeign⟩ := readConfig_dated
    refine (run_all_or_nothing datedFiles someSurroundings datedWords (by simp [parse_datedWords])
      ?_).2 datedArguments (.ofText "out.json") config parse_datedWords rfl hconfig hforeign
    intro a ha
    cases parse_datedWords.symm.trans ha
    rfl

end Feedforward.Command
