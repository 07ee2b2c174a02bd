import Feedforward.Blueprint
import Feedforward.Command.Arguments
import Feedforward.Document
import Feedforward.Network.Compile
import Feedforward.Report
import Feedforward.Value.Merge

/-!
# What a run comes to

A run takes a preset, changes it as a document says, sets a seed, builds and compiles the network,
and reports its layout. `draft` is the run up to the point where something is written: it is given
the content of the document, if one was asked for, and answers with the messages and with what is to
be written, or with the error that ends the run. What the run is given besides its settings and its
files is in its `Surroundings`.
-/

namespace Feedforward.Command

structure LogRecord where
  level : LogLevel
  source : String
  text : String

def visible (least : LogLevel) (log : List LogRecord) : List LogRecord :=
  log.filter fun r => least.rank ≤ r.level.rank

def LogRecord.line (r : LogRecord) : String := r.level.name ++ " " ++ r.source ++ ": " ++ r.text

inductive Failure where
  /-- An option stands there without a value. -/
  | blank (o : CommandOption)
  | preset (e : PresetError)
  | file (e : FileError)
  | document (e : DocumentError)
  | blueprint (e : BlueprintError)
  | seedValue (e : IntegerError)
  | seed (e : SeedError)
  | compile (graph : Graph Numeric) (e : CompileError)
  | network (graph : Graph Numeric) (e : NetworkError)
  | report (graph : Graph Numeric) (e : ReportError)
  | summary (e : Json.WriteError)

def Failure.kind : Failure → ErrorKind
  | .blank _ => .type
  | .preset e => e.kind
  | .file e => e.kind
  | .document e => e.kind
  | .blueprint e => e.kind
  | .seedValue e => e.kind
  | .seed e => e.kind
  | .compile _ e => e.kind
  | .network _ e => e.kind
  | .report _ e => e.kind
  | .summary e => e.kind

/-- What surrounds a run. -/
structure Surroundings where
  /-- The stamp of layout files. -/
  stamp : Stamp
  /-- The seed where none is given. -/
  unseeded : Seed
  /-- The bytes that an array may take. -/
  memory : Nat
  readYaml : Yaml.Reader

/-- What a run has to write. -/
structure Draft where
  graph : Graph Numeric
  config : Fields
  layout : Layout

/-! ### The configuration -/

/-- A configuration with these keys is complete. -/
def isComplete (config : Fields) : Bool :=
  requiredKeys.all fun name => config.contains (.str name)

/-- The configuration of a run: a complete document stands for itself, any other changes the
preset. -/
def applyDocument (preset : Fields) : Option Fields → Fields
  | none => preset
  | some document => if isComplete document then document else preset.merge document

def applySeed (config : Fields) : SeedSetting → Except Failure Fields
  | .absent => .ok config
  | .blank => .error (.blank .seed)
  | .given n => .ok (config.put (.str "seed") (.int n))

/-- The integer that a value denotes as a seed. -/
def seedOf : Value → Except IntegerError Int
  | .bool b => .ok (if b then 1 else 0)
  | .int n => .ok n
  | .float x =>
    if x.isNan then .error .notIntegral
    else if x.isInfinite then .error .infinite
    else .ok x.truncate
  | .str t => match t.string?.bind Text.readInteger? with
    | some n => .ok n
    | none => .error .notIntegral
  | .other x => match x.integer with
    | .inl e => .error e
    | .inr n => .ok n
  | _ => .error .notANumber

/-- The seed of a configuration; without one the given seed is taken. -/
def chooseSeed (unseeded : Seed) (config : Fields) : Except Failure Seed :=
  match config.at? "seed" with
  | none | some .null => .ok unseeded
  | some v => match seedOf v with
    | .error e => .error (.seedValue e)
    | .ok n => match Seed.ofInt n with
      | .error e => .error (.seed e)
      | .ok seed => .ok seed

/-! ### The messages -/

def builtMessage (b : Built) : LogRecord :=
  ⟨.debug, "sann.config", "Built network with " ++ toString b.layers.length ++
    " declared layers, output " ++ b.name.quoted⟩

def compiledMessages (l : Layout) : List LogRecord :=
  let layers := toString l.layers.length
  let parameters := toString l.parameters
  [⟨.debug, "sann.compiler",
      "Compiled " ++ layers ++ " neurons groups with " ++ parameters ++ " parameters"⟩,
    ⟨.info, "sann.cli", "Compiled " ++ layers ++ " layers (" ++ parameters ++ " parameters)"⟩]

/-! ### Building and compiling -/

def choosePreset (a : Arguments) : Except Failure Fields :=
  match a.preset with
  | none => .error (.blank .preset)
  | some name => match Preset.find (.str name) with
    | .error e => .error (.preset e)
    | .ok preset => .ok preset

/-- The configuration that a preset, the document and the settings lead to. -/
def configure (a : Arguments) (preset : Fields) (document : Option Fields) :
    Except Failure Fields :=
  applySeed (applyDocument preset document) a.seed

def compileConfig (around : Surroundings) (config : Fields) :
    List LogRecord × Except Failure (Graph Numeric × Network Numeric) :=
  match (Graph.empty : Graph Numeric).build Registry.standard (.map config) with
  | (.error e, _) => ([], .error (.blueprint e))
  | (.ok built, g) =>
    ([builtMessage built], match chooseSeed around.unseeded config with
      | .error e => .error e
      | .ok seed =>
        let alloc := Numeric.allocation around.memory .float64
        match (g.compile alloc built.output (.ofSeed seed)).1 with
        | .error e => .error (.compile g e)
        | .ok net => .ok (g, net))

/-- The run on a configuration, up to what is to be written. -/
def draft (around : Surroundings) (config : Fields) : List LogRecord × Except Failure Draft :=
  match compileConfig around config with
  | (log, .error e) => (log, .error e)
  | (log, .ok (g, net)) => match net.layout g with
    | .error e => (log, .error (.network g e))
    | .ok layout => (log ++ compiledMessages layout, .ok ⟨g, config, layout⟩)

/-! ### What is written -/

/-- The line that a run prints: the layout, and where it was written. -/
def Draft.summary (d : Draft) (written : Option Path) : Except Failure String :=
  let place := written.elim [] fun p => [("layout_path", Value.str p.text)]
  match Json.write .oneLine (.record (d.layout.fields ++ place)) with
  | .error e => .error (.summary e)
  | .ok s => .ok (s ++ "\n")

def Draft.report (d : Draft) (stamp : Stamp) : Except ReportError String :=
  match d.layout.reportText stamp d.config with
  | .error e => .error (.write e)
  | .ok s => .ok s

end Feedforward.Command
