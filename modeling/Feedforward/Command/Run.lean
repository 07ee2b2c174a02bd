import Feedforward.Command.Draft

/-!
# Running the command

`Disk.run` is the whole command on any system that has files (`Disk`): it reads the document, drafts
the run, writes the layout file and answers with what is to be printed, in this order. The program
runs it on the files of the machine. `run` is the same on a tree of files, and it is there that it
can be said what a run leaves behind. What a run that fails half the way has done until then stays
done: the directories of the layout file may have been made.
-/

namespace Feedforward.Command

inductive Ending where
  /-- The arguments are wrong. -/
  | usage
  | help
  | success
  | failure (e : Failure)

/-- What a run answers. -/
structure Reply where
  ending : Ending
  /-- What is to be printed. -/
  output : String
  log : List LogRecord

/-- The files that a run works on, by what it does with them. -/
structure Disk (m : Type → Type) where
  read : Path → m (Except FileError ByteArray)
  /-- Writes a text to a file, in a directory that is made if it is missing. The directory is made
  before the text is asked for. -/
  deliver : Path → Except ReportError String → m (Except ReportError Unit)

def presetList : String := String.join (Preset.names.map (· ++ "\n"))

/-- The mapping in a document, given what its file holds. -/
def readDocument (readYaml : Yaml.Reader) (p : Path) :
    Except FileError ByteArray → Except Failure Fields
  | .error e => .error (.file e)
  | .ok content => match Document.read readYaml p content with
    | .error e => .error (.document e)
    | .ok fields => .ok fields

namespace Disk

variable {m : Type → Type} [Monad m]

def loadDocument (disk : Disk m) (readYaml : Yaml.Reader) :
    Option Path → m (Except Failure (Option Fields))
  | none => return .ok none
  | some p => do return (readDocument readYaml p (← disk.read p)).map some

def loadConfig (disk : Disk m) (around : Surroundings) (a : Arguments) :
    m (Except Failure Fields) :=
  match choosePreset a with
  | .error e => return .error e
  | .ok preset => do
    match ← disk.loadDocument around.readYaml a.config with
    | .error e => return .error e
    | .ok document => return configure a preset document

/-- Writes the layout file that the settings ask for. -/
def writeReport (disk : Disk m) (stamp : Stamp) (d : Draft) :
    Option Path → m (Except Failure Unit)
  | none => return .ok ()
  | some p => do
    match ← disk.deliver p (d.report stamp) with
    | .error e => return .error (.report d.graph e)
    | .ok () => return .ok ()

/-- Writes what a run comes to: the layout file first, and then the summary. -/
def finish (disk : Disk m) (around : Surroundings) (a : Arguments) (log : List LogRecord)
    (d : Draft) : m Reply := do
  match ← disk.writeReport around.stamp d a.dumpLayout with
  | .error e => return ⟨.failure e, "", log⟩
  | .ok () => match d.summary a.dumpLayout with
    | .error e => return ⟨.failure e, "", log⟩
    | .ok line => return ⟨.success, line, log⟩

def runConfig (disk : Disk m) (around : Surroundings) (level : LogLevel) (a : Arguments)
    (config : Fields) : m Reply :=
  let (log, drafted) := draft around config
  let log := visible level log
  match drafted with
  | .error e => return ⟨.failure e, "", log⟩
  | .ok d => disk.finish around a log d

def runArguments (disk : Disk m) (around : Surroundings) (a : Arguments) : m Reply :=
  match a.logLevel with
  | none => return ⟨.failure (.blank .logLevel), "", []⟩
  | some level =>
    if a.listPresets then return ⟨.success, presetList, []⟩
    else do
      match ← disk.loadConfig around a with
      | .error e => return ⟨.failure e, "", []⟩
      | .ok config => disk.runConfig around level a config

/-- The run with the words of a command line. -/
def run (disk : Disk m) (around : Surroundings) (words : List String) : m Reply :=
  match Arguments.parse words with
  | .error .help => return ⟨.help, "", []⟩
  | .error .usage => return ⟨.usage, "", []⟩
  | .ok a => disk.runArguments around a

end Disk

/-! ### On a tree of files -/

/-- A tree of files as the files of a system. -/
def treeDisk : Disk (StateM FileTree) where
  read p := do return (← get).read p
  deliver p text := modifyGet fun t => t.deliver p text

/-- What a run on a tree of files leaves behind. -/
structure Outcome extends Reply where
  files : FileTree

/-- What is left behind by something that is done on a tree of files. -/
def Outcome.of (files : FileTree) (x : StateM FileTree Reply) : Outcome :=
  let (reply, files) := x.run files
  ⟨reply, files⟩

/-- The configuration of a run on a tree of files. -/
def readConfig (files : FileTree) (around : Surroundings) (a : Arguments) : Except Failure Fields :=
  ((treeDisk.loadConfig around a).run files).1

/-- The run on a tree of files, with the words of a command line. -/
def run (files : FileTree) (around : Surroundings) (words : List String) : Outcome :=
  .of files (treeDisk.run around words)

end Feedforward.Command
