import Feedforward.Files.Tree
import Feedforward.Json.Writing
import Feedforward.Network.Layout
import Feedforward.Value.Entries

/-!
# Layout files

A layout file holds the layout of a network, the configuration that it was built from, and a stamp
that tells which revision of the program wrote it and when.
-/

namespace Feedforward

/-- Which revision of the program writes, and when. -/
structure Stamp where
  revision : String
  time : String

inductive ReportError where
  | file (e : FileError)
  | config (e : EntriesError)
  | network (e : NetworkError)
  | write (e : Json.WriteError)
  deriving DecidableEq

def ReportError.kind : ReportError → ErrorKind
  | .file e => e.kind
  | .config e => e.kind
  | .network e => e.kind
  | .write e => e.kind

/-- The content of a layout file as a value. -/
def Layout.report (l : Layout) (stamp : Stamp) (config : Fields) : Value :=
  .record [
    ("git_sha", .str stamp.revision),
    ("generated_at", .str stamp.time),
    ("config", .map config),
    ("layout", l.toValue)]

def Layout.reportText (l : Layout) (stamp : Stamp) (config : Fields) :
    Except Json.WriteError String :=
  Json.write (.lines 2) (l.report stamp config)

/-- Writes a text to a file, in a directory that is made if it is missing, and answers with the tree
that is left, also where it is refused. The directory is made before the text is asked for. -/
def FileTree.deliver (t : FileTree) (p : Path) (text : Except ReportError String) :
    Except ReportError Unit × FileTree :=
  match t.makeDirectories p.parent with
  | .error i => (.error (.file i.error), i.left)
  | .ok t => match text with
    | .error e => (.error e, t)
    | .ok s => match t.write p s.toUTF8 with
      | .error e => (.error (.file e), t)
      | .ok t => (.ok (), t)

def Network.reportText {A : Type} [Arithmetic A] (net : Network A) (g : Graph A) (stamp : Stamp)
    (config : Value) : Except ReportError String :=
  match config.toFields with
  | .error e => .error (.config e)
  | .ok config => match net.layout g with
    | .error e => .error (.network e)
    | .ok l => match l.reportText stamp config with
      | .error e => .error (.write e)
      | .ok s => .ok s

def FileTree.writeLayout {A : Type} [Arithmetic A] (t : FileTree) (p : Path) (stamp : Stamp)
    (config : Value) (net : Network A) (g : Graph A) : Except ReportError FileTree :=
  match t.deliver p (net.reportText g stamp config) with
  | (.error e, _) => .error e
  | (.ok (), t) => .ok t

end Feedforward
