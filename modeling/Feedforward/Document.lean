import Feedforward.Files.Path
import Feedforward.Json.Reading
import Feedforward.Yaml.Reading

/-!
# Documents

A document is a file with a configuration in JSON or in YAML; its suffix, in letters of either case,
tells which. The file holds a text in UTF-8, and the text a mapping. An empty JSON file and a YAML
file whose value counts as nothing stand for the empty mapping. Whoever reads a document chooses the
reader of YAML.
-/

namespace Feedforward

inductive DocumentError where
  /-- The file holds no text. -/
  | notText
  | unsupported (suffix : String)
  | json (e : Json.ReadError)
  | yaml (e : Yaml.ReadError)
  | notAMapping (name : String)
  deriving DecidableEq

def DocumentError.kind : DocumentError → ErrorKind
  | .notText => .unicodeDecoding
  | .unsupported _ => .value
  | .json e => e.kind
  | .yaml e => e.kind
  | .notAMapping _ => .type

def DocumentError.message? : DocumentError → Option String
  | .unsupported suffix => some ("Unsupported config file type: " ++ suffix)
  | .notAMapping name => some ("Config " ++ name ++ " must decode to a mapping")
  | .notText | .json _ | .yaml _ => none

namespace Document

inductive Language where
  | json
  | yaml
  deriving DecidableEq

def Language.ofSuffix? (suffix : String) : Option Language :=
  match suffix.toLower with
  | ".json" => some .json
  | ".yaml" => some .yaml
  | ".yml" => some .yaml
  | _ => none

/-- The characters with every line break as a line feed. -/
def unifyBreaks : List Char → List Char
  | '\r' :: '\n' :: cs => '\n' :: unifyBreaks cs
  | '\r' :: cs => '\n' :: unifyBreaks cs
  | c :: cs => c :: unifyBreaks cs
  | [] => []

def decode? (content : ByteArray) : Option String :=
  (String.fromUTF8? content).map fun s => String.ofList (unifyBreaks s.toList)

def parse (readYaml : Yaml.Reader) (s : String) : Language → Except DocumentError Value
  | .json => if s = "" then .ok (.map []) else match Json.read s with
    | .ok v => .ok v
    | .error e => .error (.json e)
  | .yaml => match readYaml s with
    | .ok v => .ok (if v.isVoid then .map [] else v)
    | .error e => .error (.yaml e)

/-- The configuration in a file with the given path and content. -/
def read (readYaml : Yaml.Reader) (p : Path) (content : ByteArray) :
    Except DocumentError Fields :=
  match decode? content with
  | none => .error .notText
  | some s => match Language.ofSuffix? p.suffix with
    | none => .error (.unsupported p.suffix)
    | some x => do
      match ← parse readYaml s x with
      | .map fields => .ok fields
      | _ => .error (.notAMapping p.name)

end Document

end Feedforward
