import Feedforward.Command.Draft

/-!
# What is said about a failed run

Errors of the configuration and of the network have a wording of their own (`Failure.message?`). For
the others `Failure.text` says in a few words what went wrong.
-/

namespace Feedforward

def FileError.text : FileError → String
  | .notFound => "no such file or directory"
  | .isDirectory => "a directory stands in the place of a file"
  | .notADirectory => "a file stands in the place of a directory"
  | .alreadyExists => "something stands in the place of a directory"
  | .badPath => "the path holds a null character"
  | .longName => "a file name is too long"

def ReportError.message? {A : Type} (g : Graph A) : ReportError → Option String
  | .network e => e.message? g
  | .file _ | .config _ | .write _ => none

def Json.WriteError.text : Json.WriteError → String
  | .unordered => "the keys of the configuration have no common order"
  | .oversized => "a number in the configuration has too many digits"
  | .foreign kind => "a value in the configuration has no form in JSON: " ++ kind
  | .circular => "a list or a mapping in the configuration contains itself"

def ReportError.text {A : Type} (g : Graph A) : ReportError → String
  | .file e => "the layout file cannot be written: " ++ e.text
  | .config _ => "the configuration is no mapping"
  | .network e => (e.message? g).getD "the network has no layout"
  | .write e => e.text

def DocumentError.text : DocumentError → String
  | .notText => "the document is no text in UTF-8"
  | .json .malformed => "the document is no JSON"
  | .json .oversized => "a number in the document has too many digits"
  | .json .tooDeep => "the lists and mappings of the document are nested too deeply"
  | .yaml _ => "the document is no YAML"
  | e => e.message?.getD ""

namespace Command

def Failure.message? : Failure → Option String
  | .preset e => e.message?
  | .document e => e.message?
  | .blueprint e => e.message?
  | .compile g e => e.message? g
  | .network g e => e.message? g
  | .report g e => e.message? g
  | .blank _ | .file _ | .seedValue _ | .seed _ | .summary _ => none

def Failure.text : Failure → String
  | .blank _ => "an option has no value"
  | .preset e => e.message?.getD "the preset has no name"
  | .file e => "the document cannot be read: " ++ e.text
  | .document e => e.text
  | .blueprint e => e.message?.getD "the configuration is malformed"
  | .seedValue _ => "the seed is no integer"
  | .seed .negative => "the seed is negative"
  | .seed _ => "the seed is no integer"
  | .compile g e => (e.message? g).getD "the network is too large"
  | .network g e => (e.message? g).getD "the network has no layout"
  | .report g e => e.text g
  | .summary e => e.text

end Command

end Feedforward
