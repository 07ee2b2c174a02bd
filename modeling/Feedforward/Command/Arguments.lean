import Feedforward.Files.Path
import Feedforward.Number.Reading
import Feedforward.Preset

/-!
# Arguments

The command takes options only. A long option may be shortened as long as no other option begins in
the same way, and its value may follow an equals sign. What begins with a dash is an option, unless
it is a number or holds a blank. Two dashes end the options, and since nothing else is taken, they
end the command in an error, as every word does that is no option. Two dashes behind an equals sign
leave an option without a value.

`Arguments.parse` answers with the settings, or with one of the two ways in which arguments end a
run at once: help is asked for, or something is wrong.
-/

namespace Feedforward

/-- The least severe messages that are logged. -/
inductive LogLevel where
  | debug
  | info
  | warning
  | error
  deriving DecidableEq

namespace LogLevel

def rank : LogLevel → Nat
  | .debug => 0
  | .info => 1
  | .warning => 2
  | .error => 3

def name : LogLevel → String
  | .debug => "DEBUG"
  | .info => "INFO"
  | .warning => "WARNING"
  | .error => "ERROR"

def all : List LogLevel := [.debug, .info, .warning, .error]

def ofName? (s : String) : Option LogLevel := all.find? (·.name = s)

end LogLevel

inductive SeedSetting where
  | absent
  /-- The option stands there without a value. -/
  | blank
  | given (n : Int)
  deriving DecidableEq

/-- The settings of a run. -/
structure Arguments where
  /-- The preset; nothing if the option stands there without a value. -/
  preset : Option String
  config : Option Path
  seed : SeedSetting
  listPresets : Bool
  dumpLayout : Option Path
  /-- The log level; nothing if the option stands there without a value. -/
  logLevel : Option LogLevel

/-- How arguments end a run. -/
inductive ArgumentStop where
  | help
  | usage
  deriving DecidableEq

inductive CommandOption where
  | help
  | preset
  | config
  | seed
  | listPresets
  | dumpLayout
  | logLevel
  deriving DecidableEq

namespace CommandOption

def spellings : List (String × CommandOption) := [
  ("-h", .help),
  ("--help", .help),
  ("--preset", .preset),
  ("--config", .config),
  ("--seed", .seed),
  ("--list-presets", .listPresets),
  ("--dump-layout", .dumpLayout),
  ("--log-level", .logLevel)]

def takesValue : CommandOption → Bool
  | .help | .listPresets => false
  | .preset | .config | .seed | .dumpLayout | .logLevel => true

end CommandOption

namespace Arguments

def default : Arguments := ⟨some Preset.defaultName, none, .absent, false, none, some .warning⟩

/-! ### The kinds of words -/

/-- What a word of the command line is. -/
inductive Word where
  /-- A value, or a word that does not belong there. -/
  | plain (s : String)
  /-- An option, whether it is spelled by its letter, and a value that belongs to it: either behind
  an equals sign or attached to the letter. -/
  | option (o : CommandOption) (short : Bool) (value : Option String)
  /-- Something that looks like an option. -/
  | unknown
  /-- Two dashes. -/
  | terminator

def splitEquals (cs : List Char) : List Char × Option (List Char) :=
  let (front, rest) := cs.span (· ≠ '=')
  (front, rest.tail?)

def allDigits (cs : List Char) : Bool := cs.all fun c => (Text.digitValue? c).isSome

/-- A negative number in digits, with or without a point. -/
def isNegativeNumber : List Char → Bool
  | '-' :: cs =>
    let cs := if cs.getLast? = some '\n' then cs.dropLast else cs
    let (whole, rest) := cs.span (· ≠ '.')
    allDigits whole && match rest with
      | [] => !whole.isEmpty
      | _ :: fraction => !fraction.isEmpty && allDigits fraction
  | _ => false

/-- The options whose spelling begins with the characters. -/
def begun (cs : List Char) : List (String × CommandOption) :=
  CommandOption.spellings.filter fun (s, _) => cs.isPrefixOf s.toList

/-- The options that a word may mean if it is not a whole spelling: a shortened long option, or a
short option with a value behind it. -/
def candidates (cs : List Char) : List Word :=
  match cs with
  | '-' :: '-' :: _ =>
    let (front, value) := splitEquals cs
    (begun front).map fun (_, o) => .option o false (value.map String.ofList)
  | '-' :: c :: value =>
    CommandOption.spellings.filterMap fun (s, o) =>
      if s.toList = ['-', c] then some (.option o true (some (String.ofList value)))
      else if cs.isPrefixOf s.toList then some (.option o false none)
      else none
  | _ => []

def isShort (cs : List Char) : Bool := !(['-', '-'].isPrefixOf cs)

/-- The kind of a word that begins with a dash. A word that may mean several options is an error. -/
def classifyDashed (s : String) : Except ArgumentStop Word :=
  let cs := s.toList
  match CommandOption.spellings.lookup s with
  | some o => .ok (.option o (isShort cs) none)
  | none =>
    let (front, value) := splitEquals cs
    match value, CommandOption.spellings.lookup (String.ofList front) with
    | some v, some o => .ok (.option o (isShort front) (some (String.ofList v)))
    | _, _ => match candidates cs with
      | [w] => .ok w
      | _ :: _ :: _ => .error .usage
      | [] => .ok (if isNegativeNumber cs || cs.contains ' ' then .plain s else .unknown)

def classify (s : String) : Except ArgumentStop Word :=
  match s.toList with
  | '-' :: _ :: _ => classifyDashed s
  | _ => .ok (.plain s)

/-- The kinds of all words. Behind two dashes there are no options. -/
def classifyAll : List String → Except ArgumentStop (List Word)
  | [] => .ok []
  | s :: rest =>
    if s = "--" then .ok (.terminator :: rest.map .plain)
    else do return (← classify s) :: (← classifyAll rest)

/-! ### Applying options -/

/-- The settings with an option that stands there without a value. -/
def clear (a : Arguments) : CommandOption → Arguments
  | .preset => { a with preset := none }
  | .config => { a with config := none }
  | .seed => { a with seed := .blank }
  | .dumpLayout => { a with dumpLayout := none }
  | .logLevel => { a with logLevel := none }
  | .help | .listPresets => a

/-- The settings with the value of an option. -/
def set (a : Arguments) (o : CommandOption) (value : String) : Except ArgumentStop Arguments :=
  if value = "--" then .ok (a.clear o)
  else match o with
    | .preset => if value ∈ Preset.names then .ok { a with preset := some value } else .error .usage
    | .config => .ok { a with config := some (.ofText value) }
    | .seed => match Text.readInteger? value with
      | some n => .ok { a with seed := .given n }
      | none => .error .usage
    | .dumpLayout => .ok { a with dumpLayout := some (.ofText value) }
    | .logLevel => match LogLevel.ofName? value with
      | some level => .ok { a with logLevel := some level }
      | none => .error .usage
    | .help | .listPresets => .error .usage

/-- The settings with an option that has no value. -/
def raise (a : Arguments) : CommandOption → Except ArgumentStop Arguments
  | .help => .error .help
  | .listPresets => .ok { a with listPresets := true }
  | _ => .error .usage

/-- What belongs to the letter that asks for help are letters of further options without a value,
and that letter is the only one there is. -/
def asksHelp (value : String) : Bool := value ≠ "" && value.toList.all (· = 'h')

/-- Applies the words one after the other. `extra` tells whether a word was no option. -/
def apply (a : Arguments) (extra : Bool) : List Word → Except ArgumentStop Arguments
  | [] => if extra then .error .usage else .ok a
  | .plain _ :: rest | .unknown :: rest | .terminator :: rest => apply a true rest
  | .option o short (some value) :: rest =>
    if o.takesValue then do apply (← a.set o value) extra rest
    else if o = .help && short && asksHelp value then .error .help
    else .error .usage
  | .option o _ none :: rest =>
    if o.takesValue then match rest with
      | .plain value :: rest => do apply (← a.set o value) extra rest
      | _ => .error .usage
    else do apply (← a.raise o) extra rest

def parse (words : List String) : Except ArgumentStop Arguments := do
  apply default false (← classifyAll words)

/-! ### What is said about the options -/

def usageText : String :=
  "usage: [-h] [--preset PRESET] [--config FILE] [--seed N] [--list-presets] " ++
    "[--dump-layout FILE] [--log-level LEVEL]"

def helpText : String := "\n".intercalate [
  usageText,
  "",
  "Compile a network of neurons and report its layout.",
  "",
  "  -h, --help            show this text",
  "  --preset PRESET       the preset to compile: " ++ ", ".intercalate Preset.names,
  "  --config FILE         a JSON or YAML description of a network, or changes to the preset",
  "  --seed N              the seed of the weights",
  "  --list-presets        list the presets",
  "  --dump-layout FILE    write the layout to a JSON file",
  "  --log-level LEVEL     the least severe messages to show: " ++
    ", ".intercalate (LogLevel.all.map LogLevel.name)]

end Arguments

end Feedforward
