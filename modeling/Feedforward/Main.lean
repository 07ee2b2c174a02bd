import Feedforward.Command.Failure
import Feedforward.Command.Run
import Std.Time.DateTime

/-!
# The command line

The command on the files of the machine: `main` is `Disk.run` on them. What it needs to know of the
machine is asked for before the run, and what it answers is printed after it.
-/

namespace Feedforward.CommandLine

open Feedforward.Command

def padded (width n : Nat) : String :=
  let digits := toString n
  "".pushn '0' (width - digits.length) ++ digits

/-- A date and a time of day, with signs between and behind them. -/
def timeText (separator ending : String) (t : Std.Time.PlainDateTime) : String :=
  padded 4 t.date.year.toInt.toNat ++ "-" ++ padded 2 t.date.month.val.toNat ++ "-" ++
    padded 2 t.date.day.val.toNat ++ separator ++ padded 2 t.time.hour.val.toNat ++ ":" ++
    padded 2 t.time.minute.val.toNat ++ ":" ++ padded 2 t.time.second.val.toNat ++ ending

def now : IO Std.Time.PlainDateTime := do
  return .ofWallTime (.ofTimestamp (← Std.Time.Timestamp.now) .zero)

/-- The revision of the repository around the working directory, looked for in so many directories
from `base` on upward. -/
def revision (base : String) : Nat → IO String
  | 0 => return "unknown"
  | n + 1 => do
    let read (name : String) : IO (Option String) :=
      try return some (← IO.FS.readFile (base ++ ".git/" ++ name)).trimAscii.toString
      catch _ => return none
    match ← read "HEAD" with
    | none => revision (base ++ "../") n
    | some head =>
      if head.startsWith "ref: " then return (← read (head.drop 5).toString).getD "unknown"
      else return head

def readFile (p : Path) : IO (Except FileError ByteArray) := do
  try return .ok (← IO.FS.readBinFile p.text)
  catch
    | .noFileOrDirectory .. => return .error .notFound
    | .inappropriateType .. => return .error .isDirectory
    | _ => return .error .notADirectory

/-- Writes a file, in a directory that is made if it is missing. -/
def writeFile (p : Path) (text : Except ReportError String) : IO (Except ReportError Unit) := do
  try
    IO.FS.createDirAll p.parent.text
    match text with
    | .error e => return .error e
    | .ok s =>
      IO.FS.writeFile p.text s
      return .ok ()
  catch
    | .alreadyExists .. => return .error (.file .alreadyExists)
    | .inappropriateType .. => return .error (.file .isDirectory)
    | _ => return .error (.file .notADirectory)

def disk : Disk IO := ⟨readFile, writeFile⟩

def randomSeed : IO Seed := do
  let bytes ← IO.getRandomBytes 16
  return Seed.wordsOf (bytes.toList.foldl (fun n b => n * 256 + b.toNat) 0)

/-- What surrounds a run on the machine. -/
def surroundings : IO Surroundings := do
  let stamp : Stamp := ⟨← revision "" 64, timeText "T" "Z" (← now)⟩
  return ⟨stamp, ← randomSeed, Numeric.usualMemory, Yaml.read⟩

/-- Prints what a run answers, and says with which number the program ends. -/
def Reply.print (r : Reply) : IO UInt32 := do
  let time := timeText " " "" (← now)
  for message in r.log do
    IO.eprintln (time ++ " " ++ message.line)
  IO.print r.output
  match r.ending with
  | .success => return 0
  | .help =>
    IO.println Arguments.helpText
    return 0
  | .usage =>
    IO.eprintln Arguments.usageText
    return 2
  | .failure e =>
    IO.eprintln (e.kind.name ++ ": " ++ e.text)
    return 1

end Feedforward.CommandLine

def main (words : List String) : IO UInt32 := do
  let around ← Feedforward.CommandLine.surroundings
  Feedforward.CommandLine.Reply.print (← Feedforward.CommandLine.disk.run around words)
