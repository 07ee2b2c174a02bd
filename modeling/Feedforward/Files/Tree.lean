import Feedforward.ErrorKind
import Feedforward.Files.Path

/-!
# A tree of files

A `FileTree` holds files and directories by their places, which are lists of names from the top. The
top is a directory, and two dots at the top lead to the top. Relative paths start at the working
directory, which lies somewhere below it and holds everything that is known; its own name is no name
that a path can hold, so no absolute path leads there.
-/

namespace Feedforward

inductive FileError where
  | notFound
  | isDirectory
  | notADirectory
  | alreadyExists
  /-- The path holds the null character. -/
  | badPath
  /-- A name or a whole path is too long. -/
  | longName
  deriving DecidableEq

def FileError.kind : FileError → ErrorKind
  | .notFound => .fileNotFound
  | .isDirectory => .isADirectory
  | .notADirectory => .notADirectory
  | .alreadyExists => .fileExists
  | .badPath => .value
  | .longName => .system

/-- What stands at a place. -/
inductive FileEntry where
  | file (content : ByteArray)
  | directory

/-- Files and directories by their places. -/
structure FileTree where
  entries : List (List String × FileEntry)

/-- An operation that is refused half the way. -/
structure Interruption where
  error : FileError
  /-- The tree that it leaves. -/
  left : FileTree

namespace FileTree

def empty : FileTree := ⟨[]⟩

/-- The place of the working directory. -/
def work : List String := ["tmp", ""]

def entry? (t : FileTree) (place : List String) : Option FileEntry :=
  if place.isPrefixOf work then some .directory else t.entries.lookup place

def isDirectory (t : FileTree) (place : List String) : Bool :=
  match t.entry? place with
  | some .directory => true
  | _ => false

/-- Puts an entry at a place, instead of one that is there. -/
def put (t : FileTree) (place : List String) (e : FileEntry) : FileTree :=
  if (t.entries.lookup place).isSome then
    ⟨t.entries.map fun (p, old) => if p = place then (p, e) else (p, old)⟩
  else ⟨t.entries ++ [(place, e)]⟩

/-- The greatest number of bytes of a name. -/
def nameLimit : Nat := 255

/-- The greatest number of bytes of a path. -/
def pathLimit : Nat := 4095

/-- Goes from a place along the parts of a path. Every part but the last must lead to a directory;
at the last one nothing need stand. -/
def walk (t : FileTree) (place : List String) : List String → Except FileError (List String)
  | [] => .ok place
  | part :: rest => match t.entry? place with
    | none => .error .notFound
    | some (.file _) => .error .notADirectory
    | some .directory =>
      if part = ".." then walk t place.dropLast rest
      else if nameLimit < part.utf8ByteSize then .error .longName
      else walk t (place ++ [part]) rest

/-- The place at which a path starts, if the path can be followed at all. -/
def origin (p : Path) : Except FileError (List String) :=
  if p.text.contains '\x00' then .error .badPath
  else if pathLimit < p.text.utf8ByteSize then .error .longName
  else .ok (if p.root = "" then work else [])

/-- The place that a path leads to. -/
def resolve (t : FileTree) (p : Path) : Except FileError (List String) := do
  t.walk (← origin p) p.parts

def read (t : FileTree) (p : Path) : Except FileError ByteArray := do
  match t.entry? (← t.resolve p) with
  | none => .error .notFound
  | some .directory => .error .isDirectory
  | some (.file content) => .ok content

/-- Makes a file, or gives it another content. -/
def write (t : FileTree) (p : Path) (content : ByteArray) : Except FileError FileTree := do
  let place ← t.resolve p
  if t.isDirectory place then .error .isDirectory
  else .ok (t.put place (.file content))

/-- Makes the missing directories along the parts of a path, starting at a place. `made` tells
whether one has been made. A file in the way of the last part, or of any part once directories are
made, is something that stands in the place of a directory. -/
def makeAlong (t : FileTree) (place : List String) (made : Bool) :
    List String → Except Interruption FileTree
  | [] => .ok t
  | part :: rest =>
    if part = ".." then makeAlong t place.dropLast made rest
    else if nameLimit < part.utf8ByteSize then .error ⟨.longName, t⟩
    else
      let next := place ++ [part]
      match t.entry? next with
      | some .directory => makeAlong t next made rest
      | some (.file _) =>
        .error ⟨if made || rest.isEmpty then .alreadyExists else .notADirectory, t⟩
      | none => makeAlong (t.put next .directory) next true rest

/-- Makes a directory and those above it, as far as they are missing. -/
def makeDirectories (t : FileTree) (p : Path) : Except Interruption FileTree :=
  match origin p with
  | .error e => .error ⟨e, t⟩
  | .ok place => t.makeAlong place false p.parts

end FileTree

end Feedforward
