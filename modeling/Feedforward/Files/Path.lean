/-!
# Paths

A path is a list of parts below a root. Empty parts and single dots mean nothing and are left out;
two dots are kept, since where they lead depends on the files.
-/

namespace Feedforward

/-- A path to a file or a directory. -/
structure Path where
  /-- The slashes in front of an absolute path; a relative path has none. -/
  root : String
  parts : List String
  deriving DecidableEq

namespace Path

/-- The root of a path text: one slash, or exactly two, or none. -/
def rootOf (cs : List Char) : String :=
  match cs.takeWhile (· = '/') with
  | [] => ""
  | [_, _] => "//"
  | _ => "/"

def ofText (s : String) : Path :=
  ⟨rootOf s.toList,
    ((s.toList.splitOn '/').map String.ofList).filter fun part => part ≠ "" && part ≠ "."⟩

def text (p : Path) : String :=
  if p.root = "" && p.parts.isEmpty then "." else p.root ++ "/".intercalate p.parts

/-- The path without its last part. -/
def parent (p : Path) : Path := { p with parts := p.parts.dropLast }

def name (p : Path) : String := p.parts.getLast?.getD ""

/-- The end of a name from its last dot on. A dot that is the first or the last character begins no
suffix. -/
def suffixOf (name : String) : String :=
  let cs := name.toList.reverse
  let ending := cs.takeWhile (· ≠ '.')
  match cs.drop ending.length with
  | '.' :: _ :: _ => if ending.isEmpty then "" else "." ++ String.ofList ending.reverse
  | _ => ""

def suffix (p : Path) : String := suffixOf p.name

end Path

end Feedforward
