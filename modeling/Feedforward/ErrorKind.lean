/-!
# Kinds of errors

Every error of the library is of a kind (`ErrorKind`), which has a name by which callers tell errors
apart. The modules that define errors say of which kind each of them is, in a function `kind` next
to the wording of the errors that have one.
-/

namespace Feedforward

inductive ErrorKind where
  | attribute
  | index
  | key
  | memory
  | overflow
  | recursion
  | type
  | value
  -- of the network
  | cyclicGraph
  | dimensionMismatch
  /-- An operation on arrays has no variant for the kinds of its arguments. -/
  | arrayOperation
  -- of files
  | fileExists
  | fileNotFound
  | isADirectory
  | notADirectory
  /-- Anything else that the system refuses. -/
  | system
  -- of documents
  | unicodeDecoding
  | jsonDecoding
  | yamlReader
  | yamlScanner
  | yamlParser
  | yamlComposer
  | yamlConstructor
  deriving DecidableEq

def ErrorKind.name : ErrorKind → String
  | .attribute => "AttributeError"
  | .index => "IndexError"
  | .key => "KeyError"
  | .memory => "MemoryError"
  | .overflow => "OverflowError"
  | .recursion => "RecursionError"
  | .type => "TypeError"
  | .value => "ValueError"
  | .cyclicGraph => "CyclicGraphError"
  | .dimensionMismatch => "DimensionMismatchError"
  | .arrayOperation => "UFuncTypeError"
  | .fileExists => "FileExistsError"
  | .fileNotFound => "FileNotFoundError"
  | .isADirectory => "IsADirectoryError"
  | .notADirectory => "NotADirectoryError"
  | .system => "OSError"
  | .unicodeDecoding => "UnicodeDecodeError"
  | .jsonDecoding => "JSONDecodeError"
  | .yamlReader => "ReaderError"
  | .yamlScanner => "ScannerError"
  | .yamlParser => "ParserError"
  | .yamlComposer => "ComposerError"
  | .yamlConstructor => "ConstructorError"

end Feedforward
