import Feedforward.Value.Basic

/-!
# Values that stand for mappings

A mapping can be given by its entries: by a list of pairs, each of which is a key and a value. Two
elements of any kind make a pair, so a text of two characters is one as well. Of several values for
a key the last counts.
-/

namespace Feedforward

inductive EntriesError where
  /-- The value, or one that is to be a pair, has no elements. -/
  | noElements
  /-- Something that is to be a pair has not two elements. -/
  | notAPair
  /-- A list or a mapping is a key. -/
  | notAKey
  deriving DecidableEq

def EntriesError.kind : EntriesError → ErrorKind
  | .noElements | .notAKey => .type
  | .notAPair => .value

namespace Value

def toEntry (v : Value) : Except EntriesError (Key × Value) :=
  match v.elements? with
  | none => .error .noElements
  | some [k, v] => match k.toKey? with
    | none => .error .notAKey
    | some k => .ok (k, v)
  | some _ => .error .notAPair

/-- The entries of the mapping that a value stands for. -/
def toFields (v : Value) : Except EntriesError Fields :=
  match v with
  | .map entries => .ok entries
  | v => match v.elements? with
    | none => .error .noElements
    | some items => (items.mapM toEntry).map Fields.ofEntries

end Value

end Feedforward
