import Feedforward.Network.Run
import Feedforward.Tensor.Reading

/-!
# Vectors handed in as values

A value that is handed to a network is a list of vectors or a text, which are taken in the order of
the sources. Mappings are by group, so that only the empty one can be given as a value.
-/

namespace Feedforward

inductive FeedError where
  /-- The value is nothing that has elements. -/
  | notASequence
  /-- A key of the mapping is no group. -/
  | notAGroup
  deriving DecidableEq

def FeedError.kind : FeedError → ErrorKind
  | .notASequence => .type
  | .notAGroup => .attribute

def Feed.ofValue : Value → Except FeedError (Feed Value)
  | .list items => .ok (.aligned items)
  | .str t => .ok (.aligned (t.characters.map .str))
  | .map [] => .ok (.keyed [])
  | .map (_ :: _) => .error .notAGroup
  | _ => .error .notASequence

end Feedforward
