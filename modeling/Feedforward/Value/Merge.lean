import Feedforward.Value.Basic

/-!
# Merging mappings

An override is merged into a base entry by entry: where both hold a mapping at a key, the two are
merged in the same way, and otherwise the override's value takes the place of the base's. Lists are
replaced whole.
-/

namespace Feedforward

mutual

/-- The base with every entry of the override merged in. -/
def Fields.merge (base : Fields) : (override : List (Key × Value)) → Fields
  | [] => base
  | (k, v) :: rest => Fields.merge (base.put k (Value.mergeOver (base.get? k) v)) rest

/-- What stands at a key that held `old` once the override's value arrives. -/
def Value.mergeOver (old : Option Value) : Value → Value
  | .map entries => match old with
    | some (.map fields) => .map (Fields.merge fields entries)
    | _ => .map entries
  | v => v

end

end Feedforward
