import Feedforward.Number.Binary
import Feedforward.Value.Basic

/-!
# The order of keys

Texts are ordered by their code points and numbers by their values; there is no order between a text
and a number. The undefined number is neither below nor above any other, so where it ends up depends
on how the keys are sorted.
-/

namespace Feedforward.Json

/-- The exact value of a number, with infinities beyond all others. -/
inductive Extended where
  | lowest
  | finite (x : Rat)
  | highest
  | undefined

def Extended.ofBinary64 (x : Binary64) : Extended :=
  if x.isNan then .undefined
  else if x.isInfinite then if x.isNegative then .lowest else .highest
  else
    let (m, e) := x.magnitude
    let v : Rat := ((m * 2 ^ e.toNat : Nat) : Rat) / ((2 ^ (-e).toNat : Nat) : Rat)
    .finite (if x.isNegative then -v else v)

/-- The first value is below the second. The undefined one is below nothing and above nothing. -/
def Extended.below : Extended → Extended → Bool
  | .undefined, _ => false
  | _, .undefined => false
  | .lowest, .lowest => false
  | .lowest, _ => true
  | .finite _, .lowest => false
  | .finite x, .finite y => decide (x < y)
  | .finite _, .highest => true
  | .highest, _ => false

/-- The value of a key that is a number. -/
def extended? : Key → Option Extended
  | .bool b => some (.finite (if b then 1 else 0))
  | .int n => some (.finite n)
  | .float x => some (.ofBinary64 x)
  | _ => none

/-- The first key stands before the second. -/
def keyBefore (a b : Key) : Bool :=
  match a, b with
  | .str s, .str t => s.before t
  | a, b => match extended? a, extended? b with
    | some x, some y => x.below y
    | _, _ => false

/-- All keys are texts or all are numbers, or there is only one key. -/
def ordered (keys : List Key) : Bool :=
  keys.length ≤ 1 ||
    (keys.all fun | .str _ => true | _ => false) || keys.all fun k => (extended? k).isSome

end Feedforward.Json
