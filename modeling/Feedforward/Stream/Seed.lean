import Feedforward.Number.Reading
import Feedforward.Value.Basic

/-!
# Seeds

A seed is a list of 32-bit words. Hashing spreads it over a pool of four words, in which every word
depends on all of the seed, and draws eight words from the pool: the state in which a generator
starts.
-/

namespace Feedforward

abbrev Seed := List UInt32

inductive SeedError where
  | negative
  | notAnInteger
  /-- A text is not the text of an integer. -/
  | notANumeral
  deriving DecidableEq

def SeedError.kind : SeedError → ErrorKind
  | .negative | .notANumeral => .value
  | .notAnInteger => .type

namespace Seed

/-- The words of a positive number, lowest first. -/
def wordsOf (n : Nat) : Seed :=
  if n < 2 ^ 32 then [UInt32.ofNat n] else UInt32.ofNat n :: wordsOf (n / 2 ^ 32)
termination_by n
decreasing_by exact Nat.div_lt_self (by omega) (by decide)

def ofInt (n : Int) : Except SeedError Seed :=
  if n < 0 then .error .negative else .ok (wordsOf n.toNat)

/-- The seed that a string in a list denotes: an integer in decimal digits, or one in hexadecimal
digits behind `0x`. -/
def ofString (s : String) : Except SeedError Seed :=
  let cs := s.toList
  if ['0', 'x'].isPrefixOf cs then
    match Text.readHexadecimal? s with
    | some n => .ok (wordsOf n)
    | none => .error .notANumeral
  else match cs.head?.any Char.isDigit, Text.readInteger? s with
    | true, some n => ofInt n
    | _, _ => .error .notANumeral

def ofText : Text → Except SeedError Seed
  | .string s => ofString s
  | .broken _ _ => .error .notANumeral

def ofKey : Key → Except SeedError Seed
  | .bool b => ofInt (if b then 1 else 0)
  | .int n => ofInt n
  | .str t => ofText t
  | .float _ | .null | .other _ => .error .notAnInteger

mutual

/-- The seed that an item of a list denotes. A list stands for its items and a mapping for its
keys. -/
def ofItem : Value → Except SeedError Seed
  | .bool b => ofInt (if b then 1 else 0)
  | .int n => ofInt n
  | .str t => ofText t
  | .list items => ofItems items
  | .map entries => return (← entries.mapM fun (k, _) => ofKey k).flatten
  | .float _ | .null | .other _ => .error .notAnInteger

def ofItems : List Value → Except SeedError Seed
  | [] => .ok []
  | v :: rest => do return (← ofItem v) ++ (← ofItems rest)

end

/-- The seed that a value denotes: an integer, or a list. -/
def ofValue : Value → Except SeedError Seed
  | .bool b => ofInt (if b then 1 else 0)
  | .int n => ofInt n
  | .list items => ofItems items
  | _ => .error .notAnInteger

/-! ### Hashing -/

/-- Four words and the multiplier that the next hashing step starts from. -/
structure Pool where
  words : Vector UInt32 4
  multiplier : UInt32

/-- Hashes a word; the multiplier moves on. -/
def hashWord (factor multiplier word : UInt32) : UInt32 × UInt32 :=
  let next := multiplier * factor
  let v := (word ^^^ multiplier) * next
  (v ^^^ (v >>> 16), next)

def mixWords (x y : UInt32) : UInt32 :=
  let r := x * 0xca01f9dd - y * 0x4973f715
  r ^^^ (r >>> 16)

/-- The factor by which the multiplier moves on while a pool is filled. -/
def fillFactor : UInt32 := 0x931e8875

/-- Hashes a word and mixes it into a place of the pool. -/
def Pool.stir (p : Pool) (place : Fin 4) (word : UInt32) : Pool :=
  let (hashed, multiplier) := hashWord fillFactor p.multiplier word
  ⟨p.words.set place (mixWords p.words[place] hashed), multiplier⟩

/-- Puts a hashed word into a place of the pool. -/
def Pool.fill (p : Pool) (place : Fin 4) (word : UInt32) : Pool :=
  let (hashed, multiplier) := hashWord fillFactor p.multiplier word
  ⟨p.words.set place hashed, multiplier⟩

def places : List (Fin 4) := [0, 1, 2, 3]

/-- Every place with every other place, as source and target of mixing. -/
def crossings : List (Fin 4 × Fin 4) :=
  places.flatMap fun s => (places.filter (· ≠ s)).map fun d => (s, d)

/-- The pool of a seed. The first four words fill it, the places are mixed with each other, and each
further word is mixed into all places. -/
def pool (seed : Seed) : Pool :=
  let empty : Pool := ⟨Vector.replicate 4 0, 0x43b0d7e5⟩
  let filled := places.foldl (fun p i => p.fill i (seed.getD i 0)) empty
  let crossed := crossings.foldl (fun p (s, d) => p.stir d p.words[s]) filled
  (seed.drop 4).foldl (fun p w => places.foldl (fun p d => p.stir d w) p) crossed

/-- Words drawn from the pool, going around it. -/
def drawWords (words : Vector UInt32 4) : (count : Nat) → (multiplier : UInt32) → (place : Fin 4) →
    List UInt32
  | 0, _, _ => []
  | count + 1, multiplier, place =>
    let (hashed, next) := hashWord 0x58f38ded multiplier words[place]
    hashed :: drawWords words count next (place + 1)

/-- The four 64-bit words with which a generator starts. -/
def state (seed : Seed) : List Nat :=
  let rec pairs : List UInt32 → List Nat
    | low :: high :: rest => (low.toNat + high.toNat * 2 ^ 32) :: pairs rest
    | _ => []
  pairs (drawWords seed.pool.words 8 0x8b51f9dd 0)

end Seed

end Feedforward
