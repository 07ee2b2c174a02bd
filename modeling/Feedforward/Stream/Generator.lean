import Feedforward.Stream.Seed
import Feedforward.Stream.Wide

/-!
# The stream of random numbers

A generator is a linear congruence on 128-bit words. Each step yields 64 bits: the halves of the
state are combined by exclusive or and rotated by an amount that the highest bits of the state
give. A draw keeps the upper 53 of these bits; the draw `k` stands for the number `k / 2 ^ 53`,
which is below one.
-/

namespace Feedforward

/-- A linear congruential generator: its state and its increment. -/
structure Generator where
  state : Wide
  increment : Wide
  deriving DecidableEq

namespace Generator

def multiplier : Wide := ⟨0x2360ed051fc65da4, 0x4385df649fccf645⟩

def advance (g : Generator) : Generator := { g with state := g.state * multiplier + g.increment }

/-- The bits of a word, rotated to the right by less than 64 places. -/
def rotateRight (x amount : UInt64) : UInt64 := (x >>> amount) ||| (x <<< (64 - amount))

/-- The bits that a state shows. -/
def output (state : Wide) : UInt64 := rotateRight (state.high ^^^ state.low) (state.high >>> 58)

/-- The next draw, below `2 ^ 53`, and the generator after it. -/
def draw (g : Generator) : Nat × Generator :=
  let g := g.advance
  ((output g.state >>> 11).toNat, g)

def draws (g : Generator) : Nat → List Nat × Generator
  | 0 => ([], g)
  | n + 1 =>
    let (k, g) := g.draw
    let (ks, g) := draws g n
    (k :: ks, g)

def ofSeed (seed : Seed) : Generator :=
  match seed.state with
  | [a, b, c, d] =>
    let increment := Wide.ofNat ((c * 2 ^ 64 + d) * 2 + 1)
    let start := Wide.ofNat (a * 2 ^ 64 + b)
    ⟨(increment + start) * multiplier + increment, increment⟩
  | _ => ⟨.ofNat 0, .ofNat 1⟩

end Generator

end Feedforward
