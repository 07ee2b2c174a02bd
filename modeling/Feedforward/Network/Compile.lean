import Feedforward.Network.Basic

/-!
# From a graph to a network

`Graph.compile` gives each group that reaches an output a layer, in the order of the graph. Weights
are drawn from a generator, layer by layer and row by row; sources draw nothing. Signals and errors
start at zero. The generator comes back advanced by the draws that were made, also when compiling
fails. A caller who hands over no generator gets a new one that starts from a seed.
-/

namespace Feedforward

inductive CompileError where
  | order (e : OrderError)
  | array (fault : ArrayFault)
  deriving DecidableEq

def CompileError.kind : CompileError → ErrorKind
  | .order e => e.kind
  | .array fault => fault.kind

def CompileError.message? {A : Type} (g : Graph A) : CompileError → Option String
  | .order e => some (e.message g)
  | .array _ => none

namespace Graph

variable {A : Type}

/-- The weights of a group; sources have none. -/
def drawWeights (g : Graph A) (alloc : Allocation A) (h : Handle) (gen : Generator) :
    Except ArrayFault (Option A) × Generator :=
  if g.isSource h then (.ok none, gen)
  else
    let rows := g.cardinality h
    let columns := g.inputSize h
    match alloc.room rows columns with
    | .error fault => (.error fault, gen)
    | .ok () =>
      let (ks, gen) := gen.draws (rows * columns)
      ((alloc.weights rows columns ks).map some, gen)

/-- The weights of the groups, drawn one after the other. -/
def drawAll (g : Graph A) (alloc : Allocation A) : List Handle → Generator →
    Except ArrayFault (List (Option A)) × Generator
  | [], gen => (.ok [], gen)
  | h :: rest, gen => match g.drawWeights alloc h gen with
    | (.error fault, gen) => (.error fault, gen)
    | (.ok weights, gen) => match drawAll g alloc rest gen with
      | (.error fault, gen) => (.error fault, gen)
      | (.ok others, gen) => (.ok (weights :: others), gen)

def newLayer (g : Graph A) (alloc : Allocation A) (h : Handle) (weights : Option A) :
    Except ArrayFault (Layer A) := do
  let zeros ← alloc.zeros (g.cardinality h)
  return ⟨h, weights, some zeros, some zeros⟩

/-- The new layers of groups with the given weights. -/
def newLayers (g : Graph A) (alloc : Allocation A) :
    List Handle → List (Option A) → Except ArrayFault (List (Layer A))
  | h :: hs, weights :: rest => do
    let layer ← g.newLayer alloc h weights
    return layer :: (← newLayers g alloc hs rest)
  | _, _ => .ok []

/-- The network of the groups that reach an output. -/
def compile (g : Graph A) (alloc : Allocation A) (output : Handle) (gen : Generator) :
    Except CompileError (Network A) × Generator :=
  match g.order output with
  | .error e => (.error (.order e), gen)
  | .ok hs => match g.drawAll alloc hs gen with
    | (.error fault, gen) => (.error (.array fault), gen)
    | (.ok weights, gen) => match g.newLayers alloc hs weights with
      | .error fault => (.error (.array fault), gen)
      | .ok layers => (.ok (.ofLayers layers), gen)

end Graph

/-- The generator that a value asks for as its seed. Null asks for a seed that nobody knows, which
is given. -/
def Generator.ofValue (unknown : Seed) : Value → Except SeedError Generator
  | .null => .ok (.ofSeed unknown)
  | v => match Seed.ofValue v with
    | .error e => .error e
    | .ok seed => .ok (.ofSeed seed)

/-- The network of the groups that reach an output, with draws from the generator that is handed
over, or else from one that starts from a seed. -/
def Graph.compileFrom {A : Type} (g : Graph A) (alloc : Allocation A) (output : Handle)
    (unknown : Seed) (seed : Value) :
    Option Generator → Except SeedError (Except CompileError (Network A) × Generator)
  | some gen => .ok (g.compile alloc output gen)
  | none => match Generator.ofValue unknown seed with
    | .error e => .error e
    | .ok gen => .ok (g.compile alloc output gen)

end Feedforward
