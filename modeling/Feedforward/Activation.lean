import Feedforward.Tensor.Numeric

/-!
# Activations

An activation is a named function on arrays together with its derivative. The four built-in ones
are `linear`, `relu`, `tanh` and `sigmoid`; `Registry` finds activations by name.
-/

namespace Feedforward

/-- A function on arrays and its derivative. Either may refuse its argument. -/
structure Activation (A : Type) where
  name : String
  evaluate : A → Except ArrayFault A
  derivate : A → Except ArrayFault A

/-- The name of an activation that was given none. -/
def Activation.defaultName : String := "custom"

namespace Numeric

/-- A function on real numbers applied to every element; integers become doubles. -/
def mapReal (doubles : Float → Float) (singles : Float32 → Float32) : Numeric → Numeric
  | float64 t => float64 (t.map doubles)
  | float32 t => float32 (t.map singles)
  | int64 t => float64 (t.map fun n => doubles n.toFloat)

/-- The negative of every element, in the same kind. The least integer is its own negative. -/
def negate : Numeric → Numeric
  | float64 t => float64 (t.map (-·))
  | float32 t => float32 (t.map (-·))
  | int64 t => int64 (t.map (-·))

def onesLike : Numeric → Numeric
  | float64 t => float64 (t.map fun _ => 1)
  | float32 t => float32 (t.map fun _ => 1)
  | int64 t => int64 (t.map fun _ => 1)

/-- One where an element is positive and zero elsewhere. -/
def positivePart : Numeric → Numeric
  | float64 t => float64 (t.map fun x => if 0 < x then 1 else 0)
  | float32 t => float64 (t.map fun x => if 0 < x then 1 else 0)
  | int64 t => float64 (t.map fun n => if 0 < n then 1 else 0)

end Numeric

/-- A number, or zero in the place of one that is not positive. The undefined number stays. -/
def rectify {α : Type} [LE α] [DecidableLE α] [OfNat α 0] (x : α) : α := if x ≤ 0 then 0 else x

/-- One minus the square of the hyperbolic tangent. -/
def tanhSlope {α : Type} [OfNat α 1] [Sub α] [Mul α] (tanh : α → α) (x : α) : α :=
  1 - tanh x * tanh x

/-- The logistic function of the number whose negative is given. -/
def logistic {α : Type} [OfNat α 1] [Add α] [Div α] (exp : α → α) (opposite : α) : α :=
  1 / (1 + exp opposite)

/-- The slope of the logistic function, from its value. -/
def logisticSlope {α : Type} [OfNat α 1] [Add α] [Div α] [Sub α] [Mul α] (exp : α → α)
    (opposite : α) : α :=
  logistic exp opposite * (1 - logistic exp opposite)

namespace Activation

/-- The identity. -/
def linear : Activation Numeric where
  name := "linear"
  evaluate a := .ok a
  derivate a := .ok a.onesLike

/-- The identity on positive numbers and zero elsewhere. -/
def relu : Activation Numeric where
  name := "relu"
  evaluate a := .ok (a.mapReal rectify rectify)
  derivate a := .ok a.positivePart

def tanh : Activation Numeric where
  name := "tanh"
  evaluate a := .ok (a.mapReal Float.tanh Float32.tanh)
  derivate a := .ok (a.mapReal (tanhSlope Float.tanh) (tanhSlope Float32.tanh))

/-- The logistic function. -/
def sigmoid : Activation Numeric where
  name := "sigmoid"
  evaluate a := .ok (a.negate.mapReal (logistic Float.exp) (logistic Float32.exp))
  derivate a := .ok (a.negate.mapReal (logisticSlope Float.exp) (logisticSlope Float32.exp))

/-- The activations that need no registration. -/
def builtIn : List (Activation Numeric) := [linear, relu, sigmoid, tanh]

end Activation

/-- Activations by name. -/
structure Registry (A : Type) where
  activations : List (Activation A)

namespace Registry

variable {A : Type}

def empty : Registry A := ⟨[]⟩

def standard : Registry Numeric := ⟨Activation.builtIn⟩

def find? (r : Registry A) (name : String) : Option (Activation A) :=
  r.activations.find? (·.name == name)

/-- Adds an activation; it takes the place of one with the same name. -/
def register (r : Registry A) (a : Activation A) : Registry A :=
  ⟨a :: r.activations.filter (·.name != a.name)⟩

/-- The names in alphabetical order. -/
def names (r : Registry A) : List String :=
  (r.activations.map (·.name)).mergeSort fun a b => decide (a ≤ b)

end Registry

end Feedforward
