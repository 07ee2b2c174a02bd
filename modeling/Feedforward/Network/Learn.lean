import Feedforward.Network.Basic

/-!
# Learning

A learning rule changes the weights of one layer. It is given the weights, the signals that the
layer reads, the layer's error if there is one, and whatever the caller passes along. The perceptron
rule adds to every row of the weights the inputs multiplied with the first component of the error.
-/

namespace Feedforward

/-- A learning rule: from weights, inputs, error and extra information to new weights and an
answer for the caller. -/
abbrev Learner (A I R : Type) := A → A → Option A → I → Except NetworkError (A × R)

/-- The perceptron rule. It uses the first component of the error only and answers with nothing. -/
def perceptron {A I R : Type} [Arithmetic A] : Learner A I (Option R) :=
  fun weights inputs error _ => do
    let actual ← ofArray (Arithmetic.axis 0 inputs)
    let expected ← ofArray (Arithmetic.axis 1 weights)
    if actual ≠ expected then .error (.mismatch .learnerInputs expected actual)
    let error ← present error
    if (← ofArray (Arithmetic.axis 0 error)) = 0 then .error .emptyError
    let step ← ofArray (Arithmetic.scale inputs (← ofArray (Arithmetic.first error)))
    return (← ofArray (Arithmetic.increase weights step), none)

namespace Network

/-- Applies a learning rule to the layer at a position that may count from the end. -/
def update {A I R : Type} [Arithmetic A] (net : Network A) (g : Graph A) (i : Int)
    (learner : Learner A I R) (info : I) : Except NetworkError (R × Network A) := do
  let (n, layer) ← net.resolve i
  match layer.weights with
  | none => .error (.sourceLayer i)
  | some w =>
    let (w, answer) ← learner w (← net.gather g layer) layer.error info
    return (answer, net.setBuffer n .weights (some w))

end Network

end Feedforward
