/-!
# Powers and zeros

Powers with natural exponents, and the zero that a sum of natural numbers starts from, are those of
the core library. Algebraic libraries bring instances of their own for both, which are equal to
these but not the same terms. With a higher priority a power means one thing in every module,
whatever the module imports.
-/

namespace Feedforward

@[default_instance 20000]
instance (priority := high) powNat {α : Type} [NatPow α] : Pow α Nat := instPowNat

instance (priority := high) zeroNat : Zero Nat := ⟨0⟩

end Feedforward
