import Feedforward.Number.Instances

/-!
# Wide words

A word of 128 bits is held as two words of 64 bits. Sums and products wrap around, as `toNat_add`
and `toNat_mul` say.
-/

namespace Feedforward

/-- A word of 128 bits, as its halves. -/
structure Wide where
  high : UInt64
  low : UInt64
  deriving DecidableEq

namespace Wide

def toNat (w : Wide) : Nat := w.high.toNat * 2 ^ 64 + w.low.toNat

/-- The word for a number, which wraps around. -/
def ofNat (n : Nat) : Wide := ⟨UInt64.ofNat (n / 2 ^ 64), UInt64.ofNat n⟩

@[simp] theorem toNat_ofNat (n : Nat) : (ofNat n).toNat = n % 2 ^ 128 := by
  simp only [toNat, ofNat, UInt64.toNat_ofNat']
  omega

/-! ### Sums -/

/-- The sum. What the lower halves carry shows in that their sum is less than either of them. -/
def add (a b : Wide) : Wide :=
  let low := a.low + b.low
  ⟨a.high + b.high + (if low < b.low then 1 else 0), low⟩

instance : Add Wide := ⟨add⟩

@[simp] theorem toNat_add (a b : Wide) : (a + b).toNat = (a.toNat + b.toNat) % 2 ^ 128 := by
  have ha := a.low.toNat_lt
  have hb := b.low.toNat_lt
  have hsum : (a.low + b.low).toNat = (a.low.toNat + b.low.toNat) % 2 ^ 64 := UInt64.toNat_add ..
  change (add a b).toNat = _
  by_cases h : a.low + b.low < b.low
  · have hlt := UInt64.lt_iff_toNat_lt.1 h
    simp only [toNat, add, h, if_true, UInt64.toNat_add, UInt64.toNat_one]
    omega
  · have hle : b.low.toNat ≤ (a.low + b.low).toNat :=
      Nat.le_of_not_lt fun hlt => h (UInt64.lt_iff_toNat_lt.2 hlt)
    simp only [toNat, add, h, if_false, UInt64.toNat_add, UInt64.toNat_zero]
    omega

/-! ### Products -/

/-- The upper half of the product of two words of 64 bits, from the products of their halves. -/
def upperProduct (a b : UInt64) : UInt64 :=
  let a₀ := a % 0x100000000
  let a₁ := a / 0x100000000
  let b₀ := b % 0x100000000
  let b₁ := b / 0x100000000
  let middle := a₀ * b₀ / 0x100000000 + a₁ * b₀ % 0x100000000 + a₀ * b₁ % 0x100000000
  a₁ * b₁ + a₁ * b₀ / 0x100000000 + a₀ * b₁ / 0x100000000 + middle / 0x100000000

theorem mul_le_of_lt {a b : Nat} (ha : a < 2 ^ 32) (hb : b < 2 ^ 32) :
    a * b ≤ (2 ^ 32 - 1) * (2 ^ 32 - 1) :=
  Nat.mul_le_mul (Nat.le_sub_one_of_lt ha) (Nat.le_sub_one_of_lt hb)

theorem mul_eq_of_halves (a b : Nat) : a * b = a / 2 ^ 32 * (b / 2 ^ 32) * 2 ^ 64 +
    (a / 2 ^ 32 * (b % 2 ^ 32) + a % 2 ^ 32 * (b / 2 ^ 32)) * 2 ^ 32 +
    a % 2 ^ 32 * (b % 2 ^ 32) := by
  have ha := Nat.div_add_mod' a (2 ^ 32)
  have hb := Nat.div_add_mod' b (2 ^ 32)
  generalize a / 2 ^ 32 = a₁, a % 2 ^ 32 = a₀ at ha ⊢
  generalize b / 2 ^ 32 = b₁, b % 2 ^ 32 = b₀ at hb ⊢
  grind

theorem toNat_upperProduct (a b : UInt64) :
    (upperProduct a b).toNat = a.toNat * b.toNat / 2 ^ 64 := by
  have ha₁ : a.toNat / 2 ^ 32 < 2 ^ 32 := by have := a.toNat_lt; omega
  have hb₁ : b.toNat / 2 ^ 32 < 2 ^ 32 := by have := b.toNat_lt; omega
  have ha₀ : a.toNat % 2 ^ 32 < 2 ^ 32 := Nat.mod_lt _ (by decide)
  have hb₀ : b.toNat % 2 ^ 32 < 2 ^ 32 := Nat.mod_lt _ (by decide)
  have h₀₀ := mul_le_of_lt ha₀ hb₀
  have h₀₁ := mul_le_of_lt ha₀ hb₁
  have h₁₀ := mul_le_of_lt ha₁ hb₀
  have h₁₁ := mul_le_of_lt ha₁ hb₁
  rw [mul_eq_of_halves]
  simp only [upperProduct, UInt64.toNat_add, UInt64.toNat_div, UInt64.toNat_mod, UInt64.toNat_mul,
    UInt64.reduceToNat, Nat.reducePow, Nat.reduceSub, Nat.reduceMul] at *
  generalize a.toNat % 4294967296 * (b.toNat % 4294967296) = p₀₀ at *
  generalize a.toNat % 4294967296 * (b.toNat / 4294967296) = p₀₁ at *
  generalize a.toNat / 4294967296 * (b.toNat % 4294967296) = p₁₀ at *
  generalize a.toNat / 4294967296 * (b.toNat / 4294967296) = p₁₁ at *
  omega

/-- The product. The upper halves meet beyond the word. -/
def mul (a b : Wide) : Wide :=
  ⟨upperProduct a.low b.low + a.high * b.low + a.low * b.high, a.low * b.low⟩

instance : Mul Wide := ⟨mul⟩

@[simp] theorem toNat_mul (a b : Wide) : (a * b).toNat = a.toNat * b.toNat % 2 ^ 128 := by
  change (mul a b).toNat = _
  have hexpand : a.toNat * b.toNat = a.high.toNat * b.high.toNat * 2 ^ 128 +
      (a.high.toNat * b.low.toNat + a.low.toNat * b.high.toNat) * 2 ^ 64 +
      a.low.toNat * b.low.toNat := by
    grind [toNat]
  rw [hexpand]
  simp only [toNat, mul, UInt64.toNat_add, UInt64.toNat_mul, toNat_upperProduct]
  omega

end Wide

end Feedforward
