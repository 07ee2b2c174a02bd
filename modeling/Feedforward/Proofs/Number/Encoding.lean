import Mathlib
import Feedforward.Proofs.Number.Rounding

/-!
# The numbers that encodings stand for

An encoding is taken apart into its sign, its significand and its exponent, and stands for the
rational that these give (`unpackedValue?`). The encoding that `Format.trimmedPattern` writes for
`n / 2 ^ s` stands for that number (`unpackedValue?_of_holds`), and its negative for the
negative one.
-/

namespace Feedforward

open Float.Model.UnpackedFloat (pack unpack packComponents)

/-- The rational that a floating-point number stands for. Infinities and what is no number stand for
none. -/
def unpackedValue? : Float.Model.UnpackedFloat → Option ℚ
  | .zero _ => some 0
  | .finite sign m e _ => some (sign.apply m * 2 ^ e)
  | .infinity _ | .notANumber => none

/-- The format that a model of floating-point numbers is about. -/
def Format.ofModel (S : Float.Model.Format) : Format :=
  ⟨S.mantissaBitsWithoutImplicit, S.exponentBits⟩

section Normal

variable {S : Float.Model.Format} {m b : ℕ}

/-- The number with a leading bit in its significand, by its exponent field. -/
def normal (S : Float.Model.Format) (sign : Float.Model.UnpackedFloat.Sign) (b : ℕ) (hm : 0 < m) :
    Float.Model.UnpackedFloat :=
  .finite sign m (b - (S.exponentBias + S.mantissaBitsWithoutImplicit : ℕ)) hm

/-- A leading bit in front of a word. -/
theorem toNat_append_one (w : ℕ) (v : BitVec w) : (1#1 ++ v).toNat = 2 ^ w + v.toNat := by
  rw [BitVec.toNat_append, ← Nat.shiftLeft_add_eq_or_of_lt v.isLt, Nat.shiftLeft_eq]
  simp

/-- The leading bit is left out, and the other ones are the lower part of the significand. -/
theorem mod_two_pow_of_leading {w : ℕ} (hlow : 2 ^ w ≤ m) (hhigh : m < 2 ^ (w + 1)) :
    m % 2 ^ w = m - 2 ^ w := by
  rw [Nat.mod_eq_sub_mod hlow, Nat.mod_eq_of_lt]
  rw [pow_succ] at hhigh
  omega

/-- A significand with its leading bit is read back from its fields, as the leading bit of a normal
number is not written. -/
theorem unpack_packComponents (sign : Float.Model.UnpackedFloat.Sign) (hm : 0 < m)
    (hlow : 2 ^ S.mantissaBitsWithoutImplicit ≤ m)
    (hhigh : m < 2 ^ (S.mantissaBitsWithoutImplicit + 1))
    (hb : b ≠ 0) (hfinite : b + 1 < 2 ^ S.exponentBits) :
    unpack S (packComponents S sign (.ofNat _ b) (.ofNat _ m)) = normal S sign b hm := by
  have hfield : (BitVec.ofNat S.exponentBits b).toNat = b := Nat.mod_eq_of_lt (by omega)
  -- the exponent is neither that of a subnormal nor that of an infinity
  have hzero : BitVec.ofNat S.exponentBits b ≠ 0#_ := by
    intro h
    rw [h] at hfield
    exact hb hfield.symm
  have hones : BitVec.ofNat S.exponentBits b ≠ -1#_ := by
    intro h
    rw [h, BitVec.neg_one_eq_allOnes, BitVec.toNat_allOnes] at hfield
    omega
  -- the leading bit of the mantissa is not stored, and is put back
  have hmantissa : (1#1 ++ BitVec.ofNat S.mantissaBitsWithoutImplicit m).toNat = m := by
    rw [toNat_append_one, BitVec.toNat_ofNat, mod_two_pow_of_leading hlow hhigh]
    omega
  unfold Float.Model.UnpackedFloat.unpack
  simp only [Float.Model.UnpackedFloat.unpackMantissa_packComponents,
    Float.Model.UnpackedFloat.unpackExponent_packComponents,
    Float.Model.UnpackedFloat.unpackSign_packComponents,
    Float.Model.UnpackedFloat.Sign.ofBitVec_toBitVec, hones, hzero, if_false, hfield, hmantissa,
    normal, Nat.cast_add]

/-- A number whose significand has its leading bit in place is packed without rounding. -/
theorem pack_normal (sign : Float.Model.UnpackedFloat.Sign) (hm : 0 < m)
    (hlow : 2 ^ S.mantissaBitsWithoutImplicit ≤ m)
    (hhigh : m < 2 ^ (S.mantissaBitsWithoutImplicit + 1)) (hfinite : b + 1 < 2 ^ S.exponentBits) :
    pack S (normal S sign b hm) = packComponents S sign (.ofNat _ b) (.ofNat _ m) := by
  have hlog : m.log2 + 1 = S.mantissaBits := by
    rw [(Nat.log2_eq_iff hm.ne').mpr ⟨hlow, hhigh⟩, Float.Model.Format.mantissaBits, Nat.add_comm]
  have hbiased : ((b : ℤ) - (S.exponentBias + S.mantissaBitsWithoutImplicit : ℕ) + S.exponentBias +
      S.mantissaBitsWithoutImplicit).toNat = b := by
    push_cast
    omega
  rw [normal, Float.Model.UnpackedFloat.pack]
  simp only [hbiased, hlog, if_true]
  rw [if_neg (by omega)]

/-- A normal number is read back from its encoding. -/
theorem unpack_pack_normal (sign : Float.Model.UnpackedFloat.Sign) (hm : 0 < m)
    (hlow : 2 ^ S.mantissaBitsWithoutImplicit ≤ m)
    (hhigh : m < 2 ^ (S.mantissaBitsWithoutImplicit + 1))
    (hb : b ≠ 0) (hfinite : b + 1 < 2 ^ S.exponentBits) :
    unpack S (pack S (normal S sign b hm)) = normal S sign b hm := by
  rw [pack_normal sign hm hlow hhigh hfinite, unpack_packComponents sign hm hlow hhigh hb hfinite]

/-- The fields of a positive normal number lie side by side. The leading bit carries into the
exponent. -/
theorem packComponents_positive (hlow : 2 ^ S.mantissaBitsWithoutImplicit ≤ m)
    (hhigh : m < 2 ^ (S.mantissaBitsWithoutImplicit + 1)) (hb : b ≠ 0)
    (hfinite : b + 1 < 2 ^ S.exponentBits) :
    packComponents S .positive (.ofNat _ b) (.ofNat _ m) =
      .ofNat _ ((b - 1) <<< S.mantissaBitsWithoutImplicit + m) := by
  apply BitVec.eq_of_toNat_eq
  -- the leading bit of the mantissa adds one to the exponent, which was one too small
  have hfield : b * 2 ^ S.mantissaBitsWithoutImplicit =
      (b - 1) * 2 ^ S.mantissaBitsWithoutImplicit + 2 ^ S.mantissaBitsWithoutImplicit := by
    rw [← Nat.succ_mul]
    congr 1
    omega
  have hroom : (b - 1) * 2 ^ S.mantissaBitsWithoutImplicit + m < 2 ^ S.numBits := by
    calc (b - 1) * 2 ^ S.mantissaBitsWithoutImplicit + m
        < (b + 1) * 2 ^ S.mantissaBitsWithoutImplicit := by
          rw [pow_succ] at hhigh
          rw [Nat.succ_mul, hfield]
          omega
      _ ≤ 2 ^ S.exponentBits * 2 ^ S.mantissaBitsWithoutImplicit :=
        Nat.mul_le_mul_right _ hfinite.le
      _ ≤ 2 ^ S.numBits := by
        rw [← pow_add]
        apply Nat.pow_le_pow_right Nat.two_pos
        rw [Float.Model.Format.numBits]
        omega
  have hsign : Float.Model.UnpackedFloat.Sign.positive.toBitVec.toNat = 0 := rfl
  unfold packComponents
  rw [BitVec.toNat_append, BitVec.toNat_append, ← Nat.shiftLeft_add_eq_or_of_lt (BitVec.isLt _),
    BitVec.toNat_ofNat, BitVec.toNat_ofNat, BitVec.toNat_ofNat, hsign, Nat.zero_shiftLeft,
    Nat.zero_or, Nat.mod_eq_of_lt (by omega), mod_two_pow_of_leading hlow hhigh, Nat.shiftLeft_eq,
    Nat.shiftLeft_eq, Nat.mod_eq_of_lt hroom, hfield]
  omega

end Normal

/-! ## Multiples of a power of two -/

namespace Format

variable {f : Format} {s n : ℕ}

/-- A number that the format holds loses nothing when it is cut to its leading bits. -/
theorem dvd_of_holds (hn : n ≠ 0) (h : f.Holds (n / 2 ^ s)) :
    2 ^ (n.log2 - f.fractionBits) ∣ n := by
  obtain ⟨m, e, he, hx⟩ := h.exists_eq_mul (by positivity)
  have hplace : (n.log2 : ℤ) - s - f.fractionBits ≤ e := by
    rw [← log_div_two_pow hn]
    exact (le_max_right _ _).trans he
  -- case: there is nothing behind the last place
  rcases Nat.eq_zero_or_pos (n.log2 - f.fractionBits) with hzero | hextra
  · rw [hzero, pow_zero]
    exact one_dvd n
  · have hmul : n = m * 2 ^ (e + s).toNat := by
      have hcast : (n : ℚ) = m * 2 ^ (e + s).toNat := by
        rw [div_eq_iff (by positivity)] at hx
        rw [hx, mul_assoc, ← zpow_natCast, ← zpow_natCast, ← zpow_add₀ two_ne_zero]
        congr 2
        omega
      exact_mod_cast hcast
    rw [hmul]
    apply Dvd.dvd.mul_left
    rw [← hmul]
    exact pow_dvd_pow 2 (by omega)

/-- The significand with its leading bit in place. -/
def aligned (f : Format) (n : ℕ) : ℕ :=
  if n.log2 ≤ f.fractionBits then n <<< (f.fractionBits - n.log2)
  else n >>> (n.log2 - f.fractionBits)

theorem trimmedPattern_eq (hn : n ≠ 0) :
    f.trimmedPattern s n = (n.log2 + f.bias - s - 1) <<< f.fractionBits + f.aligned n := by
  rw [trimmedPattern, if_neg hn, aligned]

/-- The aligned significand has its leading bit in place. -/
theorem aligned_bounds (hn : n ≠ 0) :
    2 ^ f.fractionBits ≤ f.aligned n ∧ f.aligned n < 2 ^ (f.fractionBits + 1) := by
  have hlow := Nat.log2_self_le hn
  have hhigh := Nat.lt_log2_self (n := n)
  rw [aligned]
  split
  · next hle =>  -- case: zeros are put behind
      rw [Nat.shiftLeft_eq]
      constructor
      · calc 2 ^ f.fractionBits = 2 ^ n.log2 * 2 ^ (f.fractionBits - n.log2) := by
              rw [← pow_add, Nat.add_sub_cancel' hle]
          _ ≤ n * 2 ^ (f.fractionBits - n.log2) := Nat.mul_le_mul_right _ hlow
      · calc n * 2 ^ (f.fractionBits - n.log2)
            < 2 ^ (n.log2 + 1) * 2 ^ (f.fractionBits - n.log2) :=
              Nat.mul_lt_mul_of_pos_right hhigh (Nat.two_pow_pos _)
          _ = 2 ^ (f.fractionBits + 1) := by
            rw [← pow_add]
            congr 1
            omega
  · next hlt =>  -- case: what is behind the last place is cut off
      rw [Nat.shiftRight_eq_div_pow]
      constructor
      · rw [Nat.le_div_iff_mul_le (Nat.two_pow_pos _), ← pow_add, Nat.add_sub_cancel' (by omega)]
        exact hlow
      · rw [Nat.div_lt_iff_lt_mul (Nat.two_pow_pos _), ← pow_add]
        convert hhigh using 2
        omega

/-- Nothing is lost where the bits that are cut off are zeros. -/
theorem aligned_mul (hdvd : 2 ^ (n.log2 - f.fractionBits) ∣ n) :
    (f.aligned n : ℚ) * 2 ^ ((n.log2 : ℤ) - f.fractionBits) = n := by
  rw [aligned]
  split
  · next hle =>
      rw [Nat.shiftLeft_eq, Nat.cast_mul, Nat.cast_pow, Nat.cast_ofNat, mul_assoc, ← zpow_natCast,
        ← zpow_add₀ two_ne_zero, Nat.cast_sub hle]
      simp
  · next hlt =>
      rw [Nat.shiftRight_eq_div_pow, ← Nat.cast_sub (by omega), zpow_natCast]
      exact_mod_cast Nat.div_mul_cancel hdvd

end Format

/-! ## Encodings of multiples of a power of two -/

section Encoding

variable {S : Float.Model.Format} {s n : ℕ}

/-- The exponent of the number one is far from the last one. -/
theorem exponentBias_add_one_lt (S : Float.Model.Format) :
    S.exponentBias + 1 < 2 ^ S.exponentBits := by
  have hbits : S.exponentBits - 1 + 1 = S.exponentBits := Nat.sub_add_cancel S.he
  have hpos := Nat.two_pow_pos (S.exponentBits - 1)
  rw [Float.Model.Format.exponentBias, ← hbits, pow_succ, Nat.add_sub_cancel]
  omega

theorem unpackedValue?_normal (sign : Float.Model.UnpackedFloat.Sign) {m b : ℕ} (hm : 0 < m) :
    unpackedValue? (normal S sign b hm) = some ((sign.apply m : ℤ) *
      (2 : ℚ) ^ ((b : ℤ) - (S.exponentBias + S.mantissaBitsWithoutImplicit : ℕ))) := rfl

/-- The encoding of a fraction that the format holds is that of a normal number of its value. -/
theorem exists_normal_of_holds (hn : n ≠ 0) (hholds : (Format.ofModel S).Holds (n / 2 ^ s))
    (hle : n ≤ 2 ^ s) (hs : s < S.exponentBias) :
    ∃ (m b : ℕ) (hm : 0 < m),
      .ofNat _ ((Format.ofModel S).trimmedPattern s n) = pack S (normal S .positive b hm) ∧
      (∀ sign, unpack S (pack S (normal S sign b hm)) = normal S sign b hm) ∧
      (m : ℚ) * 2 ^ ((b : ℤ) - (S.exponentBias + S.mantissaBitsWithoutImplicit : ℕ)) =
        n / 2 ^ s := by
  obtain ⟨hlow, hhigh⟩ := Format.aligned_bounds (f := .ofModel S) hn
  have hlog : n.log2 ≤ s := by
    have hpow : 2 ^ n.log2 ≤ 2 ^ s := (Nat.log2_self_le hn).trans hle
    exact (Nat.pow_le_pow_iff_right Nat.one_lt_two).mp hpow
  have hbias : (Format.ofModel S).bias = S.exponentBias := by
    rw [Format.bias, Nat.one_shiftLeft]
    rfl
  have hrange := exponentBias_add_one_lt S
  have hm : 0 < (Format.ofModel S).aligned n := (Nat.two_pow_pos _).trans_le hlow
  -- the exponent lies within the range of the format
  have hb : n.log2 + S.exponentBias - s ≠ 0 := by omega
  have hfinite : n.log2 + S.exponentBias - s + 1 < 2 ^ S.exponentBits := by omega
  refine ⟨(Format.ofModel S).aligned n, n.log2 + S.exponentBias - s, hm, ?_, ?_, ?_⟩
  · rw [pack_normal .positive hm hlow hhigh hfinite, packComponents_positive hlow hhigh hb hfinite,
      Format.trimmedPattern_eq hn, hbias]
    rfl
  · intro sign
    exact unpack_pack_normal sign hm hlow hhigh hb hfinite
  · have haligned := Format.aligned_mul (Format.dvd_of_holds hn hholds)
    have hfraction : (Format.ofModel S).fractionBits = S.mantissaBitsWithoutImplicit := rfl
    rw [eq_div_iff (by positivity), mul_assoc, ← zpow_natCast, ← zpow_add₀ two_ne_zero]
    conv_rhs => rw [← haligned]
    congr 2
    omega

theorem ofNat_zero_eq_pack (S : Float.Model.Format) :
    BitVec.ofNat S.numBits 0 = pack S (.zero .positive) := by
  unfold Float.Model.UnpackedFloat.pack Float.Model.UnpackedFloat.packedZero packComponents
    Float.Model.UnpackedFloat.Sign.toBitVec
  simp

@[simp] theorem unpack_pack_zero (sign : Float.Model.UnpackedFloat.Sign) :
    unpack S (pack S (.zero sign)) = .zero sign :=
  Float.Model.UnpackedFloat.unpack_packedZero

/-- An encoding is read, and the negative of what was read is encoded and read again. -/
theorem unpackedValue?_of_holds (hholds : (Format.ofModel S).Holds (n / 2 ^ s)) (hle : n ≤ 2 ^ s)
    (hs : s < S.exponentBias) {u : Float.Model.UnpackedFloat}
    (hu : u = unpack S (pack S (unpack S (.ofNat _ ((Format.ofModel S).trimmedPattern s n))))) :
    unpackedValue? u = some (n / 2 ^ s : ℚ) ∧
    unpackedValue? (unpack S (pack S u.neg)) = some (-(n / 2 ^ s) : ℚ) := by
  rcases eq_or_ne n 0 with rfl | hn
  · have hneg : (Float.Model.UnpackedFloat.zero .positive).neg = .zero .negative := rfl
    rw [Format.trimmedPattern, if_pos rfl, ofNat_zero_eq_pack, unpack_pack_zero,
      unpack_pack_zero] at hu
    rw [hu, hneg, unpack_pack_zero, Nat.cast_zero, zero_div, neg_zero]
    exact ⟨rfl, rfl⟩
  · obtain ⟨m, b, hm, hpattern, hread, hvalue⟩ := exists_normal_of_holds hn hholds hle hs
    have hneg : (normal S .positive b hm).neg = normal S .negative b hm := rfl
    rw [hpattern, hread, hread] at hu
    rw [hu, hneg, hread, unpackedValue?_normal, unpackedValue?_normal, ← hvalue]
    refine ⟨rfl, ?_⟩
    rw [← neg_mul]
    push_cast [Float.Model.UnpackedFloat.Sign.apply]
    rfl

/-- The rational that a double stands for. -/
def doubleValue? (x : Float) : Option ℚ := unpackedValue? x.toModel.unpack

def singleValue? (x : Float32) : Option ℚ := unpackedValue? x.toModel.unpack

theorem unpack_double_ofBits (w : UInt64) : (Float.ofBits w).toModel.unpack =
    unpack .binary64 (pack .binary64 (unpack .binary64 w.toBitVec)) := rfl

theorem unpack_double_neg (x : Float) :
    (-x).toModel.unpack = unpack .binary64 (pack .binary64 x.toModel.unpack.neg) := rfl

theorem unpack_single_ofBits (w : UInt32) : (Float32.ofBits w).toModel.unpack =
    unpack .binary32 (pack .binary32 (unpack .binary32 w.toBitVec)) := rfl

theorem unpack_single_neg (x : Float32) :
    (-x).toModel.unpack = unpack .binary32 (pack .binary32 x.toModel.unpack.neg) := rfl

/-- A number that doubles hold is what its encoding stands for, with either sign. -/
theorem doubleValue?_ofBits (hholds : Format.binary64.Holds (n / 2 ^ s)) (hle : n ≤ 2 ^ s)
    (hs : s < 1023) {x : Float} (hx : x = .ofBits (.ofNat (Format.binary64.trimmedPattern s n))) :
    doubleValue? x = some (n / 2 ^ s : ℚ) ∧ doubleValue? (-x) = some (-(n / 2 ^ s) : ℚ) := by
  have hbias : Float.Model.Format.binary64.exponentBias = 1023 := by decide
  have hu := unpack_double_ofBits (.ofNat (Format.binary64.trimmedPattern s n))
  rw [← hx, UInt64.toBitVec_ofNat'] at hu
  rw [doubleValue?, doubleValue?, unpack_double_neg]
  exact unpackedValue?_of_holds (S := .binary64) hholds hle (hbias ▸ hs) hu

/-- The same for singles. -/
theorem singleValue?_ofBits (hholds : Format.binary32.Holds (n / 2 ^ s)) (hle : n ≤ 2 ^ s)
    (hs : s < 127) {x : Float32} (hx : x = .ofBits (.ofNat (Format.binary32.trimmedPattern s n))) :
    singleValue? x = some (n / 2 ^ s : ℚ) ∧ singleValue? (-x) = some (-(n / 2 ^ s) : ℚ) := by
  have hbias : Float.Model.Format.binary32.exponentBias = 127 := by decide
  have hu := unpack_single_ofBits (.ofNat (Format.binary32.trimmedPattern s n))
  rw [← hx, UInt32.toBitVec_ofNat'] at hu
  rw [singleValue?, singleValue?, unpack_single_neg]
  exact unpackedValue?_of_holds (S := .binary32) hholds hle (hbias ▸ hs) hu

end Encoding

end Feedforward
