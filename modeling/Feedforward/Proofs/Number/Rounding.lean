import Mathlib.Algebra.Order.Field.Power
import Mathlib.Algebra.Order.Ring.Abs
import Mathlib.Data.Int.Log
import Mathlib.Data.Rat.Floor
import Mathlib.Tactic.FieldSimp
import Mathlib.Tactic.Linarith
import Mathlib.Tactic.Positivity
import Feedforward.Number.Rounding

/-!
# Rounding as a function on rationals

The numbers of a format near a positive `x` are the multiples of `2 ^ place x`, and `x` is rounded
to the nearest of them (`exists_round_eq`). Rounding is odd, and

    x ≤ y  →  round x ≤ round y,
    round x = x    for the numbers of the format (`Format.Holds`).

Between two numbers of the format that differ in their leading bits lies a power of two, which is a
multiple of the last place of either. This is what carries `round_mono` over a change of exponents.
-/

namespace Feedforward

/-! ## The nearest natural number -/

/-- No natural number is closer to the rational, and an odd one is strictly the closest. -/
def NearestEven (q : ℚ) (m : ℕ) : Prop := |q - m| ≤ 1 / 2 ∧ (|q - m| = 1 / 2 → Even m)

/-- Rounding a quotient by its remainder gives the nearest number, an even one where two are near.
-/
theorem nearestEven_roundHalfEven {d : ℕ} (hd : 0 < d) (n : ℕ) :
    NearestEven (n / d) (roundHalfEven n d) := by
  have hd' : (0 : ℚ) < d := Nat.cast_pos.mpr hd
  -- the quotient is its integer part and a remainder below one
  obtain ⟨t, ht, hquotient⟩ : ∃ t : ℚ, (n % d : ℕ) = t * d ∧ (n : ℚ) / d = (n / d : ℕ) + t := by
    refine ⟨(n % d : ℕ) / d, (div_mul_cancel₀ _ hd'.ne').symm, ?_⟩
    rw [div_eq_iff hd'.ne', add_mul, div_mul_cancel₀ _ hd'.ne', mul_comm]
    exact_mod_cast (Nat.div_add_mod n d).symm
  have hnonneg : 0 ≤ t := nonneg_of_mul_nonneg_left (ht ▸ Nat.cast_nonneg (n % d)) hd'
  have hlt : t < 1 := by
    apply lt_of_mul_lt_mul_right _ hd'.le
    rw [one_mul, ← ht]
    exact_mod_cast Nat.mod_lt n hd
  have hless : 2 * (n % d) < d ↔ 2 * t < 1 := by
    rw [← mul_lt_mul_iff_left₀ hd', one_mul, mul_assoc, ← ht]
    exact_mod_cast Iff.rfl
  have hmore : d < 2 * (n % d) ↔ 1 < 2 * t := by
    rw [← mul_lt_mul_iff_left₀ hd', one_mul, mul_assoc, ← ht]
    exact_mod_cast Iff.rfl
  rw [NearestEven, hquotient, roundHalfEven]
  generalize n / d = q
  by_cases hlow : 2 * t < 1  -- case: less than half is left
  · rw [if_pos (hless.mpr hlow), add_sub_cancel_left, abs_of_nonneg hnonneg]
    exact ⟨by linarith, fun hhalf => by linarith⟩
  rw [if_neg (mt hless.mp hlow)]
  by_cases hhigh : 1 < 2 * t  -- case: more than half is left
  · rw [if_pos (hmore.mpr hhigh), Nat.cast_add_one, add_sub_add_left_eq_sub,
      abs_of_nonpos (by linarith)]
    exact ⟨by linarith, fun hhalf => by linarith⟩
  rw [if_neg (mt hmore.mp hhigh)]
  obtain rfl : t = 1 / 2 := by linarith
  -- in the middle the even one of the two neighbours is taken
  rcases Nat.even_or_odd' q with ⟨j, rfl | rfl⟩
  · have hmod : 2 * j % 2 = 0 := Nat.mul_mod_right 2 j
    rw [hmod, Nat.add_zero, add_sub_cancel_left, abs_of_nonneg hnonneg]
    exact ⟨le_refl _, fun _ => even_two_mul j⟩
  · have hmod : (2 * j + 1) % 2 = 1 := by omega
    rw [hmod, Nat.cast_add_one (2 * j + 1), add_sub_add_left_eq_sub, abs_of_nonpos (by norm_num)]
    exact ⟨by norm_num, fun _ => ⟨j + 1, by omega⟩⟩

namespace NearestEven

variable {q q' : ℚ} {m m' : ℕ}

/-- A smaller rational is nearest to a smaller number. -/
theorem mono (h : NearestEven q m) (h' : NearestEven q' m') (hle : q ≤ q') : m ≤ m' := by
  by_contra hlt
  have hstep : (m' : ℚ) + 1 ≤ m := by exact_mod_cast Nat.not_le.mp hlt
  obtain ⟨hlow, -⟩ := abs_le.mp h.1
  obtain ⟨-, hhigh⟩ := abs_le.mp h'.1
  -- both lie in the middle of the same two neighbours, of which only one is even
  have heven : Even m := h.2 (by rw [abs_of_nonpos (by linarith)]; linarith)
  have heven' : Even m' := h'.2 (by rw [abs_of_nonneg (by linarith)]; linarith)
  have hnext : m = m' + 1 := by
    have hsum : (m : ℚ) = m' + 1 := by linarith
    exact_mod_cast hsum
  rw [hnext, Nat.even_add_one] at heven
  exact heven heven'

/-- There is only one nearest number, as of two neighbours at the same distance one is even. -/
theorem unique (h : NearestEven q m) (h' : NearestEven q m') : m = m' :=
  le_antisymm (h.mono h' le_rfl) (h'.mono h le_rfl)

theorem natCast (m : ℕ) : NearestEven m m := by
  rw [NearestEven, sub_self, abs_zero]
  exact ⟨by norm_num, fun h => absurd h (by norm_num)⟩

end NearestEven

/-! ## Exponents -/

theorem two_zpow_eq_div (e : ℤ) : (2 : ℚ) ^ e = 2 ^ e.toNat / 2 ^ (-e).toNat := by
  rw [eq_div_iff (by positivity), ← zpow_natCast, ← zpow_natCast, ← zpow_add₀ two_ne_zero]
  congr 1
  omega

/-- The exponent that the leading bits of numerator and denominator give is off by one at most. -/
theorem floorLog2_eq {n d : ℕ} (hn : n ≠ 0) (hd : d ≠ 0) :
    floorLog2 n d = Int.log 2 ((n : ℚ) / d) := by
  have hd' : (0 : ℚ) < d := by positivity
  have hx : (0 : ℚ) < n / d := by positivity
  -- the logarithms of both sides leave two candidates, and the test decides between them
  have hn₁ : ((2 ^ n.log2 : ℕ) : ℚ) ≤ n := Nat.cast_le.mpr (Nat.log2_self_le hn)
  have hn₂ : (n : ℚ) < (2 ^ (n.log2 + 1) : ℕ) := Nat.cast_lt.mpr Nat.lt_log2_self
  have hd₁ : ((2 ^ d.log2 : ℕ) : ℚ) ≤ d := Nat.cast_le.mpr (Nat.log2_self_le hd)
  have hd₂ : (d : ℚ) < (2 ^ (d.log2 + 1) : ℕ) := Nat.cast_lt.mpr Nat.lt_log2_self
  have hlow : (n.log2 : ℤ) - d.log2 - 1 ≤ Int.log 2 ((n : ℚ) / d) := by
    rw [← Int.zpow_le_iff_le_log one_lt_two hx]
    calc ((2 : ℕ) : ℚ) ^ ((n.log2 : ℤ) - d.log2 - 1)
        = (2 ^ n.log2 : ℕ) / (2 ^ (d.log2 + 1) : ℕ) := by
          rw [Nat.cast_ofNat, sub_sub, zpow_sub₀ two_ne_zero]
          norm_cast
      _ ≤ n / d := div_le_div₀ n.cast_nonneg hn₁ hd' hd₂.le
  have hhigh : Int.log 2 ((n : ℚ) / d) < (n.log2 : ℤ) - d.log2 + 1 := by
    rw [← Int.lt_zpow_iff_log_lt one_lt_two hx]
    calc (n : ℚ) / d < (2 ^ (n.log2 + 1) : ℕ) / (2 ^ d.log2 : ℕ) :=
          div_lt_div₀ hn₂ hd₁ (by positivity) (by positivity)
      _ = ((2 : ℕ) : ℚ) ^ ((n.log2 : ℤ) - d.log2 + 1) := by
          rw [Nat.cast_ofNat, sub_add_eq_add_sub, zpow_sub₀ two_ne_zero]
          norm_cast
  rw [floorLog2]
  generalize (n.log2 : ℤ) - d.log2 = e at hlow hhigh
  have htest : d * 2 ^ e.toNat ≤ n * 2 ^ (-e).toNat ↔ e ≤ Int.log 2 ((n : ℚ) / d) := by
    rw [← Int.zpow_le_iff_le_log one_lt_two hx, Nat.cast_ofNat, two_zpow_eq_div,
      div_le_div_iff₀ (by positivity) hd', mul_comm (2 ^ _)]
    exact_mod_cast Iff.rfl
  split
  · next h =>
      have hle := htest.mp h
      omega
  · next h =>
      have hlt := mt htest.mpr h
      omega

/-! ## Rounding to a format -/

namespace Format

variable (f : Format)

/-- The exponent of the last place of the numbers of the format near a positive rational. -/
def place (x : ℚ) : ℤ := max f.minExponent (Int.log 2 x - f.fractionBits)

/-- The rational is a number of the format: it has no more significant bits than the format keeps,
and is a multiple of the smallest unit. -/
def Holds (x : ℚ) : Prop :=
  ∃ (m : ℤ) (e : ℤ), |m| < 2 ^ (f.fractionBits + 1) ∧ f.minExponent ≤ e ∧ x = m * 2 ^ e

variable {f} {x y : ℚ}

/-- A positive rational is rounded to the nearest multiple of the last place. -/
theorem exists_round_eq (hx : 0 < x) :
    ∃ m, NearestEven (x / 2 ^ f.place x) m ∧ f.round x = m * 2 ^ f.place x := by
  have hnum : 0 < x.num := Rat.num_pos.mpr hx
  have hparts : ((x.num.natAbs : ℕ) : ℚ) / x.den = x := by
    rw [Nat.cast_natAbs, abs_of_pos hnum]
    exact Rat.num_div_den x
  have hplace : f.lastPlace x.num.natAbs x.den = f.place x := by
    rw [lastPlace, floorLog2_eq (by omega) x.den_nz, hparts, place]
  refine ⟨significand x.num.natAbs x.den (f.place x), ?_, ?_⟩
  · have hscaled : x / 2 ^ f.place x = (x.num.natAbs * 2 ^ (-f.place x).toNat : ℕ) /
        (x.den * 2 ^ (f.place x).toNat : ℕ) := by
      rw [two_zpow_eq_div, Nat.cast_mul, Nat.cast_mul, mul_div_mul_comm, hparts, div_div_eq_mul_div,
        mul_div_assoc]
      norm_cast
    rw [hscaled, significand]
    exact nearestEven_roundHalfEven (Nat.mul_pos x.den_pos (by positivity)) _
  · rw [round, hplace, if_neg (not_lt.mpr hnum.le), mul_div_assoc, ← two_zpow_eq_div]

@[simp] theorem round_zero : f.round 0 = 0 := by
  have hzero : ∀ d, 0 < d → roundHalfEven 0 d = 0 := by
    intro d hd
    rw [roundHalfEven, Nat.zero_mod, if_pos (by omega), Nat.zero_div]
  simp only [round, significand, Rat.num_zero, Int.natAbs_zero, Rat.den_zero, Nat.zero_mul,
    Nat.one_mul, hzero _ (Nat.two_pow_pos _)]
  simp

/-- Rounding does not look at the sign. -/
@[simp] theorem round_neg : f.round (-x) = -f.round x := by
  rcases lt_trichotomy x.num 0 with hx | hx | hx
  · simp only [round, Rat.neg_num, Rat.neg_den, Int.natAbs_neg]
    rw [if_neg (by omega), if_pos hx, neg_neg]
  · simp [Rat.num_eq_zero.mp hx]
  · simp only [round, Rat.neg_num, Rat.neg_den, Int.natAbs_neg]
    rw [if_pos (by omega), if_neg (by omega)]

theorem round_nonneg (hx : 0 ≤ x) : 0 ≤ f.round x := by
  rcases hx.eq_or_lt with rfl | hx
  · simp
  · obtain ⟨m, -, hround⟩ := exists_round_eq (f := f) hx
    rw [hround]
    positivity

/-! ### Multiples of the last place -/

section Multiples

variable {m : ℕ} {e : ℤ}

/-- A bound in units of the last place stays one. -/
theorem round_le_of_le_mul (hx : 0 < x) (h : x ≤ m * 2 ^ f.place x) :
    f.round x ≤ m * 2 ^ f.place x := by
  obtain ⟨n, hn, hround⟩ := exists_round_eq (f := f) hx
  have hnm : n ≤ m := hn.mono (.natCast m) ((div_le_iff₀ (by positivity)).mpr h)
  rw [hround]
  gcongr

theorem le_round_of_mul_le (hx : 0 < x) (h : m * 2 ^ f.place x ≤ x) :
    m * 2 ^ f.place x ≤ f.round x := by
  obtain ⟨n, hn, hround⟩ := exists_round_eq (f := f) hx
  have hmn : m ≤ n := (NearestEven.natCast m).mono hn ((le_div_iff₀ (by positivity)).mpr h)
  rw [hround]
  gcongr

/-- A multiple of a unit is one of every smaller unit. -/
theorem mul_zpow_eq (m : ℕ) {p e : ℤ} (he : p ≤ e) :
    (m : ℚ) * 2 ^ e = (m * 2 ^ (e - p).toNat : ℕ) * 2 ^ p := by
  rw [Nat.cast_mul, Nat.cast_pow, Nat.cast_ofNat, mul_assoc, ← zpow_natCast,
    ← zpow_add₀ two_ne_zero]
  congr 2
  omega

/-- A bound in any units that are not finer than the last place stays one. -/
theorem round_le_of_le (hx : 0 < x) (he : f.place x ≤ e) (h : x ≤ m * 2 ^ e) :
    f.round x ≤ m * 2 ^ e := by
  rw [mul_zpow_eq m he] at h ⊢
  exact round_le_of_le_mul hx h

theorem le_round_of_le (hx : 0 < x) (he : f.place x ≤ e) (h : m * 2 ^ e ≤ x) :
    m * 2 ^ e ≤ f.round x := by
  rw [mul_zpow_eq m he] at h ⊢
  exact le_round_of_mul_le hx h

end Multiples

/-! ### Order -/

theorem place_mono (hx : 0 < x) (h : x ≤ y) : f.place x ≤ f.place y :=
  max_le_max le_rfl (sub_le_sub_right (Int.log_mono_right hx h) _)

/-- Positive rationals are rounded in their order. -/
theorem round_mono_of_pos (hx : 0 < x) (h : x ≤ y) : f.round x ≤ f.round y := by
  have hy := hx.trans_le h
  -- case: both have the same last place
  rcases (place_mono (f := f) hx h).eq_or_lt with hsame | hless
  · obtain ⟨m, hm, hround⟩ := exists_round_eq (f := f) hx
    obtain ⟨n, hn, hround'⟩ := exists_round_eq (f := f) hy
    rw [hsame] at hm hround
    have hmn : m ≤ n := hm.mono hn (by gcongr)
    rw [hround, hround']
    gcongr
  · -- a power of two lies between the two
    obtain ⟨hplace, hlog⟩ : f.place y = Int.log 2 y - f.fractionBits ∧
        Int.log 2 x < Int.log 2 y := by
      simp only [place] at hless ⊢
      omega
    have hbelow : x ≤ (1 : ℕ) * 2 ^ Int.log 2 y := by
      have hlt := (Int.lt_zpow_iff_log_lt one_lt_two hx).mpr hlog
      rw [Nat.cast_one, one_mul]
      exact_mod_cast hlt.le
    have habove : (1 : ℕ) * 2 ^ Int.log 2 y ≤ y := by
      rw [Nat.cast_one, one_mul]
      exact_mod_cast Int.zpow_log_le_self one_lt_two hy
    exact (round_le_of_le hx (by omega) hbelow).trans (le_round_of_le hy (by omega) habove)

/-- Rounding keeps the order of rationals. -/
theorem round_mono : Monotone f.round := by
  intro x y h
  rcases lt_or_ge 0 x with hx | hx
  · exact round_mono_of_pos hx h
  have hnonpos : f.round x ≤ 0 := by
    have hneg := round_nonneg (f := f) (neg_nonneg.mpr hx)
    rw [round_neg] at hneg
    linarith
  rcases le_or_gt 0 y with hy | hy
  · exact hnonpos.trans (round_nonneg hy)
  · have hneg := round_mono_of_pos (f := f) (neg_pos.mpr hy) (neg_le_neg h)
    rw [round_neg, round_neg] at hneg
    linarith

/-! ### The numbers of the format -/

theorem Holds.neg (h : f.Holds x) : f.Holds (-x) := by
  obtain ⟨m, e, hm, he, rfl⟩ := h
  exact ⟨-m, e, by rwa [abs_neg], he, by push_cast; ring⟩

theorem Holds.abs (h : f.Holds x) : f.Holds |x| := by
  rcases abs_choice x with hx | hx
  · rwa [hx]
  · rw [hx]
    exact h.neg

/-- A positive number of the format is a multiple of its last place. -/
theorem Holds.exists_eq_mul (h : f.Holds x) (hx : 0 < x) :
    ∃ (m : ℕ) (e : ℤ), f.place x ≤ e ∧ x = m * 2 ^ e := by
  obtain ⟨m, e, hm, he, rfl⟩ := h
  have hpos : 0 < m := by
    have hcast : (0 : ℚ) < m := pos_of_mul_pos_left hx (by positivity)
    exact_mod_cast hcast
  refine ⟨m.natAbs, e, max_le he ?_, ?_⟩
  · have hlt : Int.log 2 ((m : ℚ) * 2 ^ e) < f.fractionBits + 1 + e := by
      rw [← Int.lt_zpow_iff_log_lt one_lt_two hx, Nat.cast_ofNat, zpow_add₀ two_ne_zero]
      gcongr
      rw [abs_of_pos hpos] at hm
      exact_mod_cast hm
    omega
  · rw [Nat.cast_natAbs, abs_of_pos hpos]

/-- The numbers of the format stay as they are. -/
theorem round_of_holds (h : f.Holds x) : f.round x = x := by
  have hfixed : ∀ y, f.Holds y → 0 < y → f.round y = y := by
    intro y hholds hy
    obtain ⟨m, e, he, hm⟩ := hholds.exists_eq_mul hy
    apply le_antisymm
    · exact (round_le_of_le hy he hm.le).trans hm.ge
    · exact hm.le.trans (le_round_of_le hy he hm.ge)
  rcases lt_trichotomy x 0 with hx | rfl | hx
  · have hneg := hfixed (-x) h.neg (neg_pos.mpr hx)
    rwa [round_neg, neg_inj] at hneg
  · exact round_zero
  · exact hfixed x h hx

/-- A natural number with few enough bits, counted in units of a power of two. -/
theorem holds_natCast_mul {m : ℕ} {e : ℤ} (hm : m ≤ 2 ^ (f.fractionBits + 1))
    (he : f.minExponent ≤ e) : f.Holds (m * 2 ^ e) := by
  rcases hm.eq_or_lt with rfl | hm
  · -- the carry of a full significand goes into the exponent
    refine ⟨2 ^ f.fractionBits, e + 1, ?_, by omega, ?_⟩
    · rw [abs_of_pos (by positivity)]
      exact pow_lt_pow_right₀ one_lt_two (Nat.lt_succ_self _)
    · rw [zpow_add_one₀ two_ne_zero]
      push_cast
      ring
  · refine ⟨m, e, ?_, he, by push_cast; rfl⟩
    rw [Nat.abs_cast]
    exact_mod_cast hm

/-- What is rounded is a number of the format. -/
theorem holds_round (x : ℚ) : f.Holds (f.round x) := by
  have hpos : ∀ y, 0 < y → f.Holds (f.round y) := by
    intro y hy
    obtain ⟨m, hm, hround⟩ := exists_round_eq (f := f) hy
    rw [hround]
    apply holds_natCast_mul _ (le_max_left _ _)
    apply hm.mono (.natCast _)
    have hplace : Int.log 2 y + 1 ≤ f.place y + (f.fractionBits + 1) := by
      rw [place]
      omega
    rw [div_le_iff₀ (by positivity)]
    calc y ≤ 2 ^ (Int.log 2 y + 1) := by exact_mod_cast (Int.lt_zpow_succ_log_self one_lt_two y).le
      _ ≤ 2 ^ (f.place y + (f.fractionBits + 1)) := zpow_le_zpow_right₀ one_le_two hplace
      _ = (2 ^ (f.fractionBits + 1) : ℕ) * 2 ^ f.place y := by
        rw [zpow_add₀ two_ne_zero, mul_comm]
        norm_cast
  -- rounding respects the sign, so that a positive number is enough
  rcases lt_trichotomy x 0 with hx | rfl | hx
  · have hneg := (hpos (-x) (neg_pos.mpr hx)).neg
    rwa [round_neg, neg_neg] at hneg
  · rw [round_zero]
    exact ⟨0, f.minExponent, by simp, le_rfl, by simp⟩
  · exact hpos x hx

/-- Doubling moves the exponent only. -/
theorem Holds.two_mul (h : f.Holds x) : f.Holds (2 * x) := by
  obtain ⟨m, e, hm, he, rfl⟩ := h
  refine ⟨m, e + 1, hm, by omega, ?_⟩
  rw [zpow_add_one₀ two_ne_zero]
  ring

/-- No multiple of the last place is closer than the one that a positive rational is rounded to. -/
theorem abs_sub_round_le_of_mul (hx : 0 < x) (z : ℤ) :
    |x - f.round x| ≤ |x - z * 2 ^ f.place x| := by
  obtain ⟨m, hm, hround⟩ := exists_round_eq (f := f) hx
  have hunit : (0 : ℚ) < 2 ^ f.place x := by positivity
  have hscale : ∀ t : ℚ, |x - t * 2 ^ f.place x| = |x / 2 ^ f.place x - t| * 2 ^ f.place x := by
    intro t
    rw [← abs_of_pos hunit, ← abs_mul, abs_of_pos hunit, sub_mul, div_mul_cancel₀ _ hunit.ne']
  rw [hround, hscale, hscale]
  apply mul_le_mul_of_nonneg_right _ hunit.le
  rcases eq_or_ne z m with rfl | hne
  · exact le_rfl
  · -- another integer is at least one away from the nearest one
    have hone : (1 : ℚ) ≤ |(z : ℚ) - m| := by exact_mod_cast Int.one_le_abs (sub_ne_zero.mpr hne)
    have htriangle := abs_sub_le (z : ℚ) (x / 2 ^ f.place x) m
    rw [abs_sub_comm (z : ℚ) (x / 2 ^ f.place x)] at htriangle
    have hhalf := hm.1
    linarith

/-- No number of the format is closer than the one that is rounded to. -/
theorem abs_sub_round_le (hy : f.Holds y) : |x - f.round x| ≤ |x - y| := by
  have hpos : ∀ x y, f.Holds y → 0 < x → |x - f.round x| ≤ |x - y| := by
    rintro x _ ⟨n, e, hn, he, rfl⟩ hx
    -- what `x` is rounded to is as close as any multiple of its last place
    rcases le_or_gt (f.place x) e with hle | hlt
    · have hmul : (n : ℚ) * 2 ^ e = (n * 2 ^ (e - f.place x).toNat : ℤ) * 2 ^ f.place x := by
        rw [Int.cast_mul, Int.cast_pow, Int.cast_ofNat, mul_assoc, ← zpow_natCast,
          ← zpow_add₀ two_ne_zero]
        congr 2
        omega
      rw [hmul]
      exact abs_sub_round_le_of_mul hx _
    · -- a number with a lower last place lies below the power of two under `x`
      obtain ⟨hplace, hexp⟩ : f.place x = Int.log 2 x - f.fractionBits ∧
          f.fractionBits + 1 + e ≤ Int.log 2 x := by
        simp only [place] at hlt ⊢
        omega
      have hbelow : (n : ℚ) * 2 ^ e ≤ 2 ^ Int.log 2 x := by
        have hn' : (n : ℚ) ≤ 2 ^ (f.fractionBits + 1) := by
          exact_mod_cast (le_abs_self n).trans hn.le
        calc (n : ℚ) * 2 ^ e ≤ 2 ^ (f.fractionBits + 1) * 2 ^ e := by gcongr
          _ = 2 ^ ((f.fractionBits : ℤ) + 1 + e) := by
            rw [zpow_add₀ two_ne_zero]
            norm_cast
          _ ≤ 2 ^ Int.log 2 x := zpow_le_zpow_right₀ one_le_two hexp
      have habove : (2 : ℚ) ^ Int.log 2 x ≤ x := by
        exact_mod_cast Int.zpow_log_le_self one_lt_two hx
      have hpower : (2 : ℚ) ^ Int.log 2 x = (2 ^ f.fractionBits : ℤ) * 2 ^ f.place x := by
        rw [Int.cast_pow, Int.cast_ofNat, ← zpow_natCast, ← zpow_add₀ two_ne_zero, hplace]
        congr 1
        omega
      calc |x - f.round x| ≤ |x - 2 ^ Int.log 2 x| := by
            rw [hpower]
            exact abs_sub_round_le_of_mul hx _
        _ ≤ |x - n * 2 ^ e| := by
          rw [abs_of_nonneg (by linarith), abs_of_nonneg (by linarith)]
          linarith
  -- as above, the other signs follow
  rcases lt_trichotomy x 0 with hx | rfl | hx
  · have hneg := hpos (-x) (-y) hy.neg (neg_pos.mpr hx)
    rwa [round_neg, neg_sub_neg, neg_sub_neg, abs_sub_comm, abs_sub_comm y] at hneg
  · rw [round_zero, sub_zero, abs_zero]
    exact abs_nonneg _
  · exact hpos x y hy hx

/-! ### Integers -/

theorem log_div_two_pow {n : ℕ} (hn : n ≠ 0) (s : ℕ) :
    Int.log 2 ((n : ℚ) / 2 ^ s) = n.log2 - s := by
  have hx : (0 : ℚ) < n / 2 ^ s := by positivity
  have hzpow : ∀ k : ℤ, ((2 : ℕ) : ℚ) ^ (k - s) = 2 ^ k / 2 ^ s := by
    intro k
    rw [Nat.cast_ofNat, zpow_sub₀ two_ne_zero, zpow_natCast]
  apply le_antisymm
  · rw [← Int.lt_add_one_iff, ← Int.lt_zpow_iff_log_lt one_lt_two hx, sub_add_eq_add_sub, hzpow]
    gcongr
    exact_mod_cast Nat.lt_log2_self
  · rw [← Int.zpow_le_iff_le_log one_lt_two hx, hzpow]
    gcongr
    exact_mod_cast Nat.log2_self_le hn

/-- Multiples of a power of two that is no smaller than the smallest unit are rounded as
integers. -/
theorem round_div_two_pow {s : ℕ} (hs : f.minExponent ≤ -s) (n : ℕ) :
    f.round (n / 2 ^ s) = f.trim n / 2 ^ s := by
  have hdiv : ∀ m : ℕ, (m : ℚ) / 2 ^ s = m * 2 ^ (-(s : ℤ)) := by
    intro m
    rw [zpow_neg, zpow_natCast, div_eq_mul_inv]
  rw [trim]
  -- without further digits the quotient is a number of the format already
  by_cases hextra : n.log2 - f.fractionBits = 0
  · rw [if_pos hextra]
    apply round_of_holds
    rw [hdiv]
    apply holds_natCast_mul _ hs
    have hlog : n.log2 + 1 ≤ f.fractionBits + 1 := by omega
    exact Nat.lt_log2_self.le.trans (Nat.pow_le_pow_right Nat.two_pos hlog)
  · rw [if_neg hextra]
    have hn : n ≠ 0 := by
      rintro rfl
      simp at hextra
    have hplace : f.place (n / 2 ^ s) = (n.log2 - f.fractionBits : ℕ) - s := by
      rw [place, log_div_two_pow hn]
      omega
    generalize n.log2 - f.fractionBits = extra at hplace
    -- rounding at the last place is cutting off the `extra` digits
    have hscaled : (n : ℚ) / 2 ^ s / 2 ^ f.place (n / 2 ^ s) = n / (2 ^ extra : ℕ) := by
      rw [hplace, zpow_sub₀ two_ne_zero, zpow_natCast, zpow_natCast, div_div_div_cancel_right₀]
      · norm_cast
      · positivity
    obtain ⟨m, hm, hround⟩ := exists_round_eq (f := f) (x := n / 2 ^ s) (by positivity)
    rw [hscaled] at hm
    rw [hround, hm.unique (nearestEven_roundHalfEven (Nat.two_pow_pos extra) n), hplace,
      Nat.one_shiftLeft, Nat.shiftLeft_eq, zpow_sub₀ two_ne_zero, zpow_natCast, zpow_natCast]
    push_cast
    ring

end Format

end Feedforward
