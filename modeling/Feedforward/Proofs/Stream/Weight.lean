import Feedforward.Proofs.Network.Draws
import Feedforward.Proofs.Number.Encoding

/-!
# The range of weights

The weight of a draw `x` is `2 * x - 1`, rounded after each step (`Format.weightOf`). Doubles hold
all of these numbers for draws, so that nothing is rounded. Singles round the draw itself and the
difference. Rounding keeps the order and leaves `-1`, `0` and `1` where they are, which gives

    0 ≤ x ≤ 1  →  -1 ≤ weightOf x ≤ 1

without looking at any draw. The integers that count the weights in units of `2 ^ -53`, and the
encodings that are made from them, have these values (`weight_div`, `value?_of_ofDraw`).
-/

namespace Feedforward

/-! ## Draws -/

namespace Generator

/-- A draw has 53 bits. -/
theorem draw_lt (gen : Generator) : gen.draw.1 < 2 ^ drawBits := by
  have hlt := (output gen.advance.state).toNat_lt
  rw [draw, UInt64.toNat_shiftRight]
  show (output gen.advance.state).toNat >>> 11 < 2 ^ 53
  rw [Nat.shiftRight_eq_div_pow]
  omega

theorem draws_lt {gen : Generator} {n k : ℕ} (hk : k ∈ (gen.draws n).1) : k < 2 ^ drawBits := by
  induction n generalizing gen with
  | zero => cases hk
  | succ n ih =>
      rw [draws] at hk
      rcases List.mem_cons.mp hk with rfl | hk
      · exact gen.draw_lt
      · exact ih hk

end Generator

/-! ## Weights as rationals -/

namespace Format

/-- The weight of a draw: the draw, doubled, minus one, each step rounded. -/
def weightOf (f : Format) (x : ℚ) : ℚ := f.round (f.round (2 * f.round x) - 1)

variable {f : Format} {x : ℚ} {k : ℕ}

/-- Doubling a number of a format rounds nothing. -/
@[simp] theorem round_two_mul_round (x : ℚ) : f.round (2 * f.round x) = 2 * f.round x :=
  round_of_holds (holds_round x).two_mul

/-- Each step of the rounding keeps the order. -/
theorem weightOf_mono : Monotone f.weightOf := by
  intro x y h
  have hrounded : f.round x ≤ f.round y := round_mono h
  rw [weightOf, weightOf, round_two_mul_round, round_two_mul_round]
  apply round_mono
  linarith

theorem holds_one (hf : f.minExponent ≤ 0) : f.Holds 1 :=
  ⟨1, 0, by rw [abs_one]; exact one_lt_pow₀ one_lt_two (Nat.succ_ne_zero _), hf, by simp⟩

/-- The weights of draws lie between the weights of the least number and of one. -/
theorem weightOf_mem (hf : f.minExponent ≤ 0) (hx : 0 ≤ x) (hx' : x ≤ 1) :
    -1 ≤ f.weightOf x ∧ f.weightOf x ≤ 1 := by
  have hone := round_of_holds (holds_one hf)
  have hlow : f.weightOf 0 = -1 := by
    simp [weightOf, hone]
  have hhigh : f.weightOf 1 = 1 := by
    rw [weightOf, round_two_mul_round, hone, mul_one, show (2 : ℚ) - 1 = 1 by norm_num, hone]
  exact ⟨hlow ▸ weightOf_mono hx, hhigh ▸ weightOf_mono hx'⟩

/-! ### Weights as integers -/

theorem round_sub_div {s : ℕ} (hs : f.minExponent ≤ -s) (m n : ℕ) :
    f.round (((m : ℚ) - n) / 2 ^ s) = f.difference m n / 2 ^ s := by
  rw [difference]
  split
  · next hlt =>
      have hneg : ((m : ℚ) - n) / 2 ^ s = -((n - m : ℕ) / 2 ^ s) := by
        rw [Nat.cast_sub hlt.le]
        ring
      rw [hneg, round_neg, round_div_two_pow hs]
      push_cast
      ring
  · next hle =>
      rw [← Nat.cast_sub (Nat.not_lt.mp hle), round_div_two_pow hs]
      push_cast
      rfl

/-- The integer that counts a weight is the weight of the draw. -/
theorem weight_div (hf : f.minExponent ≤ -drawBits) (k : ℕ) :
    (f.weight k : ℚ) / 2 ^ drawBits = f.weightOf (k / 2 ^ drawBits) := by
  have hdouble : 2 * ((f.trim k : ℚ) / 2 ^ drawBits) = (2 * f.trim k : ℕ) / 2 ^ drawBits := by
    push_cast
    ring
  have hone : (f.trim (2 * f.trim k) : ℚ) / (2 : ℚ) ^ drawBits - (1 : ℚ) =
      ((f.trim (2 * f.trim k) : ℚ) - (1 <<< drawBits : ℕ)) / (2 : ℚ) ^ drawBits := by
    rw [Nat.one_shiftLeft, sub_div, Nat.cast_pow, Nat.cast_ofNat, div_self (by positivity)]
  rw [weightOf, round_div_two_pow hf, hdouble, round_div_two_pow hf, hone, round_sub_div hf, weight]

theorem weight_neg_iff (hf : f.minExponent ≤ -drawBits) :
    f.weight k < 0 ↔ f.weightOf (k / 2 ^ drawBits) < 0 := by
  rw [← weight_div hf, div_lt_iff₀ (by positivity), zero_mul, Int.cast_lt_zero]

/-- The sign of a weight and its absolute value are kept apart in its encoding. -/
theorem natAbs_weight_div (hf : f.minExponent ≤ -drawBits) (k : ℕ) :
    ((f.weight k).natAbs : ℚ) / 2 ^ drawBits = |f.weightOf (k / 2 ^ drawBits)| := by
  rw [← weight_div hf, abs_div, Nat.cast_natAbs, Int.cast_abs, abs_pow, abs_two]

/-- The weight of a draw is a number of the format and no larger than one. -/
theorem natAbs_weight (hf : f.minExponent ≤ -drawBits) (hk : k < 2 ^ drawBits) :
    f.Holds ((f.weight k).natAbs / 2 ^ drawBits) ∧ (f.weight k).natAbs ≤ 2 ^ drawBits := by
  have hx : (k : ℚ) / 2 ^ drawBits ≤ 1 := by
    rw [div_le_one (by positivity)]
    exact_mod_cast hk.le
  have hle := abs_le.mpr (weightOf_mem (f := f) (by omega) (by positivity) hx)
  constructor
  · rw [natAbs_weight_div hf]
    exact (holds_round _).abs
  · rw [← natAbs_weight_div hf, div_le_one (by positivity)] at hle
    exact_mod_cast hle

end Format

/-! ## Weights as elements -/

/-- The rational that an element of an array stands for. -/
def Element.value? : Element → Option ℚ
  | .float64 x => doubleValue? x
  | .float32 x => singleValue? x
  | .int64 n => some n.toInt

/-- The format of the numbers of a kind. -/
def ElementKind.format? : ElementKind → Option Format
  | .float64 => some .binary64
  | .float32 => some .binary32
  | .int64 => none

/-- A number with the sign of a weight stands for the weight, if without a sign it stands for the
absolute value. -/
theorem value?_signed {α : Type} [Neg α] (value? : α → Option ℚ) {f : Format} {k : ℕ} {x : α}
    (hf : f.minExponent ≤ -drawBits) (hk : k < 2 ^ drawBits)
    (hx : ∀ n : ℕ, n = (f.weight k).natAbs → f.Holds (n / 2 ^ drawBits) → n ≤ 2 ^ drawBits →
      value? x = some (n / 2 ^ drawBits : ℚ) ∧ value? (-x) = some (-(n / 2 ^ drawBits) : ℚ)) :
    value? (if f.weight k < 0 then -x else x) = some (f.weightOf (k / 2 ^ drawBits)) := by
  obtain ⟨hholds, hle⟩ := Format.natAbs_weight hf hk
  obtain ⟨hpos, hneg⟩ := hx _ rfl hholds hle
  rw [Format.natAbs_weight_div hf] at hpos hneg
  simp only [Format.weight_neg_iff hf]
  split
  · next hlt => rw [hneg, abs_of_neg hlt, neg_neg]
  · next hge => rw [hpos, abs_of_nonneg (not_lt.mp hge)]

theorem draw_div_lt_one {k : ℕ} (hk : k < 2 ^ drawBits) : (k : ℚ) / 2 ^ drawBits < 1 := by
  rw [div_lt_one (by positivity)]
  exact_mod_cast hk

/-- The element that a draw becomes stands for the weight of the draw. -/
theorem value?_of_ofDraw (kind : ElementKind) {f : Format} {k : ℕ} {x : Element}
    (hf : kind.format? = some f) (hk : k < 2 ^ drawBits) (hx : Element.ofDraw? kind k = some x) :
    x.value? = some (f.weightOf (k / 2 ^ drawBits)) := by
  cases kind with
  | float64 =>
      cases hf
      cases hx
      refine value?_signed doubleValue? (by decide) hk ?_
      rintro _ rfl hholds hle
      exact doubleValue?_ofBits hholds hle (by decide) rfl
  | float32 =>
      cases hf
      cases hx
      refine value?_signed singleValue? (by decide) hk ?_
      rintro _ rfl hholds hle
      exact singleValue?_ofBits hholds hle (by decide) rfl
  | int64 => cases hf

theorem exists_ofDraw {kind : ElementKind} {f : Format} (hf : kind.format? = some f) (k : ℕ) :
    ∃ x, Element.ofDraw? kind k = some x := by
  cases kind with
  | float64 => exact ⟨_, rfl⟩
  | float32 => exact ⟨_, rfl⟩
  | int64 => cases hf

/-- A draw becomes a number between minus one and one. -/
theorem exists_value_of_ofDraw {kind : ElementKind} {k : ℕ} {x : Element} (hk : k < 2 ^ drawBits)
    (hx : Element.ofDraw? kind k = some x) : ∃ q, x.value? = some q ∧ -1 ≤ q ∧ q ≤ 1 := by
  have hfinite : ∀ f : Format, kind.format? = some f → f.minExponent ≤ 0 →
      ∃ q, x.value? = some q ∧ -1 ≤ q ∧ q ≤ 1 := by
    intro f hf hzero
    exact ⟨_, value?_of_ofDraw kind hf hk hx,
      Format.weightOf_mem hzero (by positivity) (draw_div_lt_one hk).le⟩
  cases kind with
  | float64 => exact hfinite .binary64 rfl (by decide)
  | float32 => exact hfinite .binary32 rfl (by decide)
  | int64 => cases hx

/-! ## Doubles hold all steps -/

section Exact

variable {k : ℕ}

/-- A draw has no more bits than the significand of a double. -/
theorem holds_draw (hk : k < 2 ^ drawBits) : Format.binary64.Holds (k / 2 ^ drawBits) := by
  have hmul : (k : ℚ) / 2 ^ drawBits = k * 2 ^ (-(drawBits : ℤ)) := by
    rw [zpow_neg, zpow_natCast, div_eq_mul_inv]
  rw [hmul]
  exact Format.holds_natCast_mul hk.le (by decide)

/-- Twice a draw minus one is a multiple of `2 ^ -52`, with fewer bits than a double has. -/
theorem two_mul_draw_sub_one (k : ℕ) :
    2 * ((k : ℚ) / 2 ^ drawBits) - 1 = (k - 2 ^ 52) / 2 ^ 52 := by
  rw [drawBits, pow_succ]
  ring

/-- Doubling and subtracting one leaves a multiple of `2 ^ -52` between minus one and one. -/
theorem holds_two_mul_draw_sub_one (hk : k < 2 ^ drawBits) :
    Format.binary64.Holds (2 * (k / 2 ^ drawBits) - 1) := by
  refine ⟨k - 2 ^ 52, -52, ?_, by decide, ?_⟩
  · rw [drawBits] at hk
    rw [abs_lt]
    show -2 ^ 53 < (k : ℤ) - 2 ^ 52 ∧ (k : ℤ) - 2 ^ 52 < 2 ^ 53
    omega
  · rw [two_mul_draw_sub_one]
    push_cast
    rw [zpow_neg, ← div_eq_mul_inv]
    norm_num

/-- For doubles no step rounds. -/
theorem weightOf_draw (hk : k < 2 ^ drawBits) :
    Format.binary64.weightOf (k / 2 ^ drawBits) = (k - 2 ^ 52) / 2 ^ 52 := by
  rw [Format.weightOf, Format.round_two_mul_round, Format.round_of_holds (holds_draw hk),
    Format.round_of_holds (holds_two_mul_draw_sub_one hk), two_mul_draw_sub_one]

end Exact

/-! ## Weights of networks -/

/-- Every weight of a compiled network is that of a draw. -/
theorem exists_draw_of_compile {g : Graph Numeric} {memory : Nat} {kind : ElementKind}
    {output : Handle} {gen gen' : Generator} {net : Network Numeric}
    (hcompile : g.compile (Numeric.allocation memory kind) output gen = (.ok net, gen'))
    {x : Element} (hx : x ∈ net.weightElements) :
    ∃ k < 2 ^ drawBits, Element.ofDraw? kind k = some x := by
  have hmade := (madeOf_of_compile hcompile).1
  have hmem : some x ∈ net.weightElements.map some := List.mem_map_of_mem hx
  rw [hmade] at hmem
  obtain ⟨k, hk, hofDraw⟩ := List.mem_map.mp hmem
  exact ⟨k, Generator.draws_lt hk, hofDraw⟩

/-- The double of a draw `k / 2 ^ 53` is `(k - 2 ^ 52) / 2 ^ 52`, and no step to it rounds, so that
it is at least minus one and less than one, and no other draw has it. The single of a draw is what
rounding its number, doubling and subtracting one with another rounding gives, which lies between
minus one and one and may reach both. Greater draws have greater or equal weights. All weights of a
compiled network are weights of draws, whatever is drawn from, and lie between minus one and one. -/
theorem weights_of_draws :
    (∀ k : ℕ, k < 2 ^ drawBits → ∀ x : ℚ, x = k / 2 ^ drawBits →
      Format.binary64.round x = x ∧ Format.binary64.round (2 * x) = 2 * x ∧
      Format.binary64.round (2 * x - 1) = 2 * x - 1 ∧
      ∃ w : ℚ, doubleValue? (Numeric.doubleWeight k) = some w ∧ w = (k - 2 ^ 52) / 2 ^ 52 ∧
        -1 ≤ w ∧ w < 1) ∧
    (∀ k k' : ℕ, k < 2 ^ drawBits → k' < 2 ^ drawBits →
      doubleValue? (Numeric.doubleWeight k) = doubleValue? (Numeric.doubleWeight k') → k = k') ∧
    (∀ k : ℕ, k < 2 ^ drawBits → ∀ x : ℚ, x = Format.binary32.round (k / 2 ^ drawBits) →
      Format.binary32.round (2 * x) = 2 * x ∧
      ∃ w : ℚ, singleValue? (Numeric.singleWeight k) = some w ∧
        w = Format.binary32.round (2 * x - 1) ∧ -1 ≤ w ∧ w ≤ 1) ∧
    (∀ kind ≠ ElementKind.int64, ∀ k k' : ℕ, k ≤ k' → k' < 2 ^ drawBits →
      ∃ x x' w w', Element.ofDraw? kind k = some x ∧ Element.ofDraw? kind k' = some x' ∧
        x.value? = some w ∧ x'.value? = some w' ∧ w ≤ w') ∧
    ∀ (g : Graph Numeric) (memory : Nat) (kind : ElementKind) (output : Handle) (unknown : Seed)
      (seed : Value) (given : Option Generator) (net : Network Numeric) (gen : Generator),
      g.compileFrom (Numeric.allocation memory kind) output unknown seed given =
        .ok (.ok net, gen) →
      ∀ layer ∈ net.layers, ∀ weights, layer.weights = some weights → ∀ x ∈ weights.elements,
        ∃ w, x.value? = some w ∧ -1 ≤ w ∧ w ≤ 1 := by
  have hdouble : ∀ k < 2 ^ drawBits, doubleValue? (Numeric.doubleWeight k) =
      some (Format.binary64.weightOf (k / 2 ^ drawBits)) := by
    intro k hk
    show (Element.float64 (Numeric.doubleWeight k)).value? = _
    exact value?_of_ofDraw .float64 rfl hk rfl
  have hsingle : ∀ k < 2 ^ drawBits, singleValue? (Numeric.singleWeight k) =
      some (Format.binary32.weightOf (k / 2 ^ drawBits)) := by
    intro k hk
    show (Element.float32 (Numeric.singleWeight k)).value? = _
    exact value?_of_ofDraw .float32 rfl hk rfl
  refine ⟨?_, ?_, ?_, ?_, ?_⟩
  · rintro k hk x rfl  -- doubles are exact
    refine ⟨Format.round_of_holds (holds_draw hk), Format.round_of_holds (holds_draw hk).two_mul,
      Format.round_of_holds (holds_two_mul_draw_sub_one hk), _,
      hdouble k hk, weightOf_draw hk, ?_⟩
    have hlow := (Format.weightOf_mem (f := .binary64) (by decide) (by positivity)
      (draw_div_lt_one hk).le).1
    refine ⟨hlow, ?_⟩
    rw [weightOf_draw hk, ← two_mul_draw_sub_one]
    have hlt := draw_div_lt_one hk
    linarith
  · intro k k' hk hk' hsame  -- and all different
    rw [hdouble k hk, hdouble k' hk', weightOf_draw hk, weightOf_draw hk'] at hsame
    have hdiff := (div_left_inj' (by norm_num)).mp (Option.some.inj hsame)
    exact_mod_cast sub_left_inj.mp hdiff
  · rintro k hk x rfl  -- singles are rounded twice
    refine ⟨Format.round_two_mul_round _, _, hsingle k hk, ?_, ?_⟩
    · simp [Format.weightOf]
    · exact Format.weightOf_mem (by decide) (by positivity) (draw_div_lt_one hk).le
  · intro kind hkind k k' hle hk'  -- both grow with the draw
    obtain ⟨f, hf⟩ : ∃ f, kind.format? = some f := by
      cases kind with
      | float64 => exact ⟨_, rfl⟩
      | float32 => exact ⟨_, rfl⟩
      | int64 => exact absurd rfl hkind
    obtain ⟨x, hx⟩ := exists_ofDraw hf k
    obtain ⟨x', hx'⟩ := exists_ofDraw hf k'
    refine ⟨x, x', _, _, hx, hx', value?_of_ofDraw kind hf (hle.trans_lt hk') hx,
      value?_of_ofDraw kind hf hk' hx', Format.weightOf_mono ?_⟩
    gcongr
  -- and the entries of a network are such weights
  · intro g memory kind output unknown seed given net gen hnet layer hlayer weights hweights x hx
    obtain ⟨start, -, hcompile⟩ := Graph.compileFrom_eq_ok_iff.mp hnet
    have hmem : x ∈ net.weightElements := by
      refine List.mem_flatMap.mpr ⟨layer, Array.mem_toList_iff.mpr hlayer, ?_⟩
      rwa [Layer.weightElements, hweights]
    obtain ⟨k, hk, hofDraw⟩ := exists_draw_of_compile hcompile hmem
    exact exists_value_of_ofDraw hk hofDraw

open Feedforward.Graph

/-- The last draw is rounded up to one, as it has more bits than a single. -/
theorem round_last_draw :
    Format.binary32.round ((2 ^ drawBits - 1 : ℕ) / 2 ^ drawBits) = 1 := by
  have htrim : Format.binary32.trim (2 ^ drawBits - 1) = 2 ^ drawBits := by decide
  rw [Format.round_div_two_pow (by decide), htrim, Nat.cast_pow, Nat.cast_ofNat,
    div_self (by positivity)]

/-- The last draw is less than one and its double too, but its single is one. All weights of the
diamond lie between minus one and one. -/
theorem weights_of_draws_diamond :
    2 ^ drawBits - 1 < 2 ^ drawBits ∧
    (∃ w : ℚ, doubleValue? (Numeric.doubleWeight (2 ^ drawBits - 1)) = some w ∧ w < 1) ∧
    singleValue? (Numeric.singleWeight (2 ^ drawBits - 1)) = some 1 ∧
    ∃ net gen, (diamond Activation.linear).compileFrom Numeric.doubles 3 [] (.int 0) none =
        .ok (.ok net, gen) ∧
      ∀ layer ∈ net.layers, ∀ weights, layer.weights = some weights → ∀ x ∈ weights.elements,
        ∃ w, x.value? = some w ∧ -1 ≤ w ∧ w ≤ 1 := by
  obtain ⟨hdouble, -, hsingle, -, hnetwork⟩ := weights_of_draws
  have hlast : 2 ^ drawBits - 1 < 2 ^ drawBits := by decide
  obtain ⟨-, -, -, w, hw, -, -, hlt⟩ := hdouble (2 ^ drawBits - 1) hlast _ rfl
  obtain ⟨-, v, hv, hround, -⟩ := hsingle (2 ^ drawBits - 1) hlast _ rfl
  have hone : v = 1 := by
    rw [hround, round_last_draw, show (2 : ℚ) * 1 - 1 = 1 by norm_num]
    exact Format.round_of_holds (Format.holds_one (by decide))
  have horder : (diamond Activation.linear).order 3 = .ok [0, 2, 1, 3] := by cbv
  have hlaw : Numeric.doubles.Lawful fun n => .zeros [n] .float64 :=
    Numeric.lawful_allocation (by decide)
  have hanswer : ∃ net gen, (diamond Activation.linear).compileFrom Numeric.doubles 3 [] (.int 0)
      none = .ok (.ok net, gen) :=
    (exists_compileFrom_iff hlaw horder).mpr ⟨⟨_, rfl⟩, fun h _ => hasRoom_diamond h⟩
  obtain ⟨net, gen, hnet⟩ := hanswer
  exact ⟨hlast, ⟨w, hw, hlt⟩, hone ▸ hv, net, gen, hnet, hnetwork _ _ _ _ _ _ _ _ _ hnet⟩

end Feedforward
