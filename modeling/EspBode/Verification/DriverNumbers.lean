import Mathlib.Tactic.IntervalCases
import EspBode.Firmware.AwgFy

/-!
# The numbers of the driver

What the arithmetic of `set` and `get` gives, **whatever the rounding of the platform**: the powers
of ten, the value that is limited to a precision, and what a response is interpreted as. A limited
value is never negative (`exists_limit`), and what `get` makes of an unreadable response of a number
is never anything else (`interpret_unreadable`).

A rounding goes to a nearest value of a format that has 53 bits for a significand, and nothing else
is assumed of it. So it is monotone and leaves small integers as they are, which is enough for this:

* **Powers of ten** up to the ninth are exact, as they are small integers; a negative one is the
  rounded quotient, a positive number up to 1 (`exists_pow10_neg`).
* **A limited value** is the rounded quotient of a number of units and a power of ten. The number
  comes from an unsigned integer, so it is not negative, whatever an undefined conversion may have
  left in it.
* **An unreadable response** is the starting value, scaled by a power of ten of at most 1, and
  rounding does not take the sign of the product.

Where the arithmetic is exact there is more to say: the limited value is a nearest multiple of the
unit where the conversion is defined (`limit_exact`), and it is 0 below that, on a platform where
what is undefined is 0 (`limit_of_neg`).
-/

namespace EspBode

namespace Platform

variable (pf : Platform)

/-! ### Conversions -/

theorem toUnsigned_lt (bits : ℕ) (x : Double) : pf.toUnsigned bits x < 2 ^ bits := by
  have hpos : (0 : ℤ) < 2 ^ bits := by positivity
  have hmod := Int.emod_lt_of_pos (pf.undefined x) hpos
  rw [toUnsigned, ← Nat.cast_lt (α := ℤ)]
  rcases h : x.truncIn 0 (2 ^ bits) with _ | t
  · rw [Option.getD_none, Int.toNat_of_nonneg (Int.emod_nonneg _ hpos.ne')]
    exact_mod_cast hmod
  · obtain ⟨h0, hlt⟩ := Double.mem_of_truncIn h
    rw [Option.getD_some, Int.toNat_of_nonneg h0]
    exact_mod_cast hlt

/-- A conversion that the language defines. -/
theorem toUnsigned_of_mem {bits : ℕ} {x : ℚ} (h0 : 0 ≤ x) (hlt : x < 2 ^ bits) :
    pf.toUnsigned bits (.finite x) = ⌊x⌋.toNat := by
  have hhi : ⌊x⌋ < 2 ^ bits := by
    rw [Int.floor_lt]
    exact_mod_cast hlt
  rw [toUnsigned, Double.truncIn_finite h0 (Int.floor_nonneg.2 h0) hhi, Option.getD_some]

/-- A negative number is converted to 0, if what is undefined is 0, too. -/
theorem toUnsigned_of_neg (h : ∀ x, pf.undefined x = 0) {bits : ℕ} {x : ℚ} (hx : x < 0) :
    pf.toUnsigned bits (.finite x) = 0 := by
  have hceil : ⌈x⌉ ≤ 0 := by
    rw [Int.ceil_le]
    exact_mod_cast hx.le
  rw [toUnsigned, h, Int.zero_emod]
  rcases ht : (Double.finite x).truncIn 0 (2 ^ bits) with _ | t
  · rfl
  · have hle := (Double.mem_of_truncIn ht).1
    rw [Double.truncIn, Double.trunc, if_neg hx.not_ge] at ht
    obtain ⟨heq, -⟩ := Option.filter_eq_some_iff.1 ht
    have htrunc := Option.some.inj heq
    rw [Option.getD_some]
    omega

/-- Rounding keeps a number in the range of 64 bits there. -/
theorem exists_round {q : ℚ} (h0 : 0 ≤ q) (hle : q ≤ 2 ^ 64) :
    ∃ a, 0 ≤ a ∧ a ≤ 2 ^ 64 ∧ pf.arithmetic.round q = .finite a := by
  have habs : |q| < 2 ^ 200 := by
    rw [abs_of_nonneg h0]
    exact hle.trans_lt (by norm_num)
  have hpow : ((1 : ℤ) : ℚ) * 2 ^ (64 : ℤ) = 2 ^ 64 := by norm_num
  have hbound := pf.arithmetic.dyadic_round (m := 1) (e := 64) (by decide) (by decide)
    (by rw [hpow]; norm_num)
  rw [hpow] at hbound
  obtain ⟨a, ha⟩ := pf.arithmetic.finite habs
  exact ⟨a, pf.arithmetic.round_nonneg h0 ha, pf.arithmetic.le_of_round hle ha hbound, ha⟩

/-! ### Powers of ten -/

theorem toNat_powerOfTen {n : ℕ} (hn : n ≤ 9) : (powerOfTen n).toNat = 10 ^ n := by
  interval_cases n <;> rfl

theorem ten_pow_le {n : ℕ} (hn : n ≤ 9) : 10 ^ n ≤ 2 ^ 30 := by
  interval_cases n <;> decide

/-- A power of ten up to nine is exact. -/
theorem pow10_natCast {n : ℕ} (hn : n ≤ 9) : pf.pow10 n = .finite (10 ^ n) := by
  have hle := ten_pow_le hn
  have hround := pf.arithmetic.round_natCast (n := 10 ^ n) (by omega)
  rw [pow10, if_neg (by omega), Int.natAbs_natCast, toNat_powerOfTen hn]
  dsimp only
  rw [if_neg (by omega), ofUnsigned, hround, Nat.cast_pow, Nat.cast_ofNat]

/-- A negative power is the rounded quotient. -/
theorem pow10_neg {n : ℕ} (h0 : 0 < n) (hn : n ≤ 9) :
    pf.pow10 (-n) = pf.arithmetic.round (1 / 10 ^ n) := by
  have hle := ten_pow_le hn
  have hround := pf.arithmetic.round_natCast (n := 10 ^ n) (by omega)
  rw [pow10, if_neg (by omega), Int.natAbs_neg, Int.natAbs_natCast, toNat_powerOfTen hn]
  dsimp only
  rw [if_pos (by omega), ofUnsigned, hround, pf.arithmetic.div_finite 1 (by positivity),
    Nat.cast_pow, Nat.cast_ofNat]

/-- A power of ten from -9 to 0 is a positive number up to 1. -/
theorem exists_pow10_neg {n : ℕ} (hn : n ≤ 9) :
    ∃ c, 1 / 2 ^ 30 ≤ c ∧ c ≤ 1 ∧ pf.pow10 (-n) = .finite c := by
  rcases Nat.eq_zero_or_pos n with rfl | hpos
  · exact ⟨1, by norm_num, le_rfl, pf.pow10_natCast (n := 0) (by omega)⟩
  have hle : (10 : ℚ) ^ n ≤ 2 ^ 30 := by exact_mod_cast ten_pow_le hn
  have hone : (1 : ℚ) ≤ 10 ^ n := one_le_pow₀ (by norm_num)
  have hlower : (1 : ℚ) / 2 ^ 30 ≤ 1 / 10 ^ n := one_div_le_one_div_of_le (by positivity) hle
  have hupper : (1 : ℚ) / 10 ^ n ≤ 1 := (div_le_one (by positivity)).2 hone
  have hsmall : ((1 : ℤ) : ℚ) * 2 ^ (-30 : ℤ) = 1 / 2 ^ 30 := by
    rw [zpow_neg]
    norm_num
  have hround := pf.arithmetic.dyadic_round (m := 1) (e := -30) (by decide) (by decide)
    (by rw [hsmall]; norm_num)
  rw [hsmall] at hround
  have habs : |(1 : ℚ) / 10 ^ n| < 2 ^ 200 := by
    rw [abs_of_nonneg (by positivity)]
    exact hupper.trans_lt (by norm_num)
  obtain ⟨c, hc⟩ := pf.arithmetic.finite habs
  have h1 := pf.arithmetic.round_natCast (n := 1) (by norm_num)
  rw [Nat.cast_one] at h1
  exact ⟨c, pf.arithmetic.le_of_round hlower hround hc, pf.arithmetic.le_of_round hupper hc h1,
    (pf.pow10_neg hpos hn).trans hc⟩

end Platform

namespace AwgFy

variable (pf : Platform)

/-! ### Limiting a value -/

/-- The number of units that a value is limited to. -/
def units (precision : ℕ) (x : Double) : ℕ :=
  pf.toUnsigned 64
    (pf.arithmetic.add (pf.arithmetic.mul x (pf.pow10 precision)) (.finite (1 / 2)))

/-- A value that is near to a multiple of the unit is limited to it. -/
theorem units_of_near {precision k : ℕ} (hp : precision ≤ 9) (hk : k ≤ 2 ^ 50) {v : ℚ}
    (hv : |v * 10 ^ precision - k| ≤ 1 / 8) : units pf precision (.finite v) = k := by
  have hk50 : (k : ℚ) ≤ 2 ^ 50 := by exact_mod_cast hk
  have hk0 : (0 : ℚ) ≤ k := Nat.cast_nonneg k
  have hk53 := pf.arithmetic.round_natCast (hk.trans (by norm_num))
  obtain ⟨hlo, hhi⟩ := abs_le.1 hv
  -- the product is not further away from the multiple than twice that
  obtain ⟨a, ha⟩ := pf.arithmetic.finite (q := v * 10 ^ precision) (by
    rw [abs_lt]
    constructor <;> linarith [show (2 : ℚ) ^ 50 + 1 < 2 ^ 200 by norm_num])
  have hnear := (pf.arithmetic.nearest ha (pf.arithmetic.mem_of_round hk53)).trans hv
  obtain ⟨halo, hahi⟩ := abs_le.1 hnear
  -- so the sum is between two quarters
  have hquarter : ∀ r : ℤ, |r| ≤ 3 → pf.arithmetic.round (k + r / 4) = .finite (k + r / 4) := by
    intro r hr
    obtain ⟨hr3, hr3'⟩ := abs_le.1 hr
    have hdyadic : ((4 * k + r : ℤ) : ℚ) * 2 ^ (-2 : ℤ) = k + r / 4 := by
      push_cast
      norm_num
      ring
    have hr3q : (-3 : ℚ) ≤ r := by exact_mod_cast hr3
    have hr3q' : (r : ℚ) ≤ 3 := by exact_mod_cast hr3'
    rw [← hdyadic]
    refine pf.arithmetic.dyadic_round (abs_le.2 ⟨by omega, by omega⟩) (by decide) ?_
    rw [hdyadic, abs_lt]
    constructor <;> linarith [show (2 : ℚ) ^ 50 + 1 < 2 ^ 200 by norm_num]
  obtain ⟨s, hs⟩ := pf.arithmetic.finite (q := a + 1 / 2) (by
    rw [abs_lt]
    constructor <;> linarith [show (2 : ℚ) ^ 50 + 2 < 2 ^ 200 by norm_num])
  have hlower := hquarter 1 (by decide)
  have hupper := hquarter 3 (by decide)
  push_cast at hlower hupper
  have hslo := pf.arithmetic.le_of_round (by linarith) hlower hs
  have hshi := pf.arithmetic.le_of_round (by linarith) hs hupper
  have hfloor : ⌊s⌋ = k := by
    rw [Int.floor_eq_iff, Int.cast_natCast]
    constructor <;> linarith
  rw [units, pf.pow10_natCast hp, pf.arithmetic.mul_finite, ha, pf.arithmetic.add_finite, hs,
    pf.toUnsigned_of_mem (by linarith) (by linarith [show (2 : ℚ) ^ 50 + 1 < 2 ^ 64 by norm_num]),
    hfloor, Int.toNat_natCast]

/-- **A limited value is a quotient**, which is not negative. -/
theorem exists_limit {precision : ℕ} (hp : precision ≤ 9) (x : Double) :
    ∃ a b, 0 ≤ b ∧ b ≤ 2 ^ 64 ∧ pf.ofUnsigned (units pf precision x) = .finite a ∧
      pf.arithmetic.round (a / 10 ^ precision) = .finite b ∧
      limit pf precision x = .finite b := by
  have hu : units pf precision x < 2 ^ 64 := pf.toUnsigned_lt 64 _
  obtain ⟨a, ha0, hale, ha⟩ := pf.exists_round (Nat.cast_nonneg (units pf precision x))
    (by exact_mod_cast hu.le)
  have hle : a / 10 ^ precision ≤ 2 ^ 64 :=
    (div_le_self ha0 (one_le_pow₀ (by norm_num))).trans hale
  obtain ⟨b, h0, hble, hb⟩ := pf.exists_round (q := a / 10 ^ precision) (by positivity) hle
  refine ⟨a, b, h0, hble, ha, hb, ?_⟩
  show pf.arithmetic.div (pf.ofUnsigned (units pf precision x)) (pf.pow10 precision) = _
  rw [Platform.ofUnsigned, ha, pf.pow10_natCast hp, pf.arithmetic.div_finite a (by positivity), hb]

/-- Multiplying with one changes no value. -/
theorem mul_pow10_zero {b : ℚ} (hb : b ∈ pf.arithmetic.values) (hlt : |b| < 2 ^ 200) :
    pf.arithmetic.mul (.finite b) (pf.pow10 0) = .finite b := by
  have hone : pf.pow10 (0 : ℕ) = .finite 1 := pf.pow10_natCast (n := 0) (by decide)
  rw [Nat.cast_zero] at hone
  rw [hone, pf.arithmetic.mul_finite, mul_one, pf.arithmetic.round_of_mem hb hlt]

/-- **In exact arithmetic a value is limited to a nearest one**, as far as the conversion is
defined. -/
theorem limit_exact (h : pf.arithmetic = .exact) {precision : ℕ} (hp : precision ≤ 9) {v : ℚ}
    (h0 : 0 ≤ v * 10 ^ precision + 1 / 2) (hlt : v * 10 ^ precision + 1 / 2 < 2 ^ 64) :
    limit pf precision (.finite v) =
      .finite (⌊v * 10 ^ precision + 1 / 2⌋ / 10 ^ precision) := by
  have hfloor : ((⌊v * 10 ^ precision + 1 / 2⌋.toNat : ℕ) : ℚ) = ⌊v * 10 ^ precision + 1 / 2⌋ := by
    exact_mod_cast Int.toNat_of_nonneg (Int.floor_nonneg.2 h0)
  have hunits : units pf precision (.finite v) = ⌊v * 10 ^ precision + 1 / 2⌋.toNat := by
    rw [units, pf.pow10_natCast hp, h]
    exact pf.toUnsigned_of_mem h0 hlt
  show pf.arithmetic.div (pf.ofUnsigned (units pf precision (.finite v))) (pf.pow10 precision) = _
  rw [hunits, pf.pow10_natCast hp, Platform.ofUnsigned, h, hfloor]
  exact Rounding.div_finite _ _ (by positivity)

/-- A value that rounds to something negative is limited to 0, if what is undefined is 0. -/
theorem limit_of_neg (h : pf.arithmetic = .exact) (hundefined : ∀ x, pf.undefined x = 0)
    {precision : ℕ} (hp : precision ≤ 9) {v : ℚ} (hneg : v * 10 ^ precision + 1 / 2 < 0) :
    limit pf precision (.finite v) = .finite 0 := by
  have hunits : units pf precision (.finite v) = 0 := by
    rw [units, pf.pow10_natCast hp, h]
    exact pf.toUnsigned_of_neg hundefined hneg
  show pf.arithmetic.div (pf.ofUnsigned (units pf precision (.finite v))) (pf.pow10 precision) = _
  rw [hunits, pf.pow10_natCast hp, Platform.ofUnsigned, h, Nat.cast_zero]
  refine (Rounding.div_finite _ _ (by positivity)).trans ?_
  rw [zero_div]
  rfl

/-! ### Responses -/

/-- The value that `get` starts from is rounded to a number near it. -/
theorem exists_noValue : ∃ r, -2 ≤ r ∧ r ≤ -1 ∧ noValue pf = .finite r := by
  obtain ⟨r, hr⟩ := pf.arithmetic.finite (q := -123 / 100) (by norm_num [abs_of_neg])
  have hlower := pf.arithmetic.dyadic_round (m := -2) (e := 0) (by decide) (by decide) (by norm_num)
  have hupper := pf.arithmetic.dyadic_round (m := -1) (e := 0) (by decide) (by decide) (by norm_num)
  norm_num at hlower hupper
  exact ⟨r, pf.arithmetic.le_of_round (by norm_num) hlower hr,
    pf.arithmetic.le_of_round (by norm_num) hr hupper, hr⟩

/-- **What an unreadable response is interpreted as**: a negative number, or 1 for a truth value. -/
theorem interpret_unreadable {row : ParamTranslator} {n : ℕ} (hn : n ≤ 9)
    (hexponent : row.getExponent = -n) {response : List UInt8}
    (h : sscanfLf (response.takeWhile (· != 0)) = none) :
    ∃ c < 0, interpret pf row response = .finite (if row.getType = .bool then 1 else c) := by
  obtain ⟨r, hlower, hupper, hr⟩ := exists_noValue pf
  obtain ⟨d, hd0, hd1, hd⟩ := pf.exists_pow10_neg hn
  have hd0 : 0 < d := lt_of_lt_of_le (by norm_num) hd0
  obtain ⟨c, hneg, hc⟩ := pf.arithmetic.round_neg (q := r * d) (by nlinarith) (by nlinarith)
  refine ⟨c, hneg, ?_⟩
  rw [interpret, h, hexponent, hd, Option.getD_none, hr, pf.arithmetic.mul_finite, hc,
    Double.truth_finite, if_neg hneg.ne]
  split_ifs <;> rfl

end AwgFy

end EspBode
