import Mathlib.Data.Nat.Log
import Mathlib.Tactic.GCongr
import Mathlib.Tactic.Positivity
import EspBode.Foundations.Rounding

/-!
# Binary64 is a rounding

`Rounding` asks for very little: a rounded number is a value, no value is nearer, and the dyadic
numbers of 53 bits are values. This module shows that the executable `Double.ofRat` is such a
rounding (`Rounding.binary64`), so that every result about an arbitrary rounding holds of the
arithmetic that the platform really has.

`Double.ofRat` works with a unit in the last place, whose exponent it finds by comparing logarithms
(`ulpExponent_spec`), and takes the multiple of the unit that is nearest, ties to even. Two facts
carry the module:

* **the rounded number is a value** (`nearestMultiple_mem`). Rounding may carry into a further bit;
  then the significand is the power of two above, which is a value again;
* **no value is nearer** (`abs_sub_nearestMultiple_le_of_mem`). Among the multiples of the unit that
  is the choice of the nearest integer (`abs_sub_roundHalfEven_le_abs_sub`). But values below the
  power of two at which the unit begins are finer, and need not be multiples of it. Such a value is
  so small (`multiple_or_le_of_mem`) that the power of two itself, which is a multiple, is nearer.

The range of exponents is bounded below only: `binary64Values` are the numbers that the format would
have if they could be arbitrarily large. Overflow is in `Double.ofRat`, not in the values, and a
number of moderate size does not overflow (`exists_ofRat`). Ties to even is never used, so no result
depends on it; it is there because the platform rounds so, and witnesses are computed with it.
-/

namespace EspBode

/-! ### Units in the last place -/

theorem twoPow_eq (e : ℤ) : twoPow e = 2 ^ e := by
  rw [twoPow]
  split_ifs with h
  · obtain ⟨n, rfl⟩ := Int.eq_ofNat_of_zero_le h
    rw [Int.toNat_natCast, zpow_natCast, Nat.cast_pow, Nat.cast_ofNat]
  · obtain ⟨n, hn⟩ := Int.exists_eq_neg_ofNat (not_le.1 h).le
    rw [hn, neg_neg, Int.toNat_natCast, zpow_neg, zpow_natCast, Nat.cast_pow, Nat.cast_ofNat,
      one_div]

/-- The binary logarithm of a natural number, as a bound on the number. -/
theorem two_pow_log2_bounds {n : ℕ} (hn : n ≠ 0) :
    (2 : ℚ) ^ (Nat.log2 n : ℤ) ≤ n ∧ (n : ℚ) < 2 ^ (Nat.log2 n + 1 : ℤ) := by
  have hlower : 2 ^ Nat.log2 n ≤ n := Nat.log2_self_le hn
  have hupper : n < 2 ^ (Nat.log2 n + 1) := Nat.lt_log2_self
  constructor
  · rw [zpow_natCast]
    exact_mod_cast hlower
  · have hcast : (Nat.log2 n : ℤ) + 1 = (Nat.log2 n + 1 : ℕ) := by push_cast; rfl
    rw [hcast, zpow_natCast]
    exact_mod_cast hupper

/-- The logarithms of numerator and denominator give that of the quotient, up to one. -/
theorem two_pow_lt_abs_lt {q : ℚ} (hq : q ≠ 0) :
    let e : ℤ := Nat.log2 q.num.natAbs - Nat.log2 q.den
    2 ^ (e - 1) < |q| ∧ |q| < 2 ^ (e + 1) := by
  intro e
  obtain ⟨hn, hn'⟩ := two_pow_log2_bounds (Int.natAbs_ne_zero.2 (Rat.num_ne_zero.2 hq))
  obtain ⟨hd, hd'⟩ := two_pow_log2_bounds q.den_ne_zero
  have hden : (0 : ℚ) < q.den := by exact_mod_cast q.den_pos
  have habs : |q| = q.num.natAbs / q.den := by
    conv_lhs => rw [← Rat.num_div_den q]
    rw [abs_div, Nat.abs_cast, Nat.cast_natAbs, Int.cast_abs]
  rw [habs, lt_div_iff₀ hden, div_lt_iff₀ hden]
  constructor
  · calc (2 : ℚ) ^ (e - 1) * q.den < 2 ^ (e - 1) * 2 ^ (Nat.log2 q.den + 1 : ℤ) := by gcongr
      _ = 2 ^ (Nat.log2 q.num.natAbs : ℤ) := by
        rw [← zpow_add₀ two_ne_zero]
        congr 1
        omega
      _ ≤ q.num.natAbs := hn
  · calc (q.num.natAbs : ℚ) < 2 ^ (Nat.log2 q.num.natAbs + 1 : ℤ) := hn'
      _ = 2 ^ (e + 1) * 2 ^ (Nat.log2 q.den : ℤ) := by
        rw [← zpow_add₀ two_ne_zero]
        congr 1
        omega
      _ ≤ 2 ^ (e + 1) * q.den := by gcongr

/-- **The unit in the last place**: the number has at most 53 bits over it, and exactly 53 unless
the unit is the least one. -/
theorem ulpExponent_spec {q : ℚ} (hq : q ≠ 0) :
    -1074 ≤ ulpExponent q ∧ |q| < 2 ^ (ulpExponent q + 53) ∧
      (-1074 < ulpExponent q → 2 ^ (ulpExponent q + 52) ≤ |q|) := by
  obtain ⟨hlower, hupper⟩ := two_pow_lt_abs_lt hq
  set e : ℤ := Nat.log2 q.num.natAbs - Nat.log2 q.den with he
  -- the exponent of the leading bit
  obtain ⟨f, hf, hlower, hupper⟩ : ∃ f : ℤ, ulpExponent q = max (f - 52) (-1074) ∧
      2 ^ f ≤ |q| ∧ |q| < 2 ^ (f + 1) := by
    by_cases h : twoPow e ≤ |q|
    · refine ⟨e, ?_, by rwa [← twoPow_eq], hupper⟩
      rw [ulpExponent, ← he, if_pos h]
    · refine ⟨e - 1, ?_, hlower.le, ?_⟩
      · rw [ulpExponent, ← he, if_neg h]
      · rw [sub_add_cancel, ← twoPow_eq]
        exact not_le.1 h
  have hmono : ∀ {a b : ℤ}, a ≤ b → (2 : ℚ) ^ a ≤ 2 ^ b := fun h ↦
    zpow_le_zpow_right₀ one_le_two h
  rw [hf]
  refine ⟨le_max_right _ _, hupper.trans_le (hmono (by omega)), fun hlt ↦ ?_⟩
  exact (hmono (by omega)).trans hlower

/-! ### The nearest integer -/

theorem abs_sub_roundHalfEven_le (q : ℚ) : |q - roundHalfEven q| ≤ 1 / 2 := by
  have hlower := Int.floor_le q
  have hupper := Int.lt_floor_add_one q
  rw [roundHalfEven]
  split_ifs with h₁ h₂ h₃
  · rw [abs_of_nonneg (by linarith)]
    linarith
  · push_cast
    rw [abs_of_nonpos (by linarith)]
    linarith
  · rw [abs_of_nonneg (by linarith)]
    linarith
  · push_cast
    rw [abs_of_nonpos (by linarith)]
    linarith

/-- No integer is nearer. -/
theorem abs_sub_roundHalfEven_le_abs_sub (q : ℚ) (n : ℤ) : |q - roundHalfEven q| ≤ |q - n| := by
  rcases eq_or_ne n (roundHalfEven q) with rfl | hne
  · exact le_rfl
  · have hhalf := abs_sub_roundHalfEven_le q
    have hone : (1 : ℚ) ≤ |(n : ℚ) - roundHalfEven q| := by
      exact_mod_cast Int.one_le_abs (sub_ne_zero.2 hne)
    have htriangle := abs_sub_le (n : ℚ) q (roundHalfEven q)
    rw [abs_sub_comm (n : ℚ) q] at htriangle
    linarith

theorem roundHalfEven_nonneg {q : ℚ} (hq : 0 ≤ q) : 0 ≤ roundHalfEven q := by
  have hround := (abs_le.1 (abs_sub_roundHalfEven_le q)).2
  have hlt : (-1 : ℚ) < roundHalfEven q := by linarith
  have hint : -1 < roundHalfEven q := by exact_mod_cast hlt
  omega

/-! ### The values -/

/-- The numbers of 53 bits, down to the least unit. -/
def binary64Values : Set ℚ :=
  {x | ∃ m e : ℤ, |m| ≤ 2 ^ 53 ∧ -1074 ≤ e ∧ x = m * 2 ^ e}

/-- The multiple of the unit that a number is rounded to. -/
def nearestMultiple (q : ℚ) : ℚ :=
  roundHalfEven (q / 2 ^ ulpExponent q) * 2 ^ ulpExponent q

theorem ofRat_eq (q : ℚ) : Double.ofRat q =
    if twoPow 1024 ≤ |nearestMultiple q| then .infinite (nearestMultiple q < 0)
    else .finite (nearestMultiple q) := by
  rw [Double.ofRat, twoPow_eq (ulpExponent q)]
  rfl

theorem eq_of_ofRat {q r : ℚ} (h : Double.ofRat q = .finite r) : r = nearestMultiple q := by
  rw [ofRat_eq] at h
  split_ifs at h
  exact (Double.finite.inj h).symm

theorem nearestMultiple_zero : nearestMultiple 0 = 0 := by
  simp [nearestMultiple, roundHalfEven]

theorem nearestMultiple_mem (q : ℚ) : nearestMultiple q ∈ binary64Values := by
  rcases eq_or_ne q 0 with rfl | hq
  · exact ⟨0, 0, by decide, by decide, by rw [nearestMultiple_zero]; norm_num⟩
  obtain ⟨hmin, hlt, -⟩ := ulpExponent_spec hq
  refine ⟨_, _, ?_, hmin, rfl⟩
  have hu : (0 : ℚ) < 2 ^ ulpExponent q := by positivity
  have hquot : |q / 2 ^ ulpExponent q| < 2 ^ 53 := by
    rw [abs_div, abs_of_pos hu, div_lt_iff₀ hu, ← zpow_natCast (2 : ℚ) 53, ← zpow_add₀ two_ne_zero,
      add_comm]
    exact hlt
  -- an integer within one half of a number below 2 ^ 53
  have hround := abs_sub_roundHalfEven_le (q / 2 ^ ulpExponent q)
  have hbound : |(roundHalfEven (q / 2 ^ ulpExponent q) : ℚ)| < 2 ^ 53 + 1 := by
    have htriangle := abs_sub_abs_le_abs_sub (roundHalfEven (q / 2 ^ ulpExponent q) : ℚ)
      (q / 2 ^ ulpExponent q)
    rw [abs_sub_comm] at htriangle
    linarith
  have hint : |roundHalfEven (q / 2 ^ ulpExponent q)| < 2 ^ 53 + 1 := by exact_mod_cast hbound
  omega

/-- A value is a multiple of a power of two, or it is so small that 52 bits over it are enough. -/
theorem multiple_or_le_of_mem {x : ℚ} (hx : x ∈ binary64Values) (e : ℤ) :
    (∃ n : ℤ, x = n * 2 ^ e) ∨ -1074 < e ∧ |x| ≤ 2 ^ (e + 52) := by
  obtain ⟨m, f, hm, hf, rfl⟩ := hx
  rcases le_or_gt e f with hle | hlt
  · obtain ⟨k, rfl⟩ := Int.exists_add_of_le hle
    refine .inl ⟨m * 2 ^ k, ?_⟩
    push_cast
    rw [zpow_add₀ two_ne_zero, zpow_natCast]
    ring
  · have hm' : |(m : ℚ)| ≤ 2 ^ 53 := by exact_mod_cast hm
    refine .inr ⟨by omega, ?_⟩
    rw [abs_mul, abs_of_pos (by positivity : (0 : ℚ) < 2 ^ f)]
    calc |(m : ℚ)| * 2 ^ f ≤ 2 ^ 53 * 2 ^ f := by gcongr
      _ = 2 ^ (f + 53) := by rw [zpow_add₀ two_ne_zero, mul_comm]; rfl
      _ ≤ 2 ^ (e + 52) := zpow_le_zpow_right₀ one_le_two (by omega)

/-- A distance in multiples of a unit. -/
theorem abs_sub_mul_eq {u : ℚ} (hu : 0 < u) (q a : ℚ) : |q - a * u| = |q / u - a| * u := by
  rw [← abs_of_pos hu, ← abs_mul, sub_mul, abs_of_pos hu, div_mul_cancel₀ q hu.ne']

/-- The nearest multiple is not further away than half a unit. -/
theorem abs_sub_nearestMultiple_le_half (y : ℚ) :
    |y - nearestMultiple y| ≤ 2 ^ ulpExponent y / 2 := by
  have hu : (0 : ℚ) < 2 ^ ulpExponent y := by positivity
  have hround := abs_sub_roundHalfEven_le (y / 2 ^ ulpExponent y)
  calc |y - nearestMultiple y|
      = |y / 2 ^ ulpExponent y - roundHalfEven (y / 2 ^ ulpExponent y)| * 2 ^ ulpExponent y :=
        abs_sub_mul_eq hu y _
    _ ≤ 1 / 2 * 2 ^ ulpExponent y := mul_le_mul_of_nonneg_right hround hu.le
    _ = 2 ^ ulpExponent y / 2 := by ring

/-- The relative error of a number that is not too small. -/
theorem abs_sub_nearestMultiple_le_div {y : ℚ} (hy : y ≠ 0) (hmin : -1074 < ulpExponent y) :
    |y - nearestMultiple y| ≤ |y| / 2 ^ 53 := by
  obtain ⟨-, -, hbits⟩ := ulpExponent_spec hy
  have hbits := hbits hmin
  have hsplit : (2 : ℚ) ^ (ulpExponent y + 52) = 2 ^ ulpExponent y * 2 ^ 52 := by
    rw [zpow_add₀ two_ne_zero]
    rfl
  have hhalf := abs_sub_nearestMultiple_le_half y
  rw [hsplit] at hbits
  rw [le_div_iff₀ (by positivity)]
  linarith

/-- A multiple of the unit is not nearer than the nearest one. -/
theorem abs_sub_nearestMultiple_le (q : ℚ) (n : ℤ) :
    |q - nearestMultiple q| ≤ |q - n * 2 ^ ulpExponent q| := by
  have hu : (0 : ℚ) < 2 ^ ulpExponent q := by positivity
  rw [nearestMultiple, abs_sub_mul_eq hu, abs_sub_mul_eq hu]
  exact mul_le_mul_of_nonneg_right (abs_sub_roundHalfEven_le_abs_sub _ n) hu.le

/-- **No number of 53 bits is nearer.** -/
theorem abs_sub_nearestMultiple_le_of_mem (q : ℚ) {x : ℚ} (hx : x ∈ binary64Values) :
    |q - nearestMultiple q| ≤ |q - x| := by
  rcases eq_or_ne q 0 with rfl | hq
  · rw [nearestMultiple_zero, sub_self, abs_zero]
    exact abs_nonneg _
  obtain ⟨-, -, hbits⟩ := ulpExponent_spec hq
  obtain ⟨n, rfl⟩ | ⟨hlt, hsmall⟩ := multiple_or_le_of_mem hx (ulpExponent q)
  · exact abs_sub_nearestMultiple_le q n
  · -- finer than that: the power of two at which the multiples begin is between the two
    have hq52 := hbits hlt
    have hpow : (2 : ℚ) ^ (ulpExponent q + 52) = 2 ^ 52 * 2 ^ ulpExponent q := by
      rw [zpow_add₀ two_ne_zero, mul_comm]
      rfl
    have hcast : ((2 ^ 52 : ℤ) : ℚ) = 2 ^ 52 := by rw [Int.cast_pow, Int.cast_ofNat]
    rcases abs_cases q with ⟨habs, -⟩ | ⟨habs, -⟩
    · have hnear : |q - nearestMultiple q| ≤ |q - 2 ^ (ulpExponent q + 52)| := by
        rw [hpow, ← hcast]
        exact abs_sub_nearestMultiple_le q _
      have hsign : |q - 2 ^ (ulpExponent q + 52)| = q - 2 ^ (ulpExponent q + 52) :=
        abs_of_nonneg (by linarith)
      have hdist := le_abs_self (q - x)
      have hx := le_abs_self x
      linarith
    · have hnear : |q - nearestMultiple q| ≤ |q + 2 ^ (ulpExponent q + 52)| := by
        rw [hpow, ← hcast, ← sub_neg_eq_add, ← neg_mul, ← Int.cast_neg]
        exact abs_sub_nearestMultiple_le q _
      have hsign : |q + 2 ^ (ulpExponent q + 52)| = -(q + 2 ^ (ulpExponent q + 52)) :=
        abs_of_nonpos (by linarith)
      have hdist := neg_le_abs (q - x)
      have hx := neg_le_abs x
      linarith

/-- A number of 53 bits is rounded to itself. -/
theorem nearestMultiple_of_mem {x : ℚ} (hx : x ∈ binary64Values) : nearestMultiple x = x := by
  have hnear := abs_sub_nearestMultiple_le_of_mem x hx
  rw [sub_self, abs_zero, abs_nonpos_iff, sub_eq_zero] at hnear
  exact hnear.symm

/-- A number of moderate size does not overflow. -/
theorem exists_ofRat {q : ℚ} (hq : |q| < 2 ^ 200) : ∃ r, Double.ofRat q = .finite r := by
  have hzero : (0 : ℚ) ∈ binary64Values := ⟨0, 0, by decide, by decide, by norm_num⟩
  have hnear := abs_sub_nearestMultiple_le_of_mem q hzero
  have htriangle := abs_sub_abs_le_abs_sub (nearestMultiple q) q
  rw [abs_sub_comm] at htriangle
  rw [sub_zero] at hnear
  have hpow : (2 : ℚ) ^ (201 : ℤ) ≤ 2 ^ (1024 : ℤ) := zpow_le_zpow_right₀ one_le_two (by decide)
  have h201 : (2 : ℚ) ^ (201 : ℤ) = 2 * 2 ^ 200 := by norm_num
  have hlt : |nearestMultiple q| < 2 ^ (201 : ℤ) := by
    rw [h201]
    linarith
  exact ⟨nearestMultiple q, by rw [ofRat_eq, twoPow_eq, if_neg (hlt.trans_le hpow).not_ge]⟩

/-- Arithmetic in binary64, rounding to nearest. -/
def Rounding.binary64 : Rounding where
  values := binary64Values
  round := Double.ofRat
  mem_of_round h := eq_of_ofRat h ▸ nearestMultiple_mem _
  nearest h hx := eq_of_ofRat h ▸ abs_sub_nearestMultiple_le_of_mem _ hx
  dyadic_mem m e hm he := ⟨m, e, hm, he, rfl⟩
  finite := exists_ofRat

end EspBode
