import Mathlib.Algebra.Order.Round
import Mathlib.Data.Nat.Prime.Basic
import EspBode.Foundations.Binary64

/-!
# Decimals that go through binary64

A decimal with `p` digits behind the point is rounded to binary64, and the double is displayed with
`p` digits again. Which decimal is displayed then? `NearestCount p x n` says that `n / 10 ^ p` is
the decimal nearest to `x`, without saying how a tie is broken, so the answers do not depend on it.

* **A decimal of at most 50 bits is displayed as it was** (`NearestCount.eq_of_near`). Its double is
  far nearer to it than to another decimal of as many digits (`abs_ofRat_decimal_sub_le`), because
  rounding moves it by a relative error only.
* **Any decimal that is displayed is rounded to the same double** (`ofRat_displayed`), however large
  it is. So what is displayed and read back is never wrong, even where it is not what was asked for.

The second one is the harder. If the displayed decimal is not the one that was rounded, then the
units in the last place are coarser than the decimals (`one_lt_ulp`): two doubles that are near each
other would otherwise be displayed apart. But then the displayed decimal is within half a unit of
the double, and nothing but the double is near (`nearestMultiple_eq_of_near`). The exception is a
double that is a power of two, where the unit changes; there a number on the lower side would have
to be nearer than half of the finer unit. It is ruled out since no power of ten is a power of two
(`two_zpow_mul_ten_pow_ne_one`), and integers are treated separately
(`NearestCount.div_eq_natCast`).

The bound of nine digits is the one of `pow10`. It is used only to see that a unit coarser than the
digits is far from underflow (`neg_thirty_lt_of_one_lt`).
-/

namespace EspBode

/-- The count of the nearest multiple of `10 ^ (-p)`. -/
def NearestCount (p : ℕ) (x : ℚ) (m : ℕ) : Prop :=
  ∀ k : ℤ, |x * 10 ^ p - m| ≤ |x * 10 ^ p - k|

theorem NearestCount.le_half {p : ℕ} {x : ℚ} {m : ℕ} (h : NearestCount p x m) :
    |x * 10 ^ p - m| ≤ 1 / 2 :=
  (h _).trans (abs_sub_round _)

/-- A distance in units of the last digit. -/
theorem abs_mul_pow_sub_eq (p : ℕ) (x a : ℚ) : |x * 10 ^ p - a| = |a / 10 ^ p - x| * 10 ^ p := by
  rw [abs_sub_comm, abs_sub_mul_eq (by positivity)]

/-- A decimal of at most 50 bits is far nearer to its double than to another decimal. -/
theorem abs_ofRat_decimal_sub_le {p k : ℕ} (hp : p ≤ 9) (hk : k ≤ 2 ^ 50) {v : ℚ}
    (hv : Double.ofRat (k / 10 ^ p) = .finite v) : |v * 10 ^ p - k| ≤ 1 / 8 := by
  obtain rfl := eq_of_ofRat hv
  have hten : (0 : ℚ) < 10 ^ p := by positivity
  rcases Nat.eq_zero_or_pos k with rfl | hpos
  · rw [Nat.cast_zero, zero_div, nearestMultiple_zero, zero_mul, sub_self, abs_zero]
    norm_num
  have hk1 : (1 : ℚ) ≤ k := by exact_mod_cast hpos
  have hk50 : (k : ℚ) ≤ 2 ^ 50 := by exact_mod_cast hk
  set y : ℚ := k / 10 ^ p with hy
  have hy0 : 0 < y := div_pos (by linarith) hten
  have hmin : -1074 < ulpExponent y := by
    obtain ⟨-, hupper, -⟩ := ulpExponent_spec hy0.ne'
    by_contra hle
    have hpow : (2 : ℚ) ^ (ulpExponent y + 53) ≤ 2 ^ (-30 : ℤ) :=
      zpow_le_zpow_right₀ one_le_two (by omega)
    have hnine : (10 : ℚ) ^ p ≤ 10 ^ 9 := pow_le_pow_right₀ (by norm_num) hp
    have hlower : (1 : ℚ) / 10 ^ 9 ≤ y := div_le_div₀ (by linarith) hk1 hten hnine
    rw [abs_of_pos hy0] at hupper
    norm_num at hpow hlower
    linarith
  have hnear := abs_sub_nearestMultiple_le_div hy0.ne' hmin
  rw [abs_of_pos hy0] at hnear
  have hmul := mul_le_mul_of_nonneg_right hnear hten.le
  have hback : y / 2 ^ 53 * 10 ^ p = k / 2 ^ 53 := by
    rw [hy]
    field_simp
  rw [abs_mul_pow_sub_eq]
  refine hmul.trans ?_
  rw [hback, div_le_iff₀ (by positivity)]
  linarith

/-- Such a decimal is displayed again. -/
theorem NearestCount.eq_of_near {p k m : ℕ} {v : ℚ} (h : NearestCount p v m)
    (hnear : |v * 10 ^ p - k| ≤ 1 / 8) : m = k := by
  have hm := (h k).trans (by exact_mod_cast hnear)
  have htriangle := abs_sub_le (m : ℚ) (v * 10 ^ p) k
  rw [abs_sub_comm (m : ℚ) (v * 10 ^ p)] at htriangle
  by_contra hne
  have hint : 1 ≤ |(m : ℤ) - k| := Int.one_le_abs (by omega)
  have hone : (1 : ℚ) ≤ |(m : ℚ) - k| := by exact_mod_cast hint
  linarith

/-- An integer is rounded to an integer. -/
theorem exists_int_of_ofRat {n : ℕ} {a : ℚ} (h : Double.ofRat n = .finite a) : ∃ k : ℤ, a = k := by
  rcases le_or_gt n (2 ^ 53) with hle | hlt
  · have hround := Rounding.binary64.round_natCast hle
    exact ⟨n, by rw [Double.finite.inj (h.symm.trans hround), Int.cast_natCast]⟩
  · have hq : (n : ℚ) ≠ 0 := by exact_mod_cast (by omega : n ≠ 0)
    obtain ⟨-, hupper, -⟩ := ulpExponent_spec hq
    -- the unit in the last place is an integer
    have hexponent : 0 ≤ ulpExponent n := by
      by_contra hneg
      have hpow : (2 : ℚ) ^ (ulpExponent n + 53) ≤ 2 ^ (53 : ℤ) :=
        zpow_le_zpow_right₀ one_le_two (by omega)
      have hlower : ((2 ^ 53 : ℕ) : ℚ) < n := by exact_mod_cast hlt
      rw [Nat.abs_cast] at hupper
      rw [Nat.cast_pow, Nat.cast_ofNat, ← zpow_natCast] at hlower
      exact absurd (hupper.trans_le hpow) hlower.not_gt
    obtain ⟨e, he⟩ := Int.eq_ofNat_of_zero_le hexponent
    refine ⟨roundHalfEven (n / 2 ^ ulpExponent n) * 2 ^ e, ?_⟩
    rw [eq_of_ofRat h, nearestMultiple, he, zpow_natCast, Int.cast_mul, Int.cast_pow,
      Int.cast_ofNat]

/-- A power of ten is no power of two. -/
theorem two_zpow_mul_ten_pow_ne_one {p : ℕ} (hp : 0 < p) (e : ℤ) : (2 : ℚ) ^ e * 10 ^ p ≠ 1 := by
  intro h
  rcases le_or_gt 0 e with hnonneg | hneg
  · have htwo : (1 : ℚ) ≤ 2 ^ e := one_le_zpow₀ one_le_two hnonneg
    have hten : (1 : ℚ) < 10 ^ p := one_lt_pow₀ (by norm_num) (by omega)
    nlinarith
  · obtain ⟨n, rfl⟩ := Int.exists_eq_neg_ofNat hneg.le
    have hten : (10 : ℚ) ^ p = 2 ^ n := by
      rw [zpow_neg, zpow_natCast] at h
      field_simp at h
      exact h
    have hnat : 10 ^ p = 2 ^ n := by exact_mod_cast hten
    have hfive : 5 ∣ 2 ^ n := hnat ▸ dvd_pow (by decide : 5 ∣ 10) (by omega)
    exact absurd (Nat.prime_five.dvd_of_dvd_pow hfive) (by decide)

/-- **Values are a unit apart**, unless the number was rounded to a power of two. -/
theorem ulp_le_abs_sub {y r : ℚ} (hy : 0 < y) (hmin : -1074 < ulpExponent y)
    (hpow : nearestMultiple y ≠ 2 ^ (ulpExponent y + 52)) (hr : r ∈ binary64Values)
    (hne : r ≠ nearestMultiple y) : 2 ^ ulpExponent y ≤ |nearestMultiple y - r| := by
  obtain ⟨-, -, hbits⟩ := ulpExponent_spec hy.ne'
  have hbits := hbits hmin
  rw [abs_of_pos hy] at hbits
  set e := ulpExponent y with he
  set k := roundHalfEven (y / 2 ^ e) with hk
  have hu : (0 : ℚ) < 2 ^ e := by positivity
  have hq : nearestMultiple y = k * 2 ^ e := rfl
  have hsplit : (2 : ℚ) ^ (e + 52) = (2 ^ 52 : ℤ) * 2 ^ e := by
    rw [zpow_add₀ two_ne_zero, mul_comm, Int.cast_pow, Int.cast_ofNat]
    rfl
  rw [hq] at hpow hne ⊢
  -- the significand has its leading bit, and another one
  have hlead : 2 ^ 52 < k := by
    have hquot : ((2 ^ 52 : ℤ) : ℚ) ≤ y / 2 ^ e := by rwa [le_div_iff₀ hu, ← hsplit]
    have hround := (abs_le.1 (abs_sub_roundHalfEven_le (y / 2 ^ e))).2
    have hhalf : ((2 ^ 52 : ℤ) : ℚ) < (k + 1 : ℤ) := by
      rw [Int.cast_add, Int.cast_one, hk]
      linarith
    have hle : 2 ^ 52 < k + 1 := by exact_mod_cast hhalf
    refine lt_of_le_of_ne (by omega) fun heq ↦ hpow ?_
    rw [hsplit, heq]
  obtain ⟨n, rfl⟩ | ⟨-, hsmall⟩ := multiple_or_le_of_mem hr e
  · have hkn : k - n ≠ 0 := fun h ↦ hne (by rw [sub_eq_zero.1 h])
    have hone : (1 : ℚ) ≤ |((k - n : ℤ) : ℚ)| := by exact_mod_cast Int.one_le_abs hkn
    rw [← sub_mul, abs_mul, abs_of_pos hu, ← Int.cast_sub]
    exact le_mul_of_one_le_left hu.le hone
  · have hnext : ((2 ^ 52 : ℤ) : ℚ) + 1 ≤ k := by exact_mod_cast hlead
    have hle := mul_le_mul_of_nonneg_right hnext hu.le
    have hself := le_abs_self r
    have habs := le_abs_self (k * 2 ^ e - r)
    rw [hsplit] at hsmall
    linarith

/-- If another decimal is displayed, the units in the last place are coarser than the digits. -/
theorem one_lt_ulp {p : ℕ} (h0 : 0 < p) {a : ℤ} {m : ℕ}
    (hm : NearestCount p (nearestMultiple (a / 10 ^ p)) m) (hne : (m : ℤ) ≠ a) :
    1 < 2 ^ ulpExponent (a / 10 ^ p) * (10 : ℚ) ^ p := by
  have hten : (0 : ℚ) < 10 ^ p := by positivity
  set y : ℚ := a / 10 ^ p with hy
  set q := nearestMultiple y
  have hhalf := abs_sub_nearestMultiple_le_half y
  have hscale : |q * 10 ^ p - a| = |y - q| * 10 ^ p := abs_mul_pow_sub_eq p q a
  -- two decimals are a digit apart, so one is half a digit away from the double
  have hone : (1 : ℚ) ≤ |((m - a : ℤ) : ℚ)| := by
    exact_mod_cast Int.one_le_abs (sub_ne_zero.2 hne)
  have htriangle := abs_sub_le (m : ℚ) (q * 10 ^ p) a
  rw [Int.cast_sub, Int.cast_natCast] at hone
  rw [abs_sub_comm (m : ℚ) (q * 10 ^ p)] at htriangle
  have hmul := mul_le_mul_of_nonneg_right hhalf hten.le
  have hnear := hm a
  refine lt_of_le_of_ne ?_ (two_zpow_mul_ten_pow_ne_one h0 _).symm
  linarith

/-- An integer is displayed as it is. -/
theorem NearestCount.div_eq_natCast {p n m : ℕ} (h : NearestCount p n m) :
    (m : ℚ) / 10 ^ p = n := by
  have hdigits := h (n * 10 ^ p : ℤ)
  push_cast at hdigits
  rw [sub_self, abs_zero, abs_nonpos_iff, sub_eq_zero] at hdigits
  rw [← hdigits, mul_div_cancel_right₀ _ (by positivity)]

/-- A unit that is coarser than nine digits is not very small. -/
theorem neg_thirty_lt_of_one_lt {p : ℕ} (hp : p ≤ 9) {e : ℤ} (h : 1 < 2 ^ e * (10 : ℚ) ^ p) :
    -30 < e := by
  by_contra hle
  have hsmall : (2 : ℚ) ^ e ≤ 2 ^ (-30 : ℤ) := zpow_le_zpow_right₀ one_le_two (by omega)
  have hnine : (10 : ℚ) ^ p ≤ 10 ^ 9 := pow_le_pow_right₀ (by norm_num) hp
  have hprod := mul_le_mul hsmall hnine (by positivity) (by positivity)
  norm_num at hprod
  linarith

/-- A number within half a unit of a double is rounded to it, unless the double is a power of
two. -/
theorem nearestMultiple_eq_of_near {x y : ℚ} (hy : 0 < y) (hmin : -1074 < ulpExponent y)
    (hpow : nearestMultiple y ≠ 2 ^ (ulpExponent y + 52))
    (hx : |x - nearestMultiple y| < 2 ^ ulpExponent y / 2) :
    nearestMultiple x = nearestMultiple y := by
  by_contra hne
  have hunit := ulp_le_abs_sub hy hmin hpow (nearestMultiple_mem x) hne
  have hnear := abs_sub_nearestMultiple_le_of_mem x (nearestMultiple_mem y)
  have htriangle := abs_sub_le (nearestMultiple y) x (nearestMultiple x)
  rw [abs_sub_comm (nearestMultiple y) x] at htriangle
  linarith

/-- A number that is not further away from a double than the number it was rounded from is of
moderate size, too. -/
theorem exists_ofRat_of_nearer {x y : ℚ} (hy0 : 0 ≤ y) (hy : y ≤ 2 ^ 64)
    (hx : |x - nearestMultiple y| ≤ |y - nearestMultiple y|) :
    ∃ r, Double.ofRat x = .finite r := by
  have hzero := abs_sub_nearestMultiple_le_of_mem y ⟨0, 0, by decide, by decide, rfl⟩
  have hsize := abs_sub_abs_le_abs_sub x (nearestMultiple y)
  have hsize' := abs_sub_abs_le_abs_sub (nearestMultiple y) y
  rw [Int.cast_zero, zero_mul, sub_zero, abs_of_nonneg hy0] at hzero
  rw [abs_sub_comm (nearestMultiple y), abs_of_nonneg hy0] at hsize'
  have hpow : (3 : ℚ) * 2 ^ 64 < 2 ^ 200 := by norm_num
  exact exists_ofRat (by linarith)

/-- **A displayed decimal is rounded to the double it displays.** -/
theorem ofRat_displayed {p : ℕ} (h0 : 0 < p) (hp : p ≤ 9) {a : ℤ} (ha0 : 0 ≤ a)
    (ha : (a : ℚ) ≤ 2 ^ 64) {q : ℚ} (hq : Double.ofRat (a / 10 ^ p) = .finite q) {m : ℕ}
    (hm : NearestCount p q m) : Double.ofRat (m / 10 ^ p) = .finite q := by
  obtain rfl := eq_of_ofRat hq
  rcases eq_or_ne (m : ℤ) a with heq | hne
  · rwa [← Int.cast_natCast, heq]
  have hten : (0 : ℚ) < 10 ^ p := by positivity
  have hcoarse := one_lt_ulp h0 hm hne
  have hexponent := neg_thirty_lt_of_one_lt hp hcoarse
  have hhalf := hm.le_half
  have hcloser := hm a
  rw [abs_mul_pow_sub_eq] at hhalf
  rw [abs_mul_pow_sub_eq, abs_mul_pow_sub_eq] at hcloser
  have hcloser := le_of_mul_le_mul_right hcloser hten
  have hy0 : (0 : ℚ) ≤ a / 10 ^ p := div_nonneg (by exact_mod_cast ha0) hten.le
  have hy64 : (a : ℚ) / 10 ^ p ≤ 2 ^ 64 :=
    (div_le_self (by exact_mod_cast ha0) (one_le_pow₀ (by norm_num))).trans ha
  generalize (a : ℚ) / 10 ^ p = y at *
  obtain ⟨r, hr⟩ := exists_ofRat_of_nearer hy0 hy64 hcloser
  rw [hr, eq_of_ofRat hr]
  -- zero and a power of two that is an integer are displayed as they are
  have hinteger : ∀ {n : ℕ}, nearestMultiple y = n →
      nearestMultiple (m / 10 ^ p) = nearestMultiple y := by
    intro n hn
    rw [hn] at hm
    rw [hm.div_eq_natCast, ← hn]
    exact nearestMultiple_of_mem (nearestMultiple_mem y)
  congr 1
  rcases hy0.eq_or_lt with rfl | hpos
  · exact hinteger (n := 0) (by rw [nearestMultiple_zero, Nat.cast_zero])
  rcases eq_or_ne (nearestMultiple y) (2 ^ (ulpExponent y + 52)) with hpow | hpow
  · obtain ⟨n, hn⟩ := Int.eq_ofNat_of_zero_le (by omega : 0 ≤ ulpExponent y + 52)
    exact hinteger (n := 2 ^ n) (by rw [hpow, hn, zpow_natCast, Nat.cast_pow, Nat.cast_ofNat])
  · refine nearestMultiple_eq_of_near hpos (by omega) hpow ?_
    by_contra hfar
    have := mul_le_mul_of_nonneg_right (not_lt.1 hfar) hten.le
    linarith

end EspBode
