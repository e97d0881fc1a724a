import Mathlib.Algebra.Order.Field.Power
import Mathlib.Data.Rat.Cast.Order
import Mathlib.Tactic.Linarith
import Mathlib.Tactic.NormNum
import Mathlib.Tactic.Ring
import EspBode.Foundations.Scanf

/-!
# Rounded arithmetic

A `Rounding` is an arithmetic of doubles: each number is rounded to a nearest value of some format,
which has the numbers of 53 significant bits among its values. Exact arithmetic is one
(`Rounding.exact`), in which every number is a value; binary64 is another. Results are proved for an
arbitrary rounding, so that they hold of both, and do not depend on what the format does with ties.

The laws of the structure are all that is used of it, and they are few:

* a rounded number is a value, and no value is nearer;
* the numbers of 53 bits are values, down to the least exponent;
* a number of moderate size is rounded to a number, so overflow needs no case there.

From these it follows that values are kept (`round_of_mem`) and that rounding is monotone
(`le_of_round`). The second one takes an argument, since nothing says that equal distances are
resolved alike: if two numbers were rounded the wrong way round, both would lie half-way between
the two results, and so they would be one number. With small integers as values, signs and
comparisons with small integers survive rounding (`natCast_le_of_round`, `round_nonneg`).

The operations are those of the format on top of that, with infinities and NaN; comparing with `==`
and converting to an integer follow the C language. A conversion to an integer type is defined only
if the integer part is in the range of the type, so `truncIn` may fail; what a platform does instead
is not part of a rounding.
-/

namespace EspBode

/-- A way to round numbers to the values of a format. -/
structure Rounding where
  /-- The values of the format, if they could be arbitrarily large. -/
  values : Set ℚ
  round : ℚ → Double
  mem_of_round : ∀ {q r}, round q = .finite r → r ∈ values
  /-- No value is nearer than the rounded number. -/
  nearest : ∀ {q r x}, round q = .finite r → x ∈ values → |q - r| ≤ |q - x|
  /-- There are 53 bits for a significand. -/
  dyadic_mem : ∀ (m e : ℤ), |m| ≤ 2 ^ 53 → -1074 ≤ e → (m : ℚ) * 2 ^ e ∈ values
  /-- A number of moderate size is rounded to a number. -/
  finite : ∀ {q}, |q| < 2 ^ 200 → ∃ r, round q = .finite r

namespace Rounding

/-- Arithmetic without rounding. -/
def exact : Rounding where
  values := Set.univ
  round := .finite
  mem_of_round _ := Set.mem_univ _
  nearest h _ := by
    obtain rfl := Double.finite.inj h
    rw [sub_self, abs_zero]
    exact abs_nonneg _
  dyadic_mem _ _ _ _ := Set.mem_univ _
  finite _ := ⟨_, rfl⟩

variable (ar : Rounding)

/-! ### What rounding keeps -/

/-- A value is rounded to itself. -/
theorem round_of_mem {q : ℚ} (hq : q ∈ ar.values) (hlt : |q| < 2 ^ 200) :
    ar.round q = .finite q := by
  obtain ⟨r, hr⟩ := ar.finite hlt
  have hle := ar.nearest hr hq
  rw [sub_self, abs_zero, abs_nonpos_iff, sub_eq_zero] at hle
  rw [hr, hle]

/-- **Rounding is monotone.** -/
theorem le_of_round {p q a b : ℚ} (hpq : p ≤ q) (ha : ar.round p = .finite a)
    (hb : ar.round q = .finite b) : a ≤ b := by
  by_contra hlt
  have hp := sq_le_sq.2 (ar.nearest ha (ar.mem_of_round hb))
  have hq := sq_le_sq.2 (ar.nearest hb (ar.mem_of_round ha))
  -- both are half-way between the two, so they are one number
  have hle : a + b ≤ 2 * p := by nlinarith
  have hge : 2 * q ≤ a + b := by nlinarith
  obtain rfl : p = q := by linarith
  rw [ha] at hb
  exact hlt (Double.finite.inj hb).le

theorem dyadic_round {m e : ℤ} (hm : |m| ≤ 2 ^ 53) (he : -1074 ≤ e)
    (hlt : |(m : ℚ) * 2 ^ e| < 2 ^ 200) :
    ar.round (m * 2 ^ e) = .finite (m * 2 ^ e) :=
  ar.round_of_mem (ar.dyadic_mem m e hm he) hlt

/-- A small integer is rounded to itself. -/
theorem round_natCast {n : ℕ} (hn : n ≤ 2 ^ 53) : ar.round n = .finite n := by
  have hmem := ar.dyadic_mem n 0 (by rw [Nat.abs_cast]; exact_mod_cast hn) (by decide)
  rw [zpow_zero, mul_one, Int.cast_natCast] at hmem
  refine ar.round_of_mem hmem ?_
  have hq : (n : ℚ) ≤ 2 ^ 53 := by exact_mod_cast hn
  rw [Nat.abs_cast]
  exact hq.trans_lt (by norm_num)

/-- Rounding keeps a number above a small integer there. -/
theorem natCast_le_of_round {n : ℕ} {q r : ℚ} (hn : n ≤ 2 ^ 53) (hq : (n : ℚ) ≤ q)
    (h : ar.round q = .finite r) : (n : ℚ) ≤ r :=
  ar.le_of_round hq (ar.round_natCast hn) h

theorem round_nonneg {q r : ℚ} (hq : 0 ≤ q) (h : ar.round q = .finite r) : 0 ≤ r := by
  exact_mod_cast ar.natCast_le_of_round (n := 0) (by norm_num) (by exact_mod_cast hq) h

/-- Rounding keeps a negative number negative, if it is not very near to zero. -/
theorem round_neg {q : ℚ} (hq : q ≤ -(1 / 2 ^ 40)) (hlt : -(2 ^ 100) ≤ q) :
    ∃ r < 0, ar.round q = .finite r := by
  have habs : |q| < 2 ^ 200 := by
    rw [abs_of_nonpos (hq.trans (by norm_num))]
    linarith [show (2 : ℚ) ^ 100 < 2 ^ 200 by norm_num]
  have hsmall : ((-1 : ℤ) : ℚ) * 2 ^ (-40 : ℤ) = -(1 / 2 ^ 40) := by
    rw [zpow_neg]
    norm_num
  obtain ⟨r, hr⟩ := ar.finite habs
  have hbound := ar.dyadic_round (m := -1) (e := -40) (by decide) (by decide)
    (by rw [hsmall]; norm_num)
  rw [hsmall] at hbound
  exact ⟨r, (ar.le_of_round hq hr hbound).trans_lt (by norm_num), hr⟩

/-! ### The operations -/

/-- `x + y`. -/
def add : Double → Double → Double
  | .finite x, .finite y => ar.round (x + y)
  | .infinite s, .infinite t => if s = t then .infinite s else .nan
  | .infinite s, .finite _ | .finite _, .infinite s => .infinite s
  | .nan, _ | _, .nan => .nan

/-- `x * y`. -/
def mul : Double → Double → Double
  | .finite x, .finite y => ar.round (x * y)
  | .infinite s, .infinite t => .infinite (s != t)
  | .infinite s, .finite x | .finite x, .infinite s =>
    if x = 0 then .nan else .infinite (s != decide (x < 0))
  | .nan, _ | _, .nan => .nan

/-- `x / y`. -/
def div : Double → Double → Double
  | .finite x, .finite y =>
    if y = 0 then if x = 0 then .nan else .infinite (decide (x < 0)) else ar.round (x / y)
  | .infinite s, .finite y => .infinite (s != decide (y < 0))
  | .finite _, .infinite _ => .finite 0
  | .infinite _, .infinite _ | .nan, _ | _, .nan => .nan

@[simp]
theorem add_finite (x y : ℚ) : ar.add (.finite x) (.finite y) = ar.round (x + y) :=
  rfl

@[simp]
theorem mul_finite (x y : ℚ) : ar.mul (.finite x) (.finite y) = ar.round (x * y) :=
  rfl

theorem div_finite (x : ℚ) {y : ℚ} (hy : y ≠ 0) :
    ar.div (.finite x) (.finite y) = ar.round (x / y) :=
  if_neg hy

end Rounding

namespace Double

/-- `x == y`. -/
def eq (x y : Double) : Bool :=
  x = y && x != .nan

/-- `x ? 1 : 0` for the test `x != 0`. -/
def truth (x : Double) : Double :=
  if x.eq (.finite 0) then .finite 0 else .finite 1

/-- The integer part, towards zero. -/
def trunc : Double → Option ℤ
  | .finite x => some (if 0 ≤ x then ⌊x⌋ else ⌈x⌉)
  | _ => none

/-- The integer part, if it is in a range. A conversion to an integer type is defined if the integer
part is in the range of the type. -/
def truncIn (lo hi : ℤ) (x : Double) : Option ℤ :=
  x.trunc.filter fun t ↦ lo ≤ t ∧ t < hi

theorem mem_of_truncIn {lo hi t : ℤ} {x : Double} (h : x.truncIn lo hi = some t) :
    lo ≤ t ∧ t < hi := by
  obtain ⟨-, ht⟩ := Option.filter_eq_some_iff.1 h
  exact of_decide_eq_true ht

/-- The integer part of a number that is not negative. -/
theorem truncIn_finite {lo hi : ℤ} {x : ℚ} (h0 : 0 ≤ x) (hlo : lo ≤ ⌊x⌋) (hhi : ⌊x⌋ < hi) :
    truncIn lo hi (.finite x) = some ⌊x⌋ := by
  rw [truncIn, trunc, if_pos h0, Option.filter_some, if_pos (decide_eq_true ⟨hlo, hhi⟩)]

@[simp]
theorem eq_finite (x y : ℚ) : eq (.finite x) (.finite y) = decide (x = y) := by
  simp [eq]

theorem finite_eq_iff (x : ℚ) (y : Double) : eq (.finite x) y ↔ y = .finite x := by
  simp [eq, eq_comm (a := y)]

theorem truth_finite (x : ℚ) : truth (.finite x) = .finite (if x = 0 then 0 else 1) := by
  rw [truth, eq_finite]
  split_ifs <;> simp_all

end Double

end EspBode
