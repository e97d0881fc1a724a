import Mathlib.Data.List.TakeWhile
import Mathlib.Data.Nat.Log
import Mathlib.Tactic.NormNum
import Mathlib.Tactic.Ring
import EspBode.Foundations.Scanf

/-!
# Decimal numerals

`Spells t q` says that the text `t` is a numeral without a sign for the number `q`: digits, and
perhaps a point and more digits. It is an inductive predicate and not a parser, so that a text that
was put together from digits is a numeral by its constructors. The two directions are

* **reading**: `%lf` reads a numeral as its number, rounded once (`sscanfLf_of_spells`). The scan
  finds the digits and the point, and no exponent, because a numeral has no letters
  (`not_mem_of_spells`); so nothing is rounded on the way;
* **writing**: `natNumeral` and `fixed p m` are the numerals of a natural number and of
  `m / 10 ^ p` with `p` digits behind the point (`spells_natNumeral`, `spells_fixed`).

The digits are written by place (`lastDigits`), least significant last, and their value is read by
Horner's rule from the front, so the two meet in `digitsValue_cons`: a digit in front counts by its
place. Leading zeros are no obstacle, neither in reading nor in `fixed`, whose digits behind the
point may begin with some.

`numeralValue` gives the number that a text stands for, if it is a numeral; it is the left inverse
of writing, and is used where a text that went over a line is to be understood.

A numeral has no sign. The platform prints a negative number with a sign in front of the numeral of
its absolute value, and nothing in this module depends on that.
-/

namespace EspBode

/-- The text is a numeral of the number. -/
inductive Spells : List UInt8 → ℚ → Prop
  | whole {ds : List UInt8} : ds ≠ [] → (∀ c ∈ ds, isDigit c) → Spells ds (digitsValue ds)
  | point {ds fs : List UInt8} : ds ≠ [] → (∀ c ∈ ds, isDigit c) → (∀ c ∈ fs, isDigit c) →
    Spells (ds ++ chr '.' :: fs) (digitsValue (ds ++ fs) / 10 ^ fs.length)

/-! ### Reading a numeral -/

theorem digit_bounds {c : UInt8} (h : isDigit c) : 48 ≤ c.toNat ∧ c.toNat ≤ 57 := by
  rw [isDigit, Bool.and_eq_true, decide_eq_true_iff, decide_eq_true_iff, UInt8.le_iff_toNat_le,
    UInt8.le_iff_toNat_le] at h
  exact h

/-- A digit is no white space, no sign and no letter. -/
theorem digit_ne {c : UInt8} (h : isDigit c) :
    isSpace c = false ∧ c ≠ chr '-' ∧ c ≠ chr '+' ∧ toLower c = c := by
  obtain ⟨hlo, hhi⟩ := digit_bounds h
  refine ⟨?_, ?_, ?_, ?_⟩
  · rw [isSpace, Bool.or_eq_false_iff, Bool.and_eq_false_iff, beq_eq_false_iff_ne,
      decide_eq_false_iff_not, decide_eq_false_iff_not, UInt8.le_iff_toNat_le,
      UInt8.le_iff_toNat_le, ne_eq, ← UInt8.toNat_inj]
    exact ⟨by simp; omega, .inr (by simp; omega)⟩
  · rintro rfl
    exact absurd hlo (by decide)
  · rintro rfl
    exact absurd hlo (by decide)
  · refine if_neg fun hle ↦ ?_
    have := UInt8.le_iff_toNat_le.1 hle.1
    simp at this
    omega

/-- A number without a sign and an exponent: digits, and what `scanFraction` finds behind them. -/
theorem sscanfLf_of_digits {ds rest fs : List UInt8} (hne : ds ≠ []) (hds : ∀ c ∈ ds, isDigit c)
    (hrest : ∀ c ∈ rest.head?, isDigit c = false) (hfraction : scanFraction rest = (fs, [])) :
    sscanfLf (ds ++ rest) = some (.ofRat (digitsValue (ds ++ fs) / 10 ^ fs.length)) := by
  obtain ⟨c, ds, rfl⟩ := List.exists_cons_of_ne_nil hne
  obtain ⟨hspace, hminus, hplus, hlower⟩ := digit_ne (hds c List.mem_cons_self)
  obtain ⟨hlo, hhi⟩ := digit_bounds (hds c List.mem_cons_self)
  have hsign : scanSign ((c :: ds ++ rest).dropWhile isSpace) = (false, c :: ds ++ rest) := by
    rw [List.cons_append, List.dropWhile_cons, hspace]
    simp [scanSign, hminus, hplus]
  -- the first letters of the special values are no digits
  have hspecial : ∀ {l : UInt8} {ls : List UInt8}, 57 < l.toNat →
      ¬ l :: ls <+: (c :: ds ++ rest).map toLower := by
    intro l ls hl hbegins
    rw [List.cons_append, List.map_cons, List.cons_prefix_cons, hlower] at hbegins
    rw [hbegins.1] at hl
    omega
  have htail : rest.takeWhile isDigit = [] ∧ rest.dropWhile isDigit = rest := by
    rcases rest with _ | ⟨x, rest⟩
    · exact ⟨rfl, rfl⟩
    · have hx : isDigit x = false := hrest x rfl
      simp [hx]
  have hwhole : (c :: ds ++ rest).takeWhile isDigit = c :: ds := by
    rw [List.takeWhile_append_of_pos hds, htail.1, List.append_nil]
  have hbehind : (c :: ds ++ rest).dropWhile isDigit = rest := by
    rw [List.dropWhile_append_of_pos hds, htail.2]
  have hinf : ¬ ascii "inf" <+: (c :: ds ++ rest).map toLower := hspecial (by decide)
  have hnan : ¬ ascii "nan" <+: (c :: ds ++ rest).map toLower := hspecial (by decide)
  rw [sscanfLf, hsign]
  dsimp only
  rw [if_neg hinf, if_neg hnan, hwhole, hbehind, hfraction]
  dsimp only
  rw [if_neg (by simp), scanExponent]
  rcases fs with _ | ⟨f, fs⟩
  · simp
  · have hneg : ¬ 0 ≤ (0 : ℤ) - (f :: fs).length := by
      rw [List.length_cons]
      omega
    rw [if_neg hneg]
    simp

/-- **Reading a numeral gives its number, rounded.** -/
theorem sscanfLf_of_spells {t : List UInt8} {q : ℚ} (h : Spells t q) :
    sscanfLf t = some (.ofRat q) := by
  cases h with
  | @whole ds hne hds =>
    have hread := @sscanfLf_of_digits t [] [] hne hds (by simp) rfl
    simpa using hread
  | @point ds fs hne hds hfs =>
    have hall := List.takeWhile_eq_self_iff.2 hfs
    have hfraction : scanFraction (chr '.' :: fs) = (fs, []) := by
      rw [scanFraction, if_pos rfl, hall, List.dropWhile_eq_nil_iff.2 hfs]
    exact sscanfLf_of_digits hne hds (by simp; decide) hfraction

/-- A numeral has no other letters than digits and a point. -/
theorem not_mem_of_spells {t : List UInt8} {q : ℚ} (h : Spells t q) {c : UInt8}
    (hc : isDigit c = false) (hp : c ≠ chr '.') : c ∉ t := by
  have hdigits : ∀ {ds : List UInt8}, (∀ c ∈ ds, isDigit c) → c ∉ ds := fun h hm ↦
    absurd (h c hm) (by simp [hc])
  cases h with
  | whole _ hds => exact hdigits hds
  | point _ hds hfs => simp [hdigits hds, hdigits hfs, hp]

/-- The number that a numeral stands for. -/
def numeralValue (t : List UInt8) : ℚ :=
  let fs := (t.dropWhile isDigit).drop 1
  digitsValue (t.takeWhile isDigit ++ fs) / 10 ^ fs.length

theorem numeralValue_of_spells {t : List UInt8} {q : ℚ} (h : Spells t q) : numeralValue t = q := by
  cases h with
  | whole _ hds =>
    rw [numeralValue, List.takeWhile_eq_self_iff.2 hds, List.dropWhile_eq_nil_iff.2 hds]
    simp
  | point _ hds hfs =>
    have hpoint : isDigit (chr '.') = false := by decide
    rw [numeralValue, List.takeWhile_append_of_pos hds, List.dropWhile_append_of_pos hds,
      List.takeWhile_cons_of_neg (by simp [hpoint]), List.dropWhile_cons_of_neg (by simp [hpoint])]
    simp

/-! ### Writing numerals -/

/-- The last `k` digits of a number. -/
def lastDigits (k n : ℕ) : List UInt8 :=
  (List.range k).reverse.map fun i ↦ UInt8.ofNat (48 + n / 10 ^ i % 10)

/-- The numeral of a natural number. -/
def natNumeral (n : ℕ) : List UInt8 :=
  lastDigits (Nat.log 10 n + 1) n

/-- The numeral of `m / 10 ^ p` with `p` digits behind the point. -/
def fixed (p m : ℕ) : List UInt8 :=
  natNumeral (m / 10 ^ p) ++ chr '.' :: lastDigits p m

theorem lastDigits_succ (k n : ℕ) :
    lastDigits (k + 1) n = UInt8.ofNat (48 + n / 10 ^ k % 10) :: lastDigits k n := by
  rw [lastDigits, List.range_succ, List.reverse_append, List.reverse_singleton,
    List.singleton_append, List.map_cons, lastDigits]

theorem length_lastDigits (k n : ℕ) : (lastDigits k n).length = k := by
  rw [lastDigits, List.length_map, List.length_reverse, List.length_range]

theorem toNat_digit (d : ℕ) : (UInt8.ofNat (48 + d % 10)).toNat = 48 + d % 10 := by
  rw [UInt8.toNat_ofNat']
  omega

theorem isDigit_of_mem_lastDigits {k n : ℕ} : ∀ c ∈ lastDigits k n, isDigit c := by
  intro c hc
  obtain ⟨i, -, rfl⟩ := List.mem_map.1 hc
  rw [isDigit, Bool.and_eq_true, decide_eq_true_iff, decide_eq_true_iff, UInt8.le_iff_toNat_le,
    UInt8.le_iff_toNat_le, toNat_digit]
  have h48 : (48 : UInt8).toNat = 48 := rfl
  have h57 : (57 : UInt8).toNat = 57 := rfl
  omega

/-- A digit in front counts by its place. -/
theorem digitsValue_cons (c : UInt8) (ds : List UInt8) :
    digitsValue (c :: ds) = (c.toNat - 48) * 10 ^ ds.length + digitsValue ds := by
  have hfold : ∀ (ds : List UInt8) (a : ℕ), ds.foldl (fun acc c ↦ 10 * acc + (c.toNat - 48)) a =
      a * 10 ^ ds.length + digitsValue ds := by
    intro ds
    induction ds with
    | nil => simp [digitsValue]
    | cons d ds ih =>
      intro a
      rw [digitsValue, List.foldl_cons, List.foldl_cons, ih, ih, List.length_cons]
      ring
  rw [digitsValue, List.foldl_cons, hfold]
  simp

theorem digitsValue_append (ds es : List UInt8) :
    digitsValue (ds ++ es) = digitsValue ds * 10 ^ es.length + digitsValue es := by
  induction ds with
  | nil => simp [digitsValue]
  | cons c ds ih =>
    rw [List.cons_append, digitsValue_cons, digitsValue_cons, ih, List.length_append]
    ring

theorem digitsValue_lastDigits (k n : ℕ) : digitsValue (lastDigits k n) = n % 10 ^ k := by
  induction k with
  | zero => simp [lastDigits, digitsValue, Nat.mod_one]
  | succ k ih =>
    rw [lastDigits_succ, digitsValue_cons, ih, toNat_digit, length_lastDigits,
      Nat.add_sub_cancel_left, Nat.mod_pow_succ]
    ring

theorem digitsValue_natNumeral (n : ℕ) : digitsValue (natNumeral n) = n := by
  rw [natNumeral, digitsValue_lastDigits, Nat.mod_eq_of_lt (Nat.lt_pow_succ_log_self (by decide) n)]

theorem spells_natNumeral (n : ℕ) : Spells (natNumeral n) n := by
  have hne : natNumeral n ≠ [] := by simp [natNumeral, lastDigits_succ]
  have h := Spells.whole hne isDigit_of_mem_lastDigits
  rwa [digitsValue_natNumeral] at h

theorem spells_fixed (p m : ℕ) : Spells (fixed p m) (m / 10 ^ p) := by
  have hne : natNumeral (m / 10 ^ p) ≠ [] := by simp [natNumeral, lastDigits_succ]
  have h := Spells.point hne isDigit_of_mem_lastDigits
    (isDigit_of_mem_lastDigits (k := p) (n := m))
  rwa [digitsValue_append, digitsValue_natNumeral, digitsValue_lastDigits, length_lastDigits,
    Nat.div_add_mod'] at h

end EspBode
