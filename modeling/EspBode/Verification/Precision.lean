import Mathlib.Algebra.Order.Round
import EspBode.Verification.DriverNumbers
import EspBode.Verification.DriverRuns

/-!
# The value that is sent

`set` limits a number to the precision of its parameter by way of an unsigned integer: it multiplies
by a power of ten, adds one half, converts, and divides again. In exact arithmetic that gives a
nearest multiple of the unit as long as the number of units rounds to something that is not negative
(`sendsNearest_iff`). Below that, there is no defined result, or zero is sent.

`SendsNearest` says that a number is sent for the value that is a multiple of the unit, and at most
half a unit away, **on every platform** with exact arithmetic. A platform also decides what the
undefined conversion leaves, so this one quantifier makes an undefined result count as a failure.

* **Enough** (`sendsNearest_of_le`): adding one half and rounding down is rounding to the nearest,
  and the number of units is within the range of the conversion on both sides.
* **Necessary** (`le_of_sendsNearest`): on a platform that leaves zero for a negative number, zero
  is sent. The printer of that platform tells the one number `x` from all others, so the bytes alone
  say that `x` is zero; and zero is more than half a unit away from the value.

The numbers of the FY6900 have no exponent and no width in its table (`number_row`), so the value
that is limited is also the one that is printed.
-/

namespace EspBode.AwgFy

open Dialogue

/-- What the table of the FY6900 says about the numbers. -/
theorem number_row {paramId : ℕ} (hlo : Scpi.frequency ≤ paramId) (hhi : paramId ≤ Scpi.phase)
    {row : ParamTranslator} (hrow : pt6900[paramId]? = some row) :
    row.setType = .double ∧ row.setExponent = 0 ∧ row.setWidth = 0 ∧ 0 < row.setPrecision ∧
      row.setPrecision ≤ 6 := by
  interval_cases paramId <;> cases hrow <;> decide

theorem ne_wave {paramId : ℕ} (hlo : Scpi.frequency ≤ paramId) : paramId ≠ Scpi.wave :=
  (lt_of_lt_of_le (by decide) hlo).ne'

/-- The command for a number prints the limited value. -/
theorem commandFor_number (pf : Platform) (awg : AwgFy) (channel : UInt32) {paramId : ℕ}
    (hlo : Scpi.frequency ≤ paramId) (hhi : paramId ≤ Scpi.phase) {row : ParamTranslator}
    (hrow : pt6900[paramId]? = some row) (value : Double) :
    commandFor pf awg row channel paramId value = commandHead channel paramId ++
      pf.print (.float (limit pf row.setPrecision value) row.setPrecision) ++ ascii "\n" := by
  obtain ⟨htype, hexponent, hwidth, hpos, hle⟩ := number_row hlo hhi hrow
  obtain ⟨a, b, h0, hb64, -, hb, hlimit⟩ := exists_limit pf (hle.trans (by decide)) value
  -- the unit of the AWG is the unit of the value
  have hone : pf.arithmetic.mul (.finite b) (pf.pow10 0) = .finite b :=
    mul_pow10_zero pf (pf.arithmetic.mem_of_round hb) (by
      rw [abs_of_nonneg h0]
      exact hb64.trans_lt (by norm_num))
  have hprint : insertion pf .double 0 row.setPrecision (.finite b) =
      .float (.finite b) row.setPrecision := by
    rw [insertion, if_neg (by decide), if_pos hpos.ne']
  rw [commandFor, prepare, if_neg (ne_wave hlo), hexponent, hlimit]
  dsimp only
  rw [hone, htype, hwidth]
  show _ ++ pf.print (insertion pf .double 0 row.setPrecision (.finite b)) ++ _ = _
  rw [hprint]

/-- The number that is sent for the value is a multiple of the unit, and at most half a unit away.
It does not depend on anything that the language leaves undefined. -/
def SendsNearest (paramId precision : ℕ) (v : ℚ) : Prop :=
  ∃ x : ℚ, (∃ n : ℤ, x = n / 10 ^ precision) ∧ |x - v| ≤ 1 / 2 / 10 ^ precision ∧
    ∀ pf : Platform, pf.arithmetic = .exact → ∀ (retries channel : UInt32),
      Valid channel paramId → ∀ peer : Peer,
        commandHead channel paramId ++ pf.print (.float (.finite x) precision) ++ ascii "\n" <+:
          (converse peer (set pf (awgFy6900 retries) channel paramId (.finite v)) []).2

section Number

variable {paramId : ℕ} (hlo : Scpi.frequency ≤ paramId) (hhi : paramId ≤ Scpi.phase)
variable {row : ParamTranslator} (hrow : pt6900[paramId]? = some row)

include hlo hhi hrow

/-- The nearest multiple is sent, if it is not negative. -/
theorem sendsNearest_of_le {v : ℚ} (hlt : v * 10 ^ row.setPrecision + 1 / 2 < 2 ^ 64)
    (h : -(1 / 2) ≤ v * 10 ^ row.setPrecision) : SendsNearest paramId row.setPrecision v := by
  obtain ⟨-, -, -, -, hle⟩ := number_row hlo hhi hrow
  have hunit : (0 : ℚ) < 10 ^ row.setPrecision := by positivity
  refine ⟨⌊v * 10 ^ row.setPrecision + 1 / 2⌋ / 10 ^ row.setPrecision, ⟨_, rfl⟩, ?_, ?_⟩
  · rw [← round_eq, abs_sub_comm, le_div_iff₀ hunit, ← abs_of_pos hunit, ← abs_mul, sub_mul,
      abs_of_pos hunit, div_mul_cancel₀ _ hunit.ne']
    exact abs_sub_round _
  · intro pf hexact retries channel hvalid peer
    have hline := commandFor_number pf (awgFy6900 retries) channel hlo hhi hrow (.finite v)
    rw [limit_exact pf hexact (hle.trans (by decide)) (by linarith) hlt] at hline
    rw [← hline]
    have hentry : entry (awgFy6900 retries).pt paramId = .ok row := entry_of_getElem? hrow
    obtain ⟨ok, rest, hrun⟩ := exists_converse_set pf peer hvalid hentry (.finite v) []
    rw [hrun]
    exact List.prefix_append _ _

/-- Below that, what is sent is too large wherever the conversion leaves zero. -/
theorem le_of_sendsNearest {v : ℚ} (h : SendsNearest paramId row.setPrecision v) :
    -(1 / 2) ≤ v * 10 ^ row.setPrecision := by
  by_contra hlt
  obtain ⟨-, -, -, -, hle⟩ := number_row hlo hhi hrow
  have hunit : (0 : ℚ) < 10 ^ row.setPrecision := by positivity
  obtain ⟨x, -, hnear, hsends⟩ := h
  -- a platform that tells the number `x` from all others, and on which such a conversion leaves 0
  let pf : Platform := ⟨.exact, fun _ ↦ 0,
    fun i ↦ if i = .float (.finite x) row.setPrecision then ascii "1" else ascii "0",
    fun i ↦ by split_ifs <;> decide⟩
  have hzero : limit pf row.setPrecision (.finite v) = .finite 0 :=
    limit_of_neg pf rfl (fun _ ↦ rfl) (hle.trans (by decide)) (by linarith)
  have hvalid : Valid 1 paramId := ⟨by decide, hhi.trans_lt (by decide)⟩
  have hentry : entry (awgFy6900 0).pt paramId = .ok row := entry_of_getElem? hrow
  have hline := commandFor_number pf (awgFy6900 0) 1 hlo hhi hrow (.finite v)
  rw [hzero] at hline
  have hx : x = 0 := by
    by_contra hne
    have hone : pf.print (.float (.finite x) row.setPrecision) = ascii "1" := if_pos rfl
    have hother : pf.print (.float (.finite 0) row.setPrecision) = ascii "0" :=
      if_neg fun h ↦ hne (Double.finite.inj (Insertion.float.inj h).1).symm
    have hsent := hsends pf rfl 0 1 hvalid fun _ ↦ []
    obtain ⟨ok, rest, hrun⟩ := exists_converse_set pf (fun _ ↦ []) hvalid hentry (.finite v) []
    have hreal := List.prefix_append (commandHead 1 paramId ++ ascii "0" ++ ascii "\n") rest
    rw [hrun, hone, hline, hother] at hsent
    have heq := (List.prefix_of_prefix_length_le hsent hreal le_rfl).eq_of_length rfl
    rw [List.append_assoc, List.append_assoc] at heq
    exact absurd (List.append_cancel_left heq) (by decide)
  rw [hx, zero_sub, abs_neg, le_div_iff₀ hunit] at hnear
  have := neg_le_abs v
  nlinarith

end Number

/-- **The value sent is a nearest one exactly if it does not round to something negative.** -/
theorem sendsNearest_iff {paramId : ℕ} (hlo : Scpi.frequency ≤ paramId)
    (hhi : paramId ≤ Scpi.phase) {row : ParamTranslator} (hrow : pt6900[paramId]? = some row)
    {v : ℚ} (hv : |v| * 10 ^ row.setPrecision + 1 < 2 ^ 63) :
    SendsNearest paramId row.setPrecision v ↔ -(1 / 2) ≤ v * 10 ^ row.setPrecision := by
  have hunit : (0 : ℚ) < 10 ^ row.setPrecision := by positivity
  have hlt : v * 10 ^ row.setPrecision + 1 / 2 < 2 ^ 64 := by
    have hle := mul_le_mul_of_nonneg_right (le_abs_self v) hunit.le
    have hpow : (2 : ℚ) ^ 63 < 2 ^ 64 := by norm_num
    linarith
  exact ⟨le_of_sendsNearest hlo hhi hrow, sendsNearest_of_le hlo hhi hrow hlt⟩

theorem sendsNearest_iff_offset : SendsNearest Scpi.offset 3 (11 / 8) := by
  have hrow : pt6900[Scpi.offset]? = some ⟨.double, 0, 3, 0, .int, -3⟩ := rfl
  refine (sendsNearest_iff (by decide) (by decide) hrow ?_).2 ?_ <;> norm_num

/-- **A negative offset is lost.** Where the undefined conversion leaves 0, an offset of -1.375
volts is sent as 0. -/
theorem negative_offset_lost :
    ¬ SendsNearest Scpi.offset 3 (-11 / 8) ∧
      converse (fun _ ↦ []) (set (referencePlatform .exact) (awgFy6900 0) 1 Scpi.offset
        (.finite (-11 / 8))) [] = (.ok true, ascii "WMO0.000\n") := by
  have hrow : pt6900[Scpi.offset]? = some ⟨.double, 0, 3, 0, .int, -3⟩ := rfl
  refine ⟨fun h ↦ ?_, by decide +kernel⟩
  have hle := le_of_sendsNearest (by decide) (by decide) hrow h
  norm_num at hle

end EspBode.AwgFy
