import EspBode.Foundations.Binary64
import EspBode.Verification.DriverNumbers
import EspBode.Verification.Retries

/-!
# Unreadable answers

A response in which there is no number leaves `get` with the value it starts from. For a parameter
that is a number the result is negative, and no setting is verified by it. For the output of a
channel it is 1, as for every value but 0: so turning an output on is always verified, whatever the
AWG answers.

`unreadable_refused_iff` is exact for values that are not negative: the setting is refused after all
retries, and every pass was sent, unless it turns an output on. Three facts lead to it.

* **What is read back** is the starting value, scaled by a power of ten that is at most one
  (`interpret_unreadable`). Scaling keeps the sign, whatever the rounding, so it is a negative
  number, and different from every one that is not.
* **What it is compared with** is a limited value, which is never negative, or, for a wave form, the
  value itself.
* **For an output** the comparison is with 1, since the value read back is made a truth value. The
  limited value is 1 exactly if the value rounds to it (`limit_zero_eq_one_iff`), which in exact
  arithmetic is the interval from one half up to one and a half (`roundsToOne_iff`).

The outcome is the same in every pass, as it does not depend on what was sent before; so the loop
ends in the first pass or has used up all of them (`lastPass_const`).
-/

namespace EspBode

/-- The double is not negative. -/
def Double.NonNeg : Double → Prop
  | .finite x => 0 ≤ x
  | .infinite negative => negative = false
  | .nan => False

/-- A number that is not negative is not a negative number. -/
theorem Double.NonNeg.eq_neg {x : Double} (h : x.NonNeg) {c : ℚ} (hc : c < 0) :
    x.eq (.finite c) = false := by
  rcases x with x | _ | _
  · rw [eq_finite, decide_eq_false_iff_not]
    exact (hc.trans_le h).ne'
  · rfl
  · rfl

/-- If every pass gives the same, it is the first pass or the last one. -/
theorem Dialogue.lastPass_const (b : Bool) (retries : ℕ) :
    lastPass (fun _ ↦ b) retries = if b then 0 else retries := by
  induction retries with
  | zero => rw [lastPass, ite_self]
  | succ retries ih =>
    rw [lastPass, ih]
    rcases b with _ | _ <;> rfl

namespace AwgFy

open Dialogue

variable (pf : Platform)

/-- The value is one unit when it is rounded to an integer. -/
def RoundsToOne (value : Double) : Prop :=
  pf.toUnsigned 64 (pf.arithmetic.add (pf.arithmetic.mul value (.finite 1)) (.finite (1 / 2))) = 1

/-- In exact arithmetic, these are the values from one half up to one and a half. -/
theorem roundsToOne_iff (h : pf.arithmetic = .exact) {v : ℚ} (h0 : 0 ≤ v) (hlt : v < 2 ^ 63) :
    RoundsToOne pf (.finite v) ↔ 1 / 2 ≤ v ∧ v < 3 / 2 := by
  have hsum : pf.arithmetic.add (pf.arithmetic.mul (.finite v) (.finite 1)) (.finite (1 / 2)) =
      .finite (v + 1 / 2) := by
    rw [h, Rounding.mul_finite, mul_one]
    rfl
  have hfit : v + 1 / 2 < 2 ^ 64 := by
    have : (2 : ℚ) ^ 63 + 1 / 2 < 2 ^ 64 := by norm_num
    linarith
  have hfloor : ⌊v + 1 / 2⌋.toNat = 1 ↔ ⌊v + 1 / 2⌋ = 1 := by omega
  rw [RoundsToOne, hsum, pf.toUnsigned_of_mem (by positivity) hfit, hfloor, Int.floor_eq_iff]
  constructor
  · rintro ⟨hl, hu⟩
    push_cast at hl hu
    constructor <;> linarith
  · rintro ⟨hl, hu⟩
    push_cast
    constructor <;> linarith

/-- A value without decimals is 1 exactly if it rounds to it. -/
theorem limit_zero_eq_one_iff (value : Double) :
    (limit pf 0 value).eq (.finite 1) = true ↔ RoundsToOne pf value := by
  obtain ⟨a, b, -, -, ha, hb, hlimit⟩ := exists_limit pf (Nat.zero_le 9) value
  have hone : pf.pow10 (0 : ℕ) = .finite 1 := pf.pow10_natCast (n := 0) (by decide)
  rw [pow_zero, div_one] at hb
  rw [hlimit, Double.eq_finite, decide_eq_true_iff]
  show b = 1 ↔ pf.toUnsigned 64
    (pf.arithmetic.add (pf.arithmetic.mul value (.finite 1)) (.finite (1 / 2))) = 1
  rw [← hone]
  show b = 1 ↔ units pf 0 value = 1
  have hkept : units pf 0 value ≤ 2 ^ 53 → b = units pf 0 value := by
    intro hle
    have hround := pf.arithmetic.round_natCast hle
    rw [Platform.ofUnsigned, hround] at ha
    obtain rfl := Double.finite.inj ha
    exact Double.finite.inj (hb.symm.trans hround)
  rcases Nat.lt_or_ge 1 (units pf 0 value) with hgt | hle
  · -- two units or more stay two or more
    have htwo : ((2 : ℕ) : ℚ) ≤ b := by
      have hunits : ((2 : ℕ) : ℚ) ≤ (units pf 0 value : ℕ) := by exact_mod_cast hgt
      exact pf.arithmetic.natCast_le_of_round (by decide)
        (pf.arithmetic.natCast_le_of_round (by decide) hunits ha) hb
    have hb1 : b ≠ 1 := by
      rintro rfl
      norm_num at htwo
    exact iff_of_false hb1 hgt.ne'
  · rw [hkept (hle.trans (by decide))]
    exact Nat.cast_eq_one

/-- What the table of the FY6900 says about a parameter. -/
theorem exists_row {paramId : ℕ} (h : paramId < Scpi.parameterCount) :
    ∃ row, pt6900[paramId]? = some row ∧ row.setPrecision ≤ 9 ∧
      (row.getExponent ≤ 0 ∧ row.getExponent.natAbs ≤ 9) ∧
      (row.getType = .bool ↔ paramId = Scpi.outputOff ∨ paramId = Scpi.outputOn) ∧
      (row.getType = .bool → row.setPrecision = 0) := by
  interval_cases paramId <;> exact ⟨_, rfl, by decide⟩

/-- No response of the AWG starts with a number. -/
def Unreadable (peer : Peer) : Prop :=
  ∀ sent, sscanfLf ((reading (chr '\n') awgResponseLength (peer sent)).takeWhile (· != 0)) = none

/-- **What an unreadable response verifies**: only that an output is turned on. -/
theorem eq_readBack_iff {channel : UInt32} {paramId : ℕ} {row : ParamTranslator}
    (h : Valid channel paramId) (hrow : pt6900[paramId]? = some row) {value : Double}
    (hvalue : value.NonNeg) {peer : Peer} (hpeer : Unreadable peer) (sent : List UInt8) :
    (comparedValue pf row paramId value).eq (readBack pf row peer sent) = true ↔
      (paramId = Scpi.outputOff ∨ paramId = Scpi.outputOn) ∧ RoundsToOne pf value := by
  obtain ⟨row', hrow', hprecision, ⟨hexp, hexp9⟩, htype, hzero⟩ := exists_row h.paramId_lt
  obtain rfl := Option.some.inj (hrow.symm.trans hrow')
  have hexponent : row.getExponent = -(row.getExponent.natAbs : ℤ) := by omega
  obtain ⟨c, hneg, hread⟩ := interpret_unreadable pf hexp9 hexponent (hpeer sent)
  rw [readBack, hread]
  rcases eq_or_ne row.getType .bool with hbool | hbool
  · have houtput := htype.1 hbool
    have hwave : paramId ≠ Scpi.wave := by
      rcases houtput with rfl | rfl <;> decide
    rw [comparedValue, if_neg hwave, if_pos hbool, hzero hbool, limit_zero_eq_one_iff]
    exact (and_iff_right houtput).symm
  · rw [if_neg hbool]
    refine iff_of_false ?_ fun hcond ↦ hbool (htype.2 hcond.1)
    have hnonneg : (comparedValue pf row paramId value).NonNeg := by
      rw [comparedValue]
      split_ifs
      · exact hvalue
      · obtain ⟨a, b, hb, -, -, -, hlimit⟩ := exists_limit pf hprecision value
        rw [hlimit]
        exact hb
    rw [hnonneg.eq_neg hneg]
    exact Bool.false_ne_true

/-- **An unreadable answer verifies no setting, except that an output is turned on.** -/
theorem unreadable_refused_iff {retries : UInt32} (hpos : 1 ≤ retries.toNat)
    (hlt : retries.toNat < 2 ^ 31) {channel : UInt32} {paramId : ℕ} {row : ParamTranslator}
    (h : Valid channel paramId) (hrow : pt6900[paramId]? = some row) {value : Double}
    (hvalue : value.NonNeg) {peer : Peer} (hpeer : Unreadable peer) (sent : List UInt8) :
    converse peer (set pf (awgFy6900 retries) channel paramId value) sent =
        (.ok false, sent ++ rounds (commandFor pf (awgFy6900 retries) row channel paramId value ++
          query channel paramId) (retries.toNat + 1)) ↔
      ¬ ((paramId = Scpi.outputOff ∨ paramId = Scpi.outputOn) ∧ RoundsToOne pf value) := by
  have hr : (awgFy6900 retries).retries = retries.toNat := retries_eq hlt
  have hentry : entry (awgFy6900 retries).pt paramId = .ok row := entry_of_getElem? hrow
  have hrun := converse_set pf peer h hentry (by omega) value sent
  rw [← eq_readBack_iff pf h hrow hvalue hpeer sent]
  -- all passes are like the first one
  have hall : ∀ sent', (comparedValue pf row paramId value).eq (readBack pf row peer sent') =
      (comparedValue pf row paramId value).eq (readBack pf row peer sent) := fun sent' ↦
    Bool.eq_iff_iff.2 ((eq_readBack_iff pf h hrow hvalue hpeer sent').trans
      (eq_readBack_iff pf h hrow hvalue hpeer sent).symm)
  simp only [hall, lastPass_const, hr, Int.toNat_natCast] at hrun
  rw [hrun]
  rcases (comparedValue pf row paramId value).eq (readBack pf row peer sent) with _ | _
  · simp
  · simp

/-- An answer without a number. -/
theorem unreadable_question : Unreadable fun _ ↦ ascii "?\n" := by
  intro _
  show sscanfLf ((reading (chr '\n') awgResponseLength (ascii "?\n")).takeWhile (· != 0)) = none
  decide +kernel

theorem unreadable_refused_iff_frequency :
    converse (fun _ ↦ ascii "?\n")
        (set (referencePlatform .binary64) (awgFy6900 2) 1 Scpi.frequency (.finite 1000)) [] =
      (.ok false, rounds (ascii "WMF1000.000000\nRMF\n\n") 3) := by
  have hvalid : Valid 1 Scpi.frequency := ⟨by decide, by decide⟩
  have hrow : pt6900[Scpi.frequency]? = some ⟨.double, 0, 6, 0, .double, 0⟩ := rfl
  have hnonneg : (Double.finite 1000).NonNeg := by
    show (0 : ℚ) ≤ 1000
    norm_num
  have hrun := (@unreadable_refused_iff (referencePlatform .binary64) 2 (by decide) (by decide)
    _ _ _ hvalid hrow _ hnonneg _ unreadable_question []).2 fun h ↦ absurd h.1 (by decide)
  have hround : commandFor (referencePlatform .binary64) (awgFy6900 2)
      ⟨.double, 0, 6, 0, .double, 0⟩ 1 Scpi.frequency (.finite 1000) ++ query 1 Scpi.frequency =
        ascii "WMF1000.000000\nRMF\n\n" := by
    decide +kernel
  rwa [hround] at hrun

/-- **An unreadable answer verifies that an output is turned on.** -/
theorem unreadable_turns_on :
    Unreadable (fun _ ↦ ascii "?\n") ∧
      converse (fun _ ↦ ascii "?\n")
          (set (referencePlatform .binary64) (awgFy6900 2) 1 Scpi.outputOn (.finite 1)) [] =
        (.ok true, ascii "WMN1\nRMN\n\n") :=
  ⟨unreadable_question, by decide +kernel⟩

end AwgFy

end EspBode
