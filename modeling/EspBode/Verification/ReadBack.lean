import EspBode.Foundations.DecimalRounding
import EspBode.Foundations.Runs
import EspBode.Verification.Precision

/-!
# Reading back what was set

An AWG that stores exactly the decimal it is sent, and a platform with binary64 arithmetic that
prints numbers exactly rounded. Which values does `set` verify?

The decimal that is sent stands for the double that `set` compares with (`exists_limit_printed`), so
a frequency, which is read back as a decimal, is always verified. The other parameters come back as
a count of units, which `get` multiplies with a rounded power of ten where `set` has divided by the
exact one. They are verified exactly for the counts for which the two agree (`set_verifies_iff`), of
which 7000 is none (`amplitude_not_verified`). Which counts these are is a matter of the last bit of
a product, so the condition is left as it is, a comparison of two results of the arithmetic.

The printer and the AWG are assumed to be right in what they are for, and nothing more is assumed:
`ExactPrint` is about the text of a number that is not negative, `FaithfulAwg` about the answer to a
query. Whatever else the two do, the theorem holds.

* **What is sent**: a limited value has so few digits that printing it with the precision of the
  parameter and reading the text gives the same double again.
* **What comes back** is the count of units, which is read as the nearest double, so there is one
  multiplication to be compared with one division (`eq_mul_pow10_iff`).

The count for a value that is the double of a decimal is the count of that decimal
(`limit_of_decimal`), so the condition can be read off the number that a user has entered.
-/

namespace EspBode

/-! ### The platform and the AWG -/

/-- Print renders a number that is not negative exactly rounded. -/
structure ExactPrint (pf : Platform) where
  /-- The number of units that are printed. -/
  count : ℕ → Double → ℕ
  nearest : ∀ {p x}, 0 ≤ x → NearestCount p x (count p (.finite x))
  spells : ∀ {p x}, 0 ≤ x →
    Spells (pf.print (.float (.finite x) p)) (count p (.finite x) / 10 ^ p)

/-- Printing numbers in full is exactly rounded. -/
def referencePrint (arithmetic : Rounding) : ExactPrint (referencePlatform arithmetic) where
  count p
    | .finite x => (roundHalfEven (|x| * 10 ^ p)).toNat
    | _ => 0
  nearest {p x} hx k := by
    have hscaled : 0 ≤ x * 10 ^ p := by positivity
    have hnonneg := roundHalfEven_nonneg hscaled
    dsimp only
    rw [abs_of_nonneg hx, ← Int.cast_natCast (R := ℚ) (Int.toNat _), Int.toNat_of_nonneg hnonneg]
    exact abs_sub_roundHalfEven_le_abs_sub _ k
  spells {p x} hx := by
    have hsign : decide (x < 0) = false := decide_eq_false hx.not_gt
    show Spells (signed (decide (x < 0)) _) _
    rw [hsign]
    exact spells_fixed _ _

namespace AwgFy

open Dialogue

/-- An AWG that stores exactly the number it is sent for a parameter, and answers in the units that
the table describes. -/
structure FaithfulAwg (channel : UInt32) (paramId : ℕ) (row : ParamTranslator) where
  peer : Peer
  /-- The answer for a number that is stored, without its newline. -/
  reply : ℚ → List UInt8
  reply_spells : ∀ m : ℕ, Spells (reply (m / 10 ^ row.setPrecision))
    (m / 10 ^ row.setPrecision / 10 ^ row.getExponent)
  peer_eq : ∀ {past text d}, unfinished (chr '\n') past = [] → Spells text d →
    peer (past ++ (commandHead channel paramId ++ text ++ ascii "\n") ++ query channel paramId) =
      reply d ++ ascii "\n"

variable (pf : Platform)

/-- `set` sends one write command and returns `true`, and the value that it rounds to and the value
that `get` reads back then compare equal. -/
def Verifies (awg : AwgFy) (channel : UInt32) (paramId precision : ℕ) (peer : Peer)
    (past : List UInt8) (value : Double) : Prop :=
  let rounded := limit pf precision value
  let sent := past ++
    (commandHead channel paramId ++ pf.print (.float rounded precision) ++ ascii "\n")
  (∃ rest, (rest = [] ∨ rest = query channel paramId) ∧
    converse peer (set pf awg channel paramId value) past = (.ok true, sent ++ rest)) ∧
  ∃ g, converse peer (get pf awg channel paramId) sent =
    (.ok g, sent ++ query channel paramId) ∧ rounded.eq g

/-- Multiplying a count with the rounded power of ten gives the same double as dividing it by the
exact one. -/
def MultipliesExactly (precision m : ℕ) : Prop :=
  Rounding.binary64.mul (.ofRat m) (.ofRat (1 / 10 ^ precision)) = .ofRat (m / 10 ^ precision)

/-! ### What is read back -/

/-- A response that is a numeral. -/
theorem interpret_numeral {row : ParamTranslator} (htype : row.getType ≠ .bool) {t : List UInt8}
    {q : ℚ} (ht : Spells t q) (hfits : t.length < awgResponseLength) :
    interpret pf row (reading (chr '\n') awgResponseLength (t ++ ascii "\n")) =
      pf.arithmetic.mul (.ofRat q) (pf.pow10 row.getExponent) := by
  have hline : reading (chr '\n') awgResponseLength (t ++ ascii "\n") = t :=
    reading_line (not_mem_of_spells ht (by decide) (by decide)) hfits.le
  have hnul : t.takeWhile (· != 0) = t :=
    List.takeWhile_eq_self_iff.2 (bne_of_not_mem (not_mem_of_spells ht (by decide) (by decide)))
  rw [interpret, hline, hnul, sscanfLf_of_spells ht, if_neg htype, Option.getD_some]

/-- What the table of the FY6900 says about reading numbers. -/
theorem number_row_get {paramId : ℕ} (hlo : Scpi.frequency ≤ paramId) (hhi : paramId ≤ Scpi.phase)
    {row : ParamTranslator} (hrow : pt6900[paramId]? = some row) :
    row.getType ≠ .bool ∧ row.getExponent =
      if paramId = Scpi.frequency then 0 else -(row.setPrecision : ℤ) := by
  interval_cases paramId <;> cases hrow <;> decide

/-- The limited value is a double that the printed decimal stands for. -/
theorem exists_limit_printed (harithmetic : pf.arithmetic = .binary64) (print : ExactPrint pf)
    {precision : ℕ} (h0 : 0 < precision) (hp : precision ≤ 9) (value : Double) :
    ∃ b, 0 ≤ b ∧ |b| < 2 ^ 200 ∧ b ∈ binary64Values ∧ limit pf precision value = .finite b ∧
      Double.ofRat (print.count precision (.finite b) / 10 ^ precision) = .finite b := by
  obtain ⟨a, b, hb0, hb64, ha, hb, hlimit⟩ := exists_limit pf hp value
  have hunits : units pf precision value < 2 ^ 64 := pf.toUnsigned_lt 64 _
  obtain ⟨a', ha0, ha64, ha'⟩ := pf.exists_round (Nat.cast_nonneg (units pf precision value))
    (by exact_mod_cast hunits.le)
  obtain rfl : a' = a := Double.finite.inj (ha'.symm.trans ha)
  rw [harithmetic] at ha' hb
  obtain ⟨k, rfl⟩ := exists_int_of_ofRat ha'
  have hlt : |b| < 2 ^ 200 := by
    rw [abs_of_nonneg hb0]
    exact hb64.trans_lt (by norm_num)
  have hmem : b ∈ binary64Values := Rounding.binary64.mem_of_round hb
  exact ⟨b, hb0, hlt, hmem, hlimit, ofRat_displayed h0 hp (by exact_mod_cast ha0) ha64 hb
    (print.nearest hb0)⟩

/-- **A decimal of at most 50 bits is what it is limited to**, and printed as: the count of units of
its double is its own. -/
theorem limit_of_decimal (harithmetic : pf.arithmetic = .binary64) (print : ExactPrint pf)
    {precision k : ℕ} (hp : precision ≤ 9) (hk : k ≤ 2 ^ 50) {v : ℚ}
    (hv : Double.ofRat (k / 10 ^ precision) = .finite v) :
    limit pf precision (.finite v) = .finite v ∧ print.count precision (.finite v) = k := by
  have hnear := abs_ofRat_decimal_sub_le hp hk hv
  have hunits := units_of_near pf hp hk hnear
  have hv0 : 0 ≤ v := Rounding.binary64.round_nonneg (by positivity) hv
  refine ⟨?_, (print.nearest hv0).eq_of_near hnear⟩
  show pf.arithmetic.div (pf.ofUnsigned (units pf precision (.finite v))) (pf.pow10 precision) = _
  rw [hunits, Platform.ofUnsigned, pf.arithmetic.round_natCast (hk.trans (by norm_num)),
    pf.pow10_natCast hp, pf.arithmetic.div_finite _ (by positivity), harithmetic]
  exact hv

/-- **The number that is read back** is compared equal exactly for a frequency, or if multiplying
gives what dividing gives. -/
theorem eq_mul_pow10_iff (harithmetic : pf.arithmetic = .binary64) {paramId : ℕ}
    {row : ParamTranslator} (h0 : 0 < row.setPrecision) (hp : row.setPrecision ≤ 9)
    (hexponent : row.getExponent =
      if paramId = Scpi.frequency then 0 else -(row.setPrecision : ℤ)) {b : ℚ} {m : ℕ}
    (hmem : b ∈ binary64Values) (hlt : |b| < 2 ^ 200)
    (hb : Double.ofRat (m / 10 ^ row.setPrecision) = .finite b) :
    (Double.finite b).eq (pf.arithmetic.mul
        (.ofRat (m / 10 ^ row.setPrecision / 10 ^ row.getExponent)) (pf.pow10 row.getExponent)) ↔
      paramId = Scpi.frequency ∨ MultipliesExactly row.setPrecision m := by
  have hten : (10 : ℚ) ^ row.setPrecision ≠ 0 := by positivity
  rw [hexponent]
  split_ifs with hfrequency
  · rw [zpow_zero, div_one, hb, mul_pow10_zero pf (harithmetic ▸ hmem) hlt, Double.finite_eq_iff]
    exact ⟨fun _ ↦ .inl hfrequency, fun _ ↦ rfl⟩
  · rw [zpow_neg, zpow_natCast, div_inv_eq_mul, div_mul_cancel₀ _ hten, pf.pow10_neg h0 hp,
      harithmetic, MultipliesExactly, hb, Double.finite_eq_iff]
    exact ⟨.inr, fun h ↦ h.resolve_left hfrequency⟩

/-- The decimal is stored, and its answer is read. -/
theorem readBack_faithful (print : ExactPrint pf) {channel : UInt32} {paramId : ℕ}
    {row : ParamTranslator} (htype : row.getType ≠ .bool) (awg : FaithfulAwg channel paramId row)
    {past : List UInt8} (hpast : unfinished (chr '\n') past = []) {b : ℚ} (hb : 0 ≤ b)
    (hfits : (awg.reply (print.count row.setPrecision (.finite b) /
      10 ^ row.setPrecision)).length < awgResponseLength) :
    readBack pf row awg.peer (past ++ (commandHead channel paramId ++
        pf.print (.float (.finite b) row.setPrecision) ++ ascii "\n") ++ query channel paramId) =
      pf.arithmetic.mul (.ofRat (print.count row.setPrecision (.finite b) /
        10 ^ row.setPrecision / 10 ^ row.getExponent)) (pf.pow10 row.getExponent) := by
  rw [readBack, awg.peer_eq hpast (print.spells hb)]
  exact interpret_numeral pf htype (awg.reply_spells _) hfits

/-- **A faithful AWG verifies a value exactly if** it is a frequency, or multiplying the count of
its units gives what dividing gives. -/
theorem set_verifies_iff (harithmetic : pf.arithmetic = .binary64) (print : ExactPrint pf)
    {channel : UInt32} (hchannel : channel = 1 ∨ channel = 2) {paramId : ℕ}
    (hlo : Scpi.frequency ≤ paramId) (hhi : paramId ≤ Scpi.phase) {row : ParamTranslator}
    (hrow : pt6900[paramId]? = some row) (retries : UInt32) (awg : FaithfulAwg channel paramId row)
    {past : List UInt8} (hpast : unfinished (chr '\n') past = []) (value : Double)
    (hfits : (awg.reply (print.count row.setPrecision (limit pf row.setPrecision value) /
      10 ^ row.setPrecision)).length + 1 ≤ awgResponseLength) :
    Verifies pf (awgFy6900 retries) channel paramId row.setPrecision awg.peer past value ↔
      paramId = Scpi.frequency ∨ MultipliesExactly row.setPrecision
        (print.count row.setPrecision (limit pf row.setPrecision value)) := by
  obtain ⟨-, -, -, h0, hsix⟩ := number_row hlo hhi hrow
  obtain ⟨htype, hexponent⟩ := number_row_get hlo hhi hrow
  have hp : row.setPrecision ≤ 9 := hsix.trans (by decide)
  have hvalid : Valid channel paramId := by
    refine ⟨?_, hhi.trans_lt (by decide)⟩
    rcases hchannel with rfl | rfl <;> decide
  have hentry : entry (awgFy6900 retries).pt paramId = .ok row := entry_of_getElem? hrow
  have hline := commandFor_number pf (awgFy6900 retries) channel hlo hhi hrow value
  have hcompared : comparedValue pf row paramId value = limit pf row.setPrecision value :=
    if_neg (ne_wave hlo)
  obtain ⟨b, hb0, hlt, hmem, hlimit, hprinted⟩ :=
    exists_limit_printed pf harithmetic print h0 hp value
  rw [hlimit] at hfits hline hcompared ⊢
  rw [Verifies, hlimit]
  set command := commandHead channel paramId ++ pf.print (.float (.finite b) row.setPrecision) ++
    ascii "\n" with hcommand
  have hiff := eq_mul_pow10_iff pf harithmetic h0 hp hexponent hmem hlt hprinted
  rw [← readBack_faithful pf print htype awg hpast hb0 hfits, ← hcommand] at hiff
  have hget := converse_get pf awg.peer hvalid hentry (past ++ command)
  rw [← hiff]
  refine ⟨?_, fun heq ↦ ⟨?_, _, hget, heq⟩⟩
  · rintro ⟨-, g, hrun, heq⟩
    rw [hget] at hrun
    obtain rfl := Except.ok.inj (Prod.mk.inj hrun).1
    exact heq
  · rcases lt_or_ge 0 (awgFy6900 retries).retries with hpos | hle
    · rw [← hline, ← hcompared] at heq
      have hrun := converse_set_verified pf awg.peer hvalid hentry hpos heq
      rw [hline] at hrun
      exact ⟨query channel paramId, .inr rfl, hrun⟩
    · have hrun := converse_set_unvalidated pf awg.peer hvalid hentry hle value past
      rw [hline] at hrun
      exact ⟨[], .inl rfl, by rw [List.append_nil, hrun]⟩

/-! ### An AWG -/

/-- The answer for a number that is stored. -/
def storedReply (row : ParamTranslator) (d : ℚ) : List UInt8 :=
  let m := ⌊d * 10 ^ row.setPrecision⌋.toNat
  if row.getExponent = 0 then fixed row.setPrecision m else natNumeral m

/-- An AWG that reads the last command line that was sent. -/
def referenceAwg (channel : UInt32) (paramId : ℕ) (row : ParamTranslator)
    (h : row.getExponent = if paramId = Scpi.frequency then 0 else -(row.setPrecision : ℤ)) :
    FaithfulAwg channel paramId row where
  peer sent :=
    let line := unfinished (chr '\n') (sent.take (sent.length - 6))
    storedReply row (numeralValue (line.drop 3)) ++ ascii "\n"
  reply := storedReply row
  reply_spells m := by
    have hten : (10 : ℚ) ^ row.setPrecision ≠ 0 := by positivity
    rw [storedReply, div_mul_cancel₀ _ hten, Int.floor_natCast, Int.toNat_natCast]
    split_ifs with hzero
    · rw [hzero, zpow_zero, div_one]
      exact spells_fixed _ m
    · rw [h] at hzero ⊢
      rw [if_neg fun hfrequency ↦ hzero (if_pos hfrequency), zpow_neg, zpow_natCast,
        div_inv_eq_mul, div_mul_cancel₀ _ hten]
      exact spells_natNumeral m
  peer_eq {past text d} hpast htext := by
    have hnl : chr '\n' ∉ commandHead channel paramId ++ text := fun hmem ↦
      (List.mem_append.1 hmem).elim (newline_not_mem_letters (chr 'W') (by decide) _ _)
        (not_mem_of_spells htext (by decide) (by decide))
    have hsent : past ++ (commandHead channel paramId ++ text ++ ascii "\n") ++
        query channel paramId = past ++ (commandHead channel paramId ++ text) ++
          (chr '\n' :: query channel paramId) := by
      simp [ascii]
    have hlength : (chr '\n' :: query channel paramId).length = 6 := rfl
    dsimp only
    rw [hsent, List.length_append, hlength, Nat.add_sub_cancel, List.take_left,
      (completed_append _ _ _).2, hpast, List.nil_append, unfinished_of_not_mem hnl]
    have hdrop : (commandHead channel paramId ++ text).drop 3 = text := rfl
    rw [hdrop, numeralValue_of_spells htext]

theorem set_verifies_iff_frequency :
    Verifies (referencePlatform .binary64) (awgFy6900 1) 1 Scpi.frequency 6
      (referenceAwg 1 Scpi.frequency ⟨.double, 0, 6, 0, .double, 0⟩ rfl).peer []
      (.ofRat (9999 / 10)) :=
  (set_verifies_iff (referencePlatform .binary64) rfl (referencePrint .binary64) (.inl rfl)
    (by decide) (by decide) rfl 1
    (referenceAwg 1 Scpi.frequency ⟨.double, 0, 6, 0, .double, 0⟩ rfl) rfl (.ofRat (9999 / 10))
    (by decide +kernel)).2 (.inl rfl)

/-- **An amplitude of 0.7 volts is not verified**: 7000 units come back as another double, and the
command is sent again. -/
theorem amplitude_not_verified :
    let awg := referenceAwg 1 Scpi.amplitude ⟨.double, 0, 4, 0, .int, -4⟩ rfl
    (awg.reply (7000 / 10 ^ 4)).length + 1 ≤ awgResponseLength ∧
      ¬ Verifies (referencePlatform .binary64) (awgFy6900 1) 1 Scpi.amplitude 4 awg.peer []
        (.ofRat (7 / 10)) ∧
      converse awg.peer (set (referencePlatform .binary64) (awgFy6900 1) 1 Scpi.amplitude
        (.ofRat (7 / 10))) [] = (.ok false, rounds (ascii "WMA0.7000\nRMA\n\n") 2) := by
  intro awg
  have hrun : converse awg.peer (set (referencePlatform .binary64) (awgFy6900 1) 1 Scpi.amplitude
      (.ofRat (7 / 10))) [] = (.ok false, rounds (ascii "WMA0.7000\nRMA\n\n") 2) := by
    decide +kernel
  refine ⟨by decide +kernel, ?_, hrun⟩
  rintro ⟨⟨rest, -, htrue⟩, -⟩
  rw [hrun] at htrue
  exact absurd (Except.ok.inj (Prod.mk.inj htrue).1) Bool.false_ne_true

end AwgFy

end EspBode
