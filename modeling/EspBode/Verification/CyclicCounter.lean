import Mathlib.Data.Int.ModEq
import EspBode.Firmware.Utilities

/-!
# The cyclic counter is a cycle

However a counter is made, its value is in its range, and the operators move it round the range: the
distance of the value from the start is counted modulo the length of the range
(`position_apply`, and for sequences of operators `position_run`).

**The positions are integers.** The words of the counter have 32 bits, and a range of all words has
`2 ^ 32` values, which is no word; and a step back from the start is a position of -1 before it is
taken modulo the length. With integers neither is an exception, and the shift of a sequence is the
number of its increments less that of its decrements.

All else follows from the closed form:

* operators of opposite directions undo each other, since a counter is its range and its position
  there (`SameRange.eq_of_position_eq`);
* a sequence that moves the counter by a multiple of the length leads back (`run_eq_self`), of which
  a full round is the first case;
* as many increments as there are values visit each of them once (`existsUnique_visit`).

`cyclesIn_run` puts them together for a counter made from any two ends and any value, and for any
sequence of the four operators, mixed. The value that an operator returns is that of the counter
before or behind the step, as the operator is written in front of it or behind.
-/

namespace EspBode

namespace CyclicUInt32

/-! ### Sequences of operators -/

/-- The operators that move the counter. -/
inductive Operator
  | preIncrement
  | postIncrement
  | preDecrement
  | postDecrement
  deriving DecidableEq, Repr

namespace Operator

/-- The value that the operator returns, and the counter then. -/
def apply : Operator → CyclicUInt32 → UInt32 × CyclicUInt32
  | .preIncrement => CyclicUInt32.preIncrement
  | .postIncrement => CyclicUInt32.postIncrement
  | .preDecrement => CyclicUInt32.preDecrement
  | .postDecrement => CyclicUInt32.postDecrement

/-- The operator moves the counter forward. -/
def isIncrement : Operator → Bool
  | .preIncrement | .postIncrement => true
  | .preDecrement | .postDecrement => false

/-- The operator is written in front of the counter. -/
def isPre : Operator → Bool
  | .preIncrement | .preDecrement => true
  | .postIncrement | .postDecrement => false

/-- How far the operator moves the counter. -/
def shift (op : Operator) : ℤ :=
  if op.isIncrement then 1 else -1

end Operator

/-- The counter after a sequence of operators. -/
def run (ops : List Operator) (c : CyclicUInt32) : CyclicUInt32 :=
  ops.foldl (fun c op ↦ (op.apply c).2) c

/-- The number of increments in a sequence. -/
def increments (ops : List Operator) : ℕ :=
  ops.countP (·.isIncrement)

/-- The number of decrements in a sequence. -/
def decrements (ops : List Operator) : ℕ :=
  ops.countP (!·.isIncrement)

/-- How far a sequence moves the counter. -/
def shift (ops : List Operator) : ℤ :=
  increments ops - decrements ops

theorem shift_cons (op : Operator) (ops : List Operator) :
    shift (op :: ops) = op.shift + shift ops := by
  rw [shift, shift, Operator.shift, increments, decrements, increments, decrements,
    List.countP_cons, List.countP_cons]
  rcases op.isIncrement with _ | _
  · simp
    omega
  · simp
    omega

/-- Increments move the counter once each. -/
theorem shift_of_forall {ops : List Operator} (h : ∀ op ∈ ops, op.isIncrement) :
    shift ops = ops.length := by
  have hincrements : increments ops = ops.length := List.countP_eq_length.2 h
  have hdecrements : decrements ops = 0 := List.countP_eq_zero.2 fun op hop ↦ by simp [h op hop]
  rw [shift, hincrements, hdecrements, Nat.cast_zero, sub_zero]

/-! ### Positions -/

/-- The distance of the value from the start of the range. -/
def position (c : CyclicUInt32) : ℤ :=
  c.mData.toNat - c.mStart.toNat

/-- The number of values in the range. -/
def period (c : CyclicUInt32) : ℤ :=
  c.mEnd.toNat - c.mStart.toNat + 1

theorem InRange.position_nonneg {c : CyclicUInt32} (h : c.InRange) : 0 ≤ c.position := by
  have := h.start_le
  rw [position]
  omega

theorem InRange.position_lt {c : CyclicUInt32} (h : c.InRange) : c.position < c.period := by
  have := h.le_end
  rw [position, period]
  omega

/-- The counters have the same range. -/
structure SameRange (c d : CyclicUInt32) : Prop where
  mStart : c.mStart = d.mStart
  mEnd : c.mEnd = d.mEnd

theorem SameRange.period_eq {c d : CyclicUInt32} (h : SameRange c d) : c.period = d.period := by
  rw [period, period, h.mStart, h.mEnd]

/-- A counter is its range and its position there. -/
theorem SameRange.eq_of_position_eq {c d : CyclicUInt32} (h : SameRange c d)
    (hposition : c.position = d.position) : c = d := by
  obtain ⟨cData, cStart, cEnd⟩ := c
  obtain ⟨dData, dStart, dEnd⟩ := d
  obtain rfl : cStart = dStart := h.mStart
  obtain rfl : cEnd = dEnd := h.mEnd
  rw [position, position] at hposition
  dsimp only at hposition
  obtain rfl : cData = dData := UInt32.toNat_inj.1 (by omega)
  rfl

/-! ### One step -/

theorem eq_emod_of_dvd {x y n : ℤ} (hx : 0 ≤ x) (hlt : x < n) (hdvd : n ∣ y - x) : x = y % n :=
  (Int.emod_eq_of_lt hx hlt).symm.trans (Int.modEq_iff_dvd.2 hdvd)

theorem position_gotoNext {c : CyclicUInt32} (h : c.InRange) :
    c.gotoNext.position = (c.position + 1) % c.period := by
  refine eq_emod_of_dvd h.gotoNext.position_nonneg h.gotoNext.position_lt ?_
  have hdata := toNat_gotoNext h
  have hstart : c.gotoNext.mStart = c.mStart := rfl
  rw [position, position, hdata, hstart]
  split_ifs with heq
  · -- from the end to the start
    refine dvd_of_eq ?_
    rw [period]
    omega
  · refine ⟨0, ?_⟩
    omega

theorem position_gotoPrev {c : CyclicUInt32} (h : c.InRange) :
    c.gotoPrev.position = (c.position - 1) % c.period := by
  refine eq_emod_of_dvd h.gotoPrev.position_nonneg h.gotoPrev.position_lt ?_
  have hdata := toNat_gotoPrev h
  have hge := h.start_le
  have hstart : c.gotoPrev.mStart = c.mStart := rfl
  rw [position, position, hdata, hstart]
  split_ifs with heq
  · -- from the start to the end
    refine ⟨-1, ?_⟩
    rw [period]
    omega
  · refine ⟨0, ?_⟩
    omega

/-- An operator is a step in its direction. -/
theorem apply_snd (op : Operator) (c : CyclicUInt32) :
    (op.apply c).2 = if op.isIncrement then c.gotoNext else c.gotoPrev := by
  cases op <;> rfl

theorem sameRange_apply (op : Operator) (c : CyclicUInt32) : SameRange (op.apply c).2 c := by
  cases op <;> exact ⟨rfl, rfl⟩

theorem InRange.apply {c : CyclicUInt32} (h : c.InRange) (op : Operator) :
    (op.apply c).2.InRange := by
  rw [apply_snd]
  split_ifs
  · exact h.gotoNext
  · exact h.gotoPrev

/-- **One operator** moves the position by one, modulo the length of the range. -/
theorem position_apply {c : CyclicUInt32} (h : c.InRange) (op : Operator) :
    (op.apply c).2.position = (c.position + op.shift) % c.period := by
  rw [apply_snd, Operator.shift]
  split_ifs
  · exact position_gotoNext h
  · exact position_gotoPrev h

/-! ### Sequences of steps -/

theorem sameRange_run (ops : List Operator) (c : CyclicUInt32) : SameRange (run ops c) c := by
  induction ops generalizing c with
  | nil => exact ⟨rfl, rfl⟩
  | cons op ops ih =>
    have hstep := sameRange_apply op c
    have hrest := ih (op.apply c).2
    exact ⟨hrest.mStart.trans hstep.mStart, hrest.mEnd.trans hstep.mEnd⟩

theorem InRange.run {c : CyclicUInt32} (h : c.InRange) (ops : List Operator) :
    (run ops c).InRange := by
  induction ops generalizing c with
  | nil => exact h
  | cons op ops ih => exact ih (h.apply op)

/-- **The closed form**: a sequence moves the position by its increments less its decrements, modulo
the length of the range. -/
theorem position_run {c : CyclicUInt32} (h : c.InRange) (ops : List Operator) :
    (run ops c).position = (c.position + shift ops) % c.period := by
  induction ops generalizing c with
  | nil =>
    rw [show shift [] = 0 from rfl, add_zero, Int.emod_eq_of_lt h.position_nonneg h.position_lt]
    rfl
  | cons op ops ih =>
    have hrest := ih (h.apply op)
    rw [position_apply h op, (sameRange_apply op c).period_eq, Int.emod_add_emod, add_assoc,
      ← shift_cons] at hrest
    exact hrest

/-- A sequence that moves the counter by a multiple of the length of the range leads back. -/
theorem run_eq_self {c : CyclicUInt32} (h : c.InRange) {ops : List Operator}
    (hops : c.period ∣ shift ops) : run ops c = c := by
  refine (sameRange_run ops c).eq_of_position_eq ?_
  rw [position_run h]
  refine (eq_emod_of_dvd h.position_nonneg h.position_lt ?_).symm
  rwa [add_sub_cancel_left]

/-- Going on from one position, each position comes up once in a round. -/
theorem existsUnique_add_emod {p q n : ℤ} (hq : 0 ≤ q) (hlt : q < n) :
    ∃! k : ℕ, (k : ℤ) < n ∧ (p + k) % n = q := by
  have hn : 0 < n := by omega
  have hpos : 0 ≤ (q - p) % n := Int.emod_nonneg _ hn.ne'
  refine ⟨((q - p) % n).toNat, ⟨?_, ?_⟩, ?_⟩
  · rw [Int.toNat_of_nonneg hpos]
    exact Int.emod_lt_of_pos _ hn
  · rw [Int.toNat_of_nonneg hpos, Int.add_emod_emod, add_sub_cancel, Int.emod_eq_of_lt hq hlt]
  · rintro k ⟨hk, heq⟩
    have hdvd : n ∣ p + k - q := by
      rw [← heq]
      exact Int.modEq_iff_dvd.1 (Int.mod_modEq _ _)
    have hk' : (k : ℤ) = (q - p) % n := by
      refine eq_emod_of_dvd (Int.natCast_nonneg k) hk ?_
      rw [show q - p - k = -(p + k - q) by omega]
      exact Int.dvd_neg.2 hdvd
    rw [← hk', Int.toNat_natCast]

/-- **Increments visit each value once** before they lead back. -/
theorem existsUnique_visit {c : CyclicUInt32} (h : c.InRange) {ups : List Operator}
    (hups : ∀ op ∈ ups, op.isIncrement) (hlen : (ups.length : ℤ) = c.period) {v : ℕ}
    (hv : c.mStart.toNat ≤ v ∧ v ≤ c.mEnd.toNat) :
    ∃! k, k < ups.length ∧ (run (ups.take k) c).mData.toNat = v := by
  have hvisit : ∀ k : ℕ, (k < ups.length ∧ (run (ups.take k) c).mData.toNat = v) ↔
      (k : ℤ) < c.period ∧ (c.position + k) % c.period = v - c.mStart.toNat := fun k ↦ by
    rw [← hlen, Nat.cast_lt]
    refine and_congr_right fun hk ↦ ?_
    have hshift : shift (ups.take k) = k := by
      rw [shift_of_forall fun op hop ↦ hups op (List.mem_of_mem_take hop), List.length_take,
        min_eq_left hk.le]
    have hposition := position_run h (ups.take k)
    rw [hshift, position, (sameRange_run _ c).mStart] at hposition
    rw [hlen, ← hposition]
    omega
  simp only [hvisit]
  refine existsUnique_add_emod (by omega) ?_
  rw [period]
  omega

/-! ### Every counter -/

section New

variable (start end' value : UInt32)

theorem toNat_mStart_new : (new start end' value).mStart.toNat = min start.toNat end'.toNat := by
  rw [new]
  dsimp only
  split_ifs with h
  · have := UInt32.lt_iff_toNat_lt.1 h
    omega
  · have := UInt32.le_iff_toNat_le.1 (UInt32.not_lt.1 h)
    omega

theorem toNat_mEnd_new : (new start end' value).mEnd.toNat = max start.toNat end'.toNat := by
  rw [new]
  dsimp only
  split_ifs with h
  · have := UInt32.lt_iff_toNat_lt.1 h
    omega
  · have := UInt32.le_iff_toNat_le.1 (UInt32.not_lt.1 h)
    omega

/-- A new counter is in its range, whatever it is made from. -/
theorem inRange_new : (new start end' value).InRange := by
  have hstart := toNat_mStart_new start end' value
  have hend := toNat_mEnd_new start end' value
  have hdata : (new start end' value).mData =
      if value ≥ (new start end' value).mStart ∧ value ≤ (new start end' value).mEnd then value
      else (new start end' value).mStart := rfl
  split_ifs at hdata with hvalue
  · rw [← hdata] at hvalue
    exact ⟨UInt32.le_iff_toNat_le.1 hvalue.1, UInt32.le_iff_toNat_le.1 hvalue.2⟩
  · constructor
    · rw [hdata]
    · rw [hdata, hstart, hend]
      omega

end New

/-- What a counter does that is in the range from `lo` to `hi`. -/
structure CyclesIn (lo hi : ℕ) (c : CyclicUInt32) : Prop where
  lo_le : lo ≤ c.mData.toNat
  le_hi : c.mData.toNat ≤ hi
  /-- The addition of a step forward does not wrap where it is evaluated. -/
  toNat_next : c.mData < c.mEnd → (c.mData + 1).toNat = c.mData.toNat + 1
  /-- Neither does the subtraction of a step back. -/
  toNat_prev : c.mData > c.mStart → (c.mData - 1).toNat + 1 = c.mData.toNat
  /-- Operators of opposite directions undo each other. -/
  undo : ∀ op op' : Operator, op.isIncrement ≠ op'.isIncrement →
    (op'.apply (op.apply c).2).2 = c
  /-- As many increments as there are values visit each of them once and lead back. -/
  round : ∀ ups : List Operator, (∀ op ∈ ups, op.isIncrement) → ups.length = hi - lo + 1 →
    run ups c = c ∧
      ∀ v, lo ≤ v → v ≤ hi → ∃! k, k < ups.length ∧ (run (ups.take k) c).mData.toNat = v
  /-- An operator in front of the counter returns its new value, and one behind it the old one. -/
  returned : ∀ op : Operator,
    (op.apply c).1 = if op.isPre then (op.apply c).2.mData else c.mData

theorem InRange.cyclesIn {c : CyclicUInt32} (h : c.InRange) :
    CyclesIn c.mStart.toNat c.mEnd.toNat c where
  lo_le := h.start_le
  le_hi := h.le_end
  toNat_next := toNat_add_one
  toNat_prev := toNat_sub_one
  undo op op' hne := by
    show CyclicUInt32.run [op, op'] c = c
    refine run_eq_self h ?_
    have hshift : shift [op, op'] = 0 := by
      rw [shift_cons, shift_cons, Operator.shift, Operator.shift, Bool.eq_not.2 hne.symm]
      rcases op.isIncrement with _ | _ <;> rfl
    rw [hshift]
    exact dvd_zero _
  round ups hups hlen := by
    have hle := h.start_le.trans h.le_end
    have hperiod : (ups.length : ℤ) = c.period := by
      rw [hlen, period]
      omega
    refine ⟨run_eq_self h ?_, fun v hlo hhi ↦ existsUnique_visit h hups hperiod ⟨hlo, hhi⟩⟩
    rw [shift_of_forall hups, hperiod]
  returned op := by cases op <;> rfl

/-- **The cyclic counter is a cycle on its range.** After any operators the value has moved by the
increments less the decrements, modulo the number of values. -/
theorem cyclesIn_run (start end' value : UInt32) (ops : List Operator) :
    let lo := min start.toNat end'.toNat
    let hi := max start.toNat end'.toNat
    let c₀ := new start end' value
    CyclesIn lo hi (run ops c₀) ∧
      ((run ops c₀).mData.toNat : ℤ) - lo =
        (c₀.mData.toNat - lo + increments ops - decrements ops) % (hi - lo + 1) := by
  intro lo hi c₀
  have hrange : c₀.InRange := inRange_new start end' value
  have hsame := sameRange_run ops c₀
  have hlo : c₀.mStart.toNat = lo := toNat_mStart_new start end' value
  have hhi : c₀.mEnd.toNat = hi := toNat_mEnd_new start end' value
  constructor
  · have h := (hrange.run ops).cyclesIn
    rwa [hsame.mStart, hsame.mEnd, hlo, hhi] at h
  · have h := position_run hrange ops
    rw [position, position, period, shift, hsame.mStart, hlo, hhi, ← add_sub_assoc] at h
    exact h

end CyclicUInt32

end EspBode
