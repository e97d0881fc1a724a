import EspBode.Verification.NullTokens

/-!
# Numbers that are not numbers

The value that `process_parameters` passes on for a numeric parameter stands in a local that is not
cleared from one parameter to the next, and a failed `sscanf` leaves it as it is. So a name that is
followed by something else than a number is still set, to whatever the local holds.

`OnlyNumbers` says of a line that its settings of numeric parameters are those whose own token is a
number, with that number. It holds exactly if no name is followed by a token that is not a number
(`NumbersAccepted`), as far as the line is parsed at all.

**As far as it is parsed.** A token that is missing ends the line at a null pointer, and the
settings before it have been made by then. The statement is about them, so it is one about every
line; a command line behind the missing token is not looked at by either side (`parsedLines`).

The proof goes through the trace of the line, where each setting carries the token that was taken
for its number:

* a reading is accepted if it has a number of its own, should it have one, and the readings of a
  list are accepted exactly if its tokens are (`forall_accepted_readParameters`);
* a number that is not accepted is the one before it in the list, or what the local held at the
  beginning (`value_readParameters`). Neither is a number of its own, whichever value it has, and so
  the uninitialized value may be anything.
-/

namespace EspBode

namespace Scpi

/-- The parameter is followed by a number. -/
def isNumeric (id : ℕ) : Bool :=
  frequency ≤ id && id ≤ phase

/-- The setting that a reading should make: a numeric parameter with the number that is read from
the token directly after its name. -/
def ownNumber (ch : UInt32) (r : Reading) : Option SetCall :=
  if isNumeric r.id then (r.source.bind sscanfLf).map fun x ↦ ⟨ch, r.id, x⟩ else none

/-- The settings of numeric parameters are those whose own token is a number, with that number. -/
def OnlyNumbers (s : List UInt8) (uninit : ℕ → Double) : Prop :=
  (madeCalls s uninit).filter (fun call ↦ isNumeric call.parameter) =
    (lineTrace s uninit).2.readings.filterMap (ownNumber (lineTrace s uninit).1)

/-- A name of a numeric parameter that the walk meets is not followed by a token that is no
number. -/
def numbersAccepted : List (List UInt8) → Bool
  | [] => true
  | t :: ts =>
    if ascii "OFF" <+: t then numbersAccepted ts
    else if ascii "ON" <+: t then numbersAccepted ts
    else match ts with
      | [] => true
      | v :: vs =>
        if ascii "WVTP" <+: t then numbersAccepted vs
        else if (numericId t).isSome then (sscanfLf v).isSome && numbersAccepted vs
        else numbersAccepted (v :: vs)

/-- The command lines that are parsed: up to the first one in which a token is missing. -/
def parsedLines (lines : List (List UInt8)) : List (List UInt8) :=
  lines.takeWhile (fun line ↦ decide (LineComplete line)) ++
    (lines.dropWhile fun line ↦ decide (LineComplete line)).take 1

/-- Every name of a numeric parameter that is followed by a token is followed by a number. -/
def NumbersAccepted (s : List UInt8) : Prop :=
  Addressed s → ∀ line ∈ parsedLines (commandLines s),
    setsParameters line → numbersAccepted (parameterList line)

/-! ### Readings -/

/-- The reading has a number of its own, if it should have one. -/
def Accepted (r : Reading) : Prop :=
  isNumeric r.id → (r.source.bind sscanfLf).isSome

theorem accepted_of_not_isNumeric {r : Reading} (h : isNumeric r.id = false) : Accepted r :=
  fun h' ↦ absurd (h'.symm.trans h) (by decide)

/-- ON, OFF and the wave form take no number. -/
theorem not_isNumeric : isNumeric outputOff = false ∧ isNumeric outputOn = false ∧
    isNumeric wave = false := by
  decide

theorem isNumeric_of_numericId {t : List UInt8} {id : ℕ} (h : numericId t = some id) :
    isNumeric id := by
  unfold numericId at h
  split_ifs at h <;> · cases h; decide

theorem forall_mem_cons_readings {P : Reading → Prop} {r : Reading} {t : Trace} :
    (∀ r' ∈ (Trace.cons r t).readings, P r') ↔ P r ∧ ∀ r' ∈ t.readings, P r' :=
  List.forall_mem_cons

/-- **All numbers of a parameter list are accepted exactly if its tokens are.** -/
theorem forall_accepted_readParameters (line : ℕ) : ∀ (i : ℕ) (ts : List (List UInt8))
    (value : Double),
    (∀ r ∈ (readParameters line i ts value).readings, Accepted r) ↔ numbersAccepted ts
  | _, [], _ => by simp [readParameters, Trace.stop, numbersAccepted]
  | i, t :: ts, value => by
    rw [readParameters, findId_parameters, numbersAccepted.eq_def]
    dsimp only
    cases nameCase t with
    | off hoff =>
      simp only [if_pos hoff, true_or, if_true]
      rw [forall_mem_cons_readings, forall_accepted_readParameters line _ ts]
      exact and_iff_right (accepted_of_not_isNumeric not_isNumeric.1)
    | on hoff hon =>
      simp only [if_neg hoff, if_pos hon, or_true, if_true]
      rw [forall_mem_cons_readings, forall_accepted_readParameters line _ ts]
      exact and_iff_right (accepted_of_not_isNumeric not_isNumeric.2.1)
    | wave hoff hon hwave =>
      have hsine : ∀ {source : Option (List UInt8)} {v : Double},
          Accepted ⟨line, i, wave, source, v⟩ := accepted_of_not_isNumeric not_isNumeric.2.2
      simp only [if_neg hoff, if_neg hon, if_pos hwave]
      rw [if_neg (by decide)]
      rcases ts with _ | ⟨v, vs⟩
      · simp only [if_true]
        rw [forall_mem_cons_readings]
        simp [hsine, Trace.stop]
      · dsimp only
        rw [forall_mem_cons_readings, forall_accepted_readParameters line _ vs]
        exact and_iff_right hsine
    | other hoff hon hwave hnum =>
      simp only [if_neg hoff, if_neg hon, if_neg hwave, hnum]
      rcases ts with _ | ⟨v, vs⟩
      · simp [readParameters, Trace.stop]
      · exact forall_accepted_readParameters line _ (v :: vs) _
    | numeric hoff hon hwave hnum hset hne =>
      simp only [if_neg hoff, if_neg hon, if_neg hwave, hnum]
      rw [if_neg hset]
      rcases ts with _ | ⟨v, vs⟩
      · simp [hne, Trace.null]
      · dsimp only
        rw [forall_mem_cons_readings, forall_accepted_readParameters line _ vs]
        simp [Accepted, isNumeric_of_numericId hnum]

/-- What a numeric reading passes on: its own number, or what the local held before. -/
theorem value_readParameters (line : ℕ) : ∀ (i : ℕ) (ts : List (List UInt8)) (value : Double),
    ∀ r ∈ (readParameters line i ts value).readings, isNumeric r.id →
      ∃ v previous, r.source = some v ∧ r.value = (sscanfLf v).getD previous
  | _, [], _ => by simp [readParameters, Trace.stop]
  | i, t :: ts, value => by
    have hoff : ∀ {id : ℕ}, isNumeric id → ¬ (id = outputOff ∨ id = outputOn) ∧ id ≠ wave := by
      intro id h
      refine ⟨?_, ?_⟩
      · rintro (rfl | rfl) <;> exact absurd h (by decide)
      · rintro rfl
        exact absurd h (by decide)
    rw [readParameters]
    rcases findId parameters t with _ | id
    · exact value_readParameters line _ ts _
    dsimp only
    by_cases hset : id = outputOff ∨ id = outputOn
    · rw [if_pos hset, forall_mem_cons_readings]
      exact ⟨fun h ↦ absurd hset (hoff h).1, value_readParameters line _ ts _⟩
    rw [if_neg hset]
    rcases ts with _ | ⟨v, ts⟩
    · dsimp only
      rcases eq_or_ne id wave with hwave | hwave
      · rw [if_pos hwave, forall_mem_cons_readings]
        exact ⟨fun h ↦ absurd hwave (hoff h).2, fun r hr ↦ absurd hr List.not_mem_nil⟩
      · rw [if_neg hwave]
        exact fun r hr ↦ absurd hr List.not_mem_nil
    · dsimp only
      rw [forall_mem_cons_readings]
      refine ⟨fun h ↦ ⟨v, value, rfl, ?_⟩, value_readParameters line _ ts _⟩
      exact if_neg (hoff h).2

/-! ### From the readings to the line -/

theorem readings_append (t t' : Trace) :
    (t.append t').readings = t.readings ++ if t.nullToken then [] else t'.readings := by
  obtain ⟨readings, _ | _⟩ := t
  · rfl
  · exact (List.append_nil _).symm

theorem readings_readCommand (k : ℕ) (line : List UInt8) (uninit : Double) :
    (readCommand k line uninit).readings =
      if setsParameters line then (readParameters k 0 (parameterList line) uninit).readings
      else [] := by
  rw [readCommand_eq]
  by_cases hsets : setsParameters line
  · -- a command that sets parameters is there
    have hcommand : ∃ c ∈ line, c ≠ preParametersDelimiter := by
      rcases hn : nextRun preParametersDelimiter line with _ | ⟨command, rest⟩
      · rw [setsParameters, firstRun, runs_eq_nil_of_nextRun hn] at hsets
        exact absurd hsets (by decide)
      · exact exists_ne_of_nextRun hn
    rw [if_pos hcommand, if_pos hsets, if_pos hsets]
  · rw [if_neg hsets, if_neg hsets]
    split_ifs <;> rfl

/-- What holds of the readings of every parameter list holds of those of the line. -/
theorem forall_mem_readCommands {P : Reading → Prop} (uninit : ℕ → Double)
    {lines : List (List UInt8)} : ∀ {k : ℕ},
    (∀ r ∈ (readCommands uninit k lines).readings, P r) ↔
      ∀ p ∈ (parsedLines lines).zipIdx k, setsParameters p.1 →
        ∀ r ∈ (readParameters p.2 0 (parameterList p.1) (uninit p.2)).readings, P r := by
  induction lines with
  | nil => simp [readCommands, Trace.stop, parsedLines]
  | cons line lines ih =>
    intro k
    have hline : (∀ r ∈ (readCommand k line (uninit k)).readings, P r) ↔
        (setsParameters line →
          ∀ r ∈ (readParameters k 0 (parameterList line) (uninit k)).readings, P r) := by
      rw [readings_readCommand]
      by_cases hsets : setsParameters line
      · simp [hsets]
      · simp [hsets]
    rw [readCommands, readings_append, List.forall_mem_append, hline]
    by_cases hcomplete : LineComplete line
    · have hnull := (nullToken_readCommand k line (uninit k)).2 hcomplete
      have hparsed : parsedLines (line :: lines) = line :: parsedLines lines := by
        simp [parsedLines, hcomplete]
      rw [hnull, if_neg Bool.false_ne_true, ih, hparsed, List.zipIdx_cons, List.forall_mem_cons]
    · have hnull : (readCommand k line (uninit k)).nullToken = true := by
        simpa using (nullToken_readCommand k line (uninit k)).not.2 hcomplete
      have hparsed : parsedLines (line :: lines) = [line] := by
        simp [parsedLines, hcomplete]
      rw [hnull, if_pos rfl, hparsed]
      simp

/-- **The numbers of a line are accepted exactly if all its readings are.** -/
theorem forall_accepted_lineTrace (s : List UInt8) (uninit : ℕ → Double) :
    (∀ r ∈ (lineTrace s uninit).2.readings, Accepted r) ↔ NumbersAccepted s := by
  rcases hn : nextRun initiatorDelimiter s with _ | ⟨w, t⟩
  · have hfirst : firstRun initiatorDelimiter s = [] := by
      rw [firstRun, runs_eq_nil_of_nextRun hn]
      rfl
    have haddressed : ¬ Addressed s := by
      rw [Addressed, hfirst]
      decide
    simp [lineTrace, hn, Trace.null, NumbersAccepted, haddressed]
  · rw [lineTrace_of_runs (runs_ne_nil (exists_ne_of_nextRun hn)), NumbersAccepted]
    by_cases haddressed : Addressed s
    · simp only [if_pos haddressed, forall_mem_readCommands, forall_accepted_readParameters]
      refine ⟨fun h _ line hline ↦ ?_,
        fun h p hp ↦ h haddressed p.1 (List.fst_mem_of_mem_zipIdx hp)⟩
      rw [← List.zipIdx_map_fst 0 (parsedLines (commandLines s))] at hline
      obtain ⟨p, hp, rfl⟩ := List.mem_map.1 hline
      exact h p hp
    · simp [haddressed, Trace.stop]

/-! ### From the readings to the settings -/

/-- Mapping what passes a test is mapping what there is a result for, exactly if there is one for
everything that passes. -/
theorem map_filter_eq_filterMap_iff {α β : Type*} {p : α → Bool} {f : α → Option β} {g : α → β}
    {as : List α} (h : ∀ a ∈ as, ∀ b, f a = some b → p a = true ∧ b = g a) :
    (as.filter p).map g = as.filterMap f ↔ ∀ a ∈ as, p a = true → (f a).isSome := by
  have hlength : ∀ {as : List α}, (∀ a ∈ as, ∀ b, f a = some b → p a = true ∧ b = g a) →
      (as.filterMap f).length ≤ (as.filter p).length := by
    intro as h
    induction as with
    | nil => exact le_rfl
    | cons a as ih =>
      obtain ⟨ha, has⟩ := List.forall_mem_cons.1 h
      have hle := ih has
      rcases hf : f a with _ | b
      · rw [List.filterMap_cons_none hf]
        exact hle.trans ((List.sublist_cons_self a as).filter p).length_le
      · rw [List.filterMap_cons_some hf, List.filter_cons_of_pos (ha b hf).1]
        simpa using hle
  induction as with
  | nil => simp
  | cons a as ih =>
    obtain ⟨ha, has⟩ := List.forall_mem_cons.1 h
    have hrest := ih has
    rw [List.forall_mem_cons]
    rcases hf : f a with _ | b
    · rw [List.filterMap_cons_none hf]
      rcases eq_or_ne (p a) true with hp | hp
      · -- one setting more than there are results
        refine iff_of_false (fun heq ↦ ?_) fun hall ↦ by simpa using hall.1 hp
        have hcount := congrArg List.length heq
        have hle := hlength has
        rw [List.filter_cons_of_pos hp, List.map_cons, List.length_cons, List.length_map] at hcount
        omega
      · rw [List.filter_cons_of_neg hp]
        exact hrest.trans ⟨fun hall ↦ ⟨fun h ↦ absurd h hp, hall⟩, And.right⟩
    · obtain ⟨hp, rfl⟩ := ha b hf
      rw [List.filterMap_cons_some hf, List.filter_cons_of_pos hp, List.map_cons, List.cons.injEq]
      exact ⟨fun h ↦ ⟨fun _ ↦ rfl, hrest.1 h.2⟩, fun hall ↦ ⟨rfl, hrest.2 hall.2⟩⟩

/-- Every reading of a line comes from a parameter list. -/
theorem forall_mem_lineTrace {P : Reading → Prop}
    (h : ∀ line i ts value, ∀ r ∈ (readParameters line i ts value).readings, P r) (s : List UInt8)
    (uninit : ℕ → Double) : ∀ r ∈ (lineTrace s uninit).2.readings, P r := by
  rcases hn : nextRun initiatorDelimiter s with _ | ⟨w, t⟩
  · simp [lineTrace, hn, Trace.null]
  · rw [lineTrace_of_runs (runs_ne_nil (exists_ne_of_nextRun hn))]
    by_cases haddressed : Addressed s
    · rw [if_pos haddressed]
      exact (forall_mem_readCommands uninit).2 fun p _ _ ↦ h p.2 0 _ _
    · rw [if_neg haddressed]
      exact fun r hr ↦ absurd hr List.not_mem_nil

theorem onlyNumbers_iff (s : List UInt8) (uninit : ℕ → Double) :
    OnlyNumbers s uninit ↔ NumbersAccepted s := by
  rw [← forall_accepted_lineTrace s uninit, OnlyNumbers, madeCalls, Trace.calls, List.filter_map]
  have hvalue := forall_mem_lineTrace value_readParameters s uninit
  generalize (lineTrace s uninit).2.readings = rs at hvalue
  refine (map_filter_eq_filterMap_iff fun r hr b hb ↦ ?_).trans ?_
  · -- the number of its own is what a reading passes on
    rw [ownNumber] at hb
    split_ifs at hb with hnumeric
    obtain ⟨v, previous, hsource, hval⟩ := hvalue r hr hnumeric
    rw [hsource] at hb
    obtain ⟨x, hx, rfl⟩ := Option.map_eq_some_iff.1 hb
    have hx : sscanfLf v = some x := hx
    refine ⟨hnumeric, ?_⟩
    rw [hval, hx, Option.getD_some]
  · refine forall₂_congr fun r _ ↦ ?_
    show (isNumeric r.id = true → _) ↔ (isNumeric r.id = true → _)
    refine imp_congr_right fun hnumeric ↦ ?_
    rw [ownNumber, if_pos hnumeric, Option.isSome_map]

end Scpi

open Scpi

/-- **Only numbers are applied exactly if only numbers follow the names.** The settings meant are
those that are made while the line is parsed, also if it ends at a null token; if the parser in
place returns, they are the ones it returns. -/
theorem numbers_applied_iff {n : ℕ} {b : Buffer n} {pos : ℕ} {s : List UInt8}
    (hb : b.IsString pos s) (uninit : ℕ → Double) :
    (∀ run, parseScpi b pos uninit = .ok run → run.calls = madeCalls s uninit) ∧
      (OnlyNumbers s uninit ↔ NumbersAccepted s) :=
  ⟨fun _ hrun ↦ calls_eq_madeCalls hb hrun, onlyNumbers_iff s uninit⟩

theorem numbers_applied_iff_exampleLine :
    (∀ run, parseScpi ((Buffer.zero 64).patch 0 exampleLine) 0 (fun _ ↦ .nan) = .ok run →
        run.calls = madeCalls exampleLine fun _ ↦ .nan) ∧
      OnlyNumbers exampleLine fun _ ↦ .nan := by
  have hstands : ((Buffer.zero 64).patch 0 exampleLine).IsString 0 exampleLine :=
    ⟨by decide, by decide⟩
  have hread := numbers_applied_iff hstands fun _ ↦ .nan
  have haccepted : NumbersAccepted exampleLine := by
    intro _
    decide +kernel
  exact ⟨hread.1, hread.2.2 haccepted⟩

/-- **What is not a number is applied.** The frequency is set to the amplitude that was read before
it, and in a line of its own to what the uninitialized local holds. -/
theorem not_a_number_applied :
    sscanfLf (ascii "abc") = none ∧
      ScpiRun.calls <$> parseScpi ((Buffer.zero 64).patch 0 (ascii "C1:BSWV AMP,2.5,FRQ,abc")) 0
        (fun _ ↦ .nan) = .ok [⟨1, 4, .finite (5 / 2)⟩, ⟨1, 3, .finite (5 / 2)⟩] ∧
      ScpiRun.calls <$> parseScpi ((Buffer.zero 64).patch 0 (ascii "C1:BSWV FRQ,abc")) 0
        (fun _ ↦ .finite 42) = .ok [⟨1, 3, .finite 42⟩] := by
  refine ⟨?_, ?_, ?_⟩ <;> decide +kernel

end EspBode
