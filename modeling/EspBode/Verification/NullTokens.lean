import EspBode.Verification.Readings

/-!
# When a token is missing

The tokenizer returns a null pointer when no token is left, and the parser uses three of its results
without a test: the initiator, the command of a command line, and the token behind the name of a
number. `TokensPresent s` says of a line that none of the three is missing. It is exactly the
condition under which no null token is used (`parseScpi_ne_null_iff`).

The condition is one on **the text**, and does not mention the parser. It speaks of the runs of the
text between separators, which is what the tokenizer finds, and walks over the parameter list once,
since whether a token is a name depends on whether the one before it was the name of a number
(`valuesFollow`).

On the side of the code the parser has been replaced by its trace, a function of the text that
records whether a null token was met (`parseScpi_eq_error_iff`). So each part of a line is one
equation between two Boolean functions of the same text, and the parts are put together along the
line:

* a parameter list, by recursion on its tokens;
* a command line, which may have no command at all, if it consists of spaces;
* the command lines one after the other. Those behind a null token are never read, but they have
  nothing to say then.

Where the text stands in the buffer, how large the buffer is, and what the uninitialized locals hold
does not matter.
-/

namespace EspBode

namespace Scpi

/-- Every name of a numeric parameter that the walk meets is followed by a token. -/
def valuesFollow : List (List UInt8) → Bool
  | [] => true
  | t :: ts =>
    if ascii "OFF" <+: t then valuesFollow ts
    else if ascii "ON" <+: t then valuesFollow ts
    else match ts with
      | [] => (numericId t).isNone
      | v :: vs =>
        if ascii "WVTP" <+: t then valuesFollow vs
        else if (numericId t).isSome then valuesFollow vs
        else valuesFollow (v :: vs)

/-- The line is addressed to a channel. -/
def Addressed (s : List UInt8) : Prop :=
  ascii "C" <+: firstRun initiatorDelimiter s ∧
    ¬ ascii "IDN-SGLT-PRI?" <+: firstRun initiatorDelimiter s

instance (s : List UInt8) : Decidable (Addressed s) :=
  inferInstanceAs (Decidable (_ ∧ _))

/-- A command line has a command, and a token behind each name of a number in its parameters. -/
def LineComplete (line : List UInt8) : Prop :=
  (∃ c ∈ line, c ≠ preParametersDelimiter) ∧
    (setsParameters line → valuesFollow (parameterList line))

instance (line : List UInt8) : Decidable (LineComplete line) :=
  inferInstanceAs (Decidable (_ ∧ _))

/-- No token that is used is missing. -/
structure TokensPresent (s : List UInt8) : Prop where
  /-- There is something other than colons. -/
  initiator : ∃ c ∈ s, c ≠ initiatorDelimiter
  lines : Addressed s → ∀ line ∈ commandLines s, LineComplete line

/-! ### Part by part -/

/-- A name of a number at the end of a list is followed by nothing. -/
theorem nullToken_readParameters (line : ℕ) : ∀ (i : ℕ) (ts : List (List UInt8)) (value : Double),
    (readParameters line i ts value).nullToken = !valuesFollow ts
  | _, [], _ => rfl
  | i, t :: ts, value => by
    rw [readParameters, findId_parameters, valuesFollow.eq_def]
    dsimp only
    cases nameCase t with
    | off hoff =>
      simp only [if_pos hoff, true_or, if_true]
      exact nullToken_readParameters line _ ts _
    | on hoff hon =>
      simp only [if_neg hoff, if_pos hon, or_true, if_true]
      exact nullToken_readParameters line _ ts _
    | wave hoff hon hwave =>
      simp only [if_neg hoff, if_neg hon, if_pos hwave]
      rw [if_neg (by decide)]
      rcases ts with _ | ⟨v, vs⟩
      · have hnumeric : numericId t = none := by
          obtain ⟨r, rfl⟩ := hwave
          rfl
        rw [hnumeric]
        rfl
      · exact nullToken_readParameters line _ vs _
    | other hoff hon hwave hnum =>
      simp only [if_neg hoff, if_neg hon, if_neg hwave, hnum]
      rcases ts with _ | ⟨v, vs⟩
      · rfl
      · exact nullToken_readParameters line _ (v :: vs) _
    | numeric hoff hon hwave hnum hset hne =>
      simp only [if_neg hoff, if_neg hon, if_neg hwave, hnum]
      rw [if_neg hset]
      rcases ts with _ | ⟨v, vs⟩
      · simp only [if_neg hne]
        rfl
      · exact nullToken_readParameters line _ vs _

theorem nullToken_append (t t' : Trace) :
    (t.append t').nullToken = (t.nullToken || t'.nullToken) := by
  obtain ⟨readings, _ | _⟩ := t <;> rfl

/-- **A command line is read as its parameter list**, if it has a command that sets parameters. -/
theorem readCommand_eq (k : ℕ) (line : List UInt8) (uninit : Double) :
    readCommand k line uninit =
      if ∃ c ∈ line, c ≠ preParametersDelimiter then
        if setsParameters line then readParameters k 0 (parameterList line) uninit else .stop
      else .null := by
  rw [readCommand]
  rcases hn : nextRun preParametersDelimiter line with _ | ⟨command, rest⟩
  · rw [if_neg (not_exists_ne_of_nextRun hn)]
  · have hcommand := exists_ne_of_nextRun hn
    obtain ⟨rfl, rfl⟩ := Prod.mk.inj (Option.some.inj
      ((nextRun_eq (runs_ne_nil hcommand)).symm.trans hn))
    rw [if_pos hcommand]
    dsimp only
    cases commandCase line with
    | sets hid hset hsets =>
      simp only [hid, if_pos hset, if_pos hsets]
      rfl
    | query hid hsets =>
      rw [hid, if_neg hsets]
      rfl
    | other hid hsets =>
      rw [hid, if_neg hsets]

theorem nullToken_readCommand (k : ℕ) (line : List UInt8) (uninit : Double) :
    (readCommand k line uninit).nullToken = false ↔ LineComplete line := by
  rw [readCommand_eq, LineComplete]
  by_cases hcommand : ∃ c ∈ line, c ≠ preParametersDelimiter
  · rw [if_pos hcommand]
    by_cases hsets : setsParameters line
    · rw [if_pos hsets, nullToken_readParameters]
      simpa [hsets] using fun _ ↦ hcommand
    · rw [if_neg hsets]
      simpa [hsets, Trace.stop] using hcommand
  · rw [if_neg hcommand]
    simp [hcommand, Trace.null]

theorem nullToken_readCommands (uninit : ℕ → Double) {lines : List (List UInt8)} :
    ∀ k, (readCommands uninit k lines).nullToken = false ↔ ∀ line ∈ lines, LineComplete line := by
  induction lines with
  | nil => simp [readCommands, Trace.stop]
  | cons line lines ih =>
    intro k
    rw [readCommands, nullToken_append, Bool.or_eq_false_iff, nullToken_readCommand, ih,
      List.forall_mem_cons]

/-- The trace of a line that names an initiator. -/
theorem lineTrace_of_runs {s : List UInt8} (h : runs initiatorDelimiter s ≠ [])
    (uninit : ℕ → Double) :
    lineTrace s uninit = if Addressed s then
      (channelOf (firstRun initiatorDelimiter s), readCommands uninit 0 (commandLines s))
      else (0, .stop) := by
  rw [lineTrace, nextRun_eq h]
  dsimp only
  rw [findId_initiators]
  by_cases hid : ascii "IDN-SGLT-PRI?" <+: firstRun initiatorDelimiter s
  · rw [if_pos hid, if_neg fun h : Addressed s ↦ h.2 hid]
    rfl
  rw [if_neg hid]
  by_cases hc : ascii "C" <+: firstRun initiatorDelimiter s
  · rw [if_pos hc, if_pos (show Addressed s from ⟨hc, hid⟩)]
    rfl
  · rw [if_neg hc, if_neg fun h : Addressed s ↦ hc h.1]

theorem lineTrace_nullToken (s : List UInt8) (uninit : ℕ → Double) :
    (lineTrace s uninit).2.nullToken = false ↔ TokensPresent s := by
  rcases hn : nextRun initiatorDelimiter s with _ | ⟨w, t⟩
  · have hcolons : ¬ TokensPresent s := fun h ↦ not_exists_ne_of_nextRun hn h.initiator
    simp [lineTrace, hn, hcolons, Trace.null]
  · have hinitiator := exists_ne_of_nextRun hn
    rw [lineTrace_of_runs (runs_ne_nil hinitiator)]
    by_cases haddressed : Addressed s
    · rw [if_pos haddressed, nullToken_readCommands]
      exact ⟨fun h ↦ ⟨hinitiator, fun _ ↦ h⟩, fun h ↦ h.lines haddressed⟩
    · rw [if_neg haddressed]
      exact ⟨fun _ ↦ ⟨hinitiator, fun h ↦ absurd h haddressed⟩, fun _ ↦ rfl⟩

end Scpi

open Scpi

/-- **No null token is used exactly if no token is missing.** The line may stand anywhere in a
buffer of any size. -/
theorem parseScpi_ne_null_iff {n : ℕ} {b : Buffer n} {pos : ℕ} {s : List UInt8}
    (hb : b.IsString pos s) (uninit : ℕ → Double) :
    parseScpi b pos uninit ≠ .error .nullPointer ↔ TokensPresent s := by
  rw [Ne, parseScpi_eq_error_iff hb, Bool.not_eq_true, lineTrace_nullToken]

theorem parseScpi_ne_null_iff_exampleLine :
    parseScpi ((Buffer.zero 64).patch 0 exampleLine) 0 (fun _ ↦ .nan) ≠ .error .nullPointer ∧
      TokensPresent exampleLine := by
  have hpresent : TokensPresent exampleLine := ⟨by decide +kernel, by decide +kernel⟩
  exact ⟨(parseScpi_ne_null_iff ⟨by decide, by decide⟩ _).2 hpresent, hpresent⟩

/-- **Null tokens are used**: for the initiator of an empty line, for the command of a command line
of one space, and for the number behind a name at the end. -/
theorem null_token_used :
    parseScpi (Buffer.zero 64) 0 (fun _ ↦ .nan) = .error .nullPointer ∧
      parseScpi ((Buffer.zero 64).patch 0 (ascii "C1:OUTP ON; ")) 0 (fun _ ↦ .nan) =
        .error .nullPointer ∧
      parseScpi ((Buffer.zero 64).patch 0 (ascii "C1:BSWV FRQ")) 0 (fun _ ↦ .nan) =
        .error .nullPointer := by
  refine ⟨?_, ?_, ?_⟩ <;> decide +kernel

end EspBode
