import EspBode.Verification.ScpiText

/-!
# What a SCPI line asks for

The meaning of a line, with no tokenizer in it: the line is split at its separators and every part
is read for itself. `settings s` is the list of settings the line `s` asks for, and `WellFormed s`
says that the line has the parts it needs: an initiator, a command in every command line, and a
number behind every name of a numeric parameter.

The parser takes its value for ON and OFF from the id, for a wave form from nowhere, and otherwise
from the next token, which is then not a name: that is why `walk` consumes tokens in pairs. On
well-formed lines the parser in place passes on exactly `settings s` (`parseScpi_settings`).

The way there has two halves, with the parser on texts between them. That the parser in place does
what it does on texts is a refinement with all the memory in it; that the parser on texts finds the
settings is about lists of tokens only, and is done here, level by level: `parametersText_eq_walk`,
`commandText_eq`, `commandsText_eq`, `lineText_eq`.

* **The tables are looked at once.** What a token is where a name is expected (`nameCase`) and what
  the command of a line is (`commandCase`) are case distinctions with the entries in them, and the
  proofs go through these and not through the tables.
* **No number is missing** on a well-formed line, so the value of a number is always that of its own
  token, and the uninitialized local is never seen.
-/

namespace EspBode

namespace Scpi

/-- The id of a parameter that is followed by a number. -/
def numericId (t : List UInt8) : Option ℕ :=
  if ascii "FRQ" <+: t then some frequency
  else if ascii "AMP" <+: t then some amplitude
  else if ascii "OFST" <+: t then some offset
  else if ascii "PHSE" <+: t then some phase
  else none

/-- The settings that a parameter list asks for on the channel `ch`. -/
def walk (ch : UInt32) : List (List UInt8) → List SetCall
  | [] => []
  | t :: ts =>
    if ascii "OFF" <+: t then ⟨ch, 0, .ofNat 0⟩ :: walk ch ts
    else if ascii "ON" <+: t then ⟨ch, 1, .ofNat 1⟩ :: walk ch ts
    else match ts with
      | [] => if ascii "WVTP" <+: t then [⟨ch, 2, .ofNat Siglent.sine⟩] else []
      | v :: vs =>
        if ascii "WVTP" <+: t then ⟨ch, 2, .ofNat Siglent.sine⟩ :: walk ch vs
        else match numericId t with
          | some id => ⟨ch, id, (sscanfLf v).getD .nan⟩ :: walk ch vs
          | none => walk ch (v :: vs)

/-- Every name of a numeric parameter that the walk meets is followed by a number. -/
def numbersFollow : List (List UInt8) → Bool
  | [] => true
  | t :: ts =>
    if ascii "OFF" <+: t then numbersFollow ts
    else if ascii "ON" <+: t then numbersFollow ts
    else match ts with
      | [] => (numericId t).isNone
      | v :: vs =>
        if ascii "WVTP" <+: t then numbersFollow vs
        else if (numericId t).isSome then (sscanfLf v).isSome && numbersFollow vs
        else numbersFollow (v :: vs)

/-- Whether the command of a command line is followed by parameters to set. -/
def setsParameters (line : List UInt8) : Prop :=
  ascii "OUTP" <+: firstRun preParametersDelimiter line ∨
    ascii "BSWV" <+: firstRun preParametersDelimiter line ∧
      ¬ ascii "BSWV?" <+: firstRun preParametersDelimiter line

instance : DecidablePred setsParameters := fun line ↦
  inferInstanceAs (Decidable (ascii "OUTP" <+: firstRun preParametersDelimiter line ∨
    ascii "BSWV" <+: firstRun preParametersDelimiter line ∧
      ¬ ascii "BSWV?" <+: firstRun preParametersDelimiter line))

/-- The parameters of a command line. -/
def parameterList (line : List UInt8) : List (List UInt8) :=
  runs parametersDelimiter (textAfter preParametersDelimiter line)

/-- The command lines behind the initiator. -/
def commandLines (s : List UInt8) : List (List UInt8) :=
  runs commandDelimiter (textAfter initiatorDelimiter s)

/-- The channel that the initiator addresses; 0 if it names none. -/
def channelOf (initiator : List UInt8) : UInt32 :=
  (sscanfD initiator.tail).getD 0

/-- The settings that a line asks for. -/
def settings (s : List UInt8) : List SetCall :=
  let initiator := firstRun initiatorDelimiter s
  if ascii "IDN-SGLT-PRI?" <+: initiator ∨ ¬ ascii "C" <+: initiator then []
  else (commandLines s).flatMap fun line ↦
    if setsParameters line then walk (channelOf initiator) (parameterList line) else []

/-- The line has the parts it needs. -/
structure WellFormed (s : List UInt8) : Prop where
  nulFree : 0 ∉ s
  /-- There is an initiator. -/
  initiator : runs initiatorDelimiter s ≠ []
  /-- No command line is made of spaces only. -/
  commands : ∀ line ∈ commandLines s, ∃ c ∈ line, c ≠ preParametersDelimiter
  /-- Every name of a numeric parameter is followed by a number. -/
  numbers : ∀ line ∈ commandLines s, setsParameters line → numbersFollow (parameterList line)

end Scpi

open Scpi

/-! ### The tables, entry by entry -/

theorem findId_initiators (w : List UInt8) :
    findId initiators w =
      if ascii "IDN-SGLT-PRI?" <+: w then some idRequest
      else if ascii "C" <+: w then some channel else none := by
  simp only [findId, initiators, List.findIdx?_cons, List.findIdx?_nil, decide_eq_true_eq]
  split_ifs <;> rfl

theorem findId_commands (w : List UInt8) :
    findId commands w =
      if ascii "OUTP" <+: w then some setOutput
      else if ascii "BSWV?" <+: w then some getParameters
      else if ascii "BSWV" <+: w then some setParameters else none := by
  simp only [findId, commands, List.findIdx?_cons, List.findIdx?_nil, decide_eq_true_eq]
  split_ifs <;> rfl

theorem findId_parameters (w : List UInt8) :
    findId parameters w =
      if ascii "OFF" <+: w then some outputOff
      else if ascii "ON" <+: w then some outputOn
      else if ascii "WVTP" <+: w then some wave else numericId w := by
  simp only [findId, parameters, numericId, List.findIdx?_cons, List.findIdx?_nil,
    decide_eq_true_eq]
  split_ifs <;> rfl

/-- A numeric parameter is none of the others. -/
theorem of_numericId_eq_some {t : List UInt8} {id : ℕ} (h : numericId t = some id) :
    ¬ (id = outputOff ∨ id = outputOn) ∧ id ≠ wave := by
  unfold numericId at h
  split_ifs at h <;> · cases h; decide

/-- What a token can be where a name is expected. -/
inductive NameCase (t : List UInt8) : Prop
  | off (hoff : ascii "OFF" <+: t)
  | on (hoff : ¬ ascii "OFF" <+: t) (hon : ascii "ON" <+: t)
  | wave (hoff : ¬ ascii "OFF" <+: t) (hon : ¬ ascii "ON" <+: t) (hwave : ascii "WVTP" <+: t)
  | other (hoff : ¬ ascii "OFF" <+: t) (hon : ¬ ascii "ON" <+: t) (hwave : ¬ ascii "WVTP" <+: t)
    (hnum : numericId t = none)
  | numeric (hoff : ¬ ascii "OFF" <+: t) (hon : ¬ ascii "ON" <+: t) (hwave : ¬ ascii "WVTP" <+: t)
    {id : ℕ} (hnum : numericId t = some id) (hset : ¬ (id = outputOff ∨ id = outputOn))
    (hne : id ≠ Scpi.wave)

theorem nameCase (t : List UInt8) : NameCase t := by
  by_cases hoff : ascii "OFF" <+: t
  · exact .off hoff
  by_cases hon : ascii "ON" <+: t
  · exact .on hoff hon
  by_cases hwave : ascii "WVTP" <+: t
  · exact .wave hoff hon hwave
  rcases hnum : numericId t with _ | id
  · exact .other hoff hon hwave hnum
  · obtain ⟨hset, hne⟩ := of_numericId_eq_some hnum
    exact .numeric hoff hon hwave hnum hset hne

/-- What the command of a line can be. -/
inductive CommandCase (line : List UInt8) : Prop
  | sets {id : ℕ} (hid : findId commands (firstRun preParametersDelimiter line) = some id)
    (hset : id = setOutput ∨ id = setParameters) (hsets : setsParameters line)
  | query (hid : findId commands (firstRun preParametersDelimiter line) = some getParameters)
    (hsets : ¬ setsParameters line)
  | other (hid : findId commands (firstRun preParametersDelimiter line) = none)
    (hsets : ¬ setsParameters line)

theorem commandCase (line : List UInt8) : CommandCase line := by
  have hfind := findId_commands (firstRun preParametersDelimiter line)
  split_ifs at hfind with houtp hquery hbswv
  · exact .sets hfind (.inl rfl) (.inl houtp)
  · exact .query hfind fun h ↦ h.elim houtp fun h ↦ h.2 hquery
  · exact .sets hfind (.inr rfl) (.inr ⟨hbswv, hquery⟩)
  · exact .other hfind fun h ↦ h.elim houtp fun h ↦ hbswv h.1

/-! ### From the text to the settings -/

/-- A parameter list whose numbers follow is walked to its end. The induction is on the list, a
token or a pair of tokens at a time. -/
theorem parametersText_eq_walk (ch : UInt32) : ∀ (ts : List (List UInt8)) (value : Double),
    numbersFollow ts → parametersText ch ts value = .ok (walk ch ts)
  | [], _, _ => rfl
  | t :: ts, value, h => by
    rw [parametersText, findId_parameters, walk.eq_def]
    rw [numbersFollow.eq_def] at h
    dsimp only at h ⊢
    cases nameCase t with
    | off hoff =>
      rw [if_pos hoff] at h
      simp only [if_pos hoff, true_or, if_true, parametersText_eq_walk ch ts _ h, map_ok]
    | on hoff hon =>
      rw [if_neg hoff, if_pos hon] at h
      simp only [if_neg hoff, if_pos hon, or_true, if_true, parametersText_eq_walk ch ts _ h,
        map_ok]
    | wave hoff hon hwave =>
      -- whatever follows the name of the wave form is dropped
      simp only [if_neg hoff, if_neg hon, if_pos hwave] at h ⊢
      rw [if_neg (by decide)]
      rcases ts with _ | ⟨v, vs⟩
      · rfl
      · simp only [if_true, parametersText_eq_walk ch vs _ h, map_ok]
    | other hoff hon hwave hnum =>
      simp only [if_neg hoff, if_neg hon, if_neg hwave, hnum] at h ⊢
      rcases ts with _ | ⟨v, vs⟩
      · rfl
      · exact parametersText_eq_walk ch (v :: vs) value (by simpa using h)
    | numeric hoff hon hwave hnum hset hne =>
      simp only [if_neg hoff, if_neg hon, if_neg hwave, hnum] at h ⊢
      rw [if_neg hset]
      rcases ts with _ | ⟨v, vs⟩
      · simp at h
      · simp only [Option.isSome_some, if_true, Bool.and_eq_true] at h
        obtain ⟨x, hx⟩ := Option.isSome_iff_exists.1 h.1
        simp only [if_neg hne, hx, Option.getD_some, parametersText_eq_walk ch vs _ h.2, map_ok]

/-- A command line with a command asks for its settings. -/
theorem commandText_eq (ch : UInt32) {line : List UInt8} (readType : ReadType) (uninit : Double)
    (hc : ∃ c ∈ line, c ≠ preParametersDelimiter)
    (hn : setsParameters line → numbersFollow (parameterList line)) :
    ∃ readType', commandText ch line readType uninit =
      .ok (readType', if setsParameters line then walk ch (parameterList line) else []) := by
  rw [commandText, nextRun_eq (runs_ne_nil hc)]
  dsimp only
  cases commandCase line with
  | sets hid hset hsets =>
    simp only [hid, if_pos hset, if_pos hsets]
    rw [← parameterList, parametersText_eq_walk ch _ _ (hn hsets)]
    exact ⟨readType, rfl⟩
  | query hid hsets =>
    rw [hid, if_neg hsets]
    exact ⟨.rtParameters, rfl⟩
  | other hid hsets =>
    rw [hid, if_neg hsets]
    exact ⟨readType, rfl⟩

/-- The settings of the command lines, in order. -/
theorem commandsText_eq (ch : UInt32) (uninit : ℕ → Double) {lines : List (List UInt8)} :
    ∀ (k : ℕ) (readType : ReadType),
      (∀ line ∈ lines, ∃ c ∈ line, c ≠ preParametersDelimiter) →
      (∀ line ∈ lines, setsParameters line → numbersFollow (parameterList line)) →
      ∃ readType', commandsText ch uninit k lines readType =
        .ok (readType', lines.flatMap fun line ↦
          if setsParameters line then walk ch (parameterList line) else []) := by
  induction lines with
  | nil => exact fun k readType _ _ ↦ ⟨readType, rfl⟩
  | cons line lines ih =>
    intro k readType hc hn
    obtain ⟨readType₁, h₁⟩ := commandText_eq ch readType (uninit k)
      (hc line List.mem_cons_self) (hn line List.mem_cons_self)
    obtain ⟨readType₂, h₂⟩ := ih (k + 1) readType₁
      (fun l hl ↦ hc l (List.mem_cons_of_mem _ hl)) (fun l hl ↦ hn l (List.mem_cons_of_mem _ hl))
    exact ⟨readType₂, by rw [commandsText, h₁, ok_bind]; dsimp only; rw [h₂]; rfl⟩

/-- **A well-formed text is parsed to its settings.** -/
theorem lineText_eq {s : List UInt8} (h : WellFormed s) (uninit : ℕ → Double) :
    ∃ ch readType, lineText s uninit = .ok (ch, readType, settings s) := by
  rw [lineText, nextRun_eq h.initiator]
  dsimp only
  rw [findId_initiators, settings]
  by_cases hid : ascii "IDN-SGLT-PRI?" <+: firstRun initiatorDelimiter s
  · rw [if_pos hid, if_pos (.inl hid)]
    exact ⟨0, .rtIdentification, rfl⟩
  rw [if_neg hid]
  by_cases hc : ascii "C" <+: firstRun initiatorDelimiter s
  · obtain ⟨readType, hlines⟩ := commandsText_eq
      (channelOf (firstRun initiatorDelimiter s)) uninit 0 .rtNone h.commands h.numbers
    rw [if_pos hc, if_neg (by simp [hid, hc])]
    refine ⟨channelOf (firstRun initiatorDelimiter s), readType, ?_⟩
    dsimp only
    rw [if_neg (by decide), ← channelOf, ← commandLines, hlines]
    rfl
  · rw [if_neg hc, if_pos (.inr hc)]
    exact ⟨0, .rtNone, rfl⟩

/-- **The parser in place makes exactly the settings that the line asks for.** The line may stand
anywhere in a buffer of any size, with anything around it, and the uninitialized local does not
matter. -/
theorem parseScpi_settings {n : ℕ} {b : Buffer n} {pos : ℕ} {s : List UInt8} (h : WellFormed s)
    (hb : s ++ [0] <+: b.bytes.drop pos) (uninit : ℕ → Double) :
    ∃ run, parseScpi b pos uninit = .ok run ∧ run.calls = settings s := by
  obtain ⟨ch, readType, hline⟩ := lineText_eq h uninit
  obtain ⟨run, hrun, -, hq⟩ := (parseScpi_simulates ⟨h.nulFree, hb⟩ uninit).of_eq_ok hline
  exact ⟨run, hrun, by rw [Prod.mk.injEq, Prod.mk.injEq] at hq; exact hq.2.2⟩

/-- A line that sets a wave and turns the output of the second channel on. -/
def exampleLine : List UInt8 :=
  ascii "C2:BSWV WVTP,SINE,FRQ,1000,AMP,2.5;OUTP ON"

theorem wellFormed_exampleLine : WellFormed exampleLine where
  nulFree := by decide
  initiator := by decide
  commands := by decide
  numbers := by decide +kernel

theorem parseScpi_settings_exampleLine :
    (∃ run, parseScpi ((Buffer.zero 64).patch 0 exampleLine) 0 (fun _ ↦ .nan) = .ok run ∧
        run.calls = settings exampleLine) ∧
      settings exampleLine =
        [⟨2, 2, .finite 0⟩, ⟨2, 3, .finite 1000⟩, ⟨2, 4, .finite (5 / 2)⟩, ⟨2, 1, .finite 1⟩] :=
  ⟨parseScpi_settings wellFormed_exampleLine (by decide) _, by decide +kernel⟩

end EspBode
