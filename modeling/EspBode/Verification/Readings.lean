import EspBode.Verification.ScpiSettings

/-!
# Where the settings come from

The parser on texts once more, with what `lineText` leaves out: each setting together with the token
that was taken for its name and the token that was taken for its value, and the settings that are
made before a line ends at a null token. `lineTrace_eq` says that nothing else is different.

A token is taken for a name as soon as it begins with an entry of the table, wherever it stands; a
token that is taken for nothing is passed over alone. So what a token is depends on all the tokens
before it in its list, and `readParameters` is that walk.

A `Trace` is total where the parser stops. A null token is a flag at its end and not an error that
throws the settings away, so traces are put together by appending them, and one with the flag hides
what would follow. `outcome` forgets the flag by turning it into the fault again; it commutes with
appending, and with that the agreement of the two parsers is shown part by part, from a parameter
list up to a line.

Through it the trace says two things about the parser in place, where nothing is in a text of its
own: which fault it ends with, and which settings it has made if it returns
(`parseScpi_eq_error_iff`, `calls_eq_madeCalls`).
-/

namespace EspBode

namespace Scpi

/-- A setting, and the tokens it was made from. -/
structure Reading where
  /-- The command line, counted from the initiator. -/
  line : ℕ
  /-- The token of its parameter list that is taken for a name. -/
  index : ℕ
  id : ℕ
  /-- The token that is taken for a value. -/
  source : Option (List UInt8)
  value : Double
  deriving DecidableEq, Repr

/-- The settings that are made, in order, and whether a null token ends them. -/
structure Trace where
  readings : List Reading
  nullToken : Bool
  deriving DecidableEq, Repr

namespace Trace

/-- No more settings. -/
def stop : Trace :=
  ⟨[], false⟩

/-- The null token is used. -/
def null : Trace :=
  ⟨[], true⟩

/-- A setting before others. -/
def cons (r : Reading) (t : Trace) : Trace :=
  ⟨r :: t.readings, t.nullToken⟩

/-- One trace, and then another unless the first ends at a null token. -/
def append (t t' : Trace) : Trace :=
  if t.nullToken then t else ⟨t.readings ++ t'.readings, t'.nullToken⟩

/-- The settings on a channel. -/
def calls (ch : UInt32) (t : Trace) : List SetCall :=
  t.readings.map fun r ↦ ⟨ch, r.id, r.value⟩

/-- What is left of a trace when only its settings are kept, if it ends well. -/
def outcome (ch : UInt32) (t : Trace) : Except Fault (List SetCall) :=
  if t.nullToken then .error .nullPointer else .ok (t.calls ch)

theorem outcome_cons (ch : UInt32) (r : Reading) (t : Trace) :
    (cons r t).outcome ch = (⟨ch, r.id, r.value⟩ :: ·) <$> t.outcome ch := by
  obtain ⟨readings, _ | _⟩ := t <;> rfl

theorem outcome_append (ch : UInt32) (t t' : Trace) :
    (append t t').outcome ch = do
      let calls ← t.outcome ch
      let rest ← t'.outcome ch
      return calls ++ rest := by
  obtain ⟨readings, _ | _⟩ := t
  · obtain ⟨readings', _ | _⟩ := t'
    · exact congrArg Except.ok List.map_append
    · rfl
  · rfl

end Trace

/-- `process_parameters` on the tokens of a parameter list; `i` counts those already passed. -/
def readParameters (line : ℕ) : ℕ → List (List UInt8) → Double → Trace
  | _, [], _ => .stop
  | i, t :: ts, value =>
    match findId parameters t with
    | none => readParameters line (i + 1) ts value
    | some id =>
      if id = outputOff ∨ id = outputOn then
        .cons ⟨line, i, id, none, .ofNat id⟩ (readParameters line (i + 1) ts (.ofNat id))
      else
        match ts with
        | [] => if id = wave then .cons ⟨line, i, id, none, .ofNat Siglent.sine⟩ .stop else .null
        | v :: ts =>
          let value := if id = wave then .ofNat Siglent.sine else (sscanfLf v).getD value
          .cons ⟨line, i, id, some v, value⟩ (readParameters line (i + 2) ts value)

/-- One command line. -/
def readCommand (k : ℕ) (line : List UInt8) (uninit : Double) : Trace :=
  match nextRun preParametersDelimiter line with
  | none => .null
  | some (command, rest) =>
    match findId commands command with
    | none => .stop
    | some id =>
      if id = setOutput ∨ id = setParameters then
        readParameters k 0 (runs parametersDelimiter rest) uninit
      else .stop

/-- The command lines of a channel. -/
def readCommands (uninit : ℕ → Double) : ℕ → List (List UInt8) → Trace
  | _, [] => .stop
  | k, line :: lines => (readCommand k line (uninit k)).append (readCommands uninit (k + 1) lines)

/-- The channel of a line, and its trace. -/
def lineTrace (s : List UInt8) (uninit : ℕ → Double) : UInt32 × Trace :=
  match nextRun initiatorDelimiter s with
  | none => (0, .null)
  | some (initiator, rest) =>
    match findId initiators initiator with
    | none => (0, .stop)
    | some id =>
      if id = idRequest then (0, .stop)
      else (channelOf initiator, readCommands uninit 0 (runs commandDelimiter rest))

/-- The settings that are made while a line is parsed, also if it ends at a null token. -/
def madeCalls (s : List UInt8) (uninit : ℕ → Double) : List SetCall :=
  (lineTrace s uninit).2.calls (lineTrace s uninit).1

/-! ### The same parser -/

theorem readParameters_outcome (ch : UInt32) (line : ℕ) : ∀ (i : ℕ) (ts : List (List UInt8))
    (value : Double), (readParameters line i ts value).outcome ch = parametersText ch ts value
  | _, [], _ => rfl
  | i, t :: ts, value => by
    rw [readParameters, parametersText]
    rcases findId parameters t with _ | id
    · exact readParameters_outcome ch line (i + 1) ts value
    dsimp only
    by_cases hid : id = outputOff ∨ id = outputOn
    · rw [if_pos hid, if_pos hid, Trace.outcome_cons, readParameters_outcome ch line]
    rw [if_neg hid, if_neg hid]
    rcases ts with _ | ⟨v, ts⟩
    · dsimp only
      rcases eq_or_ne id wave with hwave | hwave
      · rw [if_pos hwave, if_pos hwave, hwave]
        rfl
      · rw [if_neg hwave, if_neg hwave]
        rfl
    · dsimp only
      rw [Trace.outcome_cons, readParameters_outcome ch line]

theorem readCommand_outcome (ch : UInt32) (k : ℕ) (line : List UInt8) (readType : ReadType)
    (uninit : Double) :
    (readCommand k line uninit).outcome ch = Prod.snd <$> commandText ch line readType uninit := by
  rw [readCommand, commandText]
  rcases nextRun preParametersDelimiter line with _ | ⟨command, rest⟩
  · rfl
  dsimp only
  rcases findId commands command with _ | id
  · rfl
  dsimp only
  by_cases hid : id = setOutput ∨ id = setParameters
  · rw [if_pos hid, if_pos hid, readParameters_outcome]
    rcases parametersText ch (runs parametersDelimiter rest) uninit with e | calls <;> rfl
  · rw [if_neg hid, if_neg hid]
    rfl

theorem readCommands_outcome (ch : UInt32) (uninit : ℕ → Double) {lines : List (List UInt8)} :
    ∀ (k : ℕ) (readType : ReadType), (readCommands uninit k lines).outcome ch =
      Prod.snd <$> commandsText ch uninit k lines readType := by
  induction lines with
  | nil => exact fun _ _ ↦ rfl
  | cons line lines ih =>
    intro k readType
    rw [readCommands, commandsText, Trace.outcome_append, readCommand_outcome ch k line readType]
    rcases commandText ch line readType (uninit k) with e | ⟨readType', calls⟩
    · rfl
    · rw [map_ok, ok_bind, ok_bind, ih (k + 1) readType']
      dsimp only
      rcases commandsText ch uninit (k + 1) lines readType' with e | q <;> rfl

/-- **The trace is the line's.** -/
theorem lineTrace_eq (s : List UInt8) (uninit : ℕ → Double) :
    (lineTrace s uninit).2.outcome (lineTrace s uninit).1 =
      (fun q ↦ q.2.2) <$> lineText s uninit := by
  rw [lineTrace, lineText]
  rcases nextRun initiatorDelimiter s with _ | ⟨initiator, rest⟩
  · rfl
  dsimp only
  rcases findId initiators initiator with _ | id
  · rfl
  dsimp only
  rcases eq_or_ne id idRequest with hid | hid
  · rw [if_pos hid, if_pos hid]
    rfl
  · rw [if_neg hid, if_neg hid]
    show (readCommands uninit 0 _).outcome (channelOf initiator) = _
    rw [readCommands_outcome (channelOf initiator) uninit 0 .rtNone, channelOf]
    rcases commandsText _ uninit 0 (runs commandDelimiter rest) .rtNone with e | q <;> rfl

end Scpi

open Scpi

variable {n : ℕ} {b : Buffer n} {pos : ℕ} {s : List UInt8}

/-- **A null token of the trace is one of the parser in place.** -/
theorem parseScpi_eq_error_iff (hb : b.IsString pos s) (uninit : ℕ → Double) :
    parseScpi b pos uninit = .error .nullPointer ↔ (lineTrace s uninit).2.nullToken := by
  rw [(parseScpi_simulates hb uninit).eq_error_iff]
  have htrace := lineTrace_eq s uninit
  rw [Trace.outcome] at htrace
  rcases hline : lineText s uninit with e | q
  · rw [hline] at htrace
    split_ifs at htrace with hnull
    · obtain rfl := Except.error.inj htrace
      simpa using hnull
    · exact absurd htrace (by simp [map_eq_bind])
  · rw [hline, map_ok] at htrace
    split_ifs at htrace with hnull
    simpa using hnull

/-- **The settings of the trace are those of the parser in place**, if it returns. -/
theorem calls_eq_madeCalls (hb : b.IsString pos s) {uninit : ℕ → Double} {run : ScpiRun n}
    (hrun : parseScpi b pos uninit = .ok run) : run.calls = madeCalls s uninit := by
  obtain ⟨q, hq, -, hrel⟩ := (parseScpi_simulates hb uninit).exists_of_eq_ok hrun
  have htrace := lineTrace_eq s uninit
  rw [hq, map_ok, Trace.outcome] at htrace
  split_ifs at htrace with hnull
  have hcalls : run.calls = q.2.2 := by rw [← hrel]
  rw [hcalls, ← Except.ok.inj htrace, madeCalls]

end EspBode
