import EspBode.Foundations.Binary64
import EspBode.Verification.AppliedNumbers
import EspBode.Verification.DriverRuns
import EspBode.Verification.ParameterLists

/-!
# Which lines drive the AWG

A line that begins with `C` is taken for a channel line, whatever follows the letter: the channel is
the number that stands there, or 0, and the driver lets 0 pass. So a line drives the AWG exactly if
it begins with the letter, its number is at most 2, and it asks for a setting
(`writes_nothing_iff`).

`Drives` is a condition on the text. It speaks of the initiator as `sscanf` reads it, a number that
may be missing, be signed or be followed by anything, and of the tokens of the commands; the values
do not matter, and neither does it matter whether they are numbers.

* **The parser**: the settings that a parameter list asks for are none exactly if no token in a
  place for names looks like a name (`readings_readParameters_eq_nil_iff`), and a name that is found
  is one of the table, so the driver accepts its number.
* **The driver**: a setting for a channel that passes the test writes its command first of all, and
  one for another channel writes nothing and is false. So a list of settings writes nothing exactly
  if no channel of it passes (`converse_perform`). The channel is one for the whole line.

The settings are performed as they are found, and a later fault of the parser does not take them
back. The theorem is about lines on which the parser returns, where there is no such fault.
-/

namespace EspBode

namespace Scpi

/-- Some command of the line is followed by a token that is taken for a parameter. -/
def AsksSettings (s : List UInt8) : Prop :=
  ∃ line ∈ commandLines s, setsParameters line ∧ ∃ t ∈ parameterList line, LooksLikeName t

/-- The line is addressed to something that the driver takes for a channel, and asks for a setting
on it. -/
structure Drives (s : List UInt8) : Prop where
  addressed : Addressed s
  channel_le : channelOf (firstRun initiatorDelimiter s) ≤ AwgFy.channels
  asksSettings : AsksSettings s

/-! ### Readings -/

theorem findId_parameters_lt {t : List UInt8} {id : ℕ} (h : findId parameters t = some id) :
    id < parameterCount := by
  obtain ⟨hlt, -⟩ := List.findIdx?_eq_some_iff_getElem.1 h
  exact hlt

/-- Only entries of the table are set. -/
theorem id_lt_readParameters (line : ℕ) : ∀ (i : ℕ) (ts : List (List UInt8)) (value : Double),
    ∀ r ∈ (readParameters line i ts value).readings, r.id < parameterCount
  | _, [], _ => by simp [readParameters, Trace.stop]
  | i, t :: ts, value => by
    rw [readParameters]
    rcases hid : findId parameters t with _ | id
    · exact id_lt_readParameters line _ ts _
    have hlt : id < parameterCount := findId_parameters_lt hid
    dsimp only
    rcases ts with _ | ⟨v, ts⟩
    · split_ifs
      · exact forall_mem_cons_readings.2 ⟨hlt, id_lt_readParameters line _ [] _⟩
      · exact forall_mem_cons_readings.2 ⟨hlt, by simp [Trace.stop]⟩
      · simp [Trace.null]
    · split_ifs <;>
        exact forall_mem_cons_readings.2 ⟨hlt, id_lt_readParameters line _ _ _⟩

/-- A parameter list that is read to its end sets nothing exactly if nothing in it looks like a
name. -/
theorem readings_readParameters_eq_nil_iff {line i : ℕ} {ts : List (List UInt8)} {value : Double}
    (h : (readParameters line i ts value).nullToken = false) :
    (readParameters line i ts value).readings = [] ↔ ∀ t ∈ ts, ¬ LooksLikeName t := by
  rw [← readParameters_eq_stop_iff line (i := i)]
  rcases htrace : readParameters line i ts value with ⟨readings, nullToken⟩
  rw [htrace] at h
  obtain rfl : nullToken = false := h
  exact ⟨fun h ↦ congrArg (Trace.mk · false) h, fun h ↦ congrArg Trace.readings h⟩

/-- So do command lines that are read to their end. -/
theorem readings_readCommands_eq_nil_iff (uninit : ℕ → Double) {lines : List (List UInt8)} :
    ∀ {k : ℕ}, (∀ line ∈ lines, LineComplete line) →
      ((readCommands uninit k lines).readings = [] ↔
        ¬ ∃ line ∈ lines, setsParameters line ∧ ∃ t ∈ parameterList line, LooksLikeName t) := by
  induction lines with
  | nil => simp [readCommands, Trace.stop]
  | cons line lines ih =>
    intro k h
    obtain ⟨hline, hlines⟩ := List.forall_mem_cons.1 h
    have hnull := (nullToken_readCommand k line (uninit k)).2 hline
    have hfirst : (readCommand k line (uninit k)).readings = [] ↔
        ¬ (setsParameters line ∧ ∃ t ∈ parameterList line, LooksLikeName t) := by
      rw [readings_readCommand]
      by_cases hsets : setsParameters line
      · rw [readCommand_eq, if_pos hline.1, if_pos hsets] at hnull
        rw [if_pos hsets, readings_readParameters_eq_nil_iff hnull]
        simp [hsets]
      · simp [hsets]
    rw [readCommands, readings_append, hnull, if_neg Bool.false_ne_true, List.append_eq_nil_iff,
      hfirst, ih hlines, List.exists_mem_cons_iff, not_or]

end Scpi

/-! ### The driver behind the parser -/

namespace AwgFy

open Dialogue

/-- The settings are passed to the driver as they are found, and their results are not used. -/
def perform (pf : Platform) (awg : AwgFy) : List SetCall → Dialogue Unit
  | [] => return ()
  | call :: calls => do
    let _ ← set pf awg call.channel call.parameter call.value
    perform pf awg calls

/-- **Settings write nothing exactly if no channel of theirs passes the test.** -/
theorem converse_perform (pf : Platform) (retries : UInt32) (peer : Peer) (calls : List SetCall) :
    (∀ call ∈ calls, call.parameter < Scpi.parameterCount) → ∀ sent, ∃ bytes,
      converse peer (perform pf (awgFy6900 retries) calls) sent = (.ok (), sent ++ bytes) ∧
        (bytes = [] ↔ ∀ call ∈ calls, ¬ call.channel ≤ channels) := by
  induction calls with
  | nil => exact fun _ sent ↦ ⟨[], by rw [List.append_nil]; rfl, by simp⟩
  | cons call calls ih =>
    intro h sent
    obtain ⟨hcall, hcalls⟩ := List.forall_mem_cons.1 h
    by_cases hchannel : call.channel ≤ channels
    · obtain ⟨row, hrow⟩ := exists_entry (awgFy6900 retries).pt hcall
      obtain ⟨ok, rest, hset⟩ := exists_converse_set pf peer ⟨hchannel, hcall⟩ hrow call.value sent
      obtain ⟨bytes, hrun, -⟩ := ih hcalls
        (sent ++ (commandFor pf (awgFy6900 retries) row call.channel call.parameter call.value ++
          rest))
      refine ⟨commandFor pf (awgFy6900 retries) row call.channel call.parameter call.value ++
        rest ++ bytes, ?_, iff_of_false ?_ fun hnone ↦ (List.forall_mem_cons.1 hnone).1 hchannel⟩
      · rw [perform, converse_bind_of_eq peer hset, hrun, List.append_assoc sent]
      · simp [commandFor_ne_nil]
    · have hinvalid : Invalid call.channel call.parameter :=
        .inl (UInt32.not_le.1 hchannel)
      have hset : set pf (awgFy6900 retries) call.channel call.parameter call.value =
          pure false := if_pos hinvalid
      obtain ⟨bytes, hrun, hbytes⟩ := ih hcalls sent
      refine ⟨bytes, ?_, ?_⟩
      · rw [perform, hset]
        exact hrun
      · rw [hbytes, List.forall_mem_cons]
        exact (and_iff_right hchannel).symm

end AwgFy

open AwgFy Dialogue Scpi

/-- **A line drives the AWG exactly if it is addressed to a number up to 2 and asks for a
setting.** -/
theorem writes_nothing_iff {n : ℕ} {b : Buffer n} {pos : ℕ} {s : List UInt8}
    (hb : b.IsString pos s) {uninit : ℕ → Double} {run : ScpiRun n}
    (hrun : parseScpi b pos uninit = .ok run) (pf : Platform) (retries : UInt32) (peer : Peer)
    (sent : List UInt8) :
    ∃ bytes, converse peer (perform pf (awgFy6900 retries) run.calls) sent =
        (.ok (), sent ++ bytes) ∧ (bytes = [] ↔ ¬ Drives s) := by
  -- no token is missing, so the line is read to its end
  have hnull : (lineTrace s uninit).2.nullToken = false := by
    rw [← Bool.not_eq_true, ← parseScpi_eq_error_iff hb, hrun]
    simp
  have hpresent := (lineTrace_nullToken s uninit).1 hnull
  have hids := forall_mem_lineTrace id_lt_readParameters s uninit
  rw [calls_eq_madeCalls hb hrun, madeCalls, Trace.calls]
  obtain ⟨bytes, hbytes, hnone⟩ := converse_perform pf retries peer
    ((lineTrace s uninit).2.readings.map fun r ↦ ⟨(lineTrace s uninit).1, r.id, r.value⟩)
    (List.forall_mem_map.2 hids) sent
  refine ⟨bytes, hbytes, ?_⟩
  rw [hnone, List.forall_mem_map, lineTrace_of_runs (runs_ne_nil hpresent.initiator)]
  by_cases haddressed : Addressed s
  · have hreadings := readings_readCommands_eq_nil_iff uninit (k := 0) (hpresent.lines haddressed)
    rw [if_pos haddressed]
    dsimp only
    constructor
    · intro hall hdrives
      have hne : (readCommands uninit 0 (commandLines s)).readings ≠ [] :=
        fun hnil ↦ hreadings.1 hnil hdrives.asksSettings
      obtain ⟨r, hr⟩ := List.exists_mem_of_ne_nil _ hne
      exact hall r hr hdrives.channel_le
    · intro hno r hr hchannel
      refine List.ne_nil_of_mem hr (hreadings.2 fun hasks ↦ hno ⟨haddressed, hchannel, hasks⟩)
  · rw [if_neg haddressed]
    exact iff_of_true (fun r hr ↦ absurd hr List.not_mem_nil) fun h ↦ haddressed h.addressed

theorem writes_nothing_iff_channel3 :
    ∃ run, parseScpi ((Buffer.zero 64).patch 0 (ascii "C3:OUTP ON")) 0 (fun _ ↦ .nan) = .ok run ∧
      converse (fun _ ↦ []) (perform (referencePlatform .binary64) (awgFy6900 0) run.calls) [] =
        (.ok (), []) := by
  have hstands : ((Buffer.zero 64).patch 0 (ascii "C3:OUTP ON")).IsString 0 (ascii "C3:OUTP ON") :=
    ⟨by decide, by decide⟩
  have hreturns : (fun _ ↦ ()) <$>
      parseScpi ((Buffer.zero 64).patch 0 (ascii "C3:OUTP ON")) 0 (fun _ ↦ .nan) = .ok () := by
    decide +kernel
  obtain ⟨run, hrun, -⟩ := exists_of_map_eq_ok hreturns
  obtain ⟨bytes, hbytes, hnone⟩ := writes_nothing_iff hstands hrun
    (referencePlatform .binary64) 0 (fun _ ↦ []) []
  have hdrives : ¬ Drives (ascii "C3:OUTP ON") := fun h ↦ absurd h.channel_le (by decide +kernel)
  rw [hnone.2 hdrives] at hbytes
  exact ⟨run, hrun, hbytes⟩

/-- **Lines that address no channel drive channel 1**: a letter, a zero or nothing at all instead of
the number, and a number with something behind it. -/
theorem other_lines_drive :
    let lines := [ascii "CX:OUTP ON", ascii "C0:OUTP ON", ascii "C:OUTP ON", ascii "C1X:OUTP ON"]
    lines.map (·.takeWhile (· != initiatorDelimiter)) =
        [ascii "CX", ascii "C0", ascii "C", ascii "C1X"] ∧
      lines.map (fun line ↦ (fun run : ScpiRun 64 ↦ (converse (fun _ ↦ [])
          (perform (referencePlatform .binary64) (awgFy6900 0) run.calls) []).2) <$>
        parseScpi ((Buffer.zero 64).patch 0 line) 0 (fun _ ↦ .nan)) =
      List.replicate 4 (.ok (ascii "WMN1\n")) := by
  decide +kernel

end EspBode
