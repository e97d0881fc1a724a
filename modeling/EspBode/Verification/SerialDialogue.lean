import EspBode.Foundations.Binary64
import EspBode.Foundations.LineProgress
import EspBode.Foundations.LineReplay
import EspBode.Verification.DriverRuns

/-!
# The serial dialogue with the AWG

`set` and `get` on an asynchronous serial line to an AWG that works at its own pace: it answers a
line that starts with W by an empty line and a line that starts with R by one line of a limited
length, it ignores an empty line, and nothing is assumed about other lines.

Both methods write commands and queries in the order that goes with such a peer (`obeys_set`,
`obeys_get`), and that is all that has to be shown of the driver. A dialogue that obeys a line
protocol keeps the line in step, whatever the timing, by the rules of the library; the rules are
syntax-directed, so the proofs go along the source: a command, a wait that discards the answer, a
query, a wait, a reading.

Three results follow for any run of calls:

* **it stays in step** (`serial_in_step`): no byte is unread or on its way when no call is running,
  and every response was read for the query that was written last before it;
* **no call waits for ever** (`serial_calls_end`): whatever has happened before, there are steps
  that bring the running call to its end;
* **it is a run against a peer** (`serial_calls_converse`) that gives the answers that were read.

The empty line between two queries is there because `get` ends its line twice. It is ignored, so it
counts for neither.
-/

namespace EspBode

/-- How the AWG may answer a line. -/
def awgAnswers (line answer : List UInt8) : Bool :=
  match line with
  | [] => answer == []
  | c :: _ =>
    if c = chr 'W' then answer == ascii "\n"
    else if c = chr 'R' then
      answer.getLast? == some (chr '\n') && !answer.dropLast.contains (chr '\n') &&
        decide (answer.length ≤ awgResponseLength)
    else true

/-- The line starts with the letter. -/
def startsWith (letter : UInt8) (line : List UInt8) : Bool :=
  line.head? == some letter

theorem startsWith_eq {letter : UInt8} {line : List UInt8} (h : startsWith letter line) :
    ∃ rest, line = letter :: rest := by
  rcases line with _ | ⟨c, rest⟩
  · exact absurd h (by simp [startsWith])
  · exact ⟨rest, by simpa [startsWith] using h⟩

theorem awgAnswers_query {line answer : List UInt8} (hline : startsWith (chr 'R') line)
    (h : awgAnswers line answer) : ∃ reply, chr '\n' ∉ reply ∧
      reply.length < awgResponseLength ∧ answer = reply ++ [chr '\n'] := by
  obtain ⟨rest, rfl⟩ := startsWith_eq hline
  rw [awgAnswers, if_neg (by decide), if_pos rfl] at h
  simp only [Bool.and_eq_true, beq_iff_eq, Bool.not_eq_true', decide_eq_true_eq] at h
  obtain ⟨⟨hlast, hmem⟩, hlength⟩ := h
  have hanswer : answer.dropLast ++ [chr '\n'] = answer := List.dropLast_append_getLast? _ hlast
  refine ⟨answer.dropLast, by simpa using hmem, ?_, hanswer.symm⟩
  rw [← hanswer, List.length_append, List.length_singleton] at hlength
  omega

/-- There is an answer to every line. -/
theorem exists_awgAnswers : ∀ line, ∃ answer, awgAnswers line answer
  | [] => ⟨[], rfl⟩
  | c :: line => by
    refine ⟨ascii "\n", ?_⟩
    rw [awgAnswers]
    split_ifs <;> rfl

/-- Commands and queries of the AWG. -/
def awgProtocol : LineProtocol where
  newline := chr '\n'
  answers := awgAnswers
  isCommand := startsWith (chr 'W')
  isQuery := startsWith (chr 'R')
  maxLength := awgResponseLength
  exists_answers := exists_awgAnswers
  answers_nil h := by simpa [awgAnswers] using h
  answers_command hw h := by
    obtain ⟨rest, rfl⟩ := startsWith_eq hw
    rw [awgAnswers, if_pos rfl] at h
    exact beq_iff_eq.1 h
  answers_query := awgAnswers_query
  not_isQuery_nil := rfl
  not_isQuery hw := by
    obtain ⟨rest, rfl⟩ := startsWith_eq hw
    rfl

/-- A call of the driver, for a channel and a parameter of its tables. -/
inductive AwgCall
  | set (retries channel : UInt32) (paramId : ℕ) (h : AwgFy.Valid channel paramId) (value : Double)
  | get (retries channel : UInt32) (paramId : ℕ) (h : AwgFy.Valid channel paramId)

/-- What the call does; its result is not used. -/
def AwgCall.program (pf : Platform) : AwgCall → Dialogue Unit
  | .set retries channel paramId _ value => do
    let _ ← AwgFy.set pf (awgFy6900 retries) channel paramId value
  | .get retries channel paramId _ => do
    let _ ← AwgFy.get pf (awgFy6900 retries) channel paramId

namespace AwgFy

/-! ### The methods keep to the order -/

variable (pf : Platform) {awg : AwgFy} {channel : UInt32} {paramId : ℕ} {row : ParamTranslator}

/-- `get` asks, waits, and reads a line. -/
theorem obeys_get (h : Valid channel paramId) (hrow : entry awg.pt paramId = .ok row) :
    awgProtocol.Obeys (get pf awg channel paramId) .quiet := by
  rw [get_eq pf h hrow]
  exact ⟨_, .ask (q := [chr 'R', channelLetter channel, parameterLetter paramId]) rfl
    (newline_not_mem_letters (chr 'R') (by decide) channel paramId),
    _, .query _, ⟨_, rfl⟩, rfl, Nat.le_refl _, fun _ ↦ rfl⟩

/-- A pass of `set` gives a command, waits and discards the answer, and may ask then. -/
theorem obeys_attempt (h : Valid channel paramId) (hrow : entry awg.pt paramId = .ok row)
    {l : Locals} (hcommand : l.command = commandHead channel paramId) (setValue : Double) :
    awgProtocol.Obeys (attempt pf awg channel paramId l setValue) .quiet := by
  have hhead : chr '\n' ∉ l.command :=
    hcommand ▸ newline_not_mem_letters (chr 'W') (by decide) channel paramId
  refine ⟨_, .start hhead, _, .more (pf.print_line _), _, .complete ?_, _, .command, rfl, ?_⟩
  · rw [hcommand]
    rfl
  show awgProtocol.Obeys (if l.bValidate then _ else _) .quiet
  rcases l.bValidate with _ | _
  · exact rfl
  · refine (obeys_get pf h hrow).bind awgProtocol fun _ ↦ ?_
    exact rfl

/-- `set` makes such passes. -/
theorem obeys_set (h : Valid channel paramId) (hrow : entry awg.pt paramId = .ok row)
    (value : Double) : awgProtocol.Obeys (set pf awg channel paramId value) .quiet := by
  rw [set_eq pf h hrow]
  exact LineProtocol.Obeys.attempts awgProtocol
    (obeys_attempt pf h hrow (command_prepare pf _ value)) _ _

end AwgFy

/-- A call keeps to the order. -/
theorem AwgCall.obeys_program (pf : Platform) (call : AwgCall) :
    awgProtocol.Obeys (call.program pf) .quiet := by
  rcases call with ⟨retries, channel, paramId, h, value⟩ | ⟨retries, channel, paramId, h⟩
  all_goals obtain ⟨row, hrow⟩ := exists_entry pt6900 h.paramId_lt
  all_goals have hentry : entry (awgFy6900 retries).pt paramId = .ok row := hrow
  · refine (AwgFy.obeys_set pf h hentry value).bind awgProtocol fun _ ↦ ?_
    exact rfl
  · refine (AwgFy.obeys_get pf h hentry).bind awgProtocol fun _ ↦ ?_
    exact rfl

/-! ### Runs of calls -/

open Machine (runFrom)
open Dialogue (converse inOrder)
open SerialLine (answered exchanges written heard)

/-- **The dialogue stays in step**: in every run of calls, with the bytes arriving at any time, no
byte is unread or on its way when no call is running, nor will one be sent for what was written; and
the queries that the AWG has answered were read, in order, each reading being the answer to the
query that was written last before it. At most one answer is not read yet, and none if no call is
running. -/
theorem serial_in_step (pf : Platform) (events : List (SerialEvent AwgCall)) :
    ∃ s past, runFrom (SerialLine.step (chr '\n') awgAnswers (AwgCall.program pf)) {} events =
        .ok (s, past) ∧
      (s.running = none →
        s.rx = [] ∧ s.inFlight = [] ∧ (s.outgoing = [] ∨ s.outgoing = ascii "\n")) ∧
      ∃ read unread, answered (startsWith (chr 'R')) past = read ++ unread ∧
        unread.length ≤ 1 ∧ (s.running = none → unread = []) ∧
        List.Forall₂ (fun a e ↦ e.1 = a.1 ++ ascii "\n\n" ∧ a.2 = e.2 ++ ascii "\n") read
          (exchanges [] past) := by
  obtain ⟨s, past, hrun, hstep⟩ := LineProtocol.exists_run_inStep (p := awgProtocol)
    (AwgCall.obeys_program pf) events
  refine ⟨s, past, hrun, fun hs ↦ ?_, ?_⟩
  · obtain ⟨hrx, hin, hout, -⟩ := (LineProtocol.inStep_none hs).1 hstep
    exact ⟨hrx, hin, hout⟩
  · obtain ⟨unread, hone, hnone, read, hanswered, hfits⟩ := hstep.exists_read
    exact ⟨read, unread, hanswered, hone, hnone, hfits⟩

/-- **No call waits for ever**: whatever has happened before, the running call can come to its
end. -/
theorem serial_calls_end (pf : Platform) {events : List (SerialEvent AwgCall)} {s : SerialLine}
    {past : List SerialAction}
    (hrun : runFrom (SerialLine.step (chr '\n') awgAnswers (AwgCall.program pf)) {} events =
      .ok (s, past)) :
    ∃ events' s' out, runFrom (SerialLine.step (chr '\n') awgAnswers (AwgCall.program pf)) s
      events' = .ok (s', out) ∧ s'.running = none := by
  obtain ⟨s₁, past₁, hrun₁, hstep⟩ := LineProtocol.exists_run_inStep (p := awgProtocol)
    (AwgCall.obeys_program pf) events
  obtain ⟨rfl, rfl⟩ := Prod.mk.inj (Except.ok.inj (hrun₁.symm.trans hrun))
  exact hstep.ends

/-- **Runs on the line are runs against a peer**: what the calls have written when none of them is
running is what they write, one behind the other, against a peer that gives the answers that were
read. -/
theorem serial_calls_converse (pf : Platform) {events : List (SerialEvent AwgCall)}
    {s : SerialLine} {past : List SerialAction}
    (hrun : runFrom (SerialLine.step (chr '\n') awgAnswers (AwgCall.program pf)) {} events =
      .ok (s, past)) (hs : s.running = none) :
    ∃ calls peer, calls.Sublist (requested events) ∧
      converse peer (inOrder (AwgCall.program pf) calls) [] = (.ok (), written past) ∧
      ∀ e ∈ heard [] past, peer e.1 = e.2 ++ ascii "\n" :=
  LineProtocol.exists_converse (p := awgProtocol) (AwgCall.obeys_program pf) hrun hs

/-- A whole query: the driver polls before the answer comes, and reads between its bytes. -/
example : (runFrom (SerialLine.step (chr '\n') awgAnswers
      (AwgCall.program (referencePlatform .binary64))) {}
      [.call (.get 0 1 4 ⟨by decide, by decide⟩), .proceed, .proceed, .take (ascii "70\n"),
        .proceed, .arrive, .proceed, .proceed, .proceed, .giveUp, .arrive, .arrive, .proceed,
        .proceed, .proceed]).map
      (fun r ↦ (r.1.running.isNone, r.1.rx, r.1.inFlight, r.1.outgoing, r.2)) =
    .ok (true, [], [], ascii "\n", [.write (ascii "RMA\n\n"),
      .answer (ascii "RMA") (ascii "70\n"), .response (ascii "70")]) := by
  rfl

end EspBode
