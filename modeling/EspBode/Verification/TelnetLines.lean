import EspBode.Firmware.TelnetServer
import EspBode.Foundations.Runs

/-!
# The lines a telnet client types

What a telnet stream says as a whole, and when the server hears it. `typedLines` reads the stream at
once: option negotiations and carriage returns are dropped, and what is left is split at the line
feeds. The server reads it piece by piece, with a line buffer that holds the open end of what it has
read so far, cut to its limit; that is the invariant (`readInput_eq`), and how the pieces are cut
plays no part in it as long as no negotiation is cut (`WholeNegotiations`).

What the lines bring about is the pass-through after them (`passThroughAfter`) and what is passed on
to the AWG (`passedOn`), and both depend on which lines count as the command. There are two answers:

* `isPassThroughCommand` is the one that is meant: the whole line trims and upper-cases to the
  command;
* `togglesPassThrough` is the test in `onTelnetInput`, which compares C strings and so stops at the
  first NUL. It is true of one kind of line more (`togglesPassThrough_iff`), the command with a NUL
  and anything else behind it.

The results about the server are about the second one (`Said`), and hold of every stream without a
cut negotiation. Where no line has the command in front of a NUL the two agree, and
`TelnetServer.typed_lines_of_wholeNegotiations` says what was meant of the server.

A negotiation that is cut is read wrongly: `loop()` takes its first byte and returns for want of the
others, and the next call does not know that they belong to it
(`TelnetServer.cut_negotiation_is_typed`).
-/

namespace EspBode

/-! ### The whole stream -/

/-- The stream without its option negotiations, each an IAC and the two bytes after it. -/
def withoutNegotiations : List UInt8 → List UInt8
  | [] => []
  | b :: bs =>
    if b = iac then
      match bs with
      | _ :: _ :: bs => withoutNegotiations bs
      | _ => []
    else b :: withoutNegotiations bs

/-- The text that is typed. -/
def typedText (stream : List UInt8) : List UInt8 :=
  (withoutNegotiations stream).filter (· ≠ chr '\r')

/-- The line buffer's limit. -/
def cutLine (line : List UInt8) : List UInt8 :=
  line.take 256

/-- The lines that are typed. -/
def typedLines (stream : List UInt8) : List (List UInt8) :=
  (completed (chr '\n') (typedText stream)).map cutLine

/-- Every negotiation that begins in the bytes ends in them. -/
def WholeNegotiations : List UInt8 → Bool
  | [] => true
  | b :: bs =>
    if b = iac then
      match bs with
      | _ :: _ :: bs => WholeNegotiations bs
      | _ => false
    else WholeNegotiations bs

/-! ### What lines do -/

/-- The line trims and upper-cases to the command. -/
def isPassThroughCommand (line : List UInt8) : Bool :=
  toUpperCase (trim line) == passThroughCommand

/-- The test of `onTelnetInput`, for which the line ends at its first NUL. -/
def togglesPassThrough (line : List UInt8) : Bool :=
  equalsLiteral (toUpperCase (trim line)) passThroughCommand

/-- The line begins with the command and a NUL. -/
def CommandThenNul (line : List UInt8) : Prop :=
  passThroughCommand ++ [0] <+: toUpperCase (trim line)

instance (line : List UInt8) : Decidable (CommandThenNul line) :=
  inferInstanceAs (Decidable (_ <+: _))

/-- The pass-through after the lines: flipped once for each command. -/
def passThroughAfter (isCommand : List UInt8 → Bool) (passThrough : Bool)
    (lines : List (List UInt8)) : Bool :=
  Bool.not^[lines.countP isCommand] passThrough

/-- What is passed on: the other lines completed while the pass-through is on, each with one line
feed. -/
def passedOn (isCommand : List UInt8 → Bool) : Bool → List (List UInt8) → List UInt8
  | _, [] => []
  | passThrough, line :: lines =>
    if isCommand line then passedOn isCommand (!passThrough) lines
    else (if passThrough then line ++ [chr '\n'] else []) ++ passedOn isCommand passThrough lines

/-- The lines that are handed to `onTelnetInput`. -/
def handedLines (actions : List TelnetAction) : List (List UInt8) :=
  actions.filterMap fun
    | .input line => some line
    | _ => none

/-- The bytes that reach `AWGSerial`. -/
def serialBytes (actions : List TelnetAction) : List UInt8 :=
  actions.flatMap fun
    | .awg bytes => bytes
    | _ => []

@[simp]
theorem handedLines_append (as bs : List TelnetAction) :
    handedLines (as ++ bs) = handedLines as ++ handedLines bs :=
  List.filterMap_append

@[simp]
theorem serialBytes_append (as bs : List TelnetAction) :
    serialBytes (as ++ bs) = serialBytes as ++ serialBytes bs :=
  List.flatMap_append

/-- What is told to the client is neither. -/
theorem handed_serial_tell (bytes : List UInt8) :
    handedLines (bytes.map fun c ↦ .tell [c]) = [] ∧
      serialBytes (bytes.map fun c ↦ .tell [c]) = [] := by
  induction bytes with
  | nil => exact ⟨rfl, rfl⟩
  | cons c bytes ih => exact ih

/-- **Which lines the code takes for the command.** -/
theorem togglesPassThrough_iff (line : List UInt8) :
    togglesPassThrough line ↔ isPassThroughCommand line ∨ CommandThenNul line := by
  rw [togglesPassThrough, equalsLiteral, beq_iff_eq, takeWhile_eq_iff (by decide),
    isPassThroughCommand, beq_iff_eq, CommandThenNul]

example : togglesPassThrough (ascii "passthrough" ++ [0, chr 'z']) ∧
    ¬ isPassThroughCommand (ascii "passthrough" ++ [0, chr 'z']) := by
  decide

theorem togglesPassThrough_eq {line : List UInt8} (h : ¬ CommandThenNul line) :
    togglesPassThrough line = isPassThroughCommand line := by
  rw [Bool.eq_iff_iff, togglesPassThrough_iff, or_iff_left h]

section Commands

variable {isCommand isCommand' : List UInt8 → Bool}

/-- Only what counts as the command among the lines matters. -/
theorem passThroughAfter_congr {lines : List (List UInt8)} (passThrough : Bool)
    (h : ∀ line ∈ lines, isCommand line = isCommand' line) :
    passThroughAfter isCommand passThrough lines =
      passThroughAfter isCommand' passThrough lines := by
  rw [passThroughAfter, passThroughAfter, List.countP_congr fun line hline ↦ by rw [h line hline]]

theorem passedOn_congr {lines : List (List UInt8)} :
    ∀ passThrough, (∀ line ∈ lines, isCommand line = isCommand' line) →
      passedOn isCommand passThrough lines = passedOn isCommand' passThrough lines := by
  induction lines with
  | nil => exact fun _ _ ↦ rfl
  | cons line lines ih =>
    intro passThrough h
    obtain ⟨hline, hlines⟩ := List.forall_mem_cons.1 h
    rw [passedOn, passedOn, hline, ih _ hlines, ih _ hlines]

theorem passThroughAfter_cons (passThrough : Bool) (line : List UInt8)
    (lines : List (List UInt8)) :
    passThroughAfter isCommand passThrough (line :: lines) =
      passThroughAfter isCommand (if isCommand line then !passThrough else passThrough) lines := by
  rw [passThroughAfter, passThroughAfter, List.countP_cons]
  split_ifs with h
  · rw [Function.iterate_succ_apply]
  · rfl

theorem passThroughAfter_append (passThrough : Bool) (as bs : List (List UInt8)) :
    passThroughAfter isCommand passThrough (as ++ bs) =
      passThroughAfter isCommand (passThroughAfter isCommand passThrough as) bs := by
  rw [passThroughAfter, List.countP_append, Nat.add_comm, Function.iterate_add_apply]
  rfl

theorem passedOn_append (passThrough : Bool) (as bs : List (List UInt8)) :
    passedOn isCommand passThrough (as ++ bs) =
      passedOn isCommand passThrough as ++
        passedOn isCommand (passThroughAfter isCommand passThrough as) bs := by
  induction as generalizing passThrough with
  | nil => rfl
  | cons line lines ih =>
    rw [List.cons_append, passedOn, passedOn, passThroughAfter_cons]
    by_cases h : isCommand line
    · rw [if_pos h, if_pos h, if_pos h, ih]
    · rw [if_neg h, if_neg h, if_neg h, ih, List.append_assoc]

end Commands

/-- **What one line does**: it flips the pass-through or is passed on. -/
theorem onTelnetInput_eq (passThrough : Bool) (line reply : List UInt8) :
    (onTelnetInput passThrough line reply).1 =
        passThroughAfter togglesPassThrough passThrough [line] ∧
      handedLines (onTelnetInput passThrough line reply).2 = [] ∧
      serialBytes (onTelnetInput passThrough line reply).2 =
        passedOn togglesPassThrough passThrough [line] := by
  rw [passThroughAfter_cons, passedOn, onTelnetInput]
  by_cases h : togglesPassThrough line
  · rw [if_pos h, if_pos h]
    dsimp only
    rw [if_pos (show equalsLiteral _ _ = true from h)]
    exact ⟨rfl, rfl, rfl⟩
  · rw [if_neg h, if_neg h]
    dsimp only
    rw [if_neg (show ¬ equalsLiteral _ _ = true from h)]
    cases passThrough
    · exact ⟨rfl, rfl, rfl⟩
    · obtain ⟨hhanded, hserial⟩ := handed_serial_tell reply
      refine ⟨rfl, ?_, ?_⟩
      · exact hhanded
      · rw [if_pos rfl, serialBytes_append, hserial]
        rfl

/-! ### One piece -/

theorem withoutNegotiations_cons {b : UInt8} (hb : b ≠ iac) (bs : List UInt8) :
    withoutNegotiations (b :: bs) = b :: withoutNegotiations bs := by
  rw [withoutNegotiations.eq_def]
  exact if_neg hb

theorem withoutNegotiations_append {p : List UInt8} (q : List UInt8) :
    WholeNegotiations p → withoutNegotiations (p ++ q) =
      withoutNegotiations p ++ withoutNegotiations q := by
  fun_induction WholeNegotiations p with
  | case1 => exact fun _ ↦ rfl
  | case2 _ _ bs ih =>
    intro h
    rw [List.cons_append, List.cons_append, List.cons_append, withoutNegotiations, if_pos rfl,
      withoutNegotiations, if_pos rfl]
    exact ih h
  | case3 => simp
  | case4 b bs hb ih =>
    intro h
    rw [List.cons_append, withoutNegotiations_cons hb, withoutNegotiations_cons hb, ih h,
      List.cons_append]

theorem typedText_append {p : List UInt8} (h : WholeNegotiations p) (q : List UInt8) :
    typedText (p ++ q) = typedText p ++ typedText q := by
  rw [typedText, withoutNegotiations_append q h, List.filter_append, typedText, typedText]

/-- What is made of a text, from one state of the pass-through to another. -/
structure Said (passThrough : Bool) (t : List UInt8) (after : Bool)
    (actions : List TelnetAction) : Prop where
  after : after =
    passThroughAfter togglesPassThrough passThrough ((completed (chr '\n') t).map cutLine)
  handed : handedLines actions = (completed (chr '\n') t).map cutLine
  serial : serialBytes actions =
    passedOn togglesPassThrough passThrough ((completed (chr '\n') t).map cutLine)

namespace Said

variable {passThrough after after' : Bool} {t t' : List UInt8}
variable {actions actions' : List TelnetAction}

/-- Nothing is made of an open line. -/
theorem nothing (h : chr '\n' ∉ t) : Said passThrough t passThrough [] := by
  constructor
  all_goals rw [completed_of_not_mem h]
  all_goals rfl

/-- The second part of a text continues the open line of the first. -/
theorem append (h : Said passThrough t after actions)
    (h' : Said after (unfinished (chr '\n') t ++ t') after' actions') :
    Said passThrough (t ++ t') after' (actions ++ actions') := by
  have hcut := (completed_append (chr '\n') t t').1
  constructor
  · rw [hcut, List.map_append, passThroughAfter_append, ← h.after]
    exact h'.after
  · rw [hcut, List.map_append, handedLines_append, h.handed, h'.handed]
  · rw [hcut, List.map_append, passedOn_append, serialBytes_append, h.serial, ← h.after, h'.serial]

/-- What is told to the client does not count. -/
theorem tell (h : Said passThrough t after actions) (told : Bool) (bytes : List UInt8) :
    Said passThrough t after
      (actions ++ if told then bytes.map fun c ↦ .tell [c] else []) := by
  obtain ⟨hhanded, hserial⟩ := handed_serial_tell bytes
  cases told
  · rwa [if_neg Bool.false_ne_true, List.append_nil]
  · rw [if_pos rfl]
    refine ⟨h.after, ?_, ?_⟩
    · rw [handedLines_append, hhanded, List.append_nil, h.handed]
    · rw [serialBytes_append, hserial, List.append_nil, h.serial]

end Said

/-- **A line feed hands the line on.** -/
theorem said_onTelnetInput (passThrough : Bool) {u : List UInt8} (hu : chr '\n' ∉ u)
    (reply : List UInt8) :
    Said passThrough (u ++ [chr '\n']) (onTelnetInput passThrough (cutLine u) reply).1
      (.input (cutLine u) :: (onTelnetInput passThrough (cutLine u) reply).2) := by
  obtain ⟨hafter, hhanded, hserial⟩ := onTelnetInput_eq passThrough (cutLine u) reply
  have hlines : (completed (chr '\n') (u ++ [chr '\n'])).map cutLine = [cutLine u] := by
    rw [completed_append_cons hu]
    rfl
  constructor
  · rw [hlines, hafter]
  · rw [hlines]
    exact congrArg (cutLine u :: ·) hhanded
  · rw [hlines]
    exact hserial

/-- What the inner loop leaves when it has heard the text `t`, counted from the last line feed
before it. -/
structure Heard (scan : TelnetScan) (passThrough : Bool) (t : List UInt8) : Prop where
  rx : scan.rx = []
  returned : scan.returned = false
  lineBuffer : scan.lineBuffer = cutLine (unfinished (chr '\n') t)
  said : Said passThrough t scan.passThrough scan.actions

/-- The line buffer takes a byte of the line, up to its limit. -/
theorem cutLine_concat (u : List UInt8) (b : UInt8) :
    cutLine (u ++ [b]) = if (cutLine u).length < 256 then cutLine u ++ [b] else cutLine u := by
  rw [cutLine, cutLine, List.length_take]
  by_cases h : u.length < 256
  · rw [if_pos (by omega), List.take_of_length_le (by simp; omega),
      List.take_of_length_le (by omega)]
  · rw [if_neg (by omega), List.take_append_of_le_length (by omega)]

/-- **The scan hears what is typed.** Its line buffer holds the open end `u` of what came before. -/
theorem readInput_eq (replies : ℕ → List UInt8) {p : List UInt8} :
    ∀ {k : ℕ} {u : List UInt8} {passThrough : Bool}, WholeNegotiations p → chr '\n' ∉ u →
      Heard (readInput replies k (cutLine u) passThrough p) passThrough (u ++ typedText p) := by
  fun_induction WholeNegotiations p with
  | case1 =>
    intro k u passThrough _ hu
    rw [readInput, typedText, withoutNegotiations, List.filter_nil, List.append_nil]
    exact ⟨rfl, rfl, by rw [unfinished_of_not_mem hu], .nothing hu⟩
  | case2 _ _ bs ih =>
    intro k u passThrough h hu
    rw [readInput, if_pos rfl, typedText, withoutNegotiations, if_pos rfl]
    exact ih h hu
  | case3 => simp
  | case4 b bs hb ih =>
    intro k u passThrough h hu
    rw [readInput.eq_def, typedText, withoutNegotiations_cons hb]
    dsimp only
    rw [if_neg hb]
    rcases eq_or_ne b (chr '\r') with hcr | hcr
    · rw [if_pos hcr, List.filter_cons_of_neg (by simp [hcr])]
      exact ih h hu
    rw [if_neg hcr, List.filter_cons_of_pos (by simpa using hcr), ← typedText]
    rcases eq_or_ne b (chr '\n') with hlf | hlf
    · -- the line ends, and the buffer starts again
      subst hlf
      have hline := said_onTelnetInput passThrough hu (replies k)
      have hopen : unfinished (chr '\n') (u ++ [chr '\n']) = [] := unfinished_append_cons hu []
      have hrest := @ih (k + 1) [] (onTelnetInput passThrough (cutLine u) (replies k)).1 h
        List.not_mem_nil
      rw [if_pos rfl, List.append_cons]
      refine ⟨hrest.rx, hrest.returned, ?_, hline.append (hopen.symm ▸ hrest.said)⟩
      rw [(completed_append _ _ _).2, hopen]
      exact hrest.lineBuffer
    · -- one more byte of the open line
      have hu' : chr '\n' ∉ u ++ [b] := by simpa [hu] using Ne.symm hlf
      have hrest := @ih k _ passThrough h hu'
      rw [if_neg hlf]
      rw [cutLine_concat, List.append_assoc, List.singleton_append] at hrest
      by_cases hfull : (cutLine u).length < 256
      · rwa [if_pos hfull] at hrest ⊢
      · rwa [if_neg hfull] at hrest ⊢

/-! ### The connection -/

namespace TelnetServer

open Machine

/-- The server is attached to a connection on which everything that has arrived is read, and whose
open line is `u`. -/
structure Attached (s : TelnetServer) (u : List UInt8) : Prop where
  client : ∃ c, s.client = some c ∧ c.rx = [] ∧ c.peerClosed = false
  lineBuffer : s.lineBuffer = cutLine u
  noFeed : chr '\n' ∉ u

/-- What a call of `loop()`, or several, have made of the text `t`. -/
structure Made (passThrough : Bool) (t : List UInt8) (s : TelnetServer)
    (out : List TelnetAction) : Prop where
  attached : s.Attached (unfinished (chr '\n') t)
  said : Said passThrough t s.passThrough out

/-- Reading a piece without a cut negotiation. -/
theorem made_readClient {s : TelnetServer} {c : NetClient} {u : List UInt8}
    (hc : s.client = some c) (hclosed : c.peerClosed = false) (hu : chr '\n' ∉ u)
    (hbuf : s.lineBuffer = cutLine u) (hwhole : WholeNegotiations c.rx)
    (replies : ℕ → List UInt8) (serial : List UInt8) :
    Made s.passThrough (u ++ typedText c.rx) (s.readClient replies serial).1
      (s.readClient replies serial).2 := by
  have hlive : c.connected = true := by rw [NetClient.connected, hclosed]; rfl
  have hscan := @readInput_eq replies _ 0 _ s.passThrough hwhole hu
  rw [readClient, hc]
  dsimp only
  rw [if_pos hlive, hbuf]
  exact ⟨⟨⟨_, rfl, hscan.rx, hclosed⟩, hscan.lineBuffer, not_mem_unfinished _ _⟩,
    hscan.said.tell _ _⟩

/-- **One call of `loop()`** on an attached connection. -/
theorem Attached.made_loop {s : TelnetServer} {u : List UInt8} (h : s.Attached u)
    {input : LoopInput} (hwhole : WholeNegotiations input.arrived) :
    Made s.passThrough (u ++ typedText input.arrived) (s.loop input).1 (s.loop input).2 := by
  obtain ⟨c, hc, hrx, hclosed⟩ := h.client
  have harrive : (s.arrive input.arrived).client = some { c with rx := input.arrived } := by
    rw [arrive, hc, Option.map_some, hrx, List.nil_append]
  have hlive : (s.arrive input.arrived).live = true := by
    rw [live, harrive]
    show ((!c.peerClosed) || _) = true
    rw [hclosed]
    rfl
  rw [loop, takeClient, if_pos hlive]
  exact made_readClient harrive hclosed h.noFeed h.lineBuffer hwhole _ _

/-- **The call that accepts a connection** reads its first piece. -/
theorem made_loop_of_accept {s : TelnetServer} {input : LoopInput} {c : NetClient}
    (hserver : s.server.mServer.isSome) (hfree : (s.arrive input.arrived).live = false)
    (hoffered : input.offered = some c) (hclosed : c.peerClosed = false)
    (hwhole : WholeNegotiations c.rx) :
    Made s.passThrough (typedText c.rx) (s.loop input).1 (s.loop input).2 := by
  obtain ⟨p, hp⟩ := Option.isSome_iff_exists.1 hserver
  have hp' : (s.arrive input.arrived).server.mServer = some p := hp
  have hmade := made_readClient
    (s := { s.arrive input.arrived with client := some c, lineBuffer := [] }) (u := [])
    rfl hclosed List.not_mem_nil rfl hwhole input.replies input.serial
  rw [loop, takeClient, if_neg (by simp [hfree]), NetServerExt.accept, hp', hoffered]
  exact ⟨hmade.attached, hmade.said.after, hmade.said.handed, hmade.said.serial⟩

/-- The pieces that the calls of `loop()` meet make up the stream. -/
theorem made_run {s : TelnetServer} {u : List UInt8} {inputs : List LoopInput} :
    s.Attached u → (∀ input ∈ inputs, WholeNegotiations input.arrived) →
      ∃ s' out, runFrom step s inputs = .ok (s', out) ∧
        Made s.passThrough (u ++ typedText (inputs.flatMap (·.arrived))) s' out := by
  induction inputs generalizing s u with
  | nil =>
    intro h _
    refine ⟨s, [], rfl, ?_⟩
    rw [List.flatMap_nil, typedText, withoutNegotiations, List.filter_nil, List.append_nil]
    exact ⟨by rwa [unfinished_of_not_mem h.noFeed], .nothing h.noFeed⟩
  | cons input inputs ih =>
    intro h hwhole
    have hfirst := h.made_loop (hwhole input List.mem_cons_self)
    obtain ⟨s', out, hrun, hrest⟩ :=
      ih hfirst.attached fun i hi ↦ hwhole i (List.mem_cons_of_mem _ hi)
    refine ⟨s', (s.loop input).2 ++ out, runFrom_cons_eq_ok.2 ⟨_, _, _, rfl, hrun, rfl⟩, ?_⟩
    rw [List.flatMap_cons, typedText_append (hwhole input List.mem_cons_self), ← List.append_assoc]
    refine ⟨?_, hfirst.said.append hrest.said⟩
    rw [(completed_append _ _ _).2]
    exact hrest.attached

/-- **A connection is heard as a whole**, as long as no option negotiation is cut. The first call
accepts the connection, whose first piece is there already; the pieces of the other calls follow. -/
theorem said_of_wholeNegotiations {s : TelnetServer} {first : LoopInput} {c : NetClient}
    {rest : List LoopInput} (hserver : s.server.mServer.isSome)
    (hfree : (s.arrive first.arrived).live = false) (hoffered : first.offered = some c)
    (hclosed : c.peerClosed = false)
    (hwhole : ∀ piece ∈ c.rx :: rest.map (·.arrived), WholeNegotiations piece) :
    ∃ s' out, runFrom step s (first :: rest) = .ok (s', out) ∧
      Said s.passThrough (typedText (c.rx :: rest.map (·.arrived)).flatten) s'.passThrough out := by
  have hpiece : WholeNegotiations c.rx := hwhole _ List.mem_cons_self
  have hfirst := made_loop_of_accept hserver hfree hoffered hclosed hpiece
  have hpieces : ∀ i ∈ rest, WholeNegotiations i.arrived := fun i hi ↦
    hwhole _ (List.mem_cons_of_mem _ (List.mem_map_of_mem hi))
  obtain ⟨s', out, hrun, hrest⟩ := made_run hfirst.attached hpieces
  have hstream : typedText (c.rx :: rest.map (·.arrived)).flatten =
      typedText c.rx ++ typedText (rest.flatMap (·.arrived)) := by
    rw [List.flatten_cons, typedText_append hpiece, List.flatMap_def]
  have hsaid := hfirst.said.append hrest.said
  rw [← hstream] at hsaid
  exact ⟨s', (s.loop first).2 ++ out, runFrom_cons_eq_ok.2 ⟨_, _, _, rfl, hrun, rfl⟩, hsaid⟩

/-- **Telnet input does not depend on how it is chunked**, as long as no option negotiation is cut
and no line has the command in front of a NUL. The lines handed on are those of the whole stream,
the pass-through is flipped once for each command among them, and the other lines completed while it
is on reach the AWG. -/
theorem typed_lines_of_wholeNegotiations {s : TelnetServer} {first : LoopInput} {c : NetClient}
    {rest : List LoopInput} (hserver : s.server.mServer.isSome)
    (hfree : (s.arrive first.arrived).live = false) (hoffered : first.offered = some c)
    (hclosed : c.peerClosed = false)
    (hwhole : ∀ piece ∈ c.rx :: rest.map (·.arrived), WholeNegotiations piece)
    (hnul : ∀ line ∈ typedLines (c.rx :: rest.map (·.arrived)).flatten, ¬ CommandThenNul line) :
    ∃ s' out, runFrom step s (first :: rest) = .ok (s', out) ∧
      handedLines out = typedLines (c.rx :: rest.map (·.arrived)).flatten ∧
      s'.passThrough = passThroughAfter isPassThroughCommand s.passThrough
        (typedLines (c.rx :: rest.map (·.arrived)).flatten) ∧
      serialBytes out = passedOn isPassThroughCommand s.passThrough
        (typedLines (c.rx :: rest.map (·.arrived)).flatten) := by
  obtain ⟨s', out, hrun, hsaid⟩ :=
    said_of_wholeNegotiations hserver hfree hoffered hclosed hwhole
  have hcommand : ∀ line ∈ typedLines (c.rx :: rest.map (·.arrived)).flatten,
      togglesPassThrough line = isPassThroughCommand line := fun line hline ↦
    togglesPassThrough_eq (hnul line hline)
  exact ⟨s', out, hrun, hsaid.handed, hsaid.after.trans (passThroughAfter_congr _ hcommand),
    hsaid.serial.trans (passedOn_congr _ hcommand)⟩

/-- A command and a line that is passed on, with a negotiation between them, in three pieces. -/
theorem typed_lines_of_wholeNegotiations_example :
    ∃ s' out, runFrom step {}
        [{ offered := some (.ofStream (ascii "passthrough\r")) },
          { arrived := chr '\n' :: iac :: 0xFB :: 1 :: ascii "WMN" }, { arrived := ascii "1\n" }] =
          .ok (s', out) ∧
      handedLines out = [ascii "passthrough", ascii "WMN1"] ∧ s'.passThrough = true ∧
      serialBytes out = ascii "WMN1\n" := by
  obtain ⟨s', out, hrun, hhanded, hafter, hserial⟩ := @typed_lines_of_wholeNegotiations {}
    { offered := some (.ofStream (ascii "passthrough\r")) } _
    [{ arrived := chr '\n' :: iac :: 0xFB :: 1 :: ascii "WMN" }, { arrived := ascii "1\n" }]
    rfl rfl rfl rfl (by decide +kernel) (by decide +kernel)
  exact ⟨s', out, hrun, hhanded.trans (by decide +kernel), hafter.trans (by decide +kernel),
    hserial.trans (by decide +kernel)⟩

/-- **A negotiation that is cut is typed.** The client says WILL ECHO and types a letter. In one
piece the line is the letter; with the first byte in a piece of its own the other two bytes of the
negotiation are in the line. -/
theorem cut_negotiation_is_typed :
    typedLines [iac, 0xFB, 1, chr 'A', chr '\n'] = [[chr 'A']] ∧
      (∃ s' out, runFrom step {}
          [{ offered := some (.ofStream [iac, 0xFB, 1, chr 'A', chr '\n']) }] = .ok (s', out) ∧
        handedLines out = [[chr 'A']]) ∧
      ∃ s' out, runFrom step {}
          [{ offered := some (.ofStream [iac]) }, { arrived := [0xFB, 1, chr 'A', chr '\n'] }] =
            .ok (s', out) ∧
        handedLines out = [[0xFB, 1, chr 'A']] :=
  ⟨by decide, ⟨_, _, rfl, by decide +kernel⟩, ⟨_, _, rfl, by decide +kernel⟩⟩

end TelnetServer

end EspBode
