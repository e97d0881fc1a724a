import EspBode.Verification.DeviceSerial

/-!
# What a telnet client passes through

Over every run of the device, with any number of connections, and however the bytes of the telnet
client arrive: what is passed on to the AWG is told by the lines that were heard, and nothing else
(`device_passes_on`). The pass-through has been toggled once for every line that is the command,
whoever typed it, and the other lines are passed on that were heard while it was on. A line that is
heard has at most 256 bytes, with no line feed, carriage return or start of a negotiation in it.

**Which lines are the command** is what the test in `onTelnetInput` says (`togglesPassThrough`). It
stops at a NUL, so the command with a NUL and anything else behind it counts as well, and is not
passed on. That is a statement about the code; which lines were meant is told apart from it in the
module on the lines that are typed.

Whether the lines that are heard are the ones that were typed is another matter, too: a negotiation
that is cut spoils a line.

`Heeds` is the property of a list of actions that is composed along a run: from one state of the
pass-through to another, what is passed on is what the lines among them make of it. The greeting,
and what is copied from the serial port, are no lines and pass nothing on. In the device the actions
of a call are put out bit by bit, so the invariant is about what has been done and what is still to
be done, one behind the other.
-/

namespace EspBode

open Machine

/-- A line that the line buffer can hold. -/
def CleanLine (line : List UInt8) : Prop :=
  line.length ≤ 256 ∧ ∀ c ∈ line, c ≠ chr '\n' ∧ c ≠ chr '\r' ∧ c ≠ iac

theorem cleanLine_nil : CleanLine [] :=
  ⟨Nat.zero_le _, fun _ h ↦ absurd h List.not_mem_nil⟩

/-- The pass-through and the bytes are what the lines make of them. -/
structure Heeds (passThrough after : Bool) (actions : List TelnetAction) : Prop where
  after : after = passThroughAfter togglesPassThrough passThrough (handedLines actions)
  serial : serialBytes actions = passedOn togglesPassThrough passThrough (handedLines actions)
  clean : ∀ line ∈ handedLines actions, CleanLine line

namespace Heeds

variable {passThrough after after' : Bool} {actions actions' : List TelnetAction}

/-- Actions of which no line is handed over and none passed on. -/
theorem idle (hhanded : handedLines actions = []) (hserial : serialBytes actions = []) :
    Heeds passThrough passThrough actions := by
  refine ⟨by rw [hhanded]; rfl, by rw [hhanded, hserial]; rfl, fun line h ↦ ?_⟩
  rw [hhanded] at h
  exact absurd h List.not_mem_nil

theorem append (h : Heeds passThrough after actions) (h' : Heeds after after' actions') :
    Heeds passThrough after' (actions ++ actions') := by
  refine ⟨?_, ?_, fun line hline ↦ ?_⟩
  · rw [h'.after, h.after, handedLines_append, passThroughAfter_append]
  · rw [serialBytes_append, h.serial, h'.serial, handedLines_append, passedOn_append, ← h.after]
  · rw [handedLines_append] at hline
    exact (List.mem_append.1 hline).elim (h.clean line) (h'.clean line)

/-- What is told to the client at the end does not count. -/
theorem tell (h : Heeds passThrough after actions) (told : Bool) (bytes : List UInt8) :
    Heeds passThrough after (actions ++ if told then bytes.map fun c ↦ .tell [c] else []) := by
  obtain ⟨hhanded, hserial⟩ := handed_serial_tell bytes
  cases told
  · exact (List.append_nil actions).symm ▸ h
  · exact h.append (idle hhanded hserial)

end Heeds

/-! ### One call -/

/-- A line that is handed over. -/
theorem heeds_onTelnetInput (passThrough : Bool) {line : List UInt8} (hline : CleanLine line)
    (reply : List UInt8) :
    Heeds passThrough (onTelnetInput passThrough line reply).1
      (.input line :: (onTelnetInput passThrough line reply).2) := by
  obtain ⟨hafter, hhanded, hserial⟩ := onTelnetInput_eq passThrough line reply
  have hlines : handedLines (.input line :: (onTelnetInput passThrough line reply).2) = [line] :=
    congrArg (line :: ·) hhanded
  refine ⟨by rw [hlines, hafter], ?_, by rw [hlines]; exact List.forall_mem_singleton.2 hline⟩
  rw [hlines, ← hserial]
  rfl

/-- **The inner loop**, whatever is available and whatever stands in the line buffer. The induction
is on the number of bytes. -/
theorem heeds_readInput (replies : ℕ → List UInt8) (rx : List UInt8) :
    ∀ (k : ℕ) {lineBuffer : List UInt8} {passThrough : Bool}, CleanLine lineBuffer →
      CleanLine (readInput replies k lineBuffer passThrough rx).lineBuffer ∧
        Heeds passThrough (readInput replies k lineBuffer passThrough rx).passThrough
          (readInput replies k lineBuffer passThrough rx).actions := by
  induction hn : rx.length using Nat.strongRecOn generalizing rx with
  | _ n ih =>
    intro k lineBuffer passThrough hline
    rcases rx with _ | ⟨b, rx⟩
    · exact ⟨hline, .idle rfl rfl⟩
    have hlt : rx.length < n := by rw [← hn]; exact Nat.lt_succ_self _
    rw [readInput.eq_def]
    dsimp only
    rcases eq_or_ne b iac with hiac | hiac
    · rw [if_pos hiac]
      rcases rx with _ | ⟨command, _ | ⟨option, rx⟩⟩
      · exact ⟨hline, .idle rfl rfl⟩
      · exact ⟨hline, .idle rfl rfl⟩
      · exact ih rx.length (by simp at hlt; omega) rx rfl k hline
    rw [if_neg hiac]
    rcases eq_or_ne b (chr '\r') with hcr | hcr
    · rw [if_pos hcr]
      exact ih rx.length hlt rx rfl k hline
    rw [if_neg hcr]
    rcases eq_or_ne b (chr '\n') with hlf | hlf
    · rw [if_pos hlf]
      obtain ⟨hnext, hrest⟩ := @ih rx.length hlt rx rfl (k + 1) []
        (onTelnetInput passThrough lineBuffer (replies k)).1 cleanLine_nil
      exact ⟨hnext, (heeds_onTelnetInput passThrough hline (replies k)).append hrest⟩
    rw [if_neg hlf]
    split_ifs with hroom
    · refine ih rx.length hlt rx rfl k ⟨?_, ?_⟩
      · rw [List.length_append, List.length_singleton]
        omega
      rw [List.forall_mem_append]
      exact ⟨hline.2, List.forall_mem_singleton.2 ⟨hlf, hcr, hiac⟩⟩
    · exact ih rx.length hlt rx rfl k hline

/-- Taking a client. -/
theorem heeds_takeClient {s : TelnetServer} (h : CleanLine s.lineBuffer)
    (offered : Option NetClient) :
    CleanLine (s.takeClient offered).1.lineBuffer ∧
      Heeds s.passThrough (s.takeClient offered).1.passThrough (s.takeClient offered).2 := by
  have hserver : ∀ calls : List ServerCall, handedLines (calls.map .server) = [] ∧
      serialBytes (calls.map .server) = [] := by
    intro calls
    induction calls with
    | nil => exact ⟨rfl, rfl⟩
    | cons call calls ih => exact ih
  rw [TelnetServer.takeClient]
  split_ifs
  · exact ⟨h, .idle rfl rfl⟩
  dsimp only
  obtain ⟨hhanded, hserial⟩ := hserver (s.server.accept offered).2
  rcases (s.server.accept offered).1 with _ | c
  · exact ⟨h, .idle hhanded hserial⟩
  · exact ⟨cleanLine_nil, (Heeds.idle hhanded hserial).append (.idle rfl rfl)⟩

/-- Reading from the client. -/
theorem heeds_readClient {s : TelnetServer} (h : CleanLine s.lineBuffer)
    (replies : ℕ → List UInt8) (serial : List UInt8) :
    CleanLine (s.readClient replies serial).1.lineBuffer ∧
      Heeds s.passThrough (s.readClient replies serial).1.passThrough
        (s.readClient replies serial).2 := by
  rw [TelnetServer.readClient]
  have hnothing : Heeds s.passThrough s.passThrough [] := .idle rfl rfl
  rcases s.client with _ | c
  · exact ⟨h, hnothing.tell s.passThrough serial⟩
  dsimp only
  rcases c.connected
  · exact ⟨h, hnothing.tell s.passThrough serial⟩
  · obtain ⟨hline, hscan⟩ := heeds_readInput replies c.rx 0 h
    exact ⟨hline, hscan.tell _ serial⟩

/-- **A call of `loop()`**, whatever it meets. -/
theorem heeds_loop {s : TelnetServer} (h : CleanLine s.lineBuffer)
    (input : TelnetServer.LoopInput) : CleanLine (s.loop input).1.lineBuffer ∧
      Heeds s.passThrough (s.loop input).1.passThrough (s.loop input).2 := by
  obtain ⟨hline, htake⟩ := heeds_takeClient (s := s.arrive input.arrived) h input.offered
  obtain ⟨hline', hread⟩ := heeds_readClient hline input.replies input.serial
  exact ⟨hline', htake.append hread⟩

/-! ### Runs of the device -/

/-- What the telnet server has handed over and passed on, and what it still has to. -/
def telnetStory (s : Device) (past : List DeviceAction) : List TelnetAction :=
  telnetActions past ++ telnetPending s.tasks

variable {pf : Platform} {awg : AwgServer} {driver : AwgFy}
variable {answers : List UInt8 → List UInt8 → Bool}

/-- What the device knows of the lines that it has heard. -/
def HeedsInvariant (s : Device) (past : List DeviceAction) : Prop :=
  CleanLine s.telnet.lineBuffer ∧ Heeds false s.telnet.passThrough (telnetStory s past)

/-- A step that hears nothing and passes nothing on, apart from what was to be. -/
theorem HeedsInvariant.of_eq {s s' : Device} {past out : List DeviceAction}
    (h : HeedsInvariant s past) (hbuffer : s'.telnet.lineBuffer = s.telnet.lineBuffer)
    (hpass : s'.telnet.passThrough = s.telnet.passThrough)
    (hhanded : handedLines (telnetActions out ++ telnetPending s'.tasks) =
      handedLines (telnetPending s.tasks))
    (hserial : serialBytes (telnetActions out ++ telnetPending s'.tasks) =
      serialBytes (telnetPending s.tasks)) : HeedsInvariant s' (past ++ out) := by
  have hlines : handedLines (telnetStory s' (past ++ out)) = handedLines (telnetStory s past) := by
    rw [telnetStory, telnetActions_append, List.append_assoc, handedLines_append, hhanded,
      ← handedLines_append, telnetStory]
  have hbytes : serialBytes (telnetStory s' (past ++ out)) = serialBytes (telnetStory s past) := by
    rw [telnetStory, telnetActions_append, List.append_assoc, serialBytes_append, hserial,
      ← serialBytes_append, telnetStory]
  obtain ⟨hline, hafter, hpassed, hclean⟩ := h
  exact ⟨hbuffer ▸ hline, by rw [hpass, hafter, hlines], by rw [hbytes, hpassed, hlines],
    by rwa [hlines]⟩

/-- A call of the telnet loop will do what the server has decided. -/
theorem telnetPending_telnetLoop (s : Device) (offered : Option NetClient) (arrived : List UInt8)
    (polls : ℕ → ℕ) : telnetPending (s.telnetLoop offered arrived polls).tasks =
      (s.telnet.loop { offered, arrived }).2 := by
  have hcopies : ∀ copies : Bool, telnetPending (if copies then [.copySerial] else []) = [] := by
    intro copies
    cases copies <;> rfl
  rw [Device.telnetLoop]
  dsimp only
  rw [telnetPending, List.filterMap_append, ← telnetPending, ← telnetPending, hcopies,
    List.append_nil, telnetPending_telnetTasks]

/-- **Every step keeps the invariant.** -/
theorem HeedsInvariant.step {s s' : Device} {past out : List DeviceAction} {event : DeviceEvent}
    (h : HeedsInvariant s past)
    (hstep : Device.step pf awg driver answers s event = .ok (s', out)) :
    HeedsInvariant s' (past ++ out) := by
  -- a call of the two servers has nothing to do with the telnet client
  have hsystem : ∀ {system} (actions : List SystemAction), s.Idle →
      HeedsInvariant { s with system, tasks := actions.map .system } (past ++ []) := by
    intro system actions hidle
    have hnone : telnetPending (actions.map .system) = [] :=
      List.filterMap_eq_nil_iff.2 (by simp)
    exact h.of_eq rfl rfl (by rw [hnone, hidle.2]; rfl) (by rw [hnone, hidle.2]; rfl)
  cases deviceStep_of_step hstep with
  | nothing => exact h.of_eq rfl rfl rfl rfl
  | @telnetLoop offered arrived polls hidle =>
    obtain ⟨hline, hheeds⟩ := h
    obtain ⟨hline', hloop⟩ := heeds_loop hline { offered, arrived }
    refine ⟨hline', ?_⟩
    rw [telnetStory, hidle.2, show telnetPending [] = [] from rfl, List.append_nil] at hheeds
    rw [List.append_nil, telnetStory, telnetPending_telnetLoop]
    exact hheeds.append hloop
  | bindLoop hidle _ => exact hsystem _ hidle
  | vxiLoop hidle _ => exact hsystem _ hidle
  | peerCloses _ => exact h.of_eq rfl rfl rfl rfl
  | telnetPeerCloses => exact h.of_eq rfl rfl rfl rfl
  | setting _ htasks => exact h.of_eq rfl rfl (by rw [htasks]; rfl) (by rw [htasks]; rfl)
  | passes _ htasks => exact h.of_eq rfl rfl (by rw [htasks]; rfl) (by rw [htasks]; rfl)
  | puts _ htasks hputs =>
    refine h.of_eq rfl rfl ?_ ?_ <;> rw [htasks] <;> cases hputs <;> rfl
  | copied _ htasks _ => exact h.of_eq rfl rfl (by rw [htasks]; rfl) (by rw [htasks]; rfl)
  | copies _ htasks _ => exact h.of_eq rfl rfl rfl rfl
  | @serial _ _ _ serialOut _ _ =>
    have hnone : telnetActions (serialOut.map .serial) = [] := by
      rw [telnetActions, List.filterMap_map]
      exact List.filterMap_eq_nil_iff.2 fun _ _ ↦ rfl
    exact h.of_eq rfl rfl (by rw [hnone]; rfl) (by rw [hnone]; rfl)

/-- **What a telnet client passes through**, over every run of the whole device: what has been
passed on to the AWG, and then what a call under way has still to pass on, is what the lines that
were heard make of it, with the test of `onTelnetInput` for the command; so is the state of the
pass-through. The lines are clean. -/
theorem device_passes_on {s : Device} {past : List DeviceAction} {events : List DeviceEvent}
    (hrun : runFrom (Device.step pf awg driver answers) Device.setup.1 events = .ok (s, past)) :
    serialBytes (telnetActions past) ++ serialBytes (telnetPending s.tasks) =
        passedOn togglesPassThrough false (heardLines s past) ∧
      s.telnet.passThrough = passThroughAfter togglesPassThrough false (heardLines s past) ∧
      ∀ line ∈ heardLines s past, CleanLine line := by
  have hsetup : HeedsInvariant Device.setup.1 [] := ⟨cleanLine_nil, .idle rfl rfl⟩
  obtain ⟨-, h⟩ : HeedsInvariant s past :=
    runFrom_trace_invariant (fun _ _ _ _ _ h hstep ↦ h.step hstep) [] hsetup hrun
  exact ⟨(serialBytes_append _ _).symm.trans h.serial, h.after, h.clean⟩

/-- The command arrives in two pieces, with a negotiation that is cut between them. -/
def cutRun : List DeviceEvent :=
  [.telnetLoop (some (.ofStream (ascii "pass" ++ [iac, 0xFB]))) [] fun _ ↦ 0] ++
    List.replicate 2 .proceed ++
    [.telnetLoop none ([1] ++ ascii "through\npassthrough \nUMO\nPassThrough\nRMN\n") fun _ ↦ 1] ++
    List.replicate 18 .proceed

theorem device_passes_on_cutRun :
    ∃ s past, runFrom (Device.step (referencePlatform .binary64) .base (awgFy6900 2) awgAnswers)
        Device.setup.1 cutRun = .ok (s, past) ∧
      serialBytes (telnetActions past) ++ serialBytes (telnetPending s.tasks) = ascii "UMO\n" ∧
      s.telnet.passThrough = false := by
  obtain ⟨⟨s, past⟩, hrun, hheard⟩ := exists_of_map_eq_ok
    (b := [ascii "pass" ++ [0xFB, 1] ++ ascii "through", ascii "passthrough ", ascii "UMO",
      ascii "PassThrough", ascii "RMN"])
    (f := fun r : Device × List DeviceAction ↦ heardLines r.1 r.2)
    (x := runFrom (Device.step (referencePlatform .binary64) .base (awgFy6900 2) awgAnswers)
      Device.setup.1 cutRun) (by decide +kernel)
  obtain ⟨hpassed, hafter, -⟩ := device_passes_on hrun
  rw [show heardLines s past = _ from hheard] at hpassed hafter
  exact ⟨s, past, hrun, hpassed.trans (by decide +kernel), hafter.trans (by decide +kernel)⟩

end EspBode
