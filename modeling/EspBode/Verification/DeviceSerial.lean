import EspBode.Verification.DeviceLines
import EspBode.Verification.SerialDialogue
import EspBode.Verification.TelnetLines

/-!
# The serial line of the device

As long as the telnet client has not typed the command that turns the pass-through on, the serial
line belongs to the driver alone, whatever else the telnet client types and whatever the servers of
the oscilloscope do in between. So the line of the whole device is in step like one on which calls
of the driver are made one behind the other (`device_in_step`), and the device always can come to
rest: no call of the main loop waits for ever (`device_comes_to_rest`).

## The invariant

`CalmInvariant` has three parts: the pass-through is off, the tasks that are left are **calm**, that
is, none of them reads from the line or writes to it on its own, and a property of the line is kept
(`KeptByDriver`). It ends when the command is heard, and the statements say `Unheard` of the lines
that were heard so far, those included that stand in the tasks of the call under way. Whether a line
is the command is the test of the code.

The property of the line is a parameter. The induction over the runs (`CalmInvariant.run`) goes
through all kinds of steps of the device and is done once; being in step is the instance here, and
the dialogue of the driver is another one.

## Coming to rest

A run is extended by steps that bring the call under way to its end: the AWG answers, the bytes
arrive, and the tasks are done one after the other, each setting with a dialogue that can end. What
the servers put out in these steps is what they owed (`owed`), so nothing is lost on the way.
-/

namespace EspBode

open Machine
open SerialLine (exchanges)

/-! ### What is typed -/

/-- What the telnet server has done. -/
def telnetActions (past : List DeviceAction) : List TelnetAction :=
  past.filterMap fun
    | .telnet action => some action
    | _ => none

/-- What it still has to do. -/
def telnetPending (tasks : List DeviceTask) : List TelnetAction :=
  tasks.filterMap fun
    | .telnet action => some action
    | _ => none

/-- The lines that the telnet client has typed. -/
def heardLines (s : Device) (past : List DeviceAction) : List (List UInt8) :=
  handedLines (telnetActions past ++ telnetPending s.tasks)

@[simp]
theorem telnetActions_append (past out : List DeviceAction) :
    telnetActions (past ++ out) = telnetActions past ++ telnetActions out :=
  List.filterMap_append

theorem telnetPending_copies (n : ℕ) (tasks : List DeviceTask) :
    telnetPending (List.replicate n .copySerial ++ tasks) = telnetPending tasks := by
  induction n with
  | zero => rfl
  | succ n ih => exact ih

/-- The copying adds nothing. -/
theorem telnetPending_telnetTasks (polls : ℕ → ℕ) (actions : List TelnetAction) :
    ∀ k, telnetPending (telnetTasks polls k actions) = actions := by
  induction actions with
  | nil => exact fun _ ↦ rfl
  | cons action actions ih =>
    intro k
    rcases action with bytes | line | bytes | call
    case awg =>
      rw [telnetTasks]
      split_ifs
      · exact congrArg (TelnetAction.awg bytes :: ·)
          ((telnetPending_copies _ _).trans (ih (k + 1)))
      · exact congrArg (TelnetAction.awg bytes :: ·) (ih k)
    all_goals exact congrArg (_ :: ·) (ih k)

/-- Without the command nothing is passed on. -/
theorem readInput_calm {rx : List UInt8} : ∀ {k : ℕ} {lineBuffer : List UInt8},
    (∀ line ∈ handedLines (readInput (fun _ ↦ []) k lineBuffer false rx).actions,
      ¬ togglesPassThrough line) →
    (readInput (fun _ ↦ []) k lineBuffer false rx).passThrough = false ∧
      ∀ bytes, .awg bytes ∉ (readInput (fun _ ↦ []) k lineBuffer false rx).actions := by
  induction hn : rx.length using Nat.strongRecOn generalizing rx with
  | _ n ih =>
    intro k lineBuffer h
    rcases rx with _ | ⟨b, rx⟩
    · exact ⟨rfl, fun _ ↦ List.not_mem_nil⟩
    have hlt : rx.length < n := by rw [← hn]; exact Nat.lt_succ_self _
    rw [readInput.eq_def] at h ⊢
    dsimp only at h ⊢
    rcases eq_or_ne b iac with hiac | hiac
    · rw [if_pos hiac] at h ⊢
      rcases rx with _ | ⟨command, _ | ⟨option, rx⟩⟩
      · exact ⟨rfl, fun _ ↦ List.not_mem_nil⟩
      · exact ⟨rfl, fun _ ↦ List.not_mem_nil⟩
      · exact ih rx.length (by simp at hlt; omega) rfl h
    rw [if_neg hiac] at h ⊢
    rcases eq_or_ne b (chr '\r') with hcr | hcr
    · rw [if_pos hcr] at h ⊢
      exact ih rx.length hlt rfl h
    rw [if_neg hcr] at h ⊢
    rcases eq_or_ne b (chr '\n') with hlf | hlf
    · -- a line that is not the command does nothing
      rw [if_pos hlf] at h ⊢
      dsimp only at h ⊢
      have hline : ¬ togglesPassThrough lineBuffer := h lineBuffer List.mem_cons_self
      have hnothing : onTelnetInput false lineBuffer [] = (false, []) := by
        rw [onTelnetInput]
        dsimp only
        rw [if_neg (show ¬ equalsLiteral _ _ = true from hline), if_neg Bool.false_ne_true]
      rw [hnothing] at h ⊢
      obtain ⟨hpass, hawg⟩ := ih rx.length hlt rfl
        fun line hmem ↦ h line (List.mem_cons_of_mem lineBuffer hmem)
      refine ⟨hpass, fun bytes hmem ↦ ?_⟩
      rcases List.mem_cons.1 hmem with heq | hmem
      · exact TelnetAction.noConfusion heq
      · exact hawg bytes hmem
    rw [if_neg hlf] at h ⊢
    split_ifs at h ⊢
    · exact ih rx.length hlt rfl h
    · exact ih rx.length hlt rfl h

/-- The tasks neither read from the serial line nor write to it on their own. -/
structure Calm (tasks : List DeviceTask) : Prop where
  noCopy : .copySerial ∉ tasks
  noAwg : ∀ bytes, .telnet (.awg bytes) ∉ tasks
  parameter_lt : ∀ call, .system (.vxi (.set call)) ∈ tasks →
    call.parameter < Scpi.parameterCount

theorem Calm.tail {task : DeviceTask} {tasks : List DeviceTask} (h : Calm (task :: tasks)) :
    Calm tasks :=
  ⟨fun hmem ↦ h.noCopy (List.mem_cons_of_mem _ hmem),
    fun bytes hmem ↦ h.noAwg bytes (List.mem_cons_of_mem _ hmem),
    fun call hmem ↦ h.parameter_lt call (List.mem_cons_of_mem _ hmem)⟩

theorem calm_nil : Calm [] :=
  ⟨List.not_mem_nil, fun _ ↦ List.not_mem_nil, fun _ h ↦ absurd h List.not_mem_nil⟩

/-- The tasks of the telnet server are calm if nothing is passed on. -/
theorem calm_telnetTasks {polls : ℕ → ℕ} {actions : List TelnetAction}
    (h : ∀ bytes, .awg bytes ∉ actions) : ∀ k, Calm (telnetTasks polls k actions) := by
  induction actions with
  | nil => exact fun _ ↦ calm_nil
  | cons action actions ih =>
    intro k
    have hrest := ih (fun bytes hmem ↦ h bytes (List.mem_cons_of_mem action hmem)) k
    have hcons : (∀ bytes, action ≠ .awg bytes) →
        Calm (.telnet action :: telnetTasks polls k actions) := by
      refine fun haction ↦ ⟨?_, fun bytes ↦ ?_, fun call ↦ ?_⟩
      all_goals rw [List.mem_cons]
      · rintro (heq | hmem)
        · exact DeviceTask.noConfusion heq
        · exact hrest.noCopy hmem
      · rintro (heq | hmem)
        · exact haction bytes (DeviceTask.telnet.inj heq).symm
        · exact hrest.noAwg bytes hmem
      · rintro (heq | hmem)
        · exact DeviceTask.noConfusion heq
        · exact hrest.parameter_lt call hmem
    rcases action with bytes | line | bytes | call
    case awg => exact absurd List.mem_cons_self (h bytes)
    all_goals exact hcons (by simp)

/-- So are those of a step of the two servers. -/
theorem calm_system {awg : AwgServer} {s s' : System} {event : SystemEvent}
    {out : List SystemAction} (hstep : System.step awg s event = .ok (s', out)) :
    Calm (out.map .system) := by
  refine ⟨by simp, by simp, fun call hcall ↦ ?_⟩
  have hmem : SystemAction.vxi (.set call) ∈ out := by simpa using hcall
  exact parameter_lt_of_systemStep hstep call hmem

theorem passThrough_takeClient (s : TelnetServer) (offered : Option NetClient) :
    (s.takeClient offered).1.passThrough = s.passThrough := by
  rw [TelnetServer.takeClient]
  split_ifs
  · rfl
  dsimp only
  rcases (s.server.accept offered).1 with _ | c <;> rfl

/-- Reading from the client without the command. -/
theorem readClient_calm {t : TelnetServer} (hpass : t.passThrough = false)
    (h : ∀ line ∈ handedLines (t.readClient (fun _ ↦ []) []).2, ¬ togglesPassThrough line) :
    (t.readClient (fun _ ↦ []) []).1.passThrough = false ∧ t.copiesSerial = false ∧
      ∀ bytes, .awg bytes ∉ (t.readClient (fun _ ↦ []) []).2 := by
  rw [TelnetServer.readClient] at h ⊢
  rw [TelnetServer.copiesSerial]
  rcases hc : t.client with _ | c <;> rw [hc] at h
  · exact ⟨hpass, hpass, by simp⟩
  dsimp only at h ⊢
  cases hlive : c.connected <;> rw [hlive] at h
  · exact ⟨hpass, hpass, by simp⟩
  rw [if_pos rfl, hpass] at h ⊢
  rw [List.map_nil, ite_self, List.append_nil] at h ⊢
  obtain ⟨hafter, hawg⟩ := readInput_calm h
  refine ⟨hafter, ?_, hawg⟩
  rw [if_pos rfl, hafter, Bool.and_false]

/-- **A call of the telnet loop** without the command. -/
theorem calm_telnetLoop {s : Device} (hpass : s.telnet.passThrough = false)
    {offered : Option NetClient} {arrived : List UInt8} {polls : ℕ → ℕ}
    (h : ∀ line ∈ handedLines (telnetPending (s.telnetLoop offered arrived polls).tasks),
      ¬ togglesPassThrough line) :
    (s.telnetLoop offered arrived polls).telnet.passThrough = false ∧
      Calm (s.telnetLoop offered arrived polls).tasks := by
  set t := ((s.telnet.arrive arrived).takeClient offered).1 with ht
  have htasks : (s.telnetLoop offered arrived polls).tasks =
      telnetTasks polls 0 (((s.telnet.arrive arrived).takeClient offered).2 ++
        (t.readClient (fun _ ↦ []) []).2) ++ if t.copiesSerial then [.copySerial] else [] := rfl
  have hcopies : telnetPending (if t.copiesSerial then [.copySerial] else []) = [] := by
    cases t.copiesSerial <;> rfl
  rw [htasks, telnetPending, List.filterMap_append, ← telnetPending, ← telnetPending, hcopies,
    List.append_nil, telnetPending_telnetTasks, handedLines_append] at h
  obtain ⟨hafter, hnone, hawg⟩ := readClient_calm (t := t)
    ((passThrough_takeClient _ _).trans hpass) fun line hline ↦
      h line (List.mem_append_right _ hline)
  refine ⟨hafter, ?_⟩
  rw [htasks, hnone, if_neg Bool.false_ne_true, List.append_nil]
  refine calm_telnetTasks (fun bytes hmem ↦ ?_) 0
  rcases List.mem_append.1 hmem with hmem | hmem
  · exact awg_not_mem_takeClient _ _ bytes hmem
  · exact hawg bytes hmem

/-! ### Runs -/

/-- The telnet client has not typed the command. -/
def Unheard (s : Device) (past : List DeviceAction) : Prop :=
  ∀ line ∈ heardLines s past, ¬ togglesPassThrough line

/-- A setting keeps to the order, on whatever channel. -/
theorem obeys_program (pf : Platform) (retries : UInt32) {call : SetCall}
    (hparam : call.parameter < Scpi.parameterCount) :
    awgProtocol.Obeys (Device.program pf (awgFy6900 retries) call) .quiet := by
  rcases Decidable.em (call.channel ≤ AwgFy.channels) with hchannel | hchannel
  · obtain ⟨row, hrow⟩ := exists_entry (awgFy6900 retries).pt hparam
    refine (AwgFy.obeys_set pf ⟨hchannel, hparam⟩ hrow call.value).bind awgProtocol fun _ ↦ ?_
    exact rfl
  · have hset : AwgFy.set pf (awgFy6900 retries) call.channel call.parameter call.value =
        pure false := if_pos (.inl (UInt32.not_le.1 hchannel))
    rw [Device.program, hset]
    exact rfl

/-- The settings that the driver was called for. -/
def driverCalls (past : List DeviceAction) : List SetCall :=
  (stimuli past).filterMap fun
    | .set call => some call
    | .typed _ => none

theorem driverCalls_append (past out : List DeviceAction) :
    driverCalls (past ++ out) = driverCalls past ++ driverCalls out := by
  rw [driverCalls, stimuli_append, List.filterMap_append]
  rfl

theorem driverCalls_serial (out : List SerialAction) : driverCalls (out.map .serial) = [] := by
  rw [driverCalls, stimuli_serial]
  rfl

theorem Puts.driverCalls_eq {task : DeviceTask} {action : DeviceAction} (h : Puts task action) :
    driverCalls [action] = [] := by
  rw [driverCalls, h.stimuli_eq]
  rfl

/-- What holds of the line, the settings and what was seen on the line is kept when the driver is
called for a setting and when the line takes a step. -/
structure KeptByDriver (pf : Platform) (retries : UInt32)
    (P : SerialLine → List SetCall → List SerialAction → Prop) : Prop where
  setting : ∀ {line calls past call}, P line calls past → line.running = none →
    call.parameter < Scpi.parameterCount →
      P { line with running := some (Device.program pf (awgFy6900 retries) call) }
        (calls ++ [call]) past
  serial : ∀ {line line' calls past out} {event : SerialEvent SetCall}, P line calls past →
    (∀ call, event ≠ .call call) →
      SerialLine.step (chr '\n') awgAnswers (Device.program pf (awgFy6900 retries)) line event =
        .ok (line', out) → P line' calls (past ++ out)

section Runs

variable {pf : Platform} {retries : UInt32} {awg : AwgServer}
variable {P : SerialLine → List SetCall → List SerialAction → Prop}

/-- As long as the command is not typed, the line is the driver's. -/
def CalmInvariant (P : SerialLine → List SetCall → List SerialAction → Prop) (s : Device)
    (past : List DeviceAction) : Prop :=
  Unheard s past → s.telnet.passThrough = false ∧ Calm s.tasks ∧
    P s.line (driverCalls past) (serialActions past)

/-- A step behind which nothing else has been typed. -/
theorem CalmInvariant.of_heard_eq {s s' : Device} {past out : List DeviceAction}
    (h : CalmInvariant P s past) (hheard : heardLines s' (past ++ out) = heardLines s past)
    (hpass : s'.telnet.passThrough = s.telnet.passThrough)
    (hline : Calm s.tasks → P s.line (driverCalls past) (serialActions past) →
      Calm s'.tasks ∧ P s'.line (driverCalls past ++ driverCalls out)
        (serialActions past ++ serialActions out)) :
    CalmInvariant P s' (past ++ out) := fun hunheard ↦ by
  rw [Unheard, hheard] at hunheard
  obtain ⟨hoff, hcalm, hkept⟩ := h hunheard
  rw [driverCalls_append, serialActions_append]
  exact ⟨hpass.trans hoff, hline hcalm hkept⟩

/-- A step that does nothing on the line. -/
theorem CalmInvariant.of_line_eq {s s' : Device} {past out : List DeviceAction}
    (h : CalmInvariant P s past) (hheard : heardLines s' (past ++ out) = heardLines s past)
    (hpass : s'.telnet.passThrough = s.telnet.passThrough) (hline : s'.line = s.line)
    (hcalls : driverCalls out = []) (hserial : serialActions out = [])
    (hcalm : Calm s.tasks → Calm s'.tasks) : CalmInvariant P s' (past ++ out) :=
  h.of_heard_eq hheard hpass fun hcalm' hkept ↦ by
    rw [hline, hcalls, hserial, List.append_nil, List.append_nil]
    exact ⟨hcalm hcalm', hkept⟩

/-- A task that is done has moved from what is pending to what was done. -/
theorem heardLines_cons {s : Device} {past : List DeviceAction} {task : DeviceTask}
    {tasks : List DeviceTask} {action : DeviceAction} (hputs : Puts task action)
    (htasks : s.tasks = task :: tasks) :
    heardLines { s with tasks } (past ++ [action]) = heardLines s past := by
  rw [heardLines, heardLines, telnetActions_append, htasks]
  rcases hputs with _ | _
  · rw [List.append_assoc]
    rfl
  · rw [List.append_assoc]
    rfl

/-- **Every step keeps the invariant.** -/
theorem CalmInvariant.step (hkeeps : KeptByDriver pf retries P) {s s' : Device}
    {past out : List DeviceAction} {event : DeviceEvent} (h : CalmInvariant P s past)
    (hstep : Device.step pf awg (awgFy6900 retries) awgAnswers s event = .ok (s', out)) :
    CalmInvariant P s' (past ++ out) := by
  have hbegins : ∀ {system} {actions : List SystemAction}, s.Idle → Calm (actions.map .system) →
      CalmInvariant P { s with system, tasks := actions.map .system } (past ++ []) := by
    intro system actions hidle hcalm
    refine h.of_line_eq ?_ rfl rfl rfl rfl fun _ ↦ hcalm
    have hpending : telnetPending (actions.map .system) = [] :=
      List.filterMap_eq_nil_iff.2 (by simp)
    rw [heardLines, heardLines, List.append_nil, hpending, hidle.2]
    rfl
  -- what calm tasks do not hold
  have hnever : ∀ {s' : Device} {out}, ¬ Calm s.tasks →
      heardLines s' (past ++ out) = heardLines s past →
        s'.telnet.passThrough = s.telnet.passThrough → CalmInvariant P s' (past ++ out) :=
    fun hnot hheard hpass ↦ h.of_heard_eq hheard hpass fun hcalm ↦ absurd hcalm hnot
  cases deviceStep_of_step hstep with
  | nothing => exact h.of_line_eq (by rw [List.append_nil]) rfl rfl rfl rfl id
  | @telnetLoop offered arrived polls hidle =>
    intro hunheard
    rw [List.append_nil] at hunheard ⊢
    have hpast : Unheard s past := fun line hline ↦ hunheard line (by
      rw [heardLines, handedLines_append] at hline ⊢
      rw [hidle.2] at hline
      exact List.mem_append_left _ ((List.mem_append.1 hline).resolve_right List.not_mem_nil))
    obtain ⟨hoff, -, hkept⟩ := h hpast
    obtain ⟨hoff', hcalm⟩ := calm_telnetLoop hoff fun line hline ↦ hunheard line (by
      rw [heardLines, handedLines_append]
      exact List.mem_append_right _ hline)
    exact ⟨hoff', hcalm, hkept⟩
  | bindLoop hidle hloop => exact hbegins hidle (calm_system hloop)
  | vxiLoop hidle hloop => exact hbegins hidle (calm_system hloop)
  | peerCloses _ => exact h.of_line_eq (by rw [List.append_nil]; rfl) rfl rfl rfl rfl id
  | telnetPeerCloses => exact h.of_line_eq (by rw [List.append_nil]; rfl) rfl rfl rfl rfl id
  | @setting call tasks hrunning htasks =>
    have hheard : heardLines s past = handedLines (telnetActions past ++ telnetPending tasks) := by
      rw [heardLines, htasks]
      rfl
    refine h.of_heard_eq ?_ rfl fun hcalm hkept ↦ ?_
    · rw [hheard, heardLines, telnetActions_append]
      exact congrArg (fun actions ↦ handedLines (actions ++ telnetPending tasks))
        (List.append_nil _)
    · rw [htasks] at hcalm
      refine ⟨hcalm.tail, ?_⟩
      show P _ (driverCalls past ++ [call]) (serialActions past ++ [])
      rw [List.append_nil]
      exact hkeeps.setting hkept hrunning (hcalm.parameter_lt call List.mem_cons_self)
  | passes hrunning htasks =>
    refine hnever (fun hcalm ↦ ?_) ?_ rfl
    · exact hcalm.noAwg _ (htasks ▸ List.mem_cons_self)
    · rw [heardLines, heardLines, telnetActions_append, htasks, List.append_assoc]
      rfl
  | puts hrunning htasks hputs =>
    refine h.of_line_eq (heardLines_cons hputs htasks) rfl rfl hputs.driverCalls_eq
      hputs.serialActions_eq fun hcalm ↦ ?_
    rw [htasks] at hcalm
    exact hcalm.tail
  | copied hrunning htasks hrx =>
    refine hnever (fun hcalm ↦ hcalm.noCopy (htasks ▸ List.mem_cons_self)) ?_ rfl
    rw [heardLines, heardLines, List.append_nil, htasks]
    rfl
  | copies hrunning htasks hrx =>
    refine hnever (fun hcalm ↦ hcalm.noCopy (htasks ▸ List.mem_cons_self)) ?_ rfl
    rw [heardLines, heardLines, telnetActions_append, List.append_assoc, handedLines_append,
      handedLines_append, handedLines_append]
    rfl
  | serial hcall hline =>
    have hnone : ∀ out : List SerialAction, telnetActions (out.map .serial) = [] := fun out ↦ by
      rw [telnetActions, List.filterMap_map]
      exact List.filterMap_eq_nil_iff.2 fun _ _ ↦ rfl
    refine h.of_heard_eq ?_ rfl fun hcalm hkept ↦ ⟨hcalm, ?_⟩
    · rw [heardLines, heardLines, telnetActions_append, hnone, List.append_nil]
    · rw [driverCalls_serial, serialActions_serial, List.append_nil]
      exact hkeeps.serial hkept hcall hline

/-- **The invariant holds after every run** if it holds before the first call of the driver. -/
theorem CalmInvariant.run (hkeeps : KeptByDriver pf retries P) (hinit : P {} [] []) {s : Device}
    {past : List DeviceAction} {events : List DeviceEvent}
    (hrun : runFrom (Device.step pf awg (awgFy6900 retries) awgAnswers) Device.setup.1 events =
      .ok (s, past)) : CalmInvariant P s past := by
  have hsetup : CalmInvariant P Device.setup.1 [] := fun _ ↦ ⟨rfl, calm_nil, hinit⟩
  exact runFrom_trace_invariant (fun _ _ _ _ _ h hstep ↦ h.step hkeeps hstep) [] hsetup hrun

/-- The line in step is kept. -/
theorem keptByDriver_inStep : KeptByDriver pf retries fun line _ past ↦
    awgProtocol.InStep line past where
  setting h hrunning hparam := (LineProtocol.inStep_some rfl).2
    ⟨.quiet, obeys_program pf retries hparam, (LineProtocol.inStep_none hrunning).1 h⟩
  serial h hcall hstep := by
    obtain ⟨line', out', hline', hin'⟩ := h.step_of_not_call hcall
    obtain ⟨rfl, rfl⟩ := Prod.mk.inj (Except.ok.inj (hline'.symm.trans hstep))
    exact hin'

/-- The line is in step. -/
theorem inStep_of_run {s : Device} {past : List DeviceAction} {events : List DeviceEvent}
    (hrun : runFrom (Device.step pf awg (awgFy6900 retries) awgAnswers) Device.setup.1 events =
      .ok (s, past)) (hunheard : Unheard s past) :
    Calm s.tasks ∧ awgProtocol.InStep s.line (serialActions past) :=
  (CalmInvariant.run keptByDriver_inStep ⟨rfl, rfl, .inl rfl, [], rfl, .nil⟩ hrun hunheard).2

/-- **The serial line of the device is in step** as long as the telnet client has not turned the
pass-through on: when no call is under way nothing is unread or on its way, nor will anything be
sent for what was written; and the queries that the AWG has answered were read, in order, each
reading being the answer to the query that was written last before it. -/
theorem device_in_step {s : Device} {past : List DeviceAction} {events : List DeviceEvent}
    (hrun : runFrom (Device.step pf awg (awgFy6900 retries) awgAnswers) Device.setup.1 events =
      .ok (s, past))
    (hunheard : ∀ line ∈ heardLines s past, ¬ togglesPassThrough line) :
    (s.line.running = none → s.line.rx = [] ∧ s.line.inFlight = [] ∧
      (s.line.outgoing = [] ∨ s.line.outgoing = ascii "\n")) ∧
    ∃ read unread,
      SerialLine.answered (startsWith (chr 'R')) (serialActions past) = read ++ unread ∧
      unread.length ≤ 1 ∧ (s.line.running = none → unread = []) ∧
      List.Forall₂ (fun a e ↦ e.1 = a.1 ++ ascii "\n\n" ∧ a.2 = e.2 ++ ascii "\n") read
        (exchanges [] (serialActions past)) := by
  obtain ⟨-, hstep⟩ := inStep_of_run hrun hunheard
  refine ⟨fun hs ↦ ?_, ?_⟩
  · obtain ⟨hrx, hin, hout, -⟩ := (LineProtocol.inStep_none hs).1 hstep
    exact ⟨hrx, hin, hout⟩
  · obtain ⟨unread, hone, hnone, read, hanswered, hfits⟩ := hstep.exists_read
    exact ⟨read, unread, hanswered, hone, hnone, hfits⟩

/-! ### Coming to rest -/

/-- The actions of the servers. -/
def ownActions (out : List DeviceAction) : List DeviceAction :=
  out.filter fun
    | .serial _ => false
    | _ => true

/-- The actions that the tasks will put out, apart from what they copy. -/
def owed (tasks : List DeviceTask) : List DeviceAction :=
  tasks.filterMap fun
    | .system action => some (.system action)
    | .telnet action => some (.telnet action)
    | .copySerial => none

theorem ownActions_serial (out : List SerialAction) : ownActions (out.map .serial) = [] := by
  rw [ownActions, List.filter_eq_nil_iff]
  simp

/-- What brings the running dialogue to its end does so in the device. -/
theorem exists_run_line {events : List (SerialEvent SetCall)} :
    ∀ {s : Device} {past line' out}, awgProtocol.InStep s.line past →
      runFrom (SerialLine.step (chr '\n') awgAnswers (Device.program pf (awgFy6900 retries))) s.line
        events = .ok (line', out) → line'.running = none →
      ∃ events' line' out', runFrom (Device.step pf awg (awgFy6900 retries) awgAnswers) s events' =
          .ok ({ s with line := line' }, out'.map .serial) ∧
        line'.running = none ∧ awgProtocol.InStep line' (past ++ out') := by
  induction events with
  | nil =>
    intro s past line' out hin hrun hnone
    obtain ⟨rfl, rfl⟩ := Prod.mk.inj (Except.ok.inj hrun)
    exact ⟨[], s.line, [], rfl, hnone, (List.append_nil past).symm ▸ hin⟩
  | cons event events ih =>
    intro s past line' out hin hrun hnone
    rcases hs : s.line.running with _ | d
    · exact ⟨[], s.line, [], rfl, hs, (List.append_nil past).symm ▸ hin⟩
    obtain ⟨line₁, out₁, out₂, hstep, hrest, rfl⟩ := runFrom_cons_eq_ok.1 hrun
    -- a step of the line that is a step of the device
    have hlift : ∀ event', Device.step pf awg (awgFy6900 retries) awgAnswers s event' =
        s.serial pf (awgFy6900 retries) awgAnswers event → (∀ call, event ≠ .call call) →
          ∃ events' line' out', runFrom (Device.step pf awg (awgFy6900 retries) awgAnswers) s
              events' = .ok ({ s with line := line' }, out'.map .serial) ∧
            line'.running = none ∧ awgProtocol.InStep line' (past ++ out') := by
      intro event' hevent hcall
      obtain ⟨line₂, out₂', hstep', hin'⟩ := hin.step_of_not_call hcall
      obtain ⟨rfl, rfl⟩ := Prod.mk.inj (Except.ok.inj (hstep'.symm.trans hstep))
      obtain ⟨events', line'', out', hrun', hnone', hin''⟩ :=
        ih (s := { s with line := line₂ }) hin' hrest hnone
      have hdevice : Device.step pf awg (awgFy6900 retries) awgAnswers s event' =
          .ok ({ s with line := line₂ }, out₂'.map .serial) := by
        rw [hevent, Device.serial, hstep]
        rfl
      refine ⟨event' :: events', line'', out₂' ++ out', runFrom_cons_eq_ok.2
        ⟨_, _, _, hdevice, hrun', List.map_append⟩, hnone', ?_⟩
      rwa [← List.append_assoc]
    cases event with
    | call c =>
      simp only [SerialLine.step, hs] at hstep
      obtain ⟨rfl, rfl⟩ := Prod.mk.inj (Except.ok.inj hstep)
      exact ih hin hrest hnone
    | proceed =>
      refine hlift .proceed ?_ (by simp)
      simp only [Device.step]
      rw [if_neg (hs ▸ Option.some_ne_none d)]
    | giveUp => exact hlift .giveUp rfl (by simp)
    | take answer => exact hlift (.take answer) rfl (by simp)
    | arrive => exact hlift .arrive rfl (by simp)

/-- **Calm tasks can be done**, one after the other. -/
theorem exists_run_tasks {tasks : List DeviceTask} :
    ∀ {s : Device} {past : List SerialAction}, s.tasks = tasks → Calm tasks →
      awgProtocol.InStep s.line past →
      ∃ events' s' out, runFrom (Device.step pf awg (awgFy6900 retries) awgAnswers) s events' =
          .ok (s', out) ∧ s'.Idle ∧ s'.system = s.system ∧ s'.telnet = s.telnet ∧
        ownActions out = owed tasks := by
  induction tasks with
  | nil =>
    intro s past htasks _ hin
    obtain ⟨events, line, out, hrun, hnone⟩ :=
      @LineProtocol.InStep.ends _ _ (Device.program pf (awgFy6900 retries)) _ _ hin
    obtain ⟨events', line', out', hrun', hnone', -⟩ := exists_run_line hin hrun hnone
    exact ⟨events', _, _, hrun', ⟨hnone', htasks⟩, rfl, rfl, ownActions_serial out'⟩
  | cons task tasks ih =>
    intro s past htasks hcalm hin
    -- the running dialogue comes to its end, and then the first task is done
    obtain ⟨events, line, out, hrun, hnone⟩ :=
      @LineProtocol.InStep.ends _ _ (Device.program pf (awgFy6900 retries)) _ _ hin
    obtain ⟨events', line', out', hrun', hnone', hin'⟩ := exists_run_line hin hrun hnone
    have hnext : ∀ line'' {action}, Device.work pf (awgFy6900 retries) { s with line := line' } =
        ({ s with line := line'', tasks }, [action]) → ownActions [action] = [action] →
          owed (task :: tasks) = action :: owed tasks →
            awgProtocol.InStep line'' (past ++ out' ++ []) →
        ∃ events' s' out, runFrom (Device.step pf awg (awgFy6900 retries) awgAnswers) s events' =
          .ok (s', out) ∧ s'.Idle ∧ s'.system = s.system ∧ s'.telnet = s.telnet ∧
        ownActions out = owed (task :: tasks) := by
      intro line'' action hwork hown howed hin''
      obtain ⟨events'', s', out'', hrun'', hidle, hsystem, htelnet, hout⟩ :=
        ih (s := { s with line := line'', tasks }) rfl hcalm.tail hin''
      have hstep : Device.step pf awg (awgFy6900 retries) awgAnswers { s with line := line' }
          .proceed = .ok ({ s with line := line'', tasks }, [action]) := by
        simp only [Device.step]
        rw [if_pos hnone', hwork]
      refine ⟨events' ++ .proceed :: events'', s', out'.map .serial ++ ([action] ++ out''),
        runFrom_append_eq_ok.2 ⟨_, _, _, hrun', runFrom_cons_eq_ok.2 ⟨_, _, _, hstep, hrun'', rfl⟩,
          rfl⟩, hidle, hsystem, htelnet, ?_⟩
      have happend : ∀ as bs, ownActions (as ++ bs) = ownActions as ++ ownActions bs :=
        fun as bs ↦ List.filter_append as bs
      rw [happend, happend, ownActions_serial, hown, hout, howed]
      rfl
    obtain ⟨action, hputs⟩ | ⟨call, rfl⟩ | ⟨bytes, rfl⟩ | rfl := puts_or task
    · refine hnext line' (hputs.work_eq pf _ htasks) ?_ ?_ ?_
      · cases hputs <;> rfl
      · cases hputs <;> rfl
      · rwa [List.append_nil]
    · refine hnext { line' with
        running := some (Device.program pf (awgFy6900 retries) call) } ?_ rfl rfl ?_
      · rw [Device.work, show Device.tasks { s with line := line' } = _ from htasks]
      · rw [List.append_nil]
        exact (LineProtocol.inStep_some rfl).2 ⟨.quiet,
          obeys_program pf retries (hcalm.parameter_lt call List.mem_cons_self),
          (LineProtocol.inStep_none hnone').1 hin'⟩
    · exact absurd List.mem_cons_self (hcalm.noAwg bytes)
    · exact absurd List.mem_cons_self hcalm.noCopy

end Runs

/-- A telnet client types a line, and then a client of the VXI server switches channel 2 on, which
the driver verifies. The answer to its query has arrived and is not read yet. -/
def checkedRun : List DeviceEvent :=
  [.telnetLoop (some (.ofStream (ascii "hello\n"))) [] fun _ ↦ 0] ++ List.replicate 3 .proceed ++
    [.vxiLoop { offered := some (.ofStream outputRequest.bytes) }, .proceed, .vxiLoop {}] ++
    List.replicate 4 .proceed ++ [.take (ascii "\n"), .proceed, .arrive] ++
    List.replicate 4 .proceed ++ [.take (ascii "1\n"), .arrive, .arrive]

theorem device_in_step_checkedRun :
    ∃ s past, runFrom (Device.step (referencePlatform .binary64) .base (awgFy6900 1) awgAnswers)
        Device.setup.1 (checkedRun ++ List.replicate 5 .proceed) = .ok (s, past) ∧
      s.line.rx = [] ∧ s.line.inFlight = [] ∧
      (s.line.outgoing = [] ∨ s.line.outgoing = ascii "\n") ∧
      exchanges [] (serialActions past) = [(ascii "RFN\n\n", ascii "1")] := by
  obtain ⟨⟨s, past⟩, hrun, hout⟩ := exists_of_map_eq_ok
    (b := (true, [ascii "hello"], [(ascii "RFN\n\n", ascii "1")]))
    (f := fun r : Device × List DeviceAction ↦ (r.1.line.running.isNone, heardLines r.1 r.2,
      exchanges [] (serialActions r.2)))
    (x := runFrom (Device.step (referencePlatform .binary64) .base (awgFy6900 1) awgAnswers)
      Device.setup.1 (checkedRun ++ List.replicate 5 .proceed)) (by decide +kernel)
  simp only [Prod.mk.injEq, Option.isNone_iff_eq_none] at hout
  obtain ⟨hnone, hheard, hexchanges⟩ := hout
  have hunheard : ∀ line ∈ heardLines s past, ¬ togglesPassThrough line := by
    rw [hheard]
    decide +kernel
  obtain ⟨hrx, hin, houtgoing⟩ := (device_in_step hrun hunheard).1 hnone
  exact ⟨s, past, hrun, hrx, hin, houtgoing, hexchanges⟩

end EspBode
