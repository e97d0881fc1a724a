import EspBode.Firmware.Device
import EspBode.Verification.Addressing
import EspBode.Verification.Links

/-!
# Steps of the device

`DeviceStep` lists what a step can do: nothing, a call of one of the loops, a peer going away, a
piece of a task, or a step of the serial line. The invariants of runs of the device go through this
list and do not unfold the step: each constructor says under which conditions its step is taken, and
what the device is then.

The tasks of a call are in an order that suits the serial line (`Ordered`): a line that is passed on
is ended before anything else is written, and the settings of the parser are for parameters of the
table, so that the driver finds its entries.

`Ordered` depends on what of a line has been begun when the tasks are started, since the bytes of a
line that is passed on and its line feed are two tasks. It is established where tasks come from:

* **the two servers** make settings and nothing else that goes to the line, and a setting comes from
  the parser, which finds its names in the table (`parameter_lt_of_loop`);
* **the telnet server** passes on a whole line at a time. Its line buffer never holds a line feed,
  as one ends the line (`ordered_readInput`).

And it is kept when a task is done. The tasks that write nothing to the AWG are taken together
(`Puts`): whatever they put out, the order of the others is as before.
-/

namespace EspBode

open Scpi

/-! ### What the servers ask for -/

/-- The parser makes settings for entries of its table only. -/
theorem parameter_lt_of_lineText {s : List UInt8} {uninit : ℕ → Double}
    {q : UInt32 × ReadType × List SetCall} (h : lineText s uninit = .ok q) :
    ∀ call ∈ q.2.2, call.parameter < parameterCount := by
  have htrace := lineTrace_eq s uninit
  rw [h, map_ok, Trace.outcome] at htrace
  split_ifs at htrace
  rw [← Except.ok.inj htrace, Trace.calls]
  exact List.forall_mem_map.2 (forall_mem_lineTrace id_lt_readParameters s uninit)

/-- So does an answer. -/
theorem parameter_lt_of_answer {awg : AwgServer} {b : Buffer vxiReadSize} {uninit : ℕ → Double}
    {a : Answer} (h : answer awg b uninit = .ok a) :
    ∀ call ∈ a.calls, call.parameter < parameterCount := by
  have hnone : ∀ {reply : List UInt8} {bClose : Bool}, (⟨bClose, [], reply⟩ : Answer) = a →
      ∀ call ∈ a.calls, call.parameter < parameterCount := by
    rintro reply bClose rfl call hcall
    exact absurd hcall List.not_mem_nil
  cases requestCase (VxiRequest.program b) (VxiRequest.procedure b) with
  | otherProgram hprogram =>
    rw [answer_of_program_ne hprogram] at h
    exact hnone (Except.ok.inj h)
  | createLink hcore hcreate =>
    rw [answer_of_createLink hcore hcreate] at h
    split_ifs at h
    exact hnone (Except.ok.inj h)
  | devRead hcore hread =>
    rw [answer_of_devRead hcore hread] at h
    split_ifs at h
    exact hnone (Except.ok.inj h)
  | devWrite hcore hwrite =>
    rw [answer_of_devWrite hcore hwrite] at h
    split_ifs at h
    obtain ⟨q, hq, ha⟩ := bind_eq_ok.1 h
    obtain rfl := Except.ok.inj ha
    exact parameter_lt_of_lineText hq
  | destroyLink hcore hdestroy =>
    rw [answer_of_destroyLink hcore hdestroy] at h
    exact hnone (Except.ok.inj h)
  | otherProcedure hcore hunhandled =>
    rw [answer_of_not_handled hcore hunhandled] at h
    exact hnone (Except.ok.inj h)

/-- And a call of the VXI loop. -/
theorem parameter_lt_of_loop {awg : AwgServer} {s s' : VxiServer} {input : VxiServer.LoopInput}
    {out : List VxiAction} (h : s.loop awg input = .ok (s', out)) :
    ∀ call, .set call ∈ out → call.parameter < parameterCount := by
  rcases hc : s.client with _ | c
  · rw [VxiServer.loop, hc] at h
    obtain ⟨-, rfl⟩ := Prod.mk.inj (Except.ok.inj h)
    intro call hcall
    obtain ⟨_, -, heq⟩ := List.mem_map.1 hcall
    exact VxiAction.noConfusion heq
  · obtain ⟨a, ha, t, -, -, hout⟩ := (VxiServer.loop_simulates awg hc input).exists_of_eq_ok h
    obtain rfl : out = _ := hout
    intro call hcall
    rcases List.mem_append.1 hcall with hcall | hcall
    · rw [serve] at ha
      split_ifs at ha
      · obtain ⟨a, hanswer, rfl⟩ := exists_of_map_eq_ok ha
        have hmem : VxiAction.set call ∈ a.calls.map .set ++ [.send a.reply] := hcall
        exact parameter_lt_of_answer hanswer call (by simpa using hmem)
      · obtain rfl := Except.ok.inj ha
        exact absurd hcall List.not_mem_nil
    · -- closing the link sets nothing
      cases hcl : Answer.closes a <;> rw [hcl] at hcall
      · exact absurd hcall List.not_mem_nil
      · rcases List.mem_cons.1 hcall with heq | hcall
        · exact VxiAction.noConfusion heq
        · obtain ⟨_, -, heq⟩ := List.mem_map.1 hcall
          exact VxiAction.noConfusion heq

/-! ### Orders of tasks -/

/-- The tasks suit a serial line of which so much is begun. -/
def Ordered (begun : List UInt8) : List DeviceTask → Prop
  | [] => begun = []
  | .system (.vxi (.set call)) :: tasks =>
    begun = [] ∧ call.parameter < parameterCount ∧ Ordered [] tasks
  | .telnet (.awg bytes) :: tasks => Ordered (unfinished (chr '\n') (begun ++ bytes)) tasks
  | _ :: tasks => Ordered begun tasks

/-- One list behind the other. -/
theorem Ordered.append {begun : List UInt8} {tasks tasks' : List DeviceTask}
    (h : Ordered begun tasks) (h' : Ordered [] tasks') : Ordered begun (tasks ++ tasks') := by
  induction tasks generalizing begun with
  | nil =>
    obtain rfl : begun = [] := h
    exact h'
  | cons task tasks ih =>
    rcases task with (action | bytes | call | _ | call) | (bytes | line | bytes | call) | _
    case system.vxi.set => exact ⟨h.1, h.2.1, ih h.2.2⟩
    all_goals exact ih h

theorem ordered_copies (n : ℕ) : Ordered [] (List.replicate n .copySerial) := by
  induction n with
  | zero => rfl
  | succ n ih => exact ih

/-- The settings of a step of the two servers. -/
theorem ordered_system {actions : List SystemAction}
    (h : ∀ call, .vxi (.set call) ∈ actions → call.parameter < parameterCount) :
    Ordered [] (actions.map .system) := by
  induction actions with
  | nil => rfl
  | cons action actions ih =>
    have hrest := ih fun call hcall ↦ h call (List.mem_cons_of_mem _ hcall)
    rcases action with action | (bytes | call | _ | call)
    · exact hrest
    · exact hrest
    · exact ⟨rfl, h call List.mem_cons_self, hrest⟩
    · exact hrest
    · exact hrest

/-- A step of the two servers asks for settings from the table only. -/
theorem parameter_lt_of_systemStep {awg : AwgServer} {s s' : System} {event : SystemEvent}
    {out : List SystemAction} (hstep : System.step awg s event = .ok (s', out)) :
    ∀ call, .vxi (.set call) ∈ out → call.parameter < parameterCount := by
  intro call hcall
  cases systemStep_of_step hstep with
  | bindLoop hloop =>
    obtain ⟨_, -, heq⟩ := List.mem_map.1 hcall
    exact SystemAction.noConfusion heq
  | vxiLoop hloop =>
    obtain ⟨action, haction, heq⟩ := List.mem_map.1 hcall
    obtain rfl := SystemAction.vxi.inj heq
    exact parameter_lt_of_loop hloop call haction
  | peerCloses => exact absurd hcall List.not_mem_nil

theorem ordered_of_systemStep {awg : AwgServer} {s s' : System} {event : SystemEvent}
    {out : List SystemAction} (hstep : System.step awg s event = .ok (s', out)) :
    Ordered [] (out.map .system) :=
  ordered_system (parameter_lt_of_systemStep hstep)

/-! ### The telnet server -/

/-- A line toggles the pass-through, or is passed on, or neither. -/
theorem onTelnetInput_cases (passThrough : Bool) (line : List UInt8) :
    (∃ s onOff, (onTelnetInput passThrough line []).2 =
        [.tell [chr '\n'], .tell s, .tell onOff, .tell [chr '\n']]) ∨
      (onTelnetInput passThrough line []).2 = [.awg line, .awg [chr '\n']] ∨
      (onTelnetInput passThrough line []).2 = [] := by
  rw [onTelnetInput]
  dsimp only
  rcases equalsLiteral (toUpperCase (trim line)) passThroughCommand
  · cases passThrough
    · exact .inr (.inr rfl)
    · exact .inr (.inl rfl)
  · exact .inl ⟨_, _, rfl⟩

/-- The inner loop keeps line feeds out of the line buffer, and ends every line that it passes
on. -/
theorem ordered_readInput (polls : ℕ → ℕ) {rx : List UInt8} :
    ∀ {k j : ℕ} {lineBuffer : List UInt8} {passThrough : Bool}, chr '\n' ∉ lineBuffer →
      chr '\n' ∉ (readInput (fun _ ↦ []) k lineBuffer passThrough rx).lineBuffer ∧
        Ordered []
          (telnetTasks polls j (readInput (fun _ ↦ []) k lineBuffer passThrough rx).actions) := by
  induction hn : rx.length using Nat.strongRecOn generalizing rx with
  | _ n ih =>
    intro k j lineBuffer passThrough hline
    rcases rx with _ | ⟨b, rx⟩
    · exact ⟨hline, rfl⟩
    have hlt : rx.length < n := by rw [← hn]; exact Nat.lt_succ_self _
    rw [readInput.eq_def]
    dsimp only
    rcases eq_or_ne b iac with hiac | hiac
    · rw [if_pos hiac]
      rcases rx with _ | ⟨command, _ | ⟨option, rx⟩⟩
      · exact ⟨hline, rfl⟩
      · exact ⟨hline, rfl⟩
      · exact ih rx.length (by simp at hlt; omega) rfl hline
    rw [if_neg hiac]
    rcases eq_or_ne b (chr '\r') with hcr | hcr
    · rw [if_pos hcr]
      exact ih rx.length hlt rfl hline
    rw [if_neg hcr]
    rcases eq_or_ne b (chr '\n') with hlf | hlf
    · -- the line is complete
      rw [if_pos hlf]
      have hne : lineBuffer ≠ [chr '\n'] := fun h ↦ hline (h ▸ List.mem_singleton_self _)
      have hfinished : unfinished (chr '\n') (lineBuffer ++ [chr '\n']) = [] :=
        unfinished_append_cons hline []
      have hnext : chr '\n' ∉ (readInput (fun _ ↦ []) (k + 1) []
          (onTelnetInput passThrough lineBuffer []).1 rx).lineBuffer :=
        (@ih rx.length hlt rx rfl (k + 1) 0 [] _ List.not_mem_nil).1
      refine ⟨hnext, ?_⟩
      have hrest : ∀ {j passThrough}, Ordered [] (telnetTasks polls j
          (readInput (fun _ ↦ []) (k + 1) [] passThrough rx).actions) :=
        (ih rx.length hlt rfl List.not_mem_nil).2
      show Ordered [] (telnetTasks polls j ((onTelnetInput passThrough lineBuffer []).2 ++ _))
      obtain ⟨s, onOff, h⟩ | h | h := onTelnetInput_cases passThrough lineBuffer <;> rw [h]
      · exact hrest
      · show Ordered [] (telnetTasks polls j (.awg lineBuffer :: .awg [chr '\n'] :: _))
        rw [telnetTasks, if_neg hne, telnetTasks, if_pos rfl]
        show Ordered (unfinished (chr '\n') (unfinished (chr '\n') ([] ++ lineBuffer) ++ _)) _
        rw [List.nil_append, unfinished_of_not_mem hline, hfinished]
        exact (ordered_copies _).append hrest
      · exact hrest
    rw [if_neg hlf]
    split_ifs
    · exact ih rx.length hlt rfl (by simpa [hline] using Ne.symm hlf)
    · exact ih rx.length hlt rfl hline

/-- What writes nothing to the AWG may come first. -/
theorem ordered_telnetTasks_append {polls : ℕ → ℕ} {k : ℕ} {as bs : List TelnetAction}
    (has : ∀ bytes, .awg bytes ∉ as) (hbs : Ordered [] (telnetTasks polls k bs)) :
    Ordered [] (telnetTasks polls k (as ++ bs)) := by
  induction as with
  | nil => exact hbs
  | cons a as ih =>
    have hrest := ih fun bytes h ↦ has bytes (List.mem_cons_of_mem a h)
    rcases a with bytes | line | bytes | call
    · exact hrest
    · exact hrest
    · exact absurd List.mem_cons_self (has bytes)
    · exact hrest

/-- The greeting is not for the AWG. -/
theorem awg_not_mem_takeClient (s : TelnetServer) (offered : Option NetClient)
    (bytes : List UInt8) : .awg bytes ∉ (s.takeClient offered).2 := by
  have hserver : ∀ calls : List ServerCall, TelnetAction.awg bytes ∉ calls.map .server := by
    intro calls h
    obtain ⟨_, -, heq⟩ := List.mem_map.1 h
    exact TelnetAction.noConfusion heq
  rw [TelnetServer.takeClient]
  split_ifs
  · exact List.not_mem_nil
  dsimp only
  rcases (s.server.accept offered).1 with _ | c
  · exact hserver _
  · dsimp only
    rw [List.mem_append]
    rintro (h | h)
    · exact hserver _ h
    · exact TelnetAction.noConfusion (List.mem_singleton.1 h)

/-- **A call of the telnet loop** leaves tasks that suit the line. -/
theorem ordered_telnetLoop {s : Device} (h : chr '\n' ∉ s.telnet.lineBuffer)
    (offered : Option NetClient) (arrived : List UInt8) (polls : ℕ → ℕ) :
    chr '\n' ∉ (s.telnetLoop offered arrived polls).telnet.lineBuffer ∧
      Ordered [] (s.telnetLoop offered arrived polls).tasks := by
  have hcopies : ∀ copies : Bool, Ordered [] (if copies then [.copySerial] else []) := by
    intro copies
    cases copies <;> rfl
  set t := ((s.telnet.arrive arrived).takeClient offered).1 with ht
  have hbuffer : chr '\n' ∉ t.lineBuffer := by
    rw [ht, TelnetServer.takeClient]
    split_ifs
    · exact h
    dsimp only
    rcases ((s.telnet.arrive arrived).server.accept offered).1 with _ | c
    · exact h
    · exact List.not_mem_nil
  have hread : chr '\n' ∉ (t.readClient (fun _ ↦ []) []).1.lineBuffer ∧
      Ordered [] (telnetTasks polls 0 (t.readClient (fun _ ↦ []) []).2) := by
    rw [TelnetServer.readClient]
    rcases t.client with _ | c
    · exact ⟨hbuffer, by dsimp only; split_ifs <;> rfl⟩
    dsimp only
    split_ifs
    · obtain ⟨hline, hactions⟩ := @ordered_readInput polls c.rx 0 0 _ t.passThrough hbuffer
      exact ⟨hline, by rwa [List.map_nil, List.append_nil]⟩
    · obtain ⟨hline, hactions⟩ := @ordered_readInput polls c.rx 0 0 _ t.passThrough hbuffer
      exact ⟨hline, by rwa [List.append_nil]⟩
    · exact ⟨hbuffer, rfl⟩
    · exact ⟨hbuffer, rfl⟩
  exact ⟨hread.1,
    (ordered_telnetTasks_append (awg_not_mem_takeClient _ _) hread.2).append (hcopies _)⟩

/-! ### Steps -/

variable {pf : Platform} {awg : AwgServer} {driver : AwgFy}
variable {answers : List UInt8 → List UInt8 → Bool}

/-- The task is to put out something that writes nothing to the AWG. -/
inductive Puts : DeviceTask → DeviceAction → Prop
  | system {action : SystemAction} (quiet : ∀ call, action ≠ .vxi (.set call)) :
      Puts (.system action) (.system action)
  | telnet {action : TelnetAction} (quiet : ∀ bytes, action ≠ .awg bytes) :
      Puts (.telnet action) (.telnet action)

/-- Then the order of the other tasks is as before. -/
theorem Puts.ordered {task : DeviceTask} {action : DeviceAction} {tasks : List DeviceTask}
    {begun : List UInt8} (hputs : Puts task action) (h : Ordered begun (task :: tasks)) :
    Ordered begun tasks := by
  rcases hputs with @⟨action, hquiet⟩ | @⟨action, hquiet⟩
  · rcases action with action | (bytes | call | _ | call)
    case vxi.set => exact absurd rfl (hquiet call)
    all_goals exact h
  · rcases action with bytes | line | bytes | call
    case awg => exact absurd rfl (hquiet bytes)
    all_goals exact h

/-- Any other task calls the driver, passes something on, or copies. -/
theorem puts_or (task : DeviceTask) : (∃ action, Puts task action) ∨
    (∃ call, task = .system (.vxi (.set call))) ∨ (∃ bytes, task = .telnet (.awg bytes)) ∨
      task = .copySerial := by
  rcases task with (action | bytes | call | _ | call) | (bytes | line | bytes | call) | _
  case system.vxi.set => exact .inr (.inl ⟨call, rfl⟩)
  case telnet.awg => exact .inr (.inr (.inl ⟨bytes, rfl⟩))
  case copySerial => exact .inr (.inr (.inr rfl))
  all_goals first
    | exact .inl ⟨_, .system (by simp)⟩
    | exact .inl ⟨_, .telnet (by simp)⟩

theorem Puts.work_eq (pf : Platform) (driver : AwgFy) {task : DeviceTask} {action : DeviceAction}
    {tasks : List DeviceTask} {s : Device} (hputs : Puts task action)
    (htasks : s.tasks = task :: tasks) : s.work pf driver = ({ s with tasks }, [action]) := by
  rw [Device.work, htasks]
  rcases hputs with @⟨action, hquiet⟩ | @⟨action, hquiet⟩
  · rcases action with action | (bytes | call | _ | call)
    case vxi.set => exact absurd rfl (hquiet call)
    all_goals rfl
  · rcases action with bytes | line | bytes | call
    case awg => exact absurd rfl (hquiet bytes)
    all_goals rfl

/-- What a step of the device can do. -/
inductive DeviceStep (pf : Platform) (awg : AwgServer) (driver : AwgFy)
    (answers : List UInt8 → List UInt8 → Bool) (s : Device) :
    DeviceEvent → Device → List DeviceAction → Prop
  /-- The step is not possible. -/
  | nothing {event : DeviceEvent} : DeviceStep pf awg driver answers s event s []
  | telnetLoop {offered : Option NetClient} {arrived : List UInt8} {polls : ℕ → ℕ}
      (idle : s.Idle) :
      DeviceStep pf awg driver answers s (.telnetLoop offered arrived polls)
        (s.telnetLoop offered arrived polls) []
  | bindLoop {input : RpcBindServer.LoopInput} {system : System} {actions : List SystemAction}
      (idle : s.Idle) (step : System.step awg s.system (.bindLoop input) = .ok (system, actions)) :
      DeviceStep pf awg driver answers s (.bindLoop input)
        { s with system, tasks := actions.map .system } []
  | vxiLoop {input : VxiServer.LoopInput} {system : System} {actions : List SystemAction}
      (idle : s.Idle) (step : System.step awg s.system (.vxiLoop input) = .ok (system, actions)) :
      DeviceStep pf awg driver answers s (.vxiLoop input)
        { s with system, tasks := actions.map .system } []
  | peerCloses {system : System} {actions : List SystemAction}
      (step : System.step awg s.system .peerCloses = .ok (system, actions)) :
      DeviceStep pf awg driver answers s .peerCloses { s with system } []
  | telnetPeerCloses :
      DeviceStep pf awg driver answers s .telnetPeerCloses
        { s with telnet := { s.telnet with
          client := s.telnet.client.map fun c : NetClient ↦ { c with peerClosed := true } } } []
  /-- The next task is a setting, and the driver is called. -/
  | setting {call : SetCall} {tasks : List DeviceTask} (running : s.line.running = none)
      (tasks_eq : s.tasks = .system (.vxi (.set call)) :: tasks) :
      DeviceStep pf awg driver answers s .proceed
        { s with tasks, line := { s.line with
          running := some (Device.program pf driver call) } } [.system (.vxi (.set call))]
  /-- The next task is to pass something on. -/
  | passes {bytes : List UInt8} {tasks : List DeviceTask} (running : s.line.running = none)
      (tasks_eq : s.tasks = .telnet (.awg bytes) :: tasks) :
      DeviceStep pf awg driver answers s .proceed
        { s with tasks, line := { s.line with outgoing := s.line.outgoing ++ bytes } }
        [.telnet (.awg bytes)]
  | puts {task : DeviceTask} {action : DeviceAction} {tasks : List DeviceTask}
      (running : s.line.running = none) (tasks_eq : s.tasks = task :: tasks)
      (puts : Puts task action) :
      DeviceStep pf awg driver answers s .proceed { s with tasks } [action]
  /-- Everything that has arrived is copied. -/
  | copied {tasks : List DeviceTask} (running : s.line.running = none)
      (tasks_eq : s.tasks = .copySerial :: tasks) (rx : s.line.rx = []) :
      DeviceStep pf awg driver answers s .proceed { s with tasks } []
  | copies {tasks : List DeviceTask} {c : UInt8} {rx : List UInt8}
      (running : s.line.running = none) (tasks_eq : s.tasks = .copySerial :: tasks)
      (rx_eq : s.line.rx = c :: rx) :
      DeviceStep pf awg driver answers s .proceed { s with line := { s.line with rx } }
        [.telnet (.tell [c])]
  /-- The serial line takes a step. -/
  | serial {event : DeviceEvent} {serialEvent : SerialEvent SetCall} {line : SerialLine}
      {out : List SerialAction} (noCall : ∀ call, serialEvent ≠ .call call)
      (step : SerialLine.step (chr '\n') answers (Device.program pf driver) s.line serialEvent =
        .ok (line, out)) :
      DeviceStep pf awg driver answers s event { s with line } (out.map .serial)

/-- What doing the next task can be. -/
theorem deviceStep_work (s : Device) (hrunning : s.line.running = none) :
    DeviceStep pf awg driver answers s .proceed (s.work pf driver).1 (s.work pf driver).2 := by
  rcases htasks : s.tasks with _ | ⟨task, tasks⟩
  · rw [Device.work, htasks]
    exact .nothing
  obtain ⟨action, hputs⟩ | ⟨call, rfl⟩ | ⟨bytes, rfl⟩ | rfl := puts_or task
  · rw [hputs.work_eq pf driver htasks]
    exact .puts hrunning htasks hputs
  · rw [Device.work, htasks]
    exact .setting hrunning htasks
  · rw [Device.work, htasks]
    exact .passes hrunning htasks
  · rcases hrx : s.line.rx with _ | ⟨c, rx⟩
    · rw [Device.work, htasks]
      dsimp only
      rw [hrx]
      exact .copied hrunning htasks hrx
    · have hcopies : DeviceStep pf awg driver answers s .proceed _ _ :=
        .copies hrunning htasks hrx
      rw [htasks] at hcopies
      rw [Device.work, htasks]
      dsimp only
      rw [hrx]
      exact hcopies

/-- **The case analysis on steps of the device.** -/
theorem deviceStep_of_step {s s' : Device} {event : DeviceEvent} {out : List DeviceAction}
    (h : Device.step pf awg driver answers s event = .ok (s', out)) :
    DeviceStep pf awg driver answers s event s' out := by
  -- the steps of the serial line
  have hserial : ∀ {event serialEvent}, (∀ call, serialEvent ≠ SerialEvent.call call) →
      s.serial pf driver answers serialEvent = .ok (s', out) →
        DeviceStep pf awg driver answers s event s' out := by
    intro event serialEvent hcall h
    obtain ⟨r, hstep, hr⟩ := bind_eq_ok.1 h
    obtain ⟨rfl, rfl⟩ := Prod.mk.inj (Except.ok.inj hr)
    exact .serial hcall hstep
  cases event with
  | telnetLoop offered arrived polls =>
    simp only [Device.step] at h
    split_ifs at h with hidle <;> obtain ⟨rfl, rfl⟩ := Prod.mk.inj (Except.ok.inj h)
    · exact .telnetLoop hidle
    · exact .nothing
  | bindLoop input =>
    simp only [Device.step] at h
    split_ifs at h with hidle
    · obtain ⟨s₁, hloop, hr⟩ := exists_of_map_eq_ok h
      obtain ⟨rfl, rfl⟩ := Prod.mk.inj hr
      obtain ⟨r, hstep, hr⟩ := bind_eq_ok.1 hloop
      obtain rfl := Except.ok.inj hr
      exact .bindLoop hidle hstep
    · obtain ⟨rfl, rfl⟩ := Prod.mk.inj (Except.ok.inj h)
      exact .nothing
  | vxiLoop input =>
    simp only [Device.step] at h
    split_ifs at h with hidle
    · obtain ⟨s₁, hloop, hr⟩ := exists_of_map_eq_ok h
      obtain ⟨rfl, rfl⟩ := Prod.mk.inj hr
      obtain ⟨r, hstep, hr⟩ := bind_eq_ok.1 hloop
      obtain rfl := Except.ok.inj hr
      exact .vxiLoop hidle hstep
    · obtain ⟨rfl, rfl⟩ := Prod.mk.inj (Except.ok.inj h)
      exact .nothing
  | peerCloses =>
    obtain ⟨rfl, rfl⟩ := Prod.mk.inj (Except.ok.inj h)
    exact .peerCloses rfl
  | telnetPeerCloses =>
    obtain ⟨rfl, rfl⟩ := Prod.mk.inj (Except.ok.inj h)
    exact .telnetPeerCloses
  | proceed =>
    simp only [Device.step] at h
    split_ifs at h with hrunning
    · obtain ⟨rfl, rfl⟩ := Prod.mk.inj (Except.ok.inj h)
      exact deviceStep_work s hrunning
    · exact hserial (by simp) h
  | giveUp => exact hserial (by simp) h
  | take answer => exact hserial (by simp) h
  | arrive => exact hserial (by simp) h

end EspBode
