import EspBode.Foundations.Fairness
import EspBode.Foundations.LineFairness
import EspBode.Verification.DeviceServers
import EspBode.Verification.SerialDialogue

/-!
# The main loop comes back

A call of one of the loops may take its time, since the driver waits in `while
(!Serial.available())` for the AWG. Infinite runs of the device are considered in which bytes go on
arriving, readings are given up, the AWG goes on taking lines, and the call under way goes on, each
again and again (`Device.Fair`). If the AWG answers every line that starts with W or R by something,
then again and again no call is under way, whatever the telnet client passes through, and all
replies that a call owed are sent by then (`device_returns`).

The argument is the usual one for progress under fairness: as long as a call is under way, no step
makes more to do, and of one of the kinds that come again and again every step makes less.

* **What there is to do** is a well-founded order (`Less`) on the tasks, the dialogue and the line:
  tasks to be done, steps of the dialogue, bytes to be taken, to arrive and to be read.
* **Why some step helps** (`exists_less`). The only dialogue that could be stuck is one that waits,
  and the driver waits only when it has ended a line to be answered since it last read
  (`waitsDue_program`). So there is a line to be taken, or a byte to arrive, or one to be read. That
  the waiting is due is an invariant of the runs.
* **What is passed through** may be answered as well, or not, and its answers may be read by the
  driver. They make no difference here, as a byte that arrives ends the waiting, whatever it is.

That the replies are sent by then is the projection to the two servers: with no call under way
nothing is owed.
-/

namespace EspBode

open Dialogue

/-- The line is a command or a query of the driver, by its first letter. -/
def ExpectsAnswer (line : List UInt8) : Prop :=
  startsWith (chr 'W') line ∨ startsWith (chr 'R') line

/-! ### What the driver waits for -/

namespace AwgFy

variable (pf : Platform) {awg : AwgFy} {channel : UInt32} {paramId : ℕ} {row : ParamTranslator}

/-- `get` waits when it has asked. -/
theorem waitsDue_get (h : Valid channel paramId) (hrow : entry awg.pt paramId = .ok row) :
    (get pf awg channel paramId).WaitsDue (chr '\n') ExpectsAnswer [] False := by
  rw [get_eq pf h hrow]
  refine Dialogue.WaitsDue.of_line [chr 'R', channelLetter channel, parameterLetter paramId]
    [chr '\n'] (newline_not_mem_letters (chr 'R') (by decide) channel paramId) (.inr rfl) ?_
      ⟨trivial, fun _ ↦ rfl⟩
  exact unfinished_append_cons List.not_mem_nil []

/-- A pass of `set` waits when it has ended its command. -/
theorem waitsDue_attempt (h : Valid channel paramId) (hrow : entry awg.pt paramId = .ok row)
    {l : Locals} (hcommand : l.command = commandHead channel paramId) (setValue : Double) :
    (attempt pf awg channel paramId l setValue).WaitsDue (chr '\n') ExpectsAnswer [] False := by
  have hhead : chr '\n' ∉ [] ++ l.command :=
    hcommand ▸ newline_not_mem_letters (chr 'W') (by decide) channel paramId
  set text := pf.print (insertion pf l.setType l.width l.precision (effective l setValue))
  have hline : chr '\n' ∉ [] ++ l.command ++ text := by
    rw [List.mem_append]
    exact fun hmem ↦ hmem.elim hhead (pf.print_line _)
  refine .of_piece hhead (.of_piece hline (.of_line [] [] ?_ (.inl ?_) rfl ⟨trivial, ?_⟩))
  · rwa [List.append_nil]
  · rw [hcommand]
    rfl
  show (if l.bValidate then _ else _ : Dialogue (Bool × Double)).WaitsDue _ _ [] False
  rcases l.bValidate with _ | _
  · exact rfl
  · refine (waitsDue_get pf h hrow).bind fun _ ↦ ?_
    exact rfl

/-- `set` makes such passes. -/
theorem waitsDue_set (h : Valid channel paramId) (hrow : entry awg.pt paramId = .ok row)
    (value : Double) :
    (set pf awg channel paramId value).WaitsDue (chr '\n') ExpectsAnswer [] False := by
  rw [set_eq pf h hrow]
  exact Dialogue.WaitsDue.attempts (waitsDue_attempt pf h hrow (command_prepare pf _ value)) _ _

end AwgFy

/-- A setting waits for what is due, on whatever channel. -/
theorem waitsDue_program (pf : Platform) (retries : UInt32) {call : SetCall}
    (hparam : call.parameter < Scpi.parameterCount) :
    (Device.program pf (awgFy6900 retries) call).WaitsDue (chr '\n') ExpectsAnswer [] False := by
  rcases Decidable.em (call.channel ≤ AwgFy.channels) with hchannel | hchannel
  · obtain ⟨row, hrow⟩ := exists_entry (awgFy6900 retries).pt hparam
    refine (AwgFy.waitsDue_set pf ⟨hchannel, hparam⟩ hrow call.value).bind fun _ ↦ ?_
    exact rfl
  · have hset : AwgFy.set pf (awgFy6900 retries) call.channel call.parameter call.value =
        pure false := if_pos (.inl (UInt32.not_le.1 hchannel))
    rw [Device.program, hset]
    exact rfl

/-! ### What there is to do -/

/-- The step of the serial line that a step of the device tries. -/
def DeviceEvent.serialEvent : DeviceEvent → Option (SerialEvent SetCall)
  | .proceed => some .proceed
  | .giveUp => some .giveUp
  | .take answer => some (.take answer)
  | .arrive => some .arrive
  | _ => none

namespace Device

variable {pf : Platform} {awg : AwgServer} {driver : AwgFy} {retries : UInt32}
variable {answers : List UInt8 → List UInt8 → Bool}

/-- What decides how a call goes on. -/
def pending (s : Device) : List DeviceTask × SerialLine :=
  (s.tasks, s.line)

/-- There is less to do. -/
def Less (v' v : List DeviceTask × SerialLine) : Prop :=
  Prod.Lex (· < ·) SerialLine.Shrinks (v'.1.length, v'.2) (v.1.length, v.2)

theorem wellFounded_less : WellFounded Less :=
  InvImage.wf (fun v : List DeviceTask × SerialLine ↦ (v.1.length, v.2))
    (Nat.lt_wfRel.wf.prod_lex SerialLine.wellFounded_shrinks)

theorem Less.of_tasks {s' s : Device} {task : DeviceTask} (h : s.tasks = task :: s'.tasks) :
    Less s'.pending s.pending :=
  .left _ _ (by rw [pending, pending, h]; exact Nat.lt_succ_self _)

theorem Less.of_line {s' s : Device} (htasks : s'.tasks = s.tasks) (h : s'.line.Shrinks s.line) :
    Less s'.pending s.pending := by
  rw [Less, pending, pending, htasks]
  exact .right _ h

/-- While a call is under way, no step makes more to do. -/
theorem pending_step {s s' : Device} {event : DeviceEvent} {out : List DeviceAction}
    (hidle : ¬ s.Idle) (hstep : Device.step pf awg driver answers s event = .ok (s', out)) :
    s'.pending = s.pending ∨ Less s'.pending s.pending := by
  cases deviceStep_of_step hstep with
  | nothing => exact .inl rfl
  | telnetLoop hidle' => exact absurd hidle' hidle
  | bindLoop hidle' _ => exact absurd hidle' hidle
  | vxiLoop hidle' _ => exact absurd hidle' hidle
  | peerCloses _ => exact .inl rfl
  | telnetPeerCloses => exact .inl rfl
  | setting hrunning htasks => exact .inr (.of_tasks htasks)
  | passes hrunning htasks => exact .inr (.of_tasks htasks)
  | puts hrunning htasks hputs => exact .inr (.of_tasks htasks)
  | copied hrunning htasks hrx => exact .inr (.of_tasks htasks)
  | copies hrunning htasks hrx =>
    refine .inr (.of_line rfl (.of_rx rfl rfl rfl ?_))
    rw [hrx]
    exact Nat.lt_succ_self _
  | serial hcall hline =>
    exact (SerialLine.step_shrinks hcall hline).imp (congrArg (Prod.mk s.tasks)) (.of_line rfl)

/-- The next task is done, or a part of it. -/
theorem less_work {s : Device} (htasks : s.tasks ≠ []) :
    Less (s.work pf driver).1.pending s.pending := by
  obtain ⟨task, tasks, htasks⟩ := List.exists_cons_of_ne_nil htasks
  obtain ⟨action, hputs⟩ | ⟨call, rfl⟩ | ⟨bytes, rfl⟩ | rfl := puts_or task
  · rw [hputs.work_eq pf driver htasks]
    exact .of_tasks htasks
  · rw [Device.work, htasks]
    exact .of_tasks htasks
  · rw [Device.work, htasks]
    exact .of_tasks htasks
  · rw [Device.work, htasks]
    dsimp only
    rcases hrx : s.line.rx with _ | ⟨c, rx⟩
    · exact .of_tasks htasks
    · refine .of_line htasks.symm (.of_rx rfl rfl rfl ?_)
      rw [hrx]
      exact Nat.lt_succ_self _

/-! ### Fair runs -/

variable (answers) in
/-- The event is of this kind of steps of the serial line. -/
def OfKind (kind : SerialLine.Kind) (s : Device) (event : DeviceEvent) : Prop :=
  ∃ serialEvent, event.serialEvent = some serialEvent ∧
    kind.Of (chr '\n') answers s.line serialEvent

variable (answers) in
/-- The call under way goes on, readings are given up, the AWG takes lines and answers as it may,
and bytes arrive, each again and again. What is not possible then changes nothing. -/
def Fair (s : ℕ → Device) (event : ℕ → DeviceEvent) : Prop :=
  ∀ (kind : SerialLine.Kind) (i : ℕ), ∃ j ≥ i, OfKind answers kind (s j) (event j)

/-- **While a call is under way, every step of some kind leaves less to do**, if the running
dialogue waits for what is due. -/
theorem exists_less {s : Device} (hidle : ¬ s.Idle)
    (hwaits : s.line.WaitsDue (chr '\n') ExpectsAnswer) :
    ∃ kind, ∀ {s₁ s' : Device} {event : DeviceEvent} {out : List DeviceAction},
      s₁.pending = s.pending → OfKind answers kind s₁ event →
        Device.step pf awg driver answers s₁ event = .ok (s', out) →
          Less s'.pending s.pending := by
  rcases hrunning : s.line.running with _ | d
  · -- the next task
    refine ⟨.proceed, fun {s₁ s' event out} hpending hkind hstep ↦ ?_⟩
    obtain ⟨htasks, hline⟩ := Prod.mk.inj hpending
    obtain ⟨serialEvent, hevent, hproceed⟩ := hkind
    obtain rfl : serialEvent = .proceed := hproceed
    cases event <;> cases hevent
    simp only [Device.step, hline, hrunning, if_true] at hstep
    obtain rfl : (s₁.work pf driver).1 = s' := congrArg Prod.fst (Except.ok.inj hstep)
    rw [← hpending]
    exact less_work (htasks ▸ fun hnil ↦ hidle ⟨hrunning, hnil⟩)
  · -- the running dialogue
    obtain ⟨kind, hshrinks⟩ := hwaits.exists_shrinks answers (Device.program pf driver)
      hrunning
    refine ⟨kind, fun {s₁ s' event out} hpending hkind hstep ↦ ?_⟩
    obtain ⟨htasks, hline⟩ := Prod.mk.inj hpending
    obtain ⟨serialEvent, hevent, hkind⟩ := hkind
    have hserial : s₁.serial pf driver answers serialEvent = .ok (s', out) := by
      cases event <;> cases hevent
      case proceed =>
        simp only [Device.step, hline, hrunning] at hstep
        exact hstep
      all_goals exact hstep
    obtain ⟨⟨line, lineOut⟩, hlineStep, hr⟩ := bind_eq_ok.1 hserial
    obtain ⟨rfl, rfl⟩ := Prod.mk.inj (Except.ok.inj hr)
    rw [hline] at hkind hlineStep
    exact .of_line htasks (hshrinks hkind hlineStep)

/-- **Every step keeps that the running dialogue waits for what is due**, if the AWG answers. -/
theorem waitsDue_step
    (hanswers : ∀ {line answer}, ExpectsAnswer line → answers line answer → answer ≠ [])
    {s s' : Device} {past out : List DeviceAction} {event : DeviceEvent}
    (h : DeviceInvariant transcript [] pf retries s past)
    (hwaits : s.line.WaitsDue (chr '\n') ExpectsAnswer)
    (hstep : Device.step pf awg (awgFy6900 retries) answers s event = .ok (s', out)) :
    s'.line.WaitsDue (chr '\n') ExpectsAnswer := by
  have hnone : ∀ {line : SerialLine}, line.running = none →
      line.WaitsDue (chr '\n') ExpectsAnswer := fun hrunning d hd ↦
    absurd (hrunning.symm.trans hd) (Option.some_ne_none d).symm
  cases deviceStep_of_step hstep with
  | nothing => exact hwaits
  | telnetLoop _ => exact hwaits
  | bindLoop _ _ => exact hwaits
  | vxiLoop _ _ => exact hwaits
  | peerCloses _ => exact hwaits
  | telnetPeerCloses => exact hwaits
  | setting hrunning htasks =>
    obtain ⟨hordered, -⟩ := (SerialLine.leads_none hrunning).1 h.2
    rw [htasks] at hordered
    obtain ⟨hbegun, hparam, -⟩ := hordered
    have hunfinished : unfinished (chr '\n') s.line.outgoing = [] := hbegun
    refine .of_next rfl False.elim ?_
    rw [hunfinished]
    exact waitsDue_program pf retries hparam
  | passes hrunning htasks => exact hnone hrunning
  | puts _ _ _ => exact hwaits
  | copied _ _ _ => exact hwaits
  | copies hrunning htasks hrx => exact hnone hrunning
  | serial hcall hline => exact hwaits.step hanswers hcall hline

/-- What a step does to the two servers: nothing, and what they owe is put out or still owed; or it
is a call of one of them, or their peer goes away. -/
theorem system_step {s s' : Device} {event : DeviceEvent} {out : List DeviceAction}
    (hstep : Device.step pf awg driver answers s event = .ok (s', out)) :
    (s'.system = s.system ∧ out.filterMap DeviceAction.systemAction ++
        s'.tasks.filterMap DeviceTask.systemAction = s.tasks.filterMap DeviceTask.systemAction) ∨
      ∃ systemEvent actions, event.systemEvent = some systemEvent ∧
        System.step awg s.system systemEvent = .ok (s'.system, actions) ∧
        out.filterMap DeviceAction.systemAction ++ s'.tasks.filterMap DeviceTask.systemAction =
          s.tasks.filterMap DeviceTask.systemAction ++ actions ∧
        (s.Idle ∨ systemEvent = .peerCloses) := by
  rcases carries_servers pf awg driver answers hstep with
    hsame | ⟨systemEvent, actions, hevent, hloop, howed⟩
  · exact .inl hsame
  by_cases hidle : s.Idle
  · exact .inr ⟨systemEvent, actions, hevent, hloop, howed, .inl hidle⟩
  cases event <;> cases hevent
  case neg.peerCloses.refl => exact .inr ⟨_, actions, rfl, hloop, howed, .inr rfl⟩
  all_goals
    simp only [Device.step, if_neg hidle] at hstep
    obtain ⟨rfl, rfl⟩ := Prod.mk.inj (Except.ok.inj hstep)
    exact .inl ⟨rfl, rfl⟩

/-- While a call is under way, what it owes of the two servers is put out, or still owed. -/
theorem systemAction_step {s s' : Device} {event : DeviceEvent} {out : List DeviceAction}
    (hidle : ¬ s.Idle) (hstep : Device.step pf awg driver answers s event = .ok (s', out)) :
    out.filterMap DeviceAction.systemAction ++ s'.tasks.filterMap DeviceTask.systemAction =
      s.tasks.filterMap DeviceTask.systemAction := by
  rcases system_step hstep with ⟨-, howed⟩ | ⟨_, actions, -, hloop, howed, hidle' | rfl⟩
  · exact howed
  · exact absurd hidle' hidle
  · obtain ⟨-, rfl⟩ := Prod.mk.inj (Except.ok.inj hloop)
    exact howed.trans (List.append_nil _)

section Runs

variable {s : ℕ → Device} {event : ℕ → DeviceEvent}

/-- **The call under way comes to its end**, and puts out what it had decided to by then. -/
theorem leadsTo_idle
    (hanswers : ∀ {line answer}, ExpectsAnswer line → answers line answer → answer ≠ [])
    (hsetup : s 0 = Device.setup.1)
    (hrun : Machine.IsRun (Device.step pf awg (awgFy6900 retries) answers) s event)
    (hfair : Fair answers s event) (i : ℕ) :
    Machine.LeadsTo (Device.step pf awg (awgFy6900 retries) answers) s event i fun j out ↦
      (s j).Idle ∧ out.filterMap DeviceAction.systemAction =
        (s i).tasks.filterMap DeviceTask.systemAction := by
  have hwaits : ∀ i, (s i).line.WaitsDue (chr '\n') ExpectsAnswer := by
    intro i
    obtain ⟨past, -, hwaits⟩ := hrun.exists_past
      (Q := fun s past ↦ DeviceInvariant transcript [] pf retries s past ∧
        s.line.WaitsDue (chr '\n') ExpectsAnswer)
      (by
        rw [hsetup]
        exact ⟨⟨List.not_mem_nil, rfl, [], .nil, rfl⟩, fun _ hd ↦ by cases hd⟩)
      (fun _ _ _ h hstep ↦ ⟨h.1.step rfl hstep, waitsDue_step hanswers h.1 h.2 hstep⟩) i
    exact hwaits
  have hcomes : ∃ j ≥ i, (s j).Idle :=
    Machine.exists_ge wellFounded_less Device.Idle (OfKind answers)
      (fun i hidle ↦ by
        obtain ⟨out, hstep⟩ := hrun i
        exact pending_step hidle hstep)
      (fun i hidle ↦ by
        obtain ⟨kind, hless⟩ := exists_less hidle (hwaits i)
        refine ⟨kind, fun j hpending hkind ↦ ?_⟩
        obtain ⟨out, hstep⟩ := hrun j
        exact hpending ▸ hless hpending hkind hstep) hfair i
  -- until it does, no other call is made
  refine (hrun.leadsTo (R := fun j past ↦ past.filterMap DeviceAction.systemAction ++
    (s j).tasks.filterMap DeviceTask.systemAction = (s i).tasks.filterMap DeviceTask.systemAction)
    hcomes rfl fun j _ hidle past out h hstep ↦ ?_).mono fun j out h ↦ ?_
  · rw [List.filterMap_append, List.append_assoc, systemAction_step hidle hstep]
    exact h
  · obtain ⟨hidle, howed⟩ := h
    rw [hidle.2, List.filterMap_nil, List.append_nil] at howed
    exact ⟨hidle, howed⟩

end Runs

end Device

/-- A client of the VXI server switches channel 2 on; the loop of the server, the driver, the AWG
and the serial line take turns then. -/
def turns (i : ℕ) : DeviceEvent :=
  match i % 5 with
  | 0 => .vxiLoop { offered := if i = 0 then some (.ofStream outputRequest.bytes) else none }
  | 1 => .proceed
  | 2 => .take (ascii "\n")
  | 3 => .arrive
  | _ => .giveUp

theorem brings_turns (i : ℕ) : (turns i).Brings := by
  intro systemEvent heq
  have hcases : turns i = .vxiLoop { offered := some (.ofStream outputRequest.bytes) } ∨
      turns i = .vxiLoop {} ∨ (turns i).systemEvent = none := by
    rw [turns]
    split
    · split_ifs
      · exact .inl rfl
      · exact .inr (.inl rfl)
    all_goals exact .inr (.inr rfl)
  obtain h | h | h := hcases <;> rw [h] at heq
  · obtain rfl := Option.some.inj heq
    refine ⟨.vxiLoop (some [outputRequest]) fun _ ↦ .finite 0, rfl, fun rs hrs ↦ ?_⟩
    obtain rfl := Option.some.inj hrs
    exact List.forall_mem_singleton.2 isRequest_outputRequest
  · obtain rfl := Option.some.inj heq
    exact ⟨.vxiLoop none fun _ ↦ .finite 0, rfl, fun rs hrs ↦ by cases hrs⟩
  · cases heq

theorem fair_turns (s : ℕ → Device) : Device.Fair (fun _ answer ↦ answer != []) s turns := by
  have hmod : ∀ i r, r < 5 → (5 * i + r) % 5 = r := by omega
  intro kind i
  cases kind with
  | proceed => exact ⟨5 * i + 1, by omega, .proceed, by rw [turns, hmod i 1 (by decide)]; rfl, rfl⟩
  | take =>
    exact ⟨5 * i + 2, by omega, .take (ascii "\n"), by rw [turns, hmod i 2 (by decide)]; rfl,
      ascii "\n", rfl, fun _ _ _ _ ↦ rfl⟩
  | arrive => exact ⟨5 * i + 3, by omega, .arrive, by rw [turns, hmod i 3 (by decide)]; rfl, rfl⟩
  | giveUp => exact ⟨5 * i + 4, by omega, .giveUp, by rw [turns, hmod i 4 (by decide)]; rfl, rfl⟩

theorem exists_isRun_turns :
    ∃ s : ℕ → Device, s 0 = Device.setup.1 ∧
      Machine.IsRun (Device.step (referencePlatform .binary64) .base (awgFy6900 3)
        fun _ answer ↦ answer != []) s turns := by
  have hruns : ∀ n, ∃ r, Machine.runFrom (Device.step (referencePlatform .binary64) .base
      (awgFy6900 3) fun _ answer ↦ answer != []) Device.setup.1 ((List.range n).map turns) =
        .ok r := by
    intro n
    have hbrings : ∀ event ∈ (List.range n).map turns, event.Brings :=
      List.forall_mem_map.2 fun i _ ↦ brings_turns i
    obtain ⟨s, past, hrun⟩ := exists_run_of_brings hbrings
    exact ⟨(s, past), hrun⟩
  exact Machine.exists_isRun Device.setup.1 hruns

end EspBode
