import EspBode.Verification.DeviceLines
import EspBode.Verification.Service

/-!
# The servers in the device

The two servers of the oscilloscope run inside the device between the calls of the telnet server and
the steps of the serial line, and what they decide is done bit by bit. Nothing of that matters to
them: a run of the device is a run of the two servers on the calls that were made, and what the
tasks still owe is all that is missing from its actions (`device_carries_servers`).

So the device as a whole provides the service (`device_provides_service`). A step of the serial line
is never stuck, and neither are the servers as long as the clients bring requests.

The projection is an instance of a general one, of a machine that carries a component and owes some
of its output. What has to be shown of the device is how each of its steps looks from the component
(`carries_servers`):

* a `loop()` of one of the two servers is a step of the component if no other call is under way, and
  nothing otherwise: such a call is tried but not made;
* a task of the two servers that is done moves one action from what is owed to what was put out;
* all other steps are not seen.

Which calls were made depends on the run. They are some of those that were tried, in their order, so
what is assumed of the calls that are tried, that clients bring requests, holds of those that are
made.
-/

namespace EspBode

/-! ### The servers as a component -/

/-- The step of the two servers that a step of the device may be. -/
def DeviceEvent.systemEvent : DeviceEvent → Option SystemEvent
  | .bindLoop input => some (.bindLoop input)
  | .vxiLoop input => some (.vxiLoop input)
  | .peerCloses => some .peerCloses
  | _ => none

/-- The action of the two servers that an action of the device may be. -/
def DeviceAction.systemAction : DeviceAction → Option SystemAction
  | .system action => some action
  | _ => none

/-- The action of the two servers that a task may be. -/
def DeviceTask.systemAction : DeviceTask → Option SystemAction
  | .system action => some action
  | _ => none

/-- What the device shows of the two servers. -/
def serversView : Machine.View Device System DeviceEvent SystemEvent DeviceAction SystemAction where
  part := Device.system
  input := DeviceEvent.systemEvent
  output := DeviceAction.systemAction
  owed s := s.tasks.filterMap DeviceTask.systemAction

section Carries

variable (pf : Platform) (awg : AwgServer) (driver : AwgFy)
variable (answers : List UInt8 → List UInt8 → Bool)

/-- What a call of the two servers has decided is owed. -/
theorem filterMap_systemAction (actions : List SystemAction) :
    (actions.map DeviceTask.system).filterMap DeviceTask.systemAction = actions := by
  rw [List.filterMap_map]
  exact List.filterMap_some

/-- The telnet server owes nothing of the two servers. -/
theorem systemAction_telnetLoop (s : Device) (offered : Option NetClient) (arrived : List UInt8)
    (polls : ℕ → ℕ) :
    (s.telnetLoop offered arrived polls).tasks.filterMap DeviceTask.systemAction = [] := by
  have htasks : ∀ (actions : List TelnetAction) (k : ℕ),
      (telnetTasks polls k actions).filterMap DeviceTask.systemAction = [] := by
    intro actions
    induction actions with
    | nil => exact fun _ ↦ rfl
    | cons action actions ih =>
      intro k
      rcases action with bytes | line | bytes | call
      case awg =>
        rw [telnetTasks]
        split_ifs
        · rw [List.filterMap_cons_none rfl, List.filterMap_append, ih,
            List.filterMap_replicate_of_none rfl]
          rfl
        · exact ih k
      all_goals exact ih k
  rw [Device.telnetLoop]
  dsimp only
  rw [List.filterMap_append, htasks]
  split_ifs <;> rfl

/-- **The device carries the two servers.** -/
theorem carries_servers :
    Machine.Carries (Device.step pf awg driver answers) (System.step awg) serversView := by
  intro s event s' out hstep
  cases deviceStep_of_step hstep with
  | nothing => exact .inl ⟨rfl, rfl⟩
  | telnetLoop hidle =>
    refine .inl ⟨rfl, ?_⟩
    show (s.telnetLoop _ _ _).tasks.filterMap _ = s.tasks.filterMap _
    rw [systemAction_telnetLoop, hidle.2]
    rfl
  | @bindLoop input system actions hidle hloop =>
    refine .inr ⟨_, actions, rfl, hloop, ?_⟩
    show (actions.map DeviceTask.system).filterMap _ = s.tasks.filterMap _ ++ actions
    rw [filterMap_systemAction, hidle.2]
    rfl
  | @vxiLoop input system actions hidle hloop =>
    refine .inr ⟨_, actions, rfl, hloop, ?_⟩
    show (actions.map DeviceTask.system).filterMap _ = s.tasks.filterMap _ ++ actions
    rw [filterMap_systemAction, hidle.2]
    rfl
  | @peerCloses system actions hloop =>
    obtain ⟨-, rfl⟩ := Prod.mk.inj (Except.ok.inj hloop)
    exact .inr ⟨_, [], rfl, hloop, (List.append_nil _).symm⟩
  | telnetPeerCloses => exact .inl ⟨rfl, rfl⟩
  | setting hrunning htasks =>
    refine .inl ⟨rfl, ?_⟩
    show _ = s.tasks.filterMap _
    rw [htasks]
    rfl
  | passes hrunning htasks =>
    refine .inl ⟨rfl, ?_⟩
    show _ = s.tasks.filterMap _
    rw [htasks]
    rfl
  | puts hrunning htasks hputs =>
    refine .inl ⟨rfl, ?_⟩
    show _ = s.tasks.filterMap _
    rw [htasks]
    cases hputs <;> rfl
  | copied hrunning htasks hrx =>
    refine .inl ⟨rfl, ?_⟩
    show _ = s.tasks.filterMap _
    rw [htasks]
    rfl
  | copies hrunning htasks hrx => exact .inl ⟨rfl, rfl⟩
  | @serial _ _ _ serialOut hcall hline =>
    refine .inl ⟨rfl, ?_⟩
    rw [List.filterMap_map]
    exact congrArg (· ++ _) (List.filterMap_eq_nil_iff.2 fun _ _ ↦ rfl)

variable {pf awg driver answers}

/-- **A run of the device is a run of the two servers.** The calls that were made are some of those
that were tried, in their order; what the servers have put out is what the device has put out of
theirs, and then what the tasks owe. -/
theorem device_carries_servers {s : Device} {past : List DeviceAction} {events : List DeviceEvent}
    (hrun : Machine.runFrom (Device.step pf awg driver answers) Device.setup.1 events =
      .ok (s, past)) :
    ∃ made : List SystemEvent, made.Sublist (events.filterMap DeviceEvent.systemEvent) ∧
      Machine.runFrom (System.step awg) System.setup.1 made =
        .ok (s.system, past.filterMap DeviceAction.systemAction ++
          s.tasks.filterMap DeviceTask.systemAction) := by
  obtain ⟨made, out, hmade, hsystem, hout⟩ := (carries_servers pf awg driver answers).run hrun
  obtain rfl : out = past.filterMap DeviceAction.systemAction ++
      s.tasks.filterMap DeviceTask.systemAction := hout.symm
  exact ⟨made, hmade, hsystem⟩

end Carries

/-! ### The service of the device -/

/-- A client of the VXI server that offers to connect brings requests. -/
def DeviceEvent.Brings (event : DeviceEvent) : Prop :=
  ∀ systemEvent, event.systemEvent = some systemEvent →
    ∃ serviceEvent : ServiceEvent, serviceEvent.toSystem = systemEvent ∧ serviceEvent.Brings

/-- Calls that bring requests are calls of the service. -/
theorem exists_serviceEvents {events : List DeviceEvent} (h : ∀ event ∈ events, event.Brings)
    {made : List SystemEvent} (hmade : made.Sublist (events.filterMap DeviceEvent.systemEvent)) :
    ∃ calls : List ServiceEvent, calls.map ServiceEvent.toSystem = made ∧
      ∀ call ∈ calls, call.Brings := by
  have hall : ∀ systemEvent ∈ made, ∃ call : ServiceEvent, call.toSystem = systemEvent ∧
      call.Brings := by
    intro systemEvent hmem
    obtain ⟨event, hevent, heq⟩ := List.mem_filterMap.1 (hmade.subset hmem)
    exact h event hevent systemEvent heq
  clear hmade
  induction made with
  | nil => exact ⟨[], rfl, fun _ hmem ↦ absurd hmem List.not_mem_nil⟩
  | cons systemEvent made ih =>
    obtain ⟨hfirst, hrest⟩ := List.forall_mem_cons.1 hall
    obtain ⟨call, rfl, hcall⟩ := hfirst
    obtain ⟨calls, rfl, hcalls⟩ := ih hrest
    exact ⟨call :: calls, rfl, List.forall_mem_cons.2 ⟨hcall, hcalls⟩⟩

section Progress

variable {pf : Platform} {retries : UInt32} {answers : List UInt8 → List UInt8 → Bool}

/-- **A step of the device is not stuck** if the step of its servers is not. -/
theorem exists_step_of_exists (answers : List UInt8 → List UInt8 → Bool) {σ : Type}
    {dev : LineDevice σ} {init : σ} {awg : AwgServer} {s : Device} {past : List DeviceAction}
    (h : DeviceInvariant dev init pf retries s past) (event : DeviceEvent)
    (hsystem : ∀ systemEvent, event.systemEvent = some systemEvent →
      ∃ r, System.step awg s.system systemEvent = .ok r) :
    ∃ r, Device.step pf awg (awgFy6900 retries) answers s event = .ok r := by
  have hserial : ∀ serialEvent,
      ∃ r, s.serial pf (awgFy6900 retries) answers serialEvent = .ok r := by
    intro serialEvent
    obtain ⟨⟨line, out⟩, hline⟩ := h.2.exists_step (chr '\n') answers
      (Device.program pf (awgFy6900 retries)) serialEvent
    exact ⟨_, by rw [Device.serial, hline]; rfl⟩
  have hloop : ∀ systemEvent, event.systemEvent = some systemEvent → ∃ r,
      (if s.Idle then (·, []) <$> s.systemLoop awg systemEvent else .ok (s, [])) =
        (.ok r : Except Fault (Device × List DeviceAction)) := by
    intro systemEvent heq
    obtain ⟨⟨system, actions⟩, hstep⟩ := hsystem systemEvent heq
    split_ifs
    · exact ⟨_, by rw [Device.systemLoop, hstep]; rfl⟩
    · exact ⟨_, rfl⟩
  cases event with
  | telnetLoop offered arrived polls =>
    simp only [Device.step]
    split_ifs <;> exact ⟨_, rfl⟩
  | bindLoop input => exact hloop _ rfl
  | vxiLoop input => exact hloop _ rfl
  | peerCloses => exact ⟨_, rfl⟩
  | telnetPeerCloses => exact ⟨_, rfl⟩
  | proceed =>
    simp only [Device.step]
    split_ifs
    · exact ⟨_, rfl⟩
    · exact hserial _
  | giveUp => exact hserial _
  | take answer => exact hserial _
  | arrive => exact hserial _

/-- The settings and replies that the device has put out, and those that it owes, are those of the
requests. -/
def Device.Served (s : Device) (past : List DeviceAction) (requests : List Record) : Prop :=
  (past.filterMap DeviceAction.systemAction ++
    s.tasks.filterMap DeviceTask.systemAction).filterMap vxiEffect = requests.flatMap effects

/-- **The device is never stuck** as long as the clients bring requests. The induction is on the
events, from the last one. -/
theorem exists_run_of_brings {events : List DeviceEvent} (h : ∀ event ∈ events, event.Brings) :
    ∃ s past, Machine.runFrom (Device.step pf .base (awgFy6900 retries) answers) Device.setup.1
      events = .ok (s, past) := by
  induction events using List.reverseRecOn with
  | nil => exact ⟨_, _, rfl⟩
  | append_singleton events event ih =>
    have hevents : ∀ e ∈ events, e.Brings := fun e he ↦ h e (List.mem_append_left _ he)
    obtain ⟨s, past, hrun⟩ := ih hevents
    -- the servers stand where the service does
    obtain ⟨made, out, hmade, hsystem, -⟩ :=
      (carries_servers pf .base (awgFy6900 retries) answers).run hrun
    obtain ⟨calls, rfl, hcalls⟩ := exists_serviceEvents hevents hmade
    obtain ⟨s', out', hrun', hstands, -⟩ := Service.follows_service.run Service.stands_setup hcalls
    obtain ⟨rfl, -⟩ := Prod.mk.inj (Except.ok.inj (hrun'.symm.trans hsystem))
    have hinvariant : DeviceInvariant transcript [] pf retries s past := .run rfl hrun
    obtain ⟨⟨s₁, out₁⟩, hstep⟩ := exists_step_of_exists answers hinvariant event
      fun systemEvent heq ↦ by
        obtain ⟨call, rfl, hcall⟩ := h event (List.mem_append_right _ (List.mem_singleton_self _))
          systemEvent heq
        obtain ⟨s₂, out₂, hstep, -⟩ := Service.follows_service hstands hcall
        exact ⟨_, hstep⟩
    exact ⟨s₁, past ++ (out₁ ++ []), Machine.runFrom_append_eq_ok.2 ⟨s, past, _, hrun,
      Machine.runFrom_cons_eq_ok.2 ⟨s₁, out₁, [], hstep, rfl, rfl⟩, rfl⟩⟩

/-- What a run has served. -/
theorem exists_served {events : List DeviceEvent} (h : ∀ event ∈ events, event.Brings)
    {s : Device} {past : List DeviceAction}
    (hrun : Machine.runFrom (Device.step pf .base (awgFy6900 retries) answers) Device.setup.1
      events = .ok (s, past)) :
    ∃ calls : List ServiceEvent,
      (calls.map ServiceEvent.toSystem).Sublist (events.filterMap DeviceEvent.systemEvent) ∧
      s.Served past (Service.served calls) := by
  obtain ⟨made, out, hmade, hsystem, howed⟩ :=
    (carries_servers pf .base (awgFy6900 retries) answers).run hrun
  obtain ⟨calls, rfl, hcalls⟩ := exists_serviceEvents h hmade
  obtain ⟨s', out', hrun', -, hout⟩ := Service.follows_service.run Service.stands_setup hcalls
  obtain ⟨-, rfl⟩ := Prod.mk.inj (Except.ok.inj (hrun'.symm.trans hsystem))
  obtain rfl : out' = past.filterMap DeviceAction.systemAction ++
      s.tasks.filterMap DeviceTask.systemAction := howed.symm
  exact ⟨calls, hmade, hout⟩

/-- **The whole device provides the service**, and is never stuck, whatever the telnet client types,
the AWG answers and the peers do in the meantime. -/
theorem device_provides_service {events : List DeviceEvent} (h : ∀ event ∈ events, event.Brings) :
    ∃ s past, ∃ calls : List ServiceEvent,
      Machine.runFrom (Device.step pf .base (awgFy6900 retries) answers) Device.setup.1 events =
        .ok (s, past) ∧
      (calls.map ServiceEvent.toSystem).Sublist (events.filterMap DeviceEvent.systemEvent) ∧
      s.Served past (Service.served calls) := by
  obtain ⟨s, past, hrun⟩ := exists_run_of_brings h
  obtain ⟨calls, hcalls, hserved⟩ := exists_served h hrun
  exact ⟨s, past, calls, hrun, hcalls, hserved⟩

end Progress

theorem isRequest_outputRequest : IsRequest outputRequest := by
  have htext : outputRequest.writePayload = ascii "C2:OUTP ON" := by
    decide +kernel
  have hwell : Scpi.WellFormed (ascii "C2:OUTP ON") :=
    ⟨by decide, by decide, by decide, by decide +kernel⟩
  refine ⟨⟨?_, ?_, ?_, ?_, fun _ ↦ ?_⟩, fun _ ↦ ?_⟩
  case refine_5 =>
    rw [htext]
    exact parserReturns_of_wellFormed hwell
  case refine_6 =>
    rw [htext]
    exact hwell
  all_goals decide +kernel

theorem brings_mixedRun : ∀ event ∈ mixedRun, event.Brings := by
  intro event hevent systemEvent heq
  have hevents : mixedRun.filterMap DeviceEvent.systemEvent =
      [(ServiceEvent.vxiLoop (some [outputRequest]) fun _ ↦ .finite 0).toSystem,
        (ServiceEvent.vxiLoop none fun _ ↦ .finite 0).toSystem] := rfl
  have hmem : systemEvent ∈ mixedRun.filterMap DeviceEvent.systemEvent :=
    List.mem_filterMap.2 ⟨event, hevent, heq⟩
  rw [hevents, List.mem_cons, List.mem_singleton] at hmem
  obtain rfl | rfl := hmem
  · refine ⟨_, rfl, fun rs hrs ↦ ?_⟩
    obtain rfl := Option.some.inj hrs
    exact List.forall_mem_singleton.2 isRequest_outputRequest
  · exact ⟨_, rfl, fun rs hrs ↦ absurd hrs (by simp [ServiceEvent.offer])⟩

theorem device_provides_service_mixedRun :
    ∃ s past, ∃ calls : List ServiceEvent,
      Machine.runFrom (Device.step (referencePlatform .binary64) .base (awgFy6900 3)
        fun _ _ ↦ true) Device.setup.1 mixedRun = .ok (s, past) ∧
      (calls.map ServiceEvent.toSystem).Sublist (mixedRun.filterMap DeviceEvent.systemEvent) ∧
      s.Served past (Service.served calls) :=
  device_provides_service brings_mixedRun

theorem device_carries_servers_mixedRun :
    ∃ s past, ∃ made : List SystemEvent,
      Machine.runFrom (Device.step (referencePlatform .binary64) .base (awgFy6900 0)
        fun _ _ ↦ true) Device.setup.1 mixedRun = .ok (s, past) ∧
      made.Sublist (mixedRun.filterMap DeviceEvent.systemEvent) ∧
      Machine.runFrom (System.step .base) System.setup.1 made =
        .ok (s.system, [.vxi (.server (.available 9010)), .vxi (.set ⟨2, Scpi.outputOn, .finite 1⟩),
          .vxi (.send (replyRecord 7 (Answer.writeBody 10)))]) := by
  obtain ⟨⟨s, past⟩, hrun, hout⟩ := exists_of_map_eq_ok
    (b := [.vxi (.server (.available 9010)), .vxi (.set ⟨2, Scpi.outputOn, .finite 1⟩),
      .vxi (.send (replyRecord 7 (Answer.writeBody 10)))])
    (f := fun r : Device × List DeviceAction ↦ r.2.filterMap DeviceAction.systemAction ++
      r.1.tasks.filterMap DeviceTask.systemAction)
    (x := Machine.runFrom (Device.step (referencePlatform .binary64) .base (awgFy6900 0)
      fun _ _ ↦ true) Device.setup.1 mixedRun) (by decide +kernel)
  obtain ⟨made, hmade, hsystem⟩ := device_carries_servers hrun
  rw [show _ ++ _ = _ from hout] at hsystem
  exact ⟨s, past, made, hrun, hmade, hsystem⟩

end EspBode
