import EspBode.Foundations.LineFairness
import EspBode.Verification.DeviceSerial

/-!
# The AWG is silent

`wait_for_serial()` has no timeout. If the AWG answers nothing, since it is switched off or not
connected, the first setting for one of its channels is the last thing that the device does
(`device_hangs`): the call never comes to its end, so no reply is sent for the request that asked
for the setting, and no loop is called any more. The telnet server is not served either.

The argument has two parts, neither of which looks at the passes of `set`.

* **About the driver**: `set` cannot end without a byte (`needsByte_set`). That is a property of the
  dialogue as a tree, `NeedsByte`: on every way through it there is a wait for a byte before the
  end. The first pass has one, so the loop has, whatever the retries and whatever is verified.
* **About the line**: a line on which nothing is on its way and nothing arrives stays so as long as
  the answers are empty, and on such a line a dialogue that needs a byte still needs one after each
  of its steps.

`SilentInvariant` puts them together for the whole device: either no setting was made for a channel
of the AWG yet, or the first one still needs a byte and no server has done anything since. A setting
for a channel that the driver refuses ends at once, so it does not count.
-/

namespace EspBode

open Dialogue Machine

namespace AwgFy

variable (pf : Platform) {awg : AwgFy} {channel : UInt32} {paramId : ℕ} {row : ParamTranslator}

/-- `set` waits for the AWG, whatever the retries. -/
theorem needsByte_set (h : Valid channel paramId) (hrow : entry awg.pt paramId = .ok row)
    (value : Double) : (set pf awg channel paramId value).NeedsByte := by
  rw [set_eq pf h hrow]
  have hpass : ∀ l x, (attempt pf awg channel paramId l x).NeedsByte := fun _ _ ↦ trivial
  exact NeedsByte.attempts (hpass _) _ _

end AwgFy

theorem needsByte_program (pf : Platform) (retries : UInt32) {call : SetCall}
    (hchannel : call.channel ≤ AwgFy.channels) (hparam : call.parameter < Scpi.parameterCount) :
    (Device.program pf (awgFy6900 retries) call).NeedsByte := by
  obtain ⟨row, hrow⟩ := exists_entry (awgFy6900 retries).pt hparam
  exact (AwgFy.needsByte_set pf ⟨hchannel, hparam⟩ hrow call.value).bind _

/-! ### Runs -/

section Runs

variable {pf : Platform} {retries : UInt32} {awg : AwgServer}
variable {answers : List UInt8 → List UInt8 → Bool}

/-- The last action of a server was to call the driver for one of the channels of the AWG, for the
first time. -/
def EndsInSetting (past : List DeviceAction) : Prop :=
  ∃ before call after, past = before ++ .system (.vxi (.set call)) :: after ∧
    call.channel ≤ AwgFy.channels ∧ (∀ c ∈ driverCalls before, ¬ c.channel ≤ AwgFy.channels) ∧
      ∀ action ∈ after, ∃ a, action = .serial a

/-- What holds after every run: no setting was made for a channel of the AWG, or the first one still
needs a byte. -/
def SilentInvariant (s : Device) (past : List DeviceAction) : Prop :=
  s.line.Silent ∧ ((∀ c ∈ driverCalls past, ¬ c.channel ≤ AwgFy.channels) ∨
    (∃ d, s.line.running = some d ∧ d.NeedsByte) ∧ EndsInSetting past)

/-- A step with no setting, which begins no dialogue and ends none. -/
theorem SilentInvariant.of_eq {s s' : Device} {past out : List DeviceAction}
    (h : SilentInvariant s past) (hsilent : s'.line.Silent)
    (hout : s.line.running = none ∨ (out = [] ∧ s'.line.running = s.line.running))
    (hcalls : driverCalls out = []) : SilentInvariant s' (past ++ out) := by
  refine ⟨hsilent, h.2.imp ?_ ?_⟩
  · rw [driverCalls_append, hcalls, List.append_nil]
    exact id
  · rintro ⟨⟨d, hd, hneeds⟩, hpast⟩
    obtain hnone | ⟨rfl, hrunning⟩ := hout
    · exact absurd (hnone.symm.trans hd) (Option.some_ne_none d).symm
    · exact ⟨⟨d, hrunning.trans hd, hneeds⟩, (List.append_nil past).symm ▸ hpast⟩

/-- **Every step keeps the invariant.** -/
theorem SilentInvariant.step (hanswers : ∀ {line answer}, answers line answer → answer = [])
    {s s' : Device} {past out : List DeviceAction} {event : DeviceEvent}
    (hdevice : DeviceInvariant transcript [] pf retries s past) (h : SilentInvariant s past)
    (hstep : Device.step pf awg (awgFy6900 retries) answers s event = .ok (s', out)) :
    SilentInvariant s' (past ++ out) := by
  cases deviceStep_of_step hstep with
  | nothing => exact h.of_eq h.1 (.inr ⟨rfl, rfl⟩) rfl
  | telnetLoop _ => exact h.of_eq h.1 (.inr ⟨rfl, rfl⟩) rfl
  | bindLoop _ _ => exact h.of_eq h.1 (.inr ⟨rfl, rfl⟩) rfl
  | vxiLoop _ _ => exact h.of_eq h.1 (.inr ⟨rfl, rfl⟩) rfl
  | peerCloses _ => exact h.of_eq h.1 (.inr ⟨rfl, rfl⟩) rfl
  | telnetPeerCloses => exact h.of_eq h.1 (.inr ⟨rfl, rfl⟩) rfl
  | @setting call tasks hrunning htasks =>
    -- no setting was made before
    have hbefore : ∀ c ∈ driverCalls past, ¬ c.channel ≤ AwgFy.channels := by
      obtain hbefore | ⟨⟨d, hd, -⟩, -⟩ := h.2
      · exact hbefore
      · exact absurd (hrunning.symm.trans hd) (Option.some_ne_none d).symm
    refine ⟨h.1, ?_⟩
    rcases Decidable.em (call.channel ≤ AwgFy.channels) with hchannel | hchannel
    · obtain ⟨hordered, -⟩ := (SerialLine.leads_none hrunning).1 hdevice.2
      rw [htasks] at hordered
      exact .inr ⟨⟨_, rfl, needsByte_program pf retries hchannel hordered.2.1⟩, past, call, [], rfl,
        hchannel, hbefore, fun _ hmem ↦ absurd hmem List.not_mem_nil⟩
    · refine .inl ?_
      rw [driverCalls_append]
      exact List.forall_mem_append.2 ⟨hbefore, List.forall_mem_singleton.2 hchannel⟩
  | passes hrunning htasks => exact h.of_eq h.1 (.inl hrunning) rfl
  | puts hrunning htasks hputs => exact h.of_eq h.1 (.inl hrunning) hputs.driverCalls_eq
  | copied hrunning htasks hrx => exact h.of_eq h.1 (.inl hrunning) rfl
  | copies hrunning htasks hrx => exact absurd (hrx.symm.trans h.1.1) (List.cons_ne_nil _ _)
  | serial hcall hline =>
    obtain ⟨hsilent, hneedsByte⟩ := h.1.step hanswers hcall hline
    refine ⟨hsilent, h.2.imp ?_ ?_⟩
    · rw [driverCalls_append, driverCalls_serial, List.append_nil]
      exact id
    · rintro ⟨⟨d, hd, hneeds⟩, before, call, after, rfl, hchannel, hbefore, hafter⟩
      refine ⟨hneedsByte d hd hneeds, before, call, _, List.append_assoc _ _ _, hchannel, hbefore,
        List.forall_mem_append.2 ⟨hafter, List.forall_mem_map.2 fun a _ ↦ ⟨a, rfl⟩⟩⟩

/-- **The device hangs** if the AWG answers nothing: in every run in which the driver was called for
a channel of the AWG, no server has put out anything since the first such call, and that call is
still under way. -/
theorem device_hangs (hanswers : ∀ {line answer}, answers line answer → answer = [])
    {s : Device} {past : List DeviceAction} {events : List DeviceEvent}
    (hrun : runFrom (Device.step pf awg (awgFy6900 retries) answers) Device.setup.1 events =
      .ok (s, past)) {call : SetCall} (hcall : call ∈ driverCalls past)
    (hchannel : call.channel ≤ AwgFy.channels) : ¬ s.Idle ∧ EndsInSetting past := by
  have hsetup : DeviceInvariant transcript [] pf retries Device.setup.1 [] ∧
      SilentInvariant Device.setup.1 [] :=
    ⟨⟨List.not_mem_nil, rfl, [], .nil, rfl⟩, ⟨rfl, rfl⟩,
      .inl fun _ h ↦ absurd h List.not_mem_nil⟩
  have hinvariant : DeviceInvariant transcript [] pf retries s past ∧ SilentInvariant s past :=
    runFrom_trace_invariant (P := fun s past ↦ DeviceInvariant transcript [] pf retries s past ∧
      SilentInvariant s past)
      (fun _ _ _ _ _ h hstep ↦ ⟨h.1.step rfl hstep, h.2.step hanswers h.1 hstep⟩) [] hsetup hrun
  obtain hnone | ⟨⟨d, hd, -⟩, hpast⟩ := hinvariant.2.2
  · exact absurd hchannel (hnone call hcall)
  · exact ⟨fun hidle ↦ absurd (hidle.1.symm.trans hd) (Option.some_ne_none d).symm, hpast⟩

end Runs

/-- A client of the VXI server switches channel 2 on, and the AWG takes the line without a word.
Then another call is tried. -/
def silentRun : List DeviceEvent :=
  [.vxiLoop { offered := some (.ofStream outputRequest.bytes) }, .proceed, .vxiLoop {}] ++
    List.replicate 6 .proceed ++ [.take [], .arrive, .giveUp, .proceed, .vxiLoop {}]

theorem device_hangs_silentRun :
    ∃ s past, runFrom (Device.step (referencePlatform .binary64) .base (awgFy6900 3)
        fun _ answer ↦ answer == []) Device.setup.1 silentRun = .ok (s, past) ∧
      past = [.system (.vxi (.server (.available 9010))),
        .system (.vxi (.set ⟨2, Scpi.outputOn, .finite 1⟩)), .serial (.write (ascii "WFN")),
        .serial (.write (ascii "1")), .serial (.write (ascii "\n")),
        .serial (.answer (ascii "WFN1") [])] ∧ ¬ s.Idle ∧ EndsInSetting past := by
  obtain ⟨⟨s, past⟩, hrun, hpast⟩ := exists_of_map_eq_ok
    (b := [.system (.vxi (.server (.available 9010))),
      .system (.vxi (.set ⟨2, Scpi.outputOn, .finite 1⟩)), .serial (.write (ascii "WFN")),
      .serial (.write (ascii "1")), .serial (.write (ascii "\n")),
      .serial (.answer (ascii "WFN1") [])])
    (f := fun r : Device × List DeviceAction ↦ r.2)
    (x := runFrom (Device.step (referencePlatform .binary64) .base (awgFy6900 3)
      fun _ answer ↦ answer == []) Device.setup.1 silentRun) (by decide +kernel)
  have hcall : (⟨2, Scpi.outputOn, .finite 1⟩ : SetCall) ∈ driverCalls past := by
    rw [show past = _ from hpast]
    exact List.mem_singleton_self _
  obtain ⟨hidle, hends⟩ := device_hangs (fun h ↦ by simpa using h) hrun hcall (by decide)
  exact ⟨s, past, hrun, hpast, hidle, hends⟩

end EspBode
