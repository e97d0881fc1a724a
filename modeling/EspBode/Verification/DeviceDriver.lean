import EspBode.Verification.DeviceSerial

/-!
# The driver of the device

What `set` and `get` write is known from their dialogues with a peer whose answer depends on what it
was sent. As long as the telnet client has not turned the pass-through on, the driver of the whole
device has such a dialogue: however the three loops, the bytes on the line and the AWG take their
turns, the calls of the driver write what they write, one behind the other, against a peer that
gives the answers that were read (`device_converses`).

So a result that is proved of `set` with a peer, such as how often it tries, holds of the device. A
peer is a function and answers at once; on the line the answers are chosen one by one and arrive
byte by byte, while other loops are called. What joins the two is that a dialogue which is run on
the line goes a **path** through its tree: the bytes it writes and the responses it reads, of which
the peer is made afterwards.

`OnPath` says that the calls so far have gone a path, one behind the other, and that the dialogue
under way is where the path has led to. It is one more property that is kept when the driver is
called and when the line takes a step (`KeptByDriver`), so the induction over the runs of the device
is the one that is there already, and only these two steps are shown here.
-/

namespace EspBode

open Machine
open Dialogue (converse inOrder)
open SerialLine (written heard)

variable {pf : Platform} {retries : UInt32} {awg : AwgServer}

/-- The calls have gone a path, from the beginning, and they are for parameters of the table. -/
def OnPath (pf : Platform) (retries : UInt32) (line : SerialLine) (calls : List SetCall)
    (past : List SerialAction) : Prop :=
  Onward (Device.program pf (awgFy6900 retries)) {} line past calls ∧
    ∀ call ∈ calls, call.parameter < Scpi.parameterCount

/-- **A call of the driver begins where the calls before it have ended**, and on the line it goes on
along its path. -/
theorem keptByDriver_onPath : KeptByDriver pf retries (OnPath pf retries) where
  setting {line calls past call} h hrunning hparam := by
    obtain ⟨honward, hparams⟩ := h
    have honward' := honward.trans (.of_call call hrunning)
    rw [List.append_nil] at honward'
    refine ⟨honward', fun call' hcall' ↦ ?_⟩
    rcases List.mem_append.1 hcall' with hcall' | hcall'
    · exact hparams call' hcall'
    · exact List.mem_singleton.1 hcall' ▸ hparam
  serial {line line' calls past out event} h hcall hstep := by
    obtain ⟨calls', hsub, honward⟩ := Onward.of_step hstep
    have hnone : requested [event] = [] := by
      cases event with
      | call c => exact absurd rfl (hcall c)
      | _ => rfl
    rw [hnone] at hsub
    obtain rfl := List.sublist_nil.1 hsub
    have honward' := h.1.trans honward
    rw [List.append_nil] at honward'
    exact ⟨honward', h.2⟩

/-- **The driver of the device has the dialogue of its calls**, in every run in which the telnet
client has not turned the pass-through on: when the driver is not at work, what was written to the
line is what the settings write, one behind the other, against a peer that gives the answers that
were read. -/
theorem device_converses {s : Device} {past : List DeviceAction} {events : List DeviceEvent}
    (hrun : runFrom (Device.step pf awg (awgFy6900 retries) awgAnswers) Device.setup.1 events =
      .ok (s, past))
    (hunheard : ∀ line ∈ heardLines s past, ¬ togglesPassThrough line)
    (hnone : s.line.running = none) :
    ∃ peer, converse peer (inOrder (Device.program pf (awgFy6900 retries)) (driverCalls past)) [] =
        (.ok (), written (serialActions past)) ∧
      ∀ e ∈ heard [] (serialActions past), peer e.1 = e.2 ++ ascii "\n" := by
  have hinit : OnPath pf retries {} [] [] :=
    ⟨.of_eq rfl rfl, fun _ h ↦ absurd h List.not_mem_nil⟩
  obtain ⟨-, -, honward, hparams⟩ := CalmInvariant.run keptByDriver_onPath hinit hrun hunheard
  exact LineProtocol.exists_converse_of_onward (p := awgProtocol)
    (fun call hcall ↦ obeys_program pf retries (hparams call hcall)) honward hnone

/-- The output of channel 2, verified by the answer. -/
theorem device_converses_checkedRun :
    ∃ s past peer, runFrom (Device.step (referencePlatform .binary64) .base (awgFy6900 1)
        awgAnswers) Device.setup.1 (checkedRun ++ List.replicate 5 .proceed) = .ok (s, past) ∧
      converse peer (inOrder (Device.program (referencePlatform .binary64) (awgFy6900 1))
        [⟨2, 1, .ofNat 1⟩]) [] = (.ok (), ascii "WFN1\nRFN\n\n") ∧
      peer (ascii "WFN1\nRFN\n\n") = ascii "1\n" := by
  obtain ⟨⟨s, past⟩, hrun, hout⟩ := exists_of_map_eq_ok (b := true)
    (f := fun r : Device × List DeviceAction ↦ decide (r.1.line.running.isNone ∧
      heardLines r.1 r.2 = [ascii "hello"] ∧ driverCalls r.2 = [⟨2, 1, .ofNat 1⟩] ∧
        written (serialActions r.2) = ascii "WFN1\nRFN\n\n" ∧
          heard [] (serialActions r.2) = [(ascii "WFN1\nRFN\n\n", ascii "1")]))
    (x := runFrom (Device.step (referencePlatform .binary64) .base (awgFy6900 1) awgAnswers)
      Device.setup.1 (checkedRun ++ List.replicate 5 .proceed)) (by decide +kernel)
  simp only [decide_eq_true_eq, Option.isNone_iff_eq_none] at hout
  obtain ⟨hnone, hheard, hcalls, hwritten, hreadings⟩ := hout
  have hunheard : ∀ line ∈ heardLines s past, ¬ togglesPassThrough line := by
    rw [hheard]
    decide +kernel
  obtain ⟨peer, hconverse, hpeer⟩ := device_converses hrun hunheard hnone
  rw [hcalls, hwritten] at hconverse
  rw [hreadings] at hpeer
  exact ⟨s, past, peer, hrun, hconverse, hpeer _ List.mem_cons_self⟩

end EspBode
