import EspBode.Verification.BufferBounds
import EspBode.Verification.DeviceServers
import EspBode.Verification.NullTokens

/-!
# What brings the device down

A request is fatal if a handler leaves a buffer on it, or if the parser uses a token that is not
there (`Fatal`). A run of the whole device is stuck exactly where the VXI server is called with a
fatal request on its connection (`device_fails_iff`): nothing that a telnet client types, a bind
client sends, the AWG answers, or a peer does brings the device down, in whatever order it comes.
And since no fault stands for the end of a loop's fuel, every loop of the program comes to its end.

`Fatal` is a condition on the request as it stands in the read buffer, and it names the fault: the
length that a request declares, or the text it writes. The equivalence is built from the inside out,
each level saying which of its steps can fail and that the others cannot:

* the answer to a request, where the parser is the only part with a fault of its own
  (`answer_eq_error_iff`);
* a step of the two servers: the bind server never fails, as its accesses are within its buffers,
  and a call of the VXI loop fails as the answer does, if there is a record to answer;
* a step of the device: a call of the VXI loop when no other call is under way. The driver fails on
  no setting that the parser can ask for, because the names it finds have their entries.

A run is stuck at its first step that fails, so the statement for runs splits the events there.
-/

namespace EspBode

open VxiRequest Answer Scpi

/-! ### Fatal requests -/

/-- The fault that the request in the read buffer brings about. -/
inductive Fatal (b : Buffer vxiReadSize) : Fault → Prop
  | index (leaves : ¬ StaysInside b) : Fatal b .index
  | nullPointer (core : program b = Rpc.Program.vxi11Core.code)
      (write : procedure b = Rpc.Procedure.vxi11DevWrite.code) (fits : WriteFits b)
      (missing : ¬ TokensPresent (writtenText b)) : Fatal b .nullPointer

theorem fatal_index_iff (b : Buffer vxiReadSize) : Fatal b .index ↔ ¬ StaysInside b :=
  ⟨fun h ↦ by cases h; assumption, .index⟩

/-- A line fails where a token is missing. -/
theorem lineText_eq_error_iff (s : List UInt8) (uninit : ℕ → Double) (e : Fault) :
    lineText s uninit = .error e ↔ e = .nullPointer ∧ ¬ TokensPresent s := by
  have htrace := lineTrace_eq s uninit
  rw [← map_eq_error (f := fun q ↦ q.2.2), ← htrace, Trace.outcome, ← lineTrace_nullToken s uninit,
    Bool.not_eq_false]
  split_ifs with hnull
  · rw [Except.error.injEq, eq_comm]
    exact (and_iff_left hnull).symm
  · exact iff_of_false (by simp) fun h ↦ hnull h.2

/-- **The answer to a request fails** as the request is fatal. -/
theorem answer_eq_error_iff (b : Buffer vxiReadSize) (uninit : ℕ → Double) (e : Fault) :
    answer .base b uninit = .error e ↔ Fatal b e := by
  rcases eq_or_ne e .index with rfl | he
  · rw [answer_eq_index_iff, fatal_index_iff]
  -- any other fault is that of the line that is written
  have hother : answer .base b uninit ≠ .error e → ¬ (program b = Rpc.Program.vxi11Core.code ∧
      procedure b = Rpc.Procedure.vxi11DevWrite.code) →
        (answer .base b uninit = .error e ↔ Fatal b e) := fun hne hnot ↦
    iff_of_false hne fun hfatal ↦ by
      cases hfatal with
      | index => exact he rfl
      | nullPointer hcore hwrite => exact hnot ⟨hcore, hwrite⟩
  have hindex : (.error .index : Except Fault Answer) ≠ .error e := fun h ↦
    he (Except.error.inj h).symm
  cases requestCase (program b) (procedure b) with
  | otherProgram h =>
    refine hother ?_ fun hw ↦ h hw.1
    rw [answer_of_program_ne h]
    exact fun h ↦ nomatch h
  | createLink hcore h =>
    refine hother ?_ fun hw ↦ absurd (h.symm.trans hw.2) (by decide)
    rw [answer_of_createLink hcore h]
    split_ifs
    · exact fun h ↦ nomatch h
    · exact hindex
  | devRead hcore h =>
    refine hother ?_ fun hw ↦ absurd (h.symm.trans hw.2) (by decide)
    rw [answer_of_devRead hcore h, if_pos (by decide)]
    exact fun h ↦ nomatch h
  | devWrite hcore h =>
    rw [answer_of_devWrite hcore h]
    split_ifs with hfits
    · rw [bind_eq_error, lineText_eq_error_iff]
      constructor
      · rintro (⟨rfl, hmissing⟩ | ⟨q, -, hpure⟩)
        · exact .nullPointer hcore h hfits hmissing
        · exact absurd hpure (by simp)
      · intro hfatal
        cases hfatal with
        | index => exact absurd rfl he
        | nullPointer _ _ _ hmissing => exact .inl ⟨rfl, hmissing⟩
    · refine iff_of_false hindex fun hfatal ↦ ?_
      cases hfatal with
      | index => exact he rfl
      | nullPointer _ _ hfits' _ => exact hfits hfits'
  | destroyLink hcore h =>
    refine hother ?_ fun hw ↦ absurd (h.symm.trans hw.2) (by decide)
    rw [answer_of_destroyLink hcore h]
    exact fun h ↦ nomatch h
  | otherProcedure hcore h =>
    refine hother ?_ fun hw ↦ h (hw.2 ▸ by decide)
    rw [answer_of_not_handled hcore h]
    exact fun h ↦ nomatch h

/-! ### The two servers -/

/-- The call of the VXI loop meets a request that brings about the fault. -/
def System.MeetsFatal (s : System) (e : Fault) : Prop :=
  ∃ c, s.vxi.client = some c ∧ 0 < (receive vxiReadSize c).len ∧
    Fatal (requestIn s.vxi.vxiReadBuffer c) e

theorem loop_eq_error_iff (s : System) (input : VxiServer.LoopInput) (e : Fault) :
    s.vxi.loop .base input = .error e ↔ s.MeetsFatal e := by
  rcases hc : s.vxi.client with _ | c
  · refine iff_of_false ?_ ?_
    · rw [VxiServer.loop, hc]
      exact fun h ↦ by simp at h
    · rintro ⟨c, hc', -⟩
      exact absurd (hc.symm.trans hc') (by simp)
  · have hmeets : s.MeetsFatal e ↔ 0 < (receive vxiReadSize c).len ∧
        Fatal (requestIn s.vxi.vxiReadBuffer c) e := by
      constructor
      · rintro ⟨c', hc', h⟩
        obtain rfl := Option.some.inj (hc.symm.trans hc')
        exact h
      · exact fun h ↦ ⟨c, hc, h⟩
    rw [(VxiServer.loop_simulates .base hc input).eq_error_iff, serve, hmeets]
    split_ifs with hlen
    · rw [map_eq_error, answer_eq_error_iff, and_iff_right hlen]
    · exact iff_of_false (by simp) fun h ↦ hlen h.1

/-- **A step of the two servers fails** only as a call of the VXI loop with a fatal request. -/
theorem System.step_eq_error_iff (s : System) (event : SystemEvent) (e : Fault) :
    System.step .base s event = .error e ↔
      (∃ input, event = .vxiLoop input) ∧ s.MeetsFatal e := by
  cases event with
  | bindLoop input =>
    obtain ⟨r, hloop⟩ := s.bind.exists_loop s.vxi input
    refine iff_of_false ?_ fun ⟨⟨_, h⟩, _⟩ ↦ nomatch h
    show (s.bind.loop s.vxi input >>= _) ≠ _
    rw [hloop]
    exact fun h ↦ nomatch h
  | vxiLoop input =>
    rw [and_iff_right ⟨input, rfl⟩, ← loop_eq_error_iff s input]
    show (s.vxi.loop .base input >>= _) = _ ↔ _
    rw [bind_eq_error]
    exact or_iff_left fun ⟨_, _, h⟩ ↦ nomatch h
  | peerCloses => exact iff_of_false (fun h ↦ nomatch h) fun ⟨⟨_, h⟩, _⟩ ↦ nomatch h

/-! ### The device -/

section Device

variable {pf : Platform} {retries : UInt32} {answers : List UInt8 → List UInt8 → Bool}

/-- **A step of the device fails** only as a call of the VXI loop with a fatal request, when no call
is under way. -/
theorem deviceStep_eq_error_iff {s : Device} {past : List DeviceAction}
    (h : DeviceInvariant transcript [] pf retries s past) (event : DeviceEvent) (e : Fault) :
    Device.step pf .base (awgFy6900 retries) answers s event = .error e ↔
      (∃ input, event = .vxiLoop input) ∧ s.Idle ∧ s.system.MeetsFatal e := by
  have hother : (∀ systemEvent, event.systemEvent = some systemEvent →
      ∃ r, System.step .base s.system systemEvent = .ok r) →
      (¬ ∃ input, event = .vxiLoop input) →
        (Device.step pf .base (awgFy6900 retries) answers s event = .error e ↔
          (∃ input, event = .vxiLoop input) ∧ s.Idle ∧ s.system.MeetsFatal e) := by
    intro hsystem hnot
    obtain ⟨r, hstep⟩ := exists_step_of_exists answers h event hsystem
    exact iff_of_false (by rw [hstep]; exact fun h ↦ nomatch h) fun h ↦ hnot h.1
  have hnever : ∀ systemEvent, (¬ ∃ input, systemEvent = .vxiLoop input) →
      ∃ r, System.step .base s.system systemEvent = .ok r := by
    intro systemEvent hnot
    rcases hstep : System.step .base s.system systemEvent with e' | r
    · exact absurd ((System.step_eq_error_iff _ _ _).1 hstep).1 hnot
    · exact ⟨r, rfl⟩
  cases event with
  | vxiLoop input =>
    rw [and_iff_right ⟨input, rfl⟩]
    show (if s.Idle then (·, []) <$> s.systemLoop .base (.vxiLoop input) else .ok (s, [])) =
      .error e ↔ _
    split_ifs with hidle
    · rw [map_eq_error, and_iff_right hidle]
      refine bind_eq_error.trans ((or_iff_left ?_).trans
        ((System.step_eq_error_iff _ _ _).trans (and_iff_right ⟨input, rfl⟩)))
      exact fun ⟨_, _, h⟩ ↦ nomatch h
    · exact iff_of_false (fun h ↦ nomatch h) fun h ↦ hidle h.1
  | bindLoop input =>
    refine hother (fun systemEvent heq ↦ hnever _ ?_) fun ⟨_, h⟩ ↦ nomatch h
    obtain rfl := Option.some.inj heq
    exact fun ⟨_, h⟩ ↦ nomatch h
  | peerCloses =>
    refine hother (fun systemEvent heq ↦ hnever _ ?_) fun ⟨_, h⟩ ↦ nomatch h
    obtain rfl := Option.some.inj heq
    exact fun ⟨_, h⟩ ↦ nomatch h
  | telnetLoop => exact hother (fun _ heq ↦ nomatch heq) fun ⟨_, h⟩ ↦ nomatch h
  | telnetPeerCloses => exact hother (fun _ heq ↦ nomatch heq) fun ⟨_, h⟩ ↦ nomatch h
  | proceed => exact hother (fun _ heq ↦ nomatch heq) fun ⟨_, h⟩ ↦ nomatch h
  | giveUp => exact hother (fun _ heq ↦ nomatch heq) fun ⟨_, h⟩ ↦ nomatch h
  | take => exact hother (fun _ heq ↦ nomatch heq) fun ⟨_, h⟩ ↦ nomatch h
  | arrive => exact hother (fun _ heq ↦ nomatch heq) fun ⟨_, h⟩ ↦ nomatch h

/-- **A run of the device fails exactly where the VXI server meets a fatal request**, and never
because a loop runs out of fuel. -/
theorem device_fails_iff (events : List DeviceEvent) (e : Fault) :
    (Machine.runFrom (Device.step pf .base (awgFy6900 retries) answers) Device.setup.1 events =
        .error e ↔
      ∃ before input after s past, events = before ++ .vxiLoop input :: after ∧
        Machine.runFrom (Device.step pf .base (awgFy6900 retries) answers) Device.setup.1 before =
          .ok (s, past) ∧ s.Idle ∧ s.system.MeetsFatal e) ∧
    Machine.runFrom (Device.step pf .base (awgFy6900 retries) answers) Device.setup.1 events ≠
      .error .outOfFuel := by
  have hiff : ∀ e, Machine.runFrom (Device.step pf .base (awgFy6900 retries) answers)
        Device.setup.1 events = .error e ↔
      ∃ before input after s past, events = before ++ .vxiLoop input :: after ∧
        Machine.runFrom (Device.step pf .base (awgFy6900 retries) answers) Device.setup.1 before =
          .ok (s, past) ∧ s.Idle ∧ s.system.MeetsFatal e := by
    intro e
    rw [Machine.runFrom_eq_error_iff]
    constructor
    · rintro ⟨before, event, after, s, past, rfl, hrun, hstep⟩
      obtain ⟨⟨input, rfl⟩, hidle, hfatal⟩ :=
        (deviceStep_eq_error_iff (.run rfl hrun) event e).1 hstep
      exact ⟨before, input, after, s, past, rfl, hrun, hidle, hfatal⟩
    · rintro ⟨before, input, after, s, past, rfl, hrun, hidle, hfatal⟩
      exact ⟨before, _, after, s, past, rfl, hrun,
        (deviceStep_eq_error_iff (.run rfl hrun) _ e).2 ⟨⟨input, rfl⟩, hidle, hfatal⟩⟩
  refine ⟨hiff e, fun hfuel ↦ ?_⟩
  obtain ⟨-, -, -, s, -, -, -, -, c, -, -, hfatal⟩ := (hiff .outOfFuel).1 hfuel
  cases hfatal

end Device

end EspBode
