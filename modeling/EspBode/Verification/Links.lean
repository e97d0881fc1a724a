import EspBode.Firmware.System
import EspBode.Verification.RequestRecords

/-!
# Links over whole runs

What the steps of the system do to the link: the client, the listening server and the port. A call
of `loop()` either serves the client, or serves it and closes the link, or accepts a connection
(`LinkStep`); nothing else touches these three, but for the peer of the client closing its end.
Every result about runs of the two servers goes through this list, and through the number of links
that have ended (`linksEnded`), which a run shows in its output: the client is stopped only when a
link is closed.

`LinkInvariant` is what holds in every reachable state: the port has been moved on once for every
link that has ended, and the VXI server listens on it.

* **A call of the loop** (`loop_linkStep`) is reduced to the answer to a request by the refinement
  of the handlers. A connection is closed exactly on a request to destroy the link (`bClose_iff`),
  whose answer never fails, so of the handlers nothing else has to be known here.
* **The port** after `n` links is the start of the range and `n` steps of the counter. As the range
  has ten ports, its number is `9010 + n % 10` (`toNat_portAfter`).
* **A run** takes the invariant along with the output, since the number of ended links is counted
  there; `linksEnded` of a whole run is the sum over its parts.

The run at the end has one link that ends. It is there to be run.
-/

namespace EspBode

open Answer

namespace VxiServer

/-! ### What a call does to the link -/

/-- The action neither stops the client nor calls the listening server. -/
def Quiet : VxiAction → Prop
  | .send _ => True
  | .set _ => True
  | .clientStop => False
  | .server _ => False

theorem quiet_actions (a : Option Answer) : ∀ action ∈ Answer.actions a, Quiet action := by
  rcases a with _ | a
  · exact fun _ h ↦ absurd h List.not_mem_nil
  · intro action h
    rcases List.mem_append.1 h with h | h
    · obtain ⟨call, -, rfl⟩ := List.mem_map.1 h
      exact trivial
    · rw [List.mem_singleton.1 h]
      exact trivial

/-- The record that the client brings is a request to destroy the link. -/
def Destroys (b : Buffer vxiReadSize) (c : NetClient) : Prop :=
  0 < (receive vxiReadSize c).len ∧
    VxiRequest.program (requestIn b c) = Rpc.Program.vxi11Core.code ∧
    VxiRequest.procedure (requestIn b c) = Rpc.Procedure.vxi11DestroyLink.code

/-- The connection is closed exactly on a request to destroy the link. -/
theorem bClose_iff {awg : AwgServer} {b : Buffer vxiReadSize} {uninit : ℕ → Double} {a : Answer}
    (h : answer awg b uninit = .ok a) :
    a.bClose = true ↔ VxiRequest.program b = Rpc.Program.vxi11Core.code ∧
      VxiRequest.procedure b = Rpc.Procedure.vxi11DestroyLink.code := by
  -- a handler under another procedure does not close
  have hother : ∀ {procedure}, VxiRequest.procedure b = procedure →
      procedure ≠ Rpc.Procedure.vxi11DestroyLink.code → a.bClose = false →
        (a.bClose = true ↔ VxiRequest.program b = Rpc.Program.vxi11Core.code ∧
          VxiRequest.procedure b = Rpc.Procedure.vxi11DestroyLink.code) := by
    intro procedure hb hne ha
    exact iff_of_false (by simp [ha]) fun hd ↦ hne (hb.symm.trans hd.2)
  cases requestCase (VxiRequest.program b) (VxiRequest.procedure b) with
  | otherProgram hprogram =>
    rw [answer_of_program_ne hprogram] at h
    obtain rfl := Except.ok.inj h
    exact iff_of_false Bool.false_ne_true fun hb ↦ hprogram hb.1
  | createLink hcore hcreate =>
    rw [answer_of_createLink hcore hcreate] at h
    split_ifs at h
    exact hother hcreate (by decide) (by rw [← Except.ok.inj h])
  | devRead hcore hread =>
    rw [answer_of_devRead hcore hread] at h
    split_ifs at h
    exact hother hread (by decide) (by rw [← Except.ok.inj h])
  | devWrite hcore hwrite =>
    rw [answer_of_devWrite hcore hwrite] at h
    split_ifs at h
    obtain ⟨q, -, hq⟩ := bind_eq_ok.1 h
    exact hother hwrite (by decide) (by rw [← Except.ok.inj hq])
  | destroyLink hcore hdestroy =>
    rw [answer_of_destroyLink hcore hdestroy] at h
    obtain rfl := Except.ok.inj h
    exact iff_of_true rfl ⟨hcore, hdestroy⟩
  | otherProcedure hcore hunhandled =>
    rw [answer_of_not_handled hcore hunhandled] at h
    exact hother rfl (fun hd ↦ hunhandled (hd ▸ by decide)) (by rw [← Except.ok.inj h])

theorem closes_iff {awg : AwgServer} {b : Buffer vxiReadSize} {c : NetClient} {uninit : ℕ → Double}
    {a : Option Answer} (h : serve awg b c uninit = .ok a) :
    Answer.closes a = true ↔ Destroys b c := by
  rw [serve] at h
  split_ifs at h with hlen
  · obtain ⟨a, ha, rfl⟩ := exists_of_map_eq_ok h
    exact (bClose_iff ha).trans (and_iff_right hlen).symm
  · obtain rfl := Except.ok.inj h
    exact iff_of_false Bool.false_ne_true fun hd ↦ hlen hd.1

/-- What a call of `loop()` can do: serve the client, serve it and close the link, or accept a
connection. -/
inductive LinkStep (s : VxiServer) (offered : Option NetClient) :
    VxiServer → List VxiAction → Prop
  | serves {c : NetClient} {t : VxiServer} {actions : List VxiAction} (client : s.client = some c)
      (stays : ¬ Destroys s.vxiReadBuffer c)
      (link : SameLink t { s with client := some (receive vxiReadSize c).client })
      (quiet : ∀ a ∈ actions, Quiet a) : LinkStep s offered t actions
  | closes {c : NetClient} {t : VxiServer} {actions : List VxiAction} (client : s.client = some c)
      (ends : Destroys s.vxiReadBuffer c)
      (link : SameLink t { s with client := some (receive vxiReadSize c).client })
      (quiet : ∀ a ∈ actions, Quiet a) :
      LinkStep s offered t.beginNext.1 (actions ++ t.beginNext.2)
  | accepts (client : s.client = none) :
      LinkStep s offered { s with client := (s.tcpServer.accept offered).1 }
        ((s.tcpServer.accept offered).2.map .server)

/-- **Every call of the loop is one of these steps.** -/
theorem loop_linkStep {awg : AwgServer} {s s' : VxiServer} {input : LoopInput}
    {out : List VxiAction} (h : s.loop awg input = .ok (s', out)) :
    LinkStep s input.offered s' out := by
  rcases hc : s.client with _ | c
  · rw [loop, hc] at h
    obtain ⟨rfl, rfl⟩ := Prod.mk.inj (Except.ok.inj h)
    exact .accepts hc
  · obtain ⟨a, ha, t, hlink, hs', hout⟩ := (loop_simulates awg hc input).exists_of_eq_ok h
    obtain rfl : s' = _ := hs'
    obtain rfl : out = _ := hout
    have hends := closes_iff ha
    cases hcl : closes a
    · rw [show (t.afterReply false).2 = [] from rfl, List.append_nil]
      exact .serves hc (fun hd ↦ absurd (hcl.symm.trans (hends.2 hd)) (by decide)) hlink
        (quiet_actions a)
    · exact .closes hc (hends.1 hcl) hlink (quiet_actions a)

end VxiServer

open VxiServer

/-! ### Steps of the system -/

/-- What a step of the system can do. -/
inductive SystemStep (awg : AwgServer) (s : System) :
    SystemEvent → System → List SystemAction → Prop
  | bindLoop {input : RpcBindServer.LoopInput} {bind : RpcBindServer} {actions : List BindAction}
      (loop : s.bind.loop s.vxi input = .ok (bind, actions)) :
      SystemStep awg s (.bindLoop input) { s with bind } (actions.map .bind)
  | vxiLoop {input : VxiServer.LoopInput} {vxi : VxiServer} {actions : List VxiAction}
      (loop : s.vxi.loop awg input = .ok (vxi, actions)) :
      SystemStep awg s (.vxiLoop input) { s with vxi } (actions.map .vxi)
  | peerCloses :
      SystemStep awg s .peerCloses
        { s with vxi := { s.vxi with client := s.vxi.client.map ({ · with peerClosed := true }) } }
        []

/-- **The case analysis on steps of the system.** -/
theorem systemStep_of_step {awg : AwgServer} {s s' : System} {event : SystemEvent}
    {out : List SystemAction} (hstep : System.step awg s event = .ok (s', out)) :
    SystemStep awg s event s' out := by
  cases event with
  | bindLoop input =>
    obtain ⟨r, hloop, hr⟩ := bind_eq_ok.1 hstep
    obtain ⟨rfl, rfl⟩ := Prod.mk.inj (Except.ok.inj hr)
    exact .bindLoop hloop
  | vxiLoop input =>
    obtain ⟨r, hloop, hr⟩ := bind_eq_ok.1 hstep
    obtain ⟨rfl, rfl⟩ := Prod.mk.inj (Except.ok.inj hr)
    exact .vxiLoop hloop
  | peerCloses =>
    obtain ⟨rfl, rfl⟩ := Prod.mk.inj (Except.ok.inj hstep)
    exact .peerCloses

/-! ### Counting links -/

/-- The number of links that have ended: how often the client was stopped. -/
def linksEnded (out : List SystemAction) : ℕ :=
  out.count (.vxi .clientStop)

theorem linksEnded_append (out out' : List SystemAction) :
    linksEnded (out ++ out') = linksEnded out + linksEnded out' :=
  List.count_append

theorem linksEnded_bind (actions : List BindAction) : linksEnded (actions.map .bind) = 0 := by
  refine List.count_eq_zero.2 fun h ↦ ?_
  obtain ⟨a, -, ha⟩ := List.mem_map.1 h
  exact SystemAction.noConfusion ha

theorem linksEnded_quiet {actions : List VxiAction} (h : ∀ a ∈ actions, Quiet a) :
    linksEnded (actions.map .vxi) = 0 := by
  refine List.count_eq_zero.2 fun hmem ↦ ?_
  obtain ⟨a, ha, heq⟩ := List.mem_map.1 hmem
  obtain rfl : a = .clientStop := SystemAction.vxi.inj heq
  exact h _ ha

theorem linksEnded_server (calls : List ServerCall) :
    linksEnded ((calls.map VxiAction.server).map .vxi) = 0 := by
  refine List.count_eq_zero.2 fun hmem ↦ ?_
  obtain ⟨a, ha, heq⟩ := List.mem_map.1 hmem
  obtain ⟨call, -, rfl⟩ := List.mem_map.1 ha
  exact VxiAction.noConfusion (SystemAction.vxi.inj heq)

/-- Closing a link stops the client once. -/
theorem linksEnded_beginNext (t : VxiServer) : linksEnded (t.beginNext.2.map .vxi) = 1 := by
  show linksEnded ([.vxi .clientStop] ++ (List.map VxiAction.server _).map .vxi) = 1
  rw [linksEnded_append, linksEnded_server]
  rfl

/-- The step serves a request to destroy the link. -/
def EndsLink (s : System) : SystemEvent → Prop
  | .vxiLoop _ => ∃ c, s.vxi.client = some c ∧ Destroys s.vxi.vxiReadBuffer c
  | _ => False

/-- **A step that serves a request to destroy the link ends one link**, any other step none. -/
theorem linksEnded_step {awg : AwgServer} {s s' : System} {out : List SystemAction}
    {event : SystemEvent} (hstep : System.step awg s event = .ok (s', out)) :
    linksEnded out = 0 ↔ ¬ EndsLink s event := by
  cases systemStep_of_step hstep with
  | bindLoop _ => exact iff_of_true (linksEnded_bind _) not_false
  | vxiLoop hloop =>
    cases loop_linkStep hloop with
    | serves hc hstays _ hquiet =>
      refine iff_of_true (linksEnded_quiet hquiet) ?_
      rintro ⟨c', hc', hd⟩
      obtain rfl := Option.some.inj (hc.symm.trans hc')
      exact hstays hd
    | closes hc hends _ hquiet =>
      refine iff_of_false ?_ (not_not.2 ⟨_, hc, hends⟩)
      rw [List.map_append, linksEnded_append, linksEnded_beginNext]
      omega
    | accepts hc =>
      refine iff_of_true (linksEnded_server _) ?_
      rintro ⟨c', hc', -⟩
      exact absurd (hc.symm.trans hc') (by simp)
  | peerCloses => exact iff_of_true rfl not_false

/-- No link ends in a run exactly if none of its steps serves a request to destroy the link. -/
theorem linksEnded_eq_zero_iff {awg : AwgServer} {events : List SystemEvent} :
    ∀ {s s' : System} {out : List SystemAction},
      Machine.runFrom (System.step awg) s events = .ok (s', out) →
        (linksEnded out = 0 ↔
          Machine.Along (System.step awg) (fun s event ↦ ¬ EndsLink s event) s events) := by
  induction events with
  | nil =>
    intro s s' out hrun
    obtain ⟨-, rfl⟩ := Prod.mk.inj (Except.ok.inj hrun)
    exact iff_of_true rfl trivial
  | cons event events ih =>
    intro s s' out hrun
    obtain ⟨s₁, out₁, out₂, hstep, hrun', rfl⟩ := Machine.runFrom_cons_eq_ok.1 hrun
    rw [Machine.along_cons hstep, ← ih hrun', ← linksEnded_step hstep, linksEnded_append]
    exact Nat.add_eq_zero_iff

/-! ### The invariant -/

/-- The port after `n` links have ended. -/
def portAfter (n : ℕ) : CyclicUInt32 :=
  CyclicUInt32.gotoNext^[n] (.new Rpc.vxiPortStart Rpc.vxiPortEnd)

theorem portAfter_succ (n : ℕ) : portAfter (n + 1) = (portAfter n).gotoNext :=
  Function.iterate_succ_apply' _ _ _

/-- **The ports go round the ten ports of the range.** -/
theorem toNat_portAfter (n : ℕ) : (portAfter n).toUInt32.toNat = 9010 + n % 10 := by
  have hrange : (CyclicUInt32.new Rpc.vxiPortStart Rpc.vxiPortEnd).InRange :=
    ⟨by decide, by decide⟩
  have h := CyclicUInt32.toNat_gotoNext_iterate hrange n
  rw [show (CyclicUInt32.new Rpc.vxiPortStart Rpc.vxiPortEnd).mStart.toNat = 9010 by rfl,
    show (CyclicUInt32.new Rpc.vxiPortStart Rpc.vxiPortEnd).mData.toNat = 9010 by rfl,
    show (CyclicUInt32.new Rpc.vxiPortStart Rpc.vxiPortEnd).mEnd.toNat = 9019 by rfl,
    Nat.sub_self, Nat.zero_add] at h
  exact h

/-- What holds when the given actions have been put out. -/
structure LinkInvariant (s : System) (past : List SystemAction) : Prop where
  port : s.vxi.vxiPort = portAfter (linksEnded past)
  listens : s.vxi.tcpServer.mServer = some s.vxi.vxiPort.toUInt32.toUInt16

theorem linkInvariant_setup : LinkInvariant System.setup.1 [] :=
  ⟨rfl, rfl⟩

/-- A step of the system that is not a call of the VXI loop leaves the port and the server alone. -/
theorem LinkInvariant.of_eq {s s' : System} {past out : List SystemAction}
    (h : LinkInvariant s past) (hport : s'.vxi.vxiPort = s.vxi.vxiPort)
    (hserver : s'.vxi.tcpServer = s.vxi.tcpServer) (hout : linksEnded out = 0) :
    LinkInvariant s' (past ++ out) :=
  ⟨by rw [linksEnded_append, hout, hport]; exact h.port, by rw [hserver, hport]; exact h.listens⟩

/-- **Every step keeps the invariant.** -/
theorem LinkInvariant.step {awg : AwgServer} {s s' : System} {past out : List SystemAction}
    {event : SystemEvent} (h : LinkInvariant s past)
    (hstep : System.step awg s event = .ok (s', out)) : LinkInvariant s' (past ++ out) := by
  cases systemStep_of_step hstep with
  | bindLoop _ => exact h.of_eq rfl rfl (linksEnded_bind _)
  | vxiLoop hloop =>
    cases loop_linkStep hloop with
    | serves _ _ hlink hquiet =>
      exact h.of_eq hlink.vxiPort hlink.tcpServer (linksEnded_quiet hquiet)
    | @closes c t actions _ _ hlink hquiet =>
      have hport : t.beginNext.1.vxiPort = s.vxi.vxiPort.gotoNext :=
        congrArg CyclicUInt32.gotoNext hlink.vxiPort
      refine ⟨?_, rfl⟩
      rw [linksEnded_append, List.map_append, linksEnded_append, linksEnded_quiet hquiet,
        linksEnded_beginNext, Nat.zero_add, portAfter_succ, ← h.port]
      exact hport
    | accepts _ => exact h.of_eq rfl rfl (linksEnded_server _)
  | peerCloses => exact h.of_eq rfl rfl rfl

/-- **The invariant holds after every run from a state in which it holds.** -/
theorem LinkInvariant.run {awg : AwgServer} {s s' : System} {past out : List SystemAction}
    {events : List SystemEvent} (h : LinkInvariant s past)
    (hrun : Machine.runFrom (System.step awg) s events = .ok (s', out)) :
    LinkInvariant s' (past ++ out) :=
  Machine.runFrom_trace_invariant (fun _ _ _ _ _ h hstep ↦ h.step hstep) past h hrun

/-! ### A run that ends a link -/

/-- A client connects and destroys its link at once. -/
def oneLink : List SystemEvent :=
  [.vxiLoop { offered := some (.ofStream
      (Record.lastFragment (plainRequest 7 .vxi11DestroyLink) (by decide)).bytes) },
    .vxiLoop {}]

/-- What the run puts out. -/
def oneLinkOut : List SystemAction :=
  [.vxi (.server (.available 9010)), .vxi (.send (replyRecord 7 noError)), .vxi .clientStop,
    .vxi (.server (.delete 9010)), .vxi (.server (.begin 9011))]

theorem exists_run_oneLink : ∃ s,
    Machine.runFrom (System.step .base) System.setup.1 oneLink = .ok (s, oneLinkOut) := by
  obtain ⟨⟨s, out⟩, hrun, rfl⟩ := exists_of_map_eq_ok (b := oneLinkOut)
    (f := fun r : System × List SystemAction ↦ r.2)
    (x := Machine.runFrom (System.step .base) System.setup.1 oneLink) (by decide +kernel)
  exact ⟨s, hrun⟩

end EspBode
