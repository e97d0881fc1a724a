import EspBode.Verification.BindReplies
import EspBode.Verification.Links

/-!
# Port grants agree with the VXI server

A bind reply with status SUCCESS grants a port. The bind server gives one only while the VXI server
has no client, so the port it grants is the one the VXI server listens on; and the port moves on
only when a link is closed, which takes a client, so a grant stays valid until the next connection
is accepted.

`GrantsAgree` collects what that means in one state: where the server object listens, which port is
granted, how long it will stay, and that the next links have ports of their own. `port_grants` has
it for every run from `setup()`, with the number `n` of links that have ended as the only thing to
be remembered of the run. It rests on

* the invariant of the VXI server that its port is `9010 + n % 10`, and that its server object is
  the one for that port (`Links`);
* **every reply of the bind server carries a decision** (`bindReply_of_loop`), which is read back
  from the bytes that are sent, on both transports;
* **the decision** of a bind server that reads at all (`decideRequest_of_available`): the port is
  not 0, so the request is never taken for garbage.

How long a grant stays valid is a statement about the runs that follow, as long as no connection is
offered to the VXI server (`NoConnection`). Calls of either loop may come in between.
-/

namespace EspBode

open RpcBindServer

/-- The status and the port that a bind reply carries. -/
def bindReply : SystemAction → Option (UInt32 × UInt32)
  | .bind (.sendUdp bytes) => some (wordAt bytes 20, wordAt bytes 24)
  | .bind (.sendTcp bytes) => some (wordAt bytes 24, wordAt bytes 28)
  | _ => none

/-- No connection is offered to the VXI server during the events. -/
def NoConnection (events : List SystemEvent) : Prop :=
  ∀ input, .vxiLoop input ∈ events → input.offered = none

/-! ### What a reply carries -/

theorem wordAt_bindBody (decision : Rpc.RpcStatus × UInt32) :
    wordAt (bindBody decision) 0 = decision.1.code ∧ wordAt (bindBody decision) 4 = decision.2 :=
  ⟨beWord_beBytes _, beWord_beBytes _⟩

theorem bindReply_udp (xid : UInt32) (decision : Rpc.RpcStatus × UInt32) :
    bindReply (.bind (.sendUdp (replyHeader xid ++ bindBody decision))) =
      some (decision.1.code, decision.2) := by
  rw [bindReply, wordAt_append_right (by rw [length_replyHeader]),
    wordAt_append_right (by rw [length_replyHeader]; decide)]
  exact congrArg some (Prod.ext (wordAt_bindBody decision).1 (wordAt_bindBody decision).2)

theorem bindReply_tcp (xid : UInt32) (decision : Rpc.RpcStatus × UInt32) :
    bindReply (.bind (.sendTcp (replyRecord xid (bindBody decision)))) =
      some (decision.1.code, decision.2) := by
  have hpadding : padding (20 + (bindBody decision).length) = [] := by
    rw [length_bindBody]
    rfl
  rw [bindReply, replyRecord, replyPayload, hpadding, List.append_nil, ← List.append_assoc,
    wordAt_append_right (by rw [List.length_append, length_beBytes, length_replyHeader]),
    wordAt_append_right (by rw [List.length_append, length_beBytes, length_replyHeader]; decide)]
  exact congrArg some (Prod.ext (wordAt_bindBody decision).1 (wordAt_bindBody decision).2)

/-- **Every reply of the bind server carries a decision**, made while the VXI server was available.
-/
theorem bindReply_of_loop {s s' : RpcBindServer} {vxiServer : VxiServer} {input : LoopInput}
    {out : List BindAction} (h : s.loop vxiServer input = .ok (s', out)) {action : BindAction}
    (hmem : action ∈ out) {reply : UInt32 × UInt32}
    (hreply : bindReply (.bind action) = some reply) :
    vxiServer.available = true ∧ ∃ program procedure,
      reply = ((decideRequest vxiServer input.port0 program procedure).1.code,
        (decideRequest vxiServer input.port0 program procedure).2) := by
  have hserver : ∀ call, bindReply (.bind (.server call)) = none := fun _ ↦ rfl
  cases hav : vxiServer.available with
  | false =>
    rw [loop_of_not_available hav] at h
    obtain ⟨-, rfl⟩ := Prod.mk.inj (Except.ok.inj h)
    exact absurd hmem List.not_mem_nil
  | true =>
    refine ⟨rfl, ?_⟩
    rcases eq_or_ne input.datagram [] with hd | hd
    · rcases hacc : (s.tcp.accept input.offered).1 with _ | c
      · rw [loop_of_nothing hav hd hacc] at h
        obtain ⟨-, rfl⟩ := Prod.mk.inj (Except.ok.inj h)
        obtain ⟨call, -, rfl⟩ := List.mem_map.1 hmem
        rw [hserver] at hreply
        exact absurd hreply (by simp)
      · obtain ⟨p, hp⟩ : ∃ p, s.tcp.mServer = some p := by
          rcases hp : s.tcp.mServer with _ | p
          · rw [NetServerExt.accept, hp] at hacc
            exact absurd hacc (by simp)
          · exact ⟨p, rfl⟩
        have ho : input.offered = some c := by
          rw [NetServerExt.accept, hp] at hacc
          exact hacc
        obtain ⟨s'', hloop⟩ := loop_of_connection hav hd ho hp
        rw [hloop] at h
        obtain ⟨-, rfl⟩ := Prod.mk.inj (Except.ok.inj h)
        rcases List.mem_cons.1 hmem with rfl | hmem
        · rw [hserver] at hreply
          exact absurd hreply (by simp)
        · split_ifs at hmem
          · exact absurd hmem List.not_mem_nil
          · rw [List.mem_singleton.1 hmem, bindReply_tcp] at hreply
            exact ⟨_, _, (Option.some.inj hreply).symm⟩
    · obtain ⟨s'', hloop⟩ := loop_of_datagram hav hd
      rw [hloop] at h
      obtain ⟨-, rfl⟩ := Prod.mk.inj (Except.ok.inj h)
      rw [List.mem_singleton.1 hmem, bindReply_udp] at hreply
      exact ⟨_, _, (Option.some.inj hreply).symm⟩

/-- While a port is there to give, the request is never taken for garbage, and success grants that
port. -/
theorem decideRequest_of_available {vxiServer : VxiServer} (h : vxiServer.available = true)
    (hport : vxiServer.vxiPort.toUInt32 ≠ 0) (port0 program procedure : UInt32) :
    (decideRequest vxiServer port0 program procedure).1 ≠ .garbageArgs ∧
      ((decideRequest vxiServer port0 program procedure).1 = .success →
        (decideRequest vxiServer port0 program procedure).2 = vxiServer.vxiPort.toUInt32) := by
  have hallocate : vxiServer.allocate = vxiServer.vxiPort.toUInt32 := by
    rw [VxiServer.allocate, if_pos h]
  rw [decideRequest]
  split_ifs with hprogram hprocedure
  · simp
  · simp
  · simp only [hallocate, if_neg hport]
    simp

/-! ### How long a grant stays valid -/

/-- Without a client and without a connection the client stays away and the port stays. -/
theorem vxiPort_of_noConnection {awg : AwgServer} {events : List SystemEvent}
    (hno : NoConnection events) : ∀ {s s' : System} {out : List SystemAction},
      s.vxi.client = none → Machine.runFrom (System.step awg) s events = .ok (s', out) →
        s'.vxi.client = none ∧ s'.vxi.vxiPort = s.vxi.vxiPort := by
  induction events with
  | nil =>
    intro s s' out hs hrun
    obtain ⟨rfl, -⟩ := Prod.mk.inj (Except.ok.inj hrun)
    exact ⟨hs, rfl⟩
  | cons event events ih =>
    intro s s' out hs hrun
    obtain ⟨s₁, out₁, out₂, hstep, hrun', -⟩ := Machine.runFrom_cons_eq_ok.1 hrun
    have hrest : NoConnection events := fun input hmem ↦ hno input (List.mem_cons_of_mem _ hmem)
    have hone : s₁.vxi.client = none ∧ s₁.vxi.vxiPort = s.vxi.vxiPort := by
      cases systemStep_of_step hstep with
      | bindLoop _ => exact ⟨hs, rfl⟩
      | @vxiLoop input _ _ hloop =>
        cases VxiServer.loop_linkStep hloop with
        | serves hc => exact absurd (hs.symm.trans hc) (by simp)
        | closes hc => exact absurd (hs.symm.trans hc) (by simp)
        | accepts _ =>
          refine ⟨?_, rfl⟩
          show (s.vxi.tcpServer.accept input.offered).1 = none
          rw [hno input List.mem_cons_self, NetServerExt.accept]
          cases s.vxi.tcpServer.mServer <;> rfl
      | peerCloses =>
        refine ⟨?_, rfl⟩
        show Option.map _ s.vxi.client = none
        rw [hs, Option.map_none]
    obtain ⟨hclient, hport⟩ := ih hrest hone.1 hrun'
    exact ⟨hclient, hport.trans hone.2⟩

/-- Port grants agree with the VXI server in a state behind which `n` links have ended. -/
structure GrantsAgree (awg : AwgServer) (s : System) (n : ℕ) : Prop where
  /-- The port, which lies in the range. -/
  port : s.vxi.vxiPort.toUInt32.toNat = 9010 + n % 10
  /-- The VXI server listens on exactly that port. -/
  listens : s.vxi.tcpServer.mServer = some s.vxi.vxiPort.toUInt32.toUInt16
  /-- A bind reply is never GARBAGE_ARGS. With SUCCESS it is given without a client and grants the
  port, and until a connection is accepted the port does not change. -/
  replies : ∀ input s' actions, System.step awg s (.bindLoop input) = .ok (s', actions) →
    ∀ action ∈ actions, ∀ status port, bindReply action = some (status, port) →
      status ≠ Rpc.RpcStatus.garbageArgs.code ∧
      (status = Rpc.RpcStatus.success.code →
        s.vxi.client = none ∧ port = s.vxi.vxiPort.toUInt32 ∧
        ∀ later s'' out', NoConnection later →
          Machine.runFrom (System.step awg) s' later = .ok (s'', out') →
            s''.vxi.vxiPort = s.vxi.vxiPort)
  /-- Fewer than ten ended links later, but at least one, the port is another one. -/
  distinct : ∀ later s' out', Machine.runFrom (System.step awg) s later = .ok (s', out') →
    0 < linksEnded out' → linksEnded out' < 10 →
      s'.vxi.vxiPort.toUInt32 ≠ s.vxi.vxiPort.toUInt32

/-- **Port grants agree with the VXI server** after every run from `setup()`. -/
theorem port_grants {awg : AwgServer} {events : List SystemEvent} {s : System}
    {out : List SystemAction}
    (hrun : Machine.runFrom (System.step awg) System.setup.1 events = .ok (s, out)) :
    GrantsAgree awg s (linksEnded out) := by
  have hinv : LinkInvariant s ([] ++ out) := linkInvariant_setup.run hrun
  rw [List.nil_append] at hinv
  have hport : s.vxi.vxiPort.toUInt32.toNat = 9010 + linksEnded out % 10 := by
    rw [hinv.port, toNat_portAfter]
  refine ⟨hport, hinv.listens, ?_, ?_⟩
  · intro input s' actions hstep action hmem status port hreply
    obtain @⟨_, bind, replies, hloop⟩ := systemStep_of_step hstep
    obtain ⟨bindAction, hbind, rfl⟩ := List.mem_map.1 hmem
    obtain ⟨hav, program, procedure, heq⟩ := bindReply_of_loop hloop hbind hreply
    obtain ⟨rfl, rfl⟩ := Prod.mk.inj heq
    have hne : s.vxi.vxiPort.toUInt32 ≠ 0 := fun h0 ↦ by
      rw [h0, UInt32.toNat_zero] at hport
      omega
    obtain ⟨hgarbage, hsuccess⟩ := decideRequest_of_available hav hne input.port0 program procedure
    have hclient : s.vxi.client = none := Option.isNone_iff_eq_none.1 hav
    refine ⟨fun h ↦ hgarbage (code_injective h), fun h ↦ ⟨hclient, hsuccess (code_injective h), ?_⟩⟩
    exact fun later s'' out' hno hlater ↦ (vxiPort_of_noConnection (s := { s with bind })
      hno hclient hlater).2
  · intro later s' out' hlater hpos hlt heq
    have hport' : s'.vxi.vxiPort.toUInt32.toNat = 9010 + linksEnded (out ++ out') % 10 := by
      rw [(hinv.run hlater).port, toNat_portAfter]
    rw [heq, hport, linksEnded_append] at hport'
    omega

theorem port_grants_oneLink : ∃ s,
    Machine.runFrom (System.step .base) System.setup.1 oneLink = .ok (s, oneLinkOut) ∧
      GrantsAgree .base s (linksEnded oneLinkOut) := by
  obtain ⟨s, hrun⟩ := exists_run_oneLink
  exact ⟨s, hrun, port_grants hrun⟩

end EspBode
