import EspBode.Verification.PortGrants
import EspBode.Verification.RemoteCalls
import EspBode.Verification.ServerObjects

/-!
# The instrument on the network

The two servers together as an oscilloscope meets them: a port mapper, and an instrument on the port
that it grants. All the state there is are the number of links that have ended and the requests that
the connected client still brings (`Instrument`); no buffer, no server object and no port is part of
it, and everything that the servers put out is a function of it.

`provides_instrument` says so of every run in which complete requests are brought, in whatever order
and with whatever undefined contents of locals. A bind request is complete if it has a whole header.
What is refused is answered with an uninitialized local for a port, which is part of the event, so
the answer is a function of the event all the same.

## Visits

A whole story is computed in the abstract machine then: clients that ask for the port, connect, make
their calls and destroy the link, any number of them, one after the other (`visits_succeed`).

A `Visit` carries what makes it one: its fields are the request for the port, the calls and the last
call, with the proofs that the request asks for a port, that none of the calls ends the link, and
that the last one does. So its run is computed without a case distinction: the calls are served one
by one, and the last one ends the link and moves the port on (`run_session`). `exampleVisit` is a
visit of this kind.

`Succeeds` is what the client sees: the port that it is granted is the one on which its connection
is taken, and the results are those of its calls. The ports of consecutive visits are consecutive,
in the ring of ten.
-/

namespace EspBode

open VxiServer

/-! ### The abstract machine -/

/-- A request to the bind server: a datagram, or a record on a connection with bytes behind it. -/
inductive BindRequest
  | udp (call : List UInt8)
  | tcp (r : Record) (rest : List UInt8)

/-- A step of the two servers: clients may come with requests. -/
inductive InstrumentEvent
  | vxiLoop (offered : Option (List Record)) (uninit : ℕ → Double)
  | bindLoop (request : Option BindRequest) (port0 : UInt32)
  | peerCloses

/-- How many links have ended, and what the connected client still brings. -/
structure Instrument where
  ended : ℕ := 0
  pending : Service := none

namespace BindRequest

/-- The request as its bytes. -/
def call : BindRequest → List UInt8
  | udp call => call
  | tcp r _ => r.body

/-- What a call of the bind loop meets. -/
def input (port0 : UInt32) : Option BindRequest → RpcBindServer.LoopInput
  | none => { port0 }
  | some (udp call) => { datagram := call, port0 }
  | some (tcp r rest) => { offered := some (.ofStream (r.bytes ++ rest)), port0 }

end BindRequest

namespace InstrumentEvent

/-- The step of the two servers. -/
def toSystem : InstrumentEvent → SystemEvent
  | .vxiLoop offered uninit =>
    .vxiLoop { offered := offered.map fun rs ↦ .ofStream (Record.stream rs), uninit }
  | .bindLoop request port0 => .bindLoop (BindRequest.input port0 request)
  | .peerCloses => .peerCloses

/-- What is brought is complete. -/
def Brings : InstrumentEvent → Prop
  | .vxiLoop offered _ => ∀ rs ∈ offered, ∀ r ∈ rs, IsRequest r
  | .bindLoop request _ => ∀ q ∈ request, 24 ≤ q.call.length
  | .peerCloses => True

end InstrumentEvent

namespace Instrument

/-- The port that is granted when so many links have ended. -/
def grantedPort (ended : ℕ) : UInt32 :=
  UInt32.ofNat (9010 + ended % 10)

/-- The status and the port that a bind request is answered with. -/
def grant (ended : ℕ) (port0 : UInt32) (call : List UInt8) : Rpc.RpcStatus × UInt32 :=
  if wordAt call RpcRequestPacket.program ≠ Rpc.Program.portmap.code then (.progUnavail, port0)
  else if wordAt call RpcRequestPacket.procedure ≠ Rpc.Procedure.getPort.code then
    (.procUnavail, port0)
  else (.success, grantedPort ended)

/-- The answer to a bind request. -/
def answerBind (ended : ℕ) (port0 : UInt32) : Option BindRequest → List BindAction
  | none => [.server (.available 111)]
  | some (.udp call) =>
    [.sendUdp (replyHeader (wordAt call 0) ++ RpcBindServer.bindBody (grant ended port0 call))]
  | some (.tcp r _) =>
    [.server (.available 111),
      .sendTcp (replyRecord (wordAt r.body 0) (RpcBindServer.bindBody (grant ended port0 r.body)))]

/-- The link is closed, and the next port is listened on. -/
def close (ended : ℕ) : List VxiAction :=
  [.clientStop, .server (.delete (grantedPort ended).toUInt16),
    .server (.begin (grantedPort (ended + 1)).toUInt16)]

/-- One step, and all that is put out. -/
def step (t : Instrument) : InstrumentEvent → Instrument × List SystemAction
  | .vxiLoop offered _ =>
    match t.pending with
    | none => ({ t with pending := offered },
        [.vxi (.server (.available (grantedPort t.ended).toUInt16))])
    | some [] => (t, [])
    | some (r :: rs) =>
      if r.Calls .vxi11DestroyLink then
        (⟨t.ended + 1, none⟩, (effects r ++ close t.ended).map .vxi)
      else (⟨t.ended, some rs⟩, (effects r).map .vxi)
  | .bindLoop request port0 =>
    match t.pending with
    | none => (t, (answerBind t.ended port0 request).map .bind)
    | some _ => (t, [])
  | .peerCloses => (t, [])

/-! ### The refinement -/

theorem portAfter_eq (n : ℕ) : (portAfter n).toUInt32 = grantedPort n := by
  apply UInt32.toNat_inj.1
  rw [toNat_portAfter, grantedPort, UInt32.toNat_ofNat_of_lt']
  show _ < 2 ^ 32
  omega

/-- The servers stand where the instrument does. -/
structure Stands (s : System) (t : Instrument) : Prop where
  port : s.vxi.vxiPort = portAfter t.ended
  listens : s.vxi.tcpServer.mServer = some (grantedPort t.ended).toUInt16
  binds : s.bind.tcp.mServer = some 111
  client : t.pending.Brings s

theorem stands_setup : Stands System.setup.1 {} :=
  ⟨rfl, rfl, rfl, rfl⟩

/-- What is decided on a bind request while nobody is connected. -/
theorem decisionFor_eq {s : System} {t : Instrument} (h : Stands s t) (hnone : t.pending = none)
    (port0 : UInt32) (call : List UInt8) :
    RpcBindServer.decisionFor s.vxi port0 call = grant t.ended port0 call := by
  have hclient : s.vxi.client = none := by
    have := h.client
    rwa [hnone] at this
  have hallocate : s.vxi.allocate = grantedPort t.ended := by
    rw [VxiServer.allocate, VxiServer.available, hclient, h.port, portAfter_eq]
    rfl
  have hne : grantedPort t.ended ≠ 0 := fun h0 ↦ by
    have hnat := congrArg UInt32.toNat h0
    rw [← portAfter_eq, toNat_portAfter, UInt32.toNat_zero] at hnat
    omega
  rw [RpcBindServer.decisionFor, RpcBindServer.decideRequest, grant, hallocate]
  simp only [if_neg hne]

/-- What closing a link does. -/
theorem beginNext_eq {t : VxiServer} {n : ℕ} (hport : t.vxiPort = portAfter n)
    (hserver : t.tcpServer.mServer = some (grantedPort n).toUInt16) :
    t.beginNext.1.vxiPort = portAfter (n + 1) ∧
      t.beginNext.1.tcpServer.mServer = some (grantedPort (n + 1)).toUInt16 ∧
      t.beginNext.2 = close n := by
  have hnext : t.vxiPort.gotoNext = portAfter (n + 1) := by rw [hport, portAfter_succ]
  refine ⟨hnext, ?_, ?_⟩
  · show some t.vxiPort.gotoNext.toUInt32.toUInt16 = _
    rw [hnext, portAfter_eq]
  · simp only [VxiServer.beginNext, VxiServer.begin, NetServerExt.stop, NetServerExt.begin,
      NetServerExt.dropServer, hserver, hnext, portAfter_eq]
    rfl

/-- A call of the bind loop, as a step of the two servers. -/
theorem step_bindLoop {s : System} {bind : RpcBindServer} {request : Option BindRequest}
    {port0 : UInt32} {actions : List BindAction}
    (hloop : s.bind.loop s.vxi (BindRequest.input port0 request) = .ok (bind, actions))
    (hbinds : s.bind.tcp.mServer = some 111) :
    System.step .base s (InstrumentEvent.bindLoop request port0).toSystem =
        .ok ({ s with bind }, actions.map .bind) ∧ bind.tcp.mServer = some 111 := by
  refine ⟨System.step_bindLoop hloop, ?_⟩
  rw [(RpcBindServer.uses_loop hloop).1]
  exact hbinds

/-- One call of the bind loop. -/
theorem Stands.bindLoop {s : System} {t : Instrument} (h : Stands s t)
    {request : Option BindRequest} (hrequest : ∀ q ∈ request, 24 ≤ q.call.length)
    (port0 : UInt32) :
    ∃ bind, System.step .base s (InstrumentEvent.bindLoop request port0).toSystem =
        .ok ({ s with bind }, (step t (.bindLoop request port0)).2) ∧
      bind.tcp.mServer = some 111 := by
  have hclient := h.client
  rw [step]
  rcases ht : t.pending with _ | rs <;> rw [ht] at hclient
  · have hav : s.vxi.available = true := by
      rw [VxiServer.available, show s.vxi.client = none from hclient]
      rfl
    rcases request with _ | (call | ⟨r, rest⟩)
    · have haccept : s.bind.tcp.accept none = (none, [.available 111]) := by
        rw [NetServerExt.accept, h.binds]
      have hloop : s.bind.loop s.vxi { port0 } = .ok (s.bind, [.server (.available 111)]) :=
        (RpcBindServer.loop_of_nothing hav rfl (congrArg Prod.fst haccept)).trans
          (by rw [haccept]; rfl)
      exact ⟨_, step_bindLoop hloop h.binds⟩
    · obtain ⟨bind, hloop⟩ := RpcBindServer.loop_of_request_datagram (s := s.bind) hav
        { datagram := call, port0 } (hrequest _ rfl)
      rw [decisionFor_eq h ht] at hloop
      exact ⟨bind, step_bindLoop hloop h.binds⟩
    · obtain ⟨bind, hloop⟩ := RpcBindServer.loop_of_request_record (s := s.bind) hav
        { offered := some (.ofStream (r.bytes ++ rest)), port0 } rfl rfl rfl rfl (hrequest _ rfl)
        h.binds
      rw [decisionFor_eq h ht] at hloop
      exact ⟨bind, step_bindLoop hloop h.binds⟩
  · -- the VXI server is busy
    obtain ⟨c, hc, -⟩ := hclient
    have hav : s.vxi.available = false := by
      rw [VxiServer.available, hc]
      rfl
    exact ⟨s.bind, step_bindLoop (RpcBindServer.loop_of_not_available hav) h.binds⟩

/-- One call of the VXI loop. -/
theorem Stands.vxiLoop {s : System} {t : Instrument} (h : Stands s t) (uninit : ℕ → Double)
    {offered : Option (List Record)} (hoffered : ∀ rs ∈ offered, ∀ r ∈ rs, IsRequest r) :
    ∃ vxi, System.step .base s (InstrumentEvent.vxiLoop offered uninit).toSystem =
        .ok ({ s with vxi }, (step t (.vxiLoop offered uninit)).2) ∧
      Stands { s with vxi } (step t (.vxiLoop offered uninit)).1 := by
  have hclient := h.client
  rw [step]
  rcases ht : t.pending with _ | _ | ⟨r, rs⟩ <;> rw [ht] at hclient
  · -- the connection that is offered is accepted
    have hloop : s.vxi.loop .base
        { offered := offered.map fun rs ↦ .ofStream (Record.stream rs), uninit } =
          .ok ({ s.vxi with client := offered.map fun rs ↦ .ofStream (Record.stream rs) },
            [.server (.available (grantedPort t.ended).toUInt16)]) := by
      rw [VxiServer.loop, show s.vxi.client = none from hclient]
      dsimp only
      rw [NetServerExt.accept, h.listens]
      rfl
    refine ⟨_, System.step_vxiLoop hloop, h.port, h.listens, h.binds, ?_⟩
    rcases offered with _ | rs
    · rfl
    · exact ⟨_, rfl, rfl, rfl, hoffered rs rfl⟩
  · -- the client has nothing more to say
    obtain ⟨c, hc, hprompt, hrx, hrs⟩ := hclient
    refine ⟨_, System.step_vxiLoop (loop_of_no_record hc hprompt hrx _), h.port, h.listens,
      h.binds, ?_⟩
    rw [ht]
    exact ⟨c, rfl, hprompt, hrx, hrs⟩
  · obtain ⟨c, hc, hprompt, hrx, hrs⟩ := hclient
    obtain ⟨hr, hrs⟩ := List.forall_mem_cons.1 hrs
    obtain ⟨u, hlink, hloop⟩ := loop_of_request hr hc hprompt hrx
      { offered := offered.map fun rs ↦ .ofStream (Record.stream rs), uninit }
    dsimp only
    split_ifs with hdestroy
    · -- the link is closed
      rw [decide_eq_true hdestroy] at hloop
      obtain ⟨hport, hserver, hactions⟩ := beginNext_eq (t := u) (n := t.ended)
        (hlink.vxiPort.trans h.port)
        ((congrArg NetServerExt.mServer hlink.tcpServer).trans h.listens)
      rw [show (u.afterReply true).2 = u.beginNext.2 from rfl, hactions] at hloop
      exact ⟨_, System.step_vxiLoop hloop, hport, hserver, h.binds, rfl⟩
    · rw [decide_eq_false hdestroy, show (u.afterReply false).2 = [] from rfl,
        List.append_nil] at hloop
      exact ⟨_, System.step_vxiLoop hloop, hlink.vxiPort.trans h.port,
        (congrArg NetServerExt.mServer hlink.tcpServer).trans h.listens, h.binds,
        _, hlink.client, hprompt, rfl, hrs⟩

/-- **The two servers follow the instrument**, and put out what it does. -/
theorem follows_instrument : Mealy.Follows (System.step .base) step InstrumentEvent.toSystem some
    (fun action ↦ [action]) InstrumentEvent.Brings Stands := by
  intro s t event h hevent
  have hsame : ∀ out : List SystemAction, out.filterMap some = out.flatMap fun action ↦ [action] :=
    fun out ↦ List.filterMap_some.trans (List.flatMap_singleton' out).symm
  cases event with
  | vxiLoop offered uninit =>
    obtain ⟨vxi, hstep, hstands⟩ := h.vxiLoop uninit hevent
    exact ⟨_, _, hstep, hstands, hsame _⟩
  | bindLoop request port0 =>
    obtain ⟨bind, hstep, hbinds⟩ := h.bindLoop hevent port0
    refine ⟨_, _, hstep, ?_, hsame _⟩
    have hpending : (step t (.bindLoop request port0)).1 = t := by
      rw [step]
      rcases t.pending with _ | rs <;> rfl
    rw [hpending]
    exact ⟨h.port, h.listens, hbinds, by
      have hclient := h.client
      rcases ht : t.pending with _ | rs <;> rw [ht] at hclient <;> exact hclient⟩
  | peerCloses =>
    have hstep : System.step .base s InstrumentEvent.peerCloses.toSystem = .ok (_, []) := rfl
    refine ⟨_, _, hstep, ⟨h.port, h.listens, h.binds, ?_⟩, rfl⟩
    have hclient := h.client
    show t.pending.Brings _
    rcases ht : t.pending with _ | rs <;> rw [ht] at hclient
    · show s.vxi.client.map _ = none
      rw [show s.vxi.client = none from hclient]
      rfl
    · obtain ⟨c, hc, hprompt, hrx, hrs⟩ := hclient
      exact ⟨{ c with peerClosed := true }, congrArg (Option.map _) hc, hprompt, hrx, hrs⟩

end Instrument

/-- **The two servers are an instrument**, over every run in which what is brought is complete: all
that they put out is what the abstract machine does. -/
theorem provides_instrument {events : List InstrumentEvent} (h : ∀ event ∈ events, event.Brings) :
    ∃ s, Machine.runFrom (System.step .base) System.setup.1 (events.map InstrumentEvent.toSystem) =
      .ok (s, (Mealy.runFrom Instrument.step {} events).2) := by
  obtain ⟨s, out, hrun, -, hout⟩ := Instrument.follows_instrument.run Instrument.stands_setup h
  rw [List.filterMap_some, List.flatMap_singleton'] at hout
  exact ⟨s, hout ▸ hrun⟩

/-- A request for the port. -/
def portRequest : List UInt8 :=
  callHeader 5 Rpc.Program.portmap.code Rpc.Procedure.getPort.code ++ List.replicate 16 0

/-- A client asks for the port over UDP and makes its calls; in the meantime and afterwards another
one asks over TCP. -/
def busyRun : List InstrumentEvent :=
  [.bindLoop (some (.udp portRequest)) 0,
    .vxiLoop (some (exampleCalls.map Call.record)) fun _ ↦ .nan,
    .bindLoop (some (.tcp (.lastFragment portRequest (by decide)) [])) 0, .peerCloses] ++
    List.replicate 4 (.vxiLoop none fun _ ↦ .nan) ++
    [.bindLoop (some (.tcp (.lastFragment portRequest (by decide)) [])) 0]

theorem provides_instrument_busyRun :
    ∃ s, Machine.runFrom (System.step .base) System.setup.1 (busyRun.map InstrumentEvent.toSystem) =
        .ok (s, (Mealy.runFrom Instrument.step {} busyRun).2) ∧
      (Mealy.runFrom Instrument.step {} busyRun).2.filterMap bindReply =
        [(Rpc.RpcStatus.success.code, 9010), (Rpc.RpcStatus.success.code, 9011)] := by
  have hbrings : ∀ event ∈ busyRun, event.Brings := by
    simp only [busyRun, List.forall_mem_append, List.forall_mem_cons, List.mem_replicate,
      List.not_mem_nil, false_imp_iff, implies_true, and_true]
    refine ⟨⟨⟨?_, ?_, ?_, trivial⟩, ?_⟩, ?_⟩
    · rintro q ⟨⟩
      decide
    · rintro rs ⟨⟩ r hr
      obtain ⟨call, -, rfl⟩ := List.mem_map.1 hr
      exact call.isRequest_record
    · rintro q ⟨⟩
      decide
    · rintro event ⟨-, rfl⟩ rs ⟨⟩
    · rintro q ⟨⟩
      decide
  obtain ⟨s, hrun⟩ := provides_instrument hbrings
  exact ⟨s, hrun, by decide +kernel⟩

/-! ### Visits -/

/-- A client that comes once: it asks for the port, connects to it, makes calls, and destroys its
link. -/
structure Visit where
  /-- The datagram that asks for the port. -/
  ask : List UInt8
  complete : 24 ≤ ask.length
  asks : RpcBindServer.AsksForPort ask
  calls : List Call
  stays : ∀ call ∈ calls, call.op ≠ .destroyLink
  /-- The call that destroys the link. -/
  last : Call
  leaves : last.op = .destroyLink
  /-- The undefined contents of locals. -/
  port0 : UInt32
  uninit : Call → ℕ → Double

namespace Visit

open Instrument

variable (v : Visit)

/-- All the calls of the visit. -/
def session : List Call :=
  v.calls ++ [v.last]

/-- The steps that the servers take on the visit. -/
def events : List InstrumentEvent :=
  .bindLoop (some (.udp v.ask)) v.port0 ::
    .vxiLoop (some (v.session.map Call.record)) (v.uninit v.last) ::
      v.session.map fun call ↦ .vxiLoop none (v.uninit call)

/-- What is put out on the visit if it is the one of this number. -/
def story (n : ℕ) : List SystemAction :=
  .bind (.sendUdp (replyHeader (wordAt v.ask 0) ++
      RpcBindServer.bindBody (.success, grantedPort n))) ::
    .vxi (.server (.available (grantedPort n).toUInt16)) ::
      ((v.session.map Call.record).flatMap effects ++ close n).map .vxi

theorem brings_events : ∀ event ∈ v.events, event.Brings := by
  intro event hevent
  simp only [events, List.mem_cons, List.mem_map] at hevent
  obtain rfl | rfl | ⟨call, -, rfl⟩ := hevent
  · intro q hq
    obtain rfl := Option.some.inj hq
    exact v.complete
  · intro rs hrs r hr
    obtain rfl := Option.some.inj hrs
    obtain ⟨call, -, rfl⟩ := List.mem_map.1 hr
    exact call.isRequest_record
  · exact fun rs hrs ↦ nomatch hrs

/-- The calls are served one after the other, and the last one ends the link. -/
theorem run_session (n : ℕ) (uninit : Call → ℕ → Double) {last : Call}
    (hlast : last.op = .destroyLink) {calls : List Call}
    (hcalls : ∀ call ∈ calls, call.op ≠ .destroyLink) :
    Mealy.runFrom step ⟨n, some ((calls ++ [last]).map Call.record)⟩
        ((calls ++ [last]).map fun call ↦ .vxiLoop none (uninit call)) =
      (⟨n + 1, none⟩,
        (((calls ++ [last]).map Call.record).flatMap effects ++ close n).map .vxi) := by
  have hdestroy : ∀ call : Call, call.record.Calls .vxi11DestroyLink ↔ call.op = .destroyLink := by
    intro call
    rw [call.calls_record_iff]
    constructor
    · intro h
      rcases hop : call.op with device | line | _ | _ <;> rw [hop] at h <;> first | rfl | cases h
    · intro h
      rw [h]
      rfl
  induction calls with
  | nil =>
    have hstep : step ⟨n, some [last.record]⟩ (.vxiLoop none (uninit last)) =
        (⟨n + 1, none⟩, (effects last.record ++ close n).map .vxi) := by
      rw [step]
      exact if_pos ((hdestroy last).2 hlast)
    show Mealy.runFrom step ⟨n, some [last.record]⟩ [.vxiLoop none (uninit last)] = _
    rw [Mealy.runFrom_cons, hstep]
    simp [Mealy.runFrom]
  | cons call calls ih =>
    obtain ⟨hcall, hrest⟩ := List.forall_mem_cons.1 hcalls
    have hstep : step ⟨n, some (call.record :: (calls ++ [last]).map Call.record)⟩
        (.vxiLoop none (uninit call)) =
          (⟨n, some ((calls ++ [last]).map Call.record)⟩, (effects call.record).map .vxi) := by
      rw [step]
      exact if_neg fun h ↦ hcall ((hdestroy call).1 h)
    rw [List.cons_append, List.map_cons, List.map_cons, Mealy.runFrom_cons, hstep, ih hrest,
      List.flatMap_cons, List.append_assoc]
    exact congrArg (Prod.mk _) List.map_append.symm

/-- **A visit** when so many links have ended. -/
theorem run_events (n : ℕ) :
    Mealy.runFrom step ⟨n, none⟩ v.events = (⟨n + 1, none⟩, v.story n) := by
  have hgrant : grant n v.port0 v.ask = (.success, grantedPort n) := by
    rw [grant, if_neg (not_not.2 v.asks.1), if_neg (not_not.2 v.asks.2)]
  have hbind : step ⟨n, none⟩ (.bindLoop (some (.udp v.ask)) v.port0) =
      (⟨n, none⟩, [.bind (.sendUdp (replyHeader (wordAt v.ask 0) ++
        RpcBindServer.bindBody (.success, grantedPort n)))]) := by
    rw [← hgrant]
    rfl
  have hconnect : step ⟨n, none⟩ (.vxiLoop (some (v.session.map Call.record)) (v.uninit v.last)) =
      (⟨n, some (v.session.map Call.record)⟩,
        [.vxi (.server (.available (grantedPort n).toUInt16))]) := rfl
  rw [events, Mealy.runFrom_cons, hbind, Mealy.runFrom_cons, hconnect, session,
    run_session n v.uninit v.leaves v.stays]
  rfl

/-- The visit, as its client sees it: the port that is granted, the server object that takes the
connection, the results, and the settings that are made. -/
structure Succeeds (n : ℕ) (out : List SystemAction) : Prop where
  granted : out.filterMap bindReply = [(Rpc.RpcStatus.success.code, UInt32.ofNat (9010 + n % 10))]
  connects : out.filterMap SystemAction.vxiCall =
    [.available (UInt16.ofNat (9010 + n % 10)), .delete (UInt16.ofNat (9010 + n % 10)),
      .begin (UInt16.ofNat (9010 + (n + 1) % 10))]
  returns : replies v.session (sent (out.filterMap vxiEffect)).flatten =
    some (v.session.map (·.op.result), [])
  sets : settingsMade (out.filterMap vxiEffect) = v.session.flatMap (·.op.settings)

theorem succeeds_story (n : ℕ) : v.Succeeds n (v.story n) := by
  have heffects : (v.story n).filterMap vxiEffect =
      (v.session.map Call.record).flatMap effects := by
    have hclose : ((close n).map SystemAction.vxi).filterMap vxiEffect = [] := rfl
    have hall : ∀ rs : List Record, ((rs.flatMap effects).map .vxi).filterMap vxiEffect =
        rs.flatMap effects := by
      intro rs
      rw [List.map_flatMap, List.filterMap_flatMap]
      exact congrArg (rs.flatMap ·) (funext vxiEffect_effects)
    rw [story, List.filterMap_cons_none rfl, List.filterMap_cons_none rfl, List.map_append,
      List.filterMap_append, hclose, List.append_nil, hall]
  have hvxi : ∀ actions : List VxiAction, (actions.map SystemAction.vxi).filterMap bindReply = [] :=
    fun actions ↦ List.filterMap_eq_nil_iff.2 (by simp [bindReply])
  refine ⟨?_, ?_, ?_, ?_⟩
  · rw [story, List.filterMap_cons_some (bindReply_udp _ _), List.filterMap_cons_none rfl, hvxi]
    rfl
  · have hquiet : ∀ a ∈ (v.session.map Call.record).flatMap effects, Quiet a := by
      refine List.forall_mem_flatMap.2 fun r _ a ha ↦ ?_
      rcases List.mem_append.1 ha with ha | ha
      · obtain ⟨call, -, rfl⟩ := List.mem_map.1 ha
        trivial
      · rw [List.mem_singleton.1 ha]
        trivial
    have hport : ∀ n, (grantedPort n).toUInt16 = UInt16.ofNat (9010 + n % 10) := fun n ↦ by
      apply UInt16.toNat_inj.1
      rw [UInt32.toNat_toUInt16, ← portAfter_eq, toNat_portAfter, UInt16.toNat_ofNat']
    have hrest : (((v.session.map Call.record).flatMap effects ++ close n).map .vxi).filterMap
        SystemAction.vxiCall = (close n |>.map .vxi).filterMap SystemAction.vxiCall := by
      rw [List.map_append, List.filterMap_append, vxiCall_quiet hquiet, List.nil_append]
    rw [← hport, ← hport]
    exact congrArg (ServerCall.available (grantedPort n).toUInt16 :: ·) hrest
  · rw [heffects, sent_flatMap_effects, ← List.append_nil (List.flatMap _ _)]
    exact reads_replies v.session []
  · rw [heffects, settingsMade_flatMap_effects, List.flatMap_map]
    exact congrArg (v.session.flatMap ·) (funext Call.requestedSettings_record)

end Visit

/-- The visits succeed, one after the other; the first one is the one of this number. -/
inductive SucceedFrom : ℕ → List Visit → List SystemAction → Prop
  | nil {n : ℕ} : SucceedFrom n [] []
  | cons {n : ℕ} {v : Visit} {vs : List Visit} {out out' : List SystemAction}
      (first : v.Succeeds n out) (rest : SucceedFrom (n + 1) vs out') :
      SucceedFrom n (v :: vs) (out ++ out')

/-- **Visits succeed**, however many there are. -/
theorem visits_succeed (visits : List Visit) :
    ∃ s out, Machine.runFrom (System.step .base) System.setup.1
        ((visits.flatMap Visit.events).map InstrumentEvent.toSystem) = .ok (s, out) ∧
      SucceedFrom 0 visits out := by
  have hrun : ∀ n, SucceedFrom n visits
        (Mealy.runFrom Instrument.step ⟨n, none⟩ (visits.flatMap Visit.events)).2 := by
    induction visits with
    | nil => exact fun _ ↦ .nil
    | cons v visits ih =>
      intro n
      rw [List.flatMap_cons, Mealy.runFrom_append, v.run_events]
      exact .cons (v.succeeds_story n) (ih (n + 1))
  have hbrings : ∀ event ∈ visits.flatMap Visit.events, event.Brings :=
    List.forall_mem_flatMap.2 fun (v : Visit) _ ↦ v.brings_events
  obtain ⟨s, out, hsystem, -, hout⟩ :=
    Instrument.follows_instrument.run Instrument.stands_setup hbrings
  rw [List.filterMap_some, List.flatMap_singleton'] at hout
  exact ⟨s, out, hsystem, hout ▸ hrun 0⟩

theorem portRequest_asks : 24 ≤ portRequest.length ∧ RpcBindServer.AsksForPort portRequest :=
  ⟨by decide, by decide, by decide⟩

theorem exampleCalls_stay : ∀ call ∈ exampleCalls.take 3, call.op ≠ .destroyLink := by
  decide

theorem length_destroyArguments :
    (List.replicate 4 0 : List UInt8).length = Operation.destroyLink.argumentSize :=
  rfl

/-- The client that creates a link, writes a line, reads the identification, and destroys its link.
-/
def exampleVisit : Visit where
  ask := portRequest
  complete := portRequest_asks.1
  asks := portRequest_asks.2
  calls := exampleCalls.take 3
  stays := exampleCalls_stay
  last := ⟨.destroyLink, 4, List.replicate 4 0, length_destroyArguments, trivial⟩
  leaves := rfl
  port0 := 0
  uninit := fun _ _ ↦ .nan

theorem visits_succeed_twoVisits :
    ∃ s out, Machine.runFrom (System.step .base) System.setup.1
        (([exampleVisit, exampleVisit].flatMap Visit.events).map InstrumentEvent.toSystem) =
          .ok (s, out) ∧
      out.filterMap bindReply =
        [(Rpc.RpcStatus.success.code, 9010), (Rpc.RpcStatus.success.code, 9011)] ∧
      out.filterMap SystemAction.vxiCall =
        [.available 9010, .delete 9010, .begin 9011, .available 9011, .delete 9011,
          .begin 9012] := by
  obtain ⟨s, out, hrun, hsucceed⟩ := visits_succeed [exampleVisit, exampleVisit]
  obtain _ | ⟨hfirst, _ | ⟨hsecond, _ | _⟩⟩ := hsucceed
  refine ⟨s, _, hrun, ?_, ?_⟩
  · rw [List.filterMap_append, List.filterMap_append, hfirst.granted, hsecond.granted]
    decide
  · rw [List.filterMap_append, List.filterMap_append, hfirst.connects, hsecond.connects]
    decide

end EspBode
