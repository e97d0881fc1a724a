import EspBode.Foundations.Simulation
import EspBode.Verification.BindReplies
import EspBode.Verification.Links
import EspBode.Verification.Sessions

/-!
# The service of the VXI server

What the two servers are for, with nothing of how they work: a client connects and brings requests,
they are served one after the other, and the connection is gone when the link has been destroyed.
The state of the service is the list of requests that are still to be served (`Service`). A request
is served by making the settings that it asks for and sending its reply (`effects`).

The two servers follow the service over every run in which the clients bring complete requests with
well-formed lines (`follows_service`): whatever bind requests come in between, whichever peers go
away, and whatever is left in the buffers. In particular no such run ends in a fault, and nothing of
one client is seen by the next.

It is a simulation, with `Stands` as the relation: the VXI server listens, and its client, if it has
one, brings the requests of the service. The buffers are not in it, as the effects of a complete
request do not depend on them.

* **A call of the VXI loop** serves the next request (`loop_of_request`): it is the call on a
  complete request, with the settings read from the well-formed line.
* **The bind server is never stuck** (`RpcBindServer.exists_loop`), whatever arrives; nothing is
  assumed of bind requests.
* **A client that comes too early** finds the server taken. It is not accepted, and what it brings
  is no part of the service.

`provides_service` says what has been served at the end of a run in terms of the clients: the
requests of those that were accepted, up to the ones that are still to be served.
-/

namespace EspBode

open VxiRequest Answer

/-! ### Requests and their effects -/

/-- A complete request whose line, if it writes one, is well-formed. -/
structure IsRequest (r : Record) : Prop where
  complete : Complete r
  wellFormed : r.Calls .vxi11DevWrite → Scpi.WellFormed r.writePayload

/-- The settings that a request asks for. -/
def requestedSettings (r : Record) : List SetCall :=
  if r.Calls .vxi11DevWrite then Scpi.settings r.writePayload else []

/-- What is done to serve a request. -/
def effects (r : Record) : List VxiAction :=
  (requestedSettings r).map .set ++ [.send (replyTo r)]

/-- The action, if it is a setting or a reply of the VXI server. -/
def vxiEffect : SystemAction → Option VxiAction
  | .vxi (.set call) => some (.set call)
  | .vxi (.send bytes) => some (.send bytes)
  | _ => none

/-! ### The service -/

/-- A step of the two servers, as far as the service is concerned: a client may come with
requests. -/
inductive ServiceEvent
  | vxiLoop (offered : Option (List Record)) (uninit : ℕ → Double)
  | bindLoop (input : RpcBindServer.LoopInput)
  | peerCloses

/-- The requests of the connected client that are still to be served. -/
abbrev Service : Type :=
  Option (List Record)

namespace Service

/-- One step; what is put out are the requests that are served. -/
def step : Mealy Service ServiceEvent Record
  | none, .vxiLoop offered _ => (offered, [])
  | some [], .vxiLoop _ _ => (some [], [])
  | some (r :: rs), .vxiLoop _ _ => (if r.Calls .vxi11DestroyLink then none else some rs, [r])
  | s, .bindLoop _ => (s, [])
  | s, .peerCloses => (s, [])

end Service

namespace ServiceEvent

/-- The step of the two servers. -/
def toSystem : ServiceEvent → SystemEvent
  | .vxiLoop offered uninit =>
    .vxiLoop { offered := offered.map fun rs ↦ .ofStream (Record.stream rs), uninit }
  | .bindLoop input => .bindLoop input
  | .peerCloses => .peerCloses

/-- What the client brings that offers to connect. -/
def offer : ServiceEvent → Option (List Record)
  | .vxiLoop offered _ => offered
  | _ => none

/-- A client that offers to connect brings requests. -/
def Brings (event : ServiceEvent) : Prop :=
  ∀ rs ∈ event.offer, ∀ r ∈ rs, IsRequest r

end ServiceEvent

/-! ### One call -/

/-- The settings of an answer are those of the line that is written. -/
theorem calls_of_answer {awg : AwgServer} {b : Buffer vxiReadSize} {uninit : ℕ → Double}
    {a : Answer} (h : answer awg b uninit = .ok a) :
    (program b = Rpc.Program.vxi11Core.code ∧ procedure b = Rpc.Procedure.vxi11DevWrite.code ∧
      ∃ q, Scpi.lineText (writtenText b) uninit = .ok q ∧ a.calls = q.2.2) ∨
    ¬ (program b = Rpc.Program.vxi11Core.code ∧
      procedure b = Rpc.Procedure.vxi11DevWrite.code) ∧ a.calls = [] := by
  have hother : ∀ {p}, procedure b = p → p ≠ Rpc.Procedure.vxi11DevWrite.code →
      ¬ (program b = Rpc.Program.vxi11Core.code ∧
        procedure b = Rpc.Procedure.vxi11DevWrite.code) :=
    fun hb hne hw ↦ hne (hb.symm.trans hw.2)
  cases requestCase (program b) (procedure b) with
  | otherProgram hprogram =>
    rw [answer_of_program_ne hprogram] at h
    obtain rfl := Except.ok.inj h
    exact .inr ⟨fun hw ↦ hprogram hw.1, rfl⟩
  | createLink hcore hcreate =>
    rw [answer_of_createLink hcore hcreate] at h
    split_ifs at h
    obtain rfl := Except.ok.inj h
    exact .inr ⟨hother hcreate (by decide), rfl⟩
  | devRead hcore hread =>
    rw [answer_of_devRead hcore hread] at h
    split_ifs at h
    obtain rfl := Except.ok.inj h
    exact .inr ⟨hother hread (by decide), rfl⟩
  | devWrite hcore hwrite =>
    rw [answer_of_devWrite hcore hwrite] at h
    split_ifs at h
    obtain ⟨q, hq, ha⟩ := bind_eq_ok.1 h
    obtain rfl := Except.ok.inj ha
    exact .inl ⟨hcore, hwrite, q, hq, rfl⟩
  | destroyLink hcore hdestroy =>
    rw [answer_of_destroyLink hcore hdestroy] at h
    obtain rfl := Except.ok.inj h
    exact .inr ⟨hother hdestroy (by decide), rfl⟩
  | otherProcedure hcore hunhandled =>
    rw [answer_of_not_handled hcore hunhandled] at h
    obtain rfl := Except.ok.inj h
    exact .inr ⟨fun hw ↦ hunhandled (hw.2 ▸ by decide), rfl⟩

/-- **The answer to a request** makes its settings. -/
theorem IsRequest.answer_eq {b : Buffer vxiReadSize} {c : NetClient} {r : Record}
    {rest : List UInt8} (h : IsRequest r) (hc : c.Prompt) (hrx : c.rx = r.bytes ++ rest)
    (uninit : ℕ → Double) :
    answer .base (requestIn b c) uninit =
      .ok ⟨decide (r.Calls .vxi11DestroyLink), requestedSettings r, replyTo r⟩ := by
  obtain ⟨calls, ha⟩ := h.complete.answer_eq (b := b) hc hrx uninit
  have h40 := h.complete.header
  have hprogram : program (requestIn b c) = r.program :=
    h.complete.word_eq hc hrx (i := 12) (by omega)
  have hprocedure : procedure (requestIn b c) = r.procedure :=
    h.complete.word_eq hc hrx (i := 20) (by omega)
  rw [ha, requestedSettings]
  obtain ⟨hcore, hwrite, q, hq, rfl⟩ | ⟨hother, rfl⟩ := calls_of_answer ha
  · have hcalls : r.Calls .vxi11DevWrite := ⟨hprogram ▸ hcore, hprocedure ▸ hwrite⟩
    rw [(h.complete.writtenText_eq hcalls hc hrx).2.1] at hq
    obtain ⟨ch, readType, hline⟩ := lineText_eq (h.wellFormed hcalls) uninit
    obtain rfl := Except.ok.inj (hline.symm.trans hq)
    rw [if_pos hcalls]
  · rw [if_neg fun hcalls ↦ hother ⟨hprogram.trans hcalls.1, hprocedure.trans hcalls.2⟩]

/-- Closing the link has no effect of its own. -/
theorem effects_afterReply (s : VxiServer) (bClose : Bool) :
    ((s.afterReply bClose).2.map .vxi).filterMap vxiEffect = [] := by
  cases bClose
  · rfl
  · rw [List.filterMap_eq_nil_iff]
    intro action haction
    obtain ⟨a, ha, rfl⟩ := List.mem_map.1 haction
    rcases List.mem_cons.1 ha with rfl | ha
    · rfl
    · obtain ⟨call, -, rfl⟩ := List.mem_map.1 ha
      rfl

/-- The effects of a request are what is seen of it. -/
theorem vxiEffect_effects (r : Record) :
    ((effects r).map .vxi).filterMap vxiEffect = effects r := by
  rw [effects, List.map_append, List.filterMap_append, List.map_map, List.filterMap_map]
  exact congrArg (· ++ _) (List.filterMap_eq_map (f := VxiAction.set) ▸ rfl)

/-- **A call with a request on the stream** has its effects, and then closes the link if that was
asked for; otherwise the client is left at the next request. -/
theorem loop_of_request {s : VxiServer} {c : NetClient} {r : Record} {rest : List UInt8}
    (h : IsRequest r) (hs : s.client = some c) (hc : c.Prompt) (hrx : c.rx = r.bytes ++ rest)
    (input : VxiServer.LoopInput) :
    ∃ t, VxiServer.SameLink t { s with client := some { c with rx := rest } } ∧
      s.loop .base input = .ok ((t.afterReply (decide (r.Calls .vxi11DestroyLink))).1,
        effects r ++ (t.afterReply (decide (r.Calls .vxi11DestroyLink))).2) := by
  have hreceive : (receive vxiReadSize c).len > 0 ∧
      (receive vxiReadSize c).client = { c with rx := rest } := by
    have h40 := h.complete.header
    have hfits := h.complete.fits
    rw [receive_of_record vxiReadSize hc hrx, h.complete.taken_eq]
    refine ⟨?_, by rw [List.drop_length, List.nil_append]⟩
    dsimp only
    rw [if_pos (by omega)]
    show 0 < min r.body.length 252
    omega
  have hserve : serve .base s.vxiReadBuffer c input.uninit = .ok (some
      ⟨decide (r.Calls .vxi11DestroyLink), requestedSettings r, replyTo r⟩) := by
    rw [serve, if_pos hreceive.1, h.answer_eq hc hrx, map_ok]
  obtain ⟨⟨s', out⟩, hrun, t, hlink, hs', hout⟩ :=
    (VxiServer.loop_simulates .base hs input).of_eq_ok hserve
  rw [hreceive.2] at hlink
  exact ⟨t, hlink, hrun.trans (congrArg Except.ok (Prod.ext hs' hout))⟩

/-- **The bind server is never stuck**, whatever arrives. -/
theorem RpcBindServer.exists_loop (s : RpcBindServer) (vxiServer : VxiServer)
    (input : RpcBindServer.LoopInput) : ∃ r, s.loop vxiServer input = .ok r := by
  rcases hv : vxiServer.available
  · exact ⟨_, loop_of_not_available hv⟩
  rcases eq_or_ne input.datagram [] with hd | hd
  · rcases hp : s.tcp.mServer with _ | p
    · exact ⟨_, loop_of_nothing hv hd (by rw [NetServerExt.accept, hp])⟩
    rcases ho : input.offered with _ | c
    · exact ⟨_, loop_of_nothing hv hd (by rw [NetServerExt.accept, hp, ho])⟩
    · obtain ⟨s', hloop⟩ := loop_of_connection hv hd ho hp
      exact ⟨_, hloop⟩
  · obtain ⟨s', hloop⟩ := loop_of_datagram hv hd
    exact ⟨_, hloop⟩

/-! ### Runs -/

namespace Service

/-- The client of the VXI server brings these requests. -/
def Brings (s : System) : Service → Prop
  | none => s.vxi.client = none
  | some rs => ∃ c, s.vxi.client = some c ∧ c.Prompt ∧ c.rx = Record.stream rs ∧
      ∀ r ∈ rs, IsRequest r

/-- The VXI server listens, and its client brings the requests of the service. -/
structure Stands (s : System) (t : Service) : Prop where
  listens : ∃ past, LinkInvariant s past
  client : t.Brings s

theorem stands_setup : Stands System.setup.1 none :=
  ⟨⟨[], linkInvariant_setup⟩, rfl⟩

/-- One call of the VXI loop. -/
theorem Stands.vxiLoop {s : System} {t : Service} (h : Stands s t) (uninit : ℕ → Double)
    {offered : Option (List Record)} (hoffered : ∀ rs ∈ offered, ∀ r ∈ rs, IsRequest r) :
    ∃ vxi out, s.vxi.loop .base
        { offered := offered.map fun rs ↦ .ofStream (Record.stream rs), uninit } = .ok (vxi, out) ∧
      Brings { s with vxi } (step t (.vxiLoop offered uninit)).1 ∧
      (out.map .vxi).filterMap vxiEffect =
        (step t (.vxiLoop offered uninit)).2.flatMap effects := by
  obtain ⟨past, hlink⟩ := h.listens
  have hclient := h.client
  rcases t with _ | _ | ⟨r, rs⟩
  · -- nobody is connected: the connection that is offered is accepted
    have hnone : s.vxi.client = none := hclient
    rw [VxiServer.loop, hnone]
    dsimp only
    rw [NetServerExt.accept, hlink.listens]
    refine ⟨_, _, rfl, ?_, rfl⟩
    rcases offered with _ | rs
    · rfl
    · exact ⟨_, rfl, rfl, rfl, hoffered rs rfl⟩
  · -- the client has nothing more to say
    obtain ⟨c, hc, hprompt, hrx, hrs⟩ := hclient
    exact ⟨_, _, loop_of_no_record hc hprompt hrx _, ⟨c, rfl, hprompt, hrx, hrs⟩, rfl⟩
  · obtain ⟨c, hc, hprompt, hrx, hrs⟩ := hclient
    obtain ⟨hr, hrs⟩ := List.forall_mem_cons.1 hrs
    obtain ⟨u, hlink, hloop⟩ := loop_of_request hr hc hprompt hrx
      { offered := offered.map fun rs ↦ .ofStream (Record.stream rs), uninit }
    refine ⟨_, _, hloop, ?_, ?_⟩
    · rw [step]
      split_ifs with hdestroy
      · rw [decide_eq_true hdestroy]
        rfl
      · rw [decide_eq_false hdestroy]
        exact ⟨_, hlink.client, hprompt, rfl, hrs⟩
    · rw [List.map_append, List.filterMap_append, effects_afterReply, List.append_nil,
        vxiEffect_effects, step, List.flatMap_singleton]

/-- **The two servers follow the service.** -/
theorem follows_service : Mealy.Follows (System.step .base) step ServiceEvent.toSystem vxiEffect
    effects ServiceEvent.Brings Stands := by
  intro s t event h hevent
  obtain ⟨past, hlink⟩ := h.listens
  have hclient := h.client
  cases event with
  | vxiLoop offered uninit =>
    obtain ⟨vxi, out, hloop, hvxi, hout⟩ :=
      h.vxiLoop uninit (show ∀ rs ∈ offered, ∀ r ∈ rs, IsRequest r from hevent)
    have hstep : System.step .base s (ServiceEvent.vxiLoop offered uninit).toSystem =
        .ok ({ s with vxi }, out.map .vxi) := System.step_vxiLoop hloop
    exact ⟨_, _, hstep, ⟨⟨_, hlink.step hstep⟩, hvxi⟩, hout⟩
  | bindLoop input =>
    obtain ⟨⟨bind, out⟩, hloop⟩ := s.bind.exists_loop s.vxi input
    have hstep : System.step .base s (ServiceEvent.bindLoop input).toSystem =
        .ok ({ s with bind }, out.map .bind) := System.step_bindLoop hloop
    have hsame : (step t (.bindLoop input)) = (t, []) := by
      rcases t with _ | _ | _ <;> rfl
    refine ⟨_, _, hstep, ⟨⟨_, hlink.step hstep⟩, ?_⟩, ?_⟩
    · rw [hsame]
      rcases t with _ | rs <;> exact hclient
    · rw [hsame, List.filterMap_map]
      exact List.filterMap_eq_nil_iff.2 fun _ _ ↦ rfl
  | peerCloses =>
    have hsame : (step t .peerCloses) = (t, []) := by
      rcases t with _ | _ | _ <;> rfl
    have hstep : System.step .base s ServiceEvent.peerCloses.toSystem = .ok (_, []) := rfl
    refine ⟨_, _, hstep, ⟨⟨_, hlink.step hstep⟩, ?_⟩, by rw [hsame]; rfl⟩
    rw [hsame]
    rcases t with _ | rs
    · show s.vxi.client.map _ = none
      rw [show s.vxi.client = none from hclient]
      rfl
    · obtain ⟨c, hc, hprompt, hrx, hrs⟩ := hclient
      exact ⟨{ c with peerClosed := true }, congrArg (Option.map _) hc, hprompt, hrx, hrs⟩

/-! ### What is served -/

/-- The requests that are served by a list of steps. -/
def served (events : List ServiceEvent) : List Record :=
  (Mealy.runFrom step none events).2

/-- Served are the requests of the clients that were accepted, up to those that are still to be
served. The induction is on the steps. -/
theorem exists_accepted (events : List ServiceEvent) : ∀ t : Service,
    ∃ accepted : List (List Record), accepted.Sublist (events.filterMap ServiceEvent.offer) ∧
      (Mealy.runFrom step t events).2 ++ (Mealy.runFrom step t events).1.elim [] answered =
        t.elim [] answered ++ accepted.flatMap answered := by
  induction events with
  | nil => exact fun t ↦ ⟨[], .slnil, by rw [List.flatMap_nil, List.append_nil]; rfl⟩
  | cons event events ih =>
    intro t
    have hskip : (events.filterMap ServiceEvent.offer).Sublist
        ((event :: events).filterMap ServiceEvent.offer) :=
      (List.sublist_cons_self event events).filterMap _
    -- a step that accepts nobody
    have hkeep : (step t event).2 ++ (step t event).1.elim [] answered = t.elim [] answered →
        ∃ accepted : List (List Record),
          accepted.Sublist ((event :: events).filterMap ServiceEvent.offer) ∧
          (Mealy.runFrom step t (event :: events)).2 ++
              (Mealy.runFrom step t (event :: events)).1.elim [] answered =
            t.elim [] answered ++ accepted.flatMap answered := by
      intro hstep
      obtain ⟨accepted, haccepted, hrun⟩ := ih (step t event).1
      refine ⟨accepted, haccepted.trans hskip, ?_⟩
      rw [Mealy.runFrom, List.append_assoc, hrun, ← List.append_assoc, hstep]
    rcases event with ⟨offered, uninit⟩ | input | _
    · rcases t with _ | _ | ⟨r, rs⟩
      · rcases offered with _ | rs
        · exact hkeep rfl
        · obtain ⟨accepted, haccepted, hrun⟩ := ih (some rs)
          exact ⟨rs :: accepted, haccepted.cons_cons rs, hrun⟩
      · exact hkeep rfl
      · refine hkeep ?_
        rw [step, Option.elim_some, answered]
        split_ifs <;> rfl
    · refine hkeep ?_
      rcases t with _ | _ | _ <;> rfl
    · refine hkeep ?_
      rcases t with _ | _ | _ <;> rfl

end Service

open Service

/-- **The two servers provide the service**, over every run in which clients bring requests. -/
theorem provides_service {events : List ServiceEvent} (h : ∀ event ∈ events, event.Brings) :
    ∃ s out, ∃ accepted : List (List Record),
      Machine.runFrom (System.step .base) System.setup.1 (events.map ServiceEvent.toSystem) =
        .ok (s, out) ∧
      out.filterMap vxiEffect = (served events).flatMap effects ∧
      accepted.Sublist (events.filterMap ServiceEvent.offer) ∧
      served events <+: accepted.flatMap answered ∧
      (s.vxi.client = none → served events = accepted.flatMap answered) := by
  obtain ⟨s, out, hrun, ⟨-, hclient⟩, hout⟩ := follows_service.run stands_setup h
  obtain ⟨accepted, haccepted, hserved⟩ := exists_accepted events none
  refine ⟨s, out, accepted, hrun, hout, haccepted, ⟨_, hserved⟩, fun hnone ↦ ?_⟩
  rcases ht : (Mealy.runFrom step none events).1 with _ | rs <;> rw [ht] at hserved hclient
  · exact (List.append_nil _).symm.trans hserved
  · obtain ⟨c, hc, -⟩ := hclient
    exact absurd (hc.symm.trans hnone) (Option.some_ne_none c)

/-- A client with a whole session, and one that comes too early and then again. -/
def twoClients : List ServiceEvent :=
  [.vxiLoop (some exampleSession) fun _ ↦ .nan, .vxiLoop none fun _ ↦ .nan,
    .bindLoop { datagram := ascii "who is there?" }, .vxiLoop none fun _ ↦ .nan, .peerCloses,
    .vxiLoop (some (exampleSession.drop 3)) fun _ ↦ .nan, .vxiLoop none fun _ ↦ .nan,
    .vxiLoop (some (exampleSession.drop 3)) fun _ ↦ .nan, .vxiLoop none fun _ ↦ .nan]

theorem brings_twoClients : ∀ event ∈ twoClients, event.Brings := by
  have hsession : ∀ r ∈ exampleSession, IsRequest r := fun r hr ↦
    ⟨complete_exampleSession r hr, by
      revert r
      simp only [exampleSession, List.forall_mem_cons, List.not_mem_nil, false_imp_iff,
        implies_true, and_true]
      refine ⟨fun h ↦ absurd h (by decide +kernel), fun _ ↦ ?_,
        fun h ↦ absurd h (by decide +kernel), fun h ↦ absurd h (by decide +kernel)⟩
      rw [writePayload_example]
      exact wellFormed_exampleLine⟩
  have hdrop : ∀ r ∈ exampleSession.drop 3, IsRequest r := fun r hr ↦
    hsession r (List.mem_of_mem_drop hr)
  intro event hevent rs hrs
  simp only [twoClients, List.mem_cons, List.not_mem_nil, or_false] at hevent
  obtain rfl | rfl | rfl | rfl | rfl | rfl | rfl | rfl | rfl := hevent <;> cases hrs
  · exact hsession
  · exact hdrop
  · exact hdrop

theorem provides_service_twoClients :
    ∃ s out, ∃ accepted : List (List Record),
      Machine.runFrom (System.step .base) System.setup.1 (twoClients.map ServiceEvent.toSystem) =
        .ok (s, out) ∧
      out.filterMap vxiEffect = (exampleSession ++ exampleSession.drop 3).flatMap effects ∧
      accepted.Sublist (twoClients.filterMap ServiceEvent.offer) ∧
      served twoClients <+: accepted.flatMap answered := by
  obtain ⟨s, out, accepted, hrun, hout, haccepted, hserved, -⟩ :=
    provides_service brings_twoClients
  exact ⟨s, out, accepted, hrun, hout, haccepted, hserved⟩

end EspBode
