import EspBode.Verification.DeviceServers
import EspBode.Verification.PassThrough

/-!
# The server objects

`NetServer_ext` owns an object of the Ethernet library through a plain pointer, which it deletes and
creates anew to change the port. `Uses` says that this is done properly: an object is created only
when there is none, so none is lost, and it is begun, polled and deleted only while it is there.

Over every run of the device the three servers use their objects properly (`device_server_objects`),
and the objects that are there at its end listen on the ports for bind requests, for telnet, and on
the one that the number of ended links leads to.

`Uses` is a relation between a list of calls and the object before and behind them, with a
constructor for each thing that may be done properly. So it is composed along a run
(`Uses.append`), and each method of a server is one proof that its calls are a proper use: beginning
on an object that is there deletes it first, and polling asks whether it is there.

* **The two servers** are treated together, since one invariant is carried through their steps. Only
  closing a link replaces an object.
* **The telnet server** has a constructor that is given its port, which creates the object before
  any call is made; `begin()` then begins it.

In the device the actions of a call come later than its decision. What the servers have done and
what they still have to do, one behind the other, is the list that is used properly.
-/

namespace EspBode

/-! ### Proper use -/

/-- **The calls are made properly**, on the object for a port, if there is one, and then on the
objects that they create. -/
inductive Uses : Option UInt16 → List ServerCall → Option UInt16 → Prop
  | nil {object : Option UInt16} : Uses object [] object
  | create {p : UInt16} {calls : List ServerCall} {object : Option UInt16}
      (rest : Uses (some p) calls object) : Uses none (.begin p :: calls) object
  | begin {p : UInt16} {calls : List ServerCall} {object : Option UInt16}
      (rest : Uses (some p) calls object) : Uses (some p) (.begin p :: calls) object
  | available {p : UInt16} {calls : List ServerCall} {object : Option UInt16}
      (rest : Uses (some p) calls object) : Uses (some p) (.available p :: calls) object
  | delete {p : UInt16} {calls : List ServerCall} {object : Option UInt16}
      (rest : Uses none calls object) : Uses (some p) (.delete p :: calls) object

theorem Uses.append {object object' object'' : Option UInt16} {calls calls' : List ServerCall}
    (h : Uses object calls object') (h' : Uses object' calls' object'') :
    Uses object (calls ++ calls') object'' := by
  induction h with
  | nil => exact h'
  | create _ ih => exact .create (ih h')
  | begin _ ih => exact .begin (ih h')
  | available _ ih => exact .available (ih h')
  | delete _ ih => exact .delete (ih h')

namespace NetServerExt

theorem uses_begin (s : NetServerExt) (port : UInt16) :
    Uses s.mServer (s.begin port).2 (some port) := by
  rw [begin, dropServer]
  rcases s.mServer with _ | p
  · exact .create .nil
  · exact .delete (.create .nil)

theorem uses_accept (s : NetServerExt) (offered : Option NetClient) :
    Uses s.mServer (s.accept offered).2 s.mServer := by
  rw [accept]
  rcases s.mServer with _ | p
  · exact .nil
  · exact .available .nil

/-- Going on to another port. -/
theorem uses_stop_begin (s : NetServerExt) (port : UInt16) :
    Uses s.mServer (s.stop.2 ++ (s.stop.1.begin port).2) (some port) := by
  have hstop : Uses s.mServer s.stop.2 s.stop.1.mServer := by
    rw [stop, dropServer]
    rcases hs : s.mServer with _ | p
    · rw [hs]
      exact .nil
    · exact .delete .nil
  exact hstop.append (s.stop.1.uses_begin port)

end NetServerExt

/-! ### The two servers -/

/-- The call of the bind server on its object that an action may be. -/
def SystemAction.bindCall : SystemAction → Option ServerCall
  | .bind (.server call) => some call
  | _ => none

/-- The call of the VXI server on its object that an action may be. -/
def SystemAction.vxiCall : SystemAction → Option ServerCall
  | .vxi (.server call) => some call
  | _ => none

theorem bindCall_vxi (actions : List VxiAction) :
    (actions.map .vxi).filterMap SystemAction.bindCall = [] :=
  List.filterMap_eq_nil_iff.2 (by simp [SystemAction.bindCall])

theorem vxiCall_bind (actions : List BindAction) :
    (actions.map .bind).filterMap SystemAction.vxiCall = [] :=
  List.filterMap_eq_nil_iff.2 (by simp [SystemAction.vxiCall])

theorem bindCall_server (calls : List ServerCall) :
    ((calls.map BindAction.server).map .bind).filterMap SystemAction.bindCall = calls := by
  rw [List.filterMap_map, List.filterMap_map]
  exact List.filterMap_some

theorem vxiCall_server (calls : List ServerCall) :
    ((calls.map VxiAction.server).map .vxi).filterMap SystemAction.vxiCall = calls := by
  rw [List.filterMap_map, List.filterMap_map]
  exact List.filterMap_some

theorem vxiCall_quiet {actions : List VxiAction} (h : ∀ a ∈ actions, VxiServer.Quiet a) :
    (actions.map .vxi).filterMap SystemAction.vxiCall = [] := by
  rw [List.filterMap_map]
  refine List.filterMap_eq_nil_iff.2 fun a ha ↦ ?_
  have hquiet := h a ha
  rcases a with _ | _ | _ | _
  · rfl
  · rfl
  · rfl
  · exact hquiet.elim

namespace RpcBindServer

theorem tcp_respondUdp {s s' : RpcBindServer} {vxiServer : VxiServer} {port0 : UInt32}
    {bytes : List UInt8} (h : s.respondUdp vxiServer port0 = .ok (s', bytes)) : s'.tcp = s.tcp := by
  obtain ⟨_, -, h⟩ := bind_eq_ok.1 h
  obtain ⟨_, -, h⟩ := bind_eq_ok.1 h
  obtain ⟨rfl, -⟩ := Prod.mk.inj (Except.ok.inj h)
  rfl

theorem tcp_respondTcp {s s' : RpcBindServer} {vxiServer : VxiServer} {port0 : UInt32}
    {bytes : List UInt8} (h : s.respondTcp vxiServer port0 = .ok (s', bytes)) : s'.tcp = s.tcp := by
  obtain ⟨_, -, h⟩ := bind_eq_ok.1 h
  obtain ⟨_, -, h⟩ := bind_eq_ok.1 h
  obtain ⟨rfl, -⟩ := Prod.mk.inj (Except.ok.inj h)
  rfl

/-- A call of the bind loop polls the object at most. -/
theorem uses_loop {s s' : RpcBindServer} {vxiServer : VxiServer} {input : LoopInput}
    {out : List BindAction} (h : s.loop vxiServer input = .ok (s', out)) : s'.tcp = s.tcp ∧
      Uses s.tcp.mServer ((out.map .bind).filterMap SystemAction.bindCall) s.tcp.mServer := by
  have haccept := s.tcp.uses_accept input.offered
  rw [loop] at h
  split_ifs at h
  · obtain ⟨_, -, h⟩ := bind_eq_ok.1 h
    dsimp only at h
    split_ifs at h
    · obtain ⟨⟨t, bytes⟩, hrespond, h⟩ := bind_eq_ok.1 h
      have htcp := tcp_respondUdp hrespond
      obtain ⟨rfl, rfl⟩ := Prod.mk.inj (Except.ok.inj h)
      exact ⟨htcp, .nil⟩
    · obtain ⟨rfl, rfl⟩ := Prod.mk.inj (Except.ok.inj h)
      exact ⟨rfl, .nil⟩
  · dsimp only at h
    rcases hc : (s.tcp.accept input.offered).1 with _ | c <;> rw [hc] at h
    · obtain ⟨rfl, rfl⟩ := Prod.mk.inj (Except.ok.inj h)
      rw [bindCall_server]
      exact ⟨rfl, haccept⟩
    · obtain ⟨_, -, h⟩ := bind_eq_ok.1 h
      split_ifs at h
      · obtain ⟨⟨t, bytes⟩, hrespond, h⟩ := bind_eq_ok.1 h
        have htcp := tcp_respondTcp hrespond
        obtain ⟨rfl, rfl⟩ := Prod.mk.inj (Except.ok.inj h)
        rw [List.map_append, List.filterMap_append, bindCall_server]
        exact ⟨htcp, haccept.append .nil⟩
      · obtain ⟨rfl, rfl⟩ := Prod.mk.inj (Except.ok.inj h)
        rw [bindCall_server]
        exact ⟨rfl, haccept⟩
  · obtain ⟨rfl, rfl⟩ := Prod.mk.inj (Except.ok.inj h)
    exact ⟨rfl, .nil⟩

end RpcBindServer

/-- The objects of the two servers after the given actions. -/
structure ObjectsInvariant (s : System) (past : List SystemAction) : Prop where
  bindServer : s.bind.tcp.mServer = some 111
  bind : Uses none ((System.setup.2 ++ past).filterMap SystemAction.bindCall) (some 111)
  vxi : Uses none ((System.setup.2 ++ past).filterMap SystemAction.vxiCall) s.vxi.tcpServer.mServer

/-- **Every step of the two servers keeps the invariant.** -/
theorem ObjectsInvariant.step {awg : AwgServer} {s s' : System} {past out : List SystemAction}
    {event : SystemEvent} (h : ObjectsInvariant s past)
    (hstep : System.step awg s event = .ok (s', out)) : ObjectsInvariant s' (past ++ out) := by
  obtain ⟨hserver, hbind, hvxi⟩ := h
  -- what the step does with the two objects
  have hnext : s'.bind.tcp.mServer = some 111 →
      Uses (some 111) (out.filterMap SystemAction.bindCall) (some 111) →
      Uses s.vxi.tcpServer.mServer (out.filterMap SystemAction.vxiCall)
        s'.vxi.tcpServer.mServer → ObjectsInvariant s' (past ++ out) := fun hserver' hb hv ↦
    ⟨hserver', by rw [← List.append_assoc, List.filterMap_append]; exact hbind.append hb,
      by rw [← List.append_assoc, List.filterMap_append]; exact hvxi.append hv⟩
  cases systemStep_of_step hstep with
  | bindLoop hloop =>
    obtain ⟨htcp, huses⟩ := RpcBindServer.uses_loop hloop
    rw [hserver] at huses
    refine hnext (htcp ▸ hserver) huses ?_
    rw [vxiCall_bind]
    exact .nil
  | vxiLoop hloop =>
    cases VxiServer.loop_linkStep hloop with
    | serves _ _ hlink hquiet =>
      refine hnext hserver (by rw [bindCall_vxi]; exact .nil) ?_
      rw [vxiCall_quiet hquiet, show _ = s.vxi.tcpServer from hlink.tcpServer]
      exact .nil
    | @closes c t actions _ _ hlink hquiet =>
      refine hnext hserver (by rw [bindCall_vxi]; exact .nil) ?_
      rw [List.map_append, List.filterMap_append, vxiCall_quiet hquiet, List.nil_append]
      show Uses s.vxi.tcpServer.mServer ((List.map VxiAction.server (_ ++ _)).map .vxi |>.filterMap
        SystemAction.vxiCall) _
      rw [vxiCall_server, ← show t.tcpServer = s.vxi.tcpServer from hlink.tcpServer]
      exact t.tcpServer.uses_stop_begin _
    | accepts _ =>
      refine hnext hserver (by rw [bindCall_vxi]; exact .nil) ?_
      rw [vxiCall_server]
      exact s.vxi.tcpServer.uses_accept _
  | peerCloses => exact hnext hserver .nil .nil

/-! ### The telnet server -/

/-- The call of the telnet server on its object that an action may be. -/
def TelnetAction.serverCall : TelnetAction → Option ServerCall
  | .server call => some call
  | _ => none

/-- What is done with a line makes no calls on the object. -/
theorem serverCall_onTelnetInput (passThrough : Bool) (line reply : List UInt8) :
    (onTelnetInput passThrough line reply).2.filterMap TelnetAction.serverCall = [] := by
  rw [onTelnetInput]
  dsimp only
  rcases equalsLiteral (toUpperCase (trim line)) passThroughCommand
  · cases passThrough
    · rfl
    · show ([TelnetAction.awg line, .awg [chr '\n']] ++ reply.map _).filterMap _ = []
      rw [List.filterMap_append, List.filterMap_map]
      exact List.filterMap_eq_nil_iff.2 fun _ _ ↦ rfl
  · rfl

/-- Neither does the inner loop. The induction is on the number of bytes. -/
theorem serverCall_readInput (replies : ℕ → List UInt8) (rx : List UInt8) :
    ∀ k lineBuffer passThrough, (readInput replies k lineBuffer passThrough rx).actions.filterMap
      TelnetAction.serverCall = [] := by
  induction hn : rx.length using Nat.strongRecOn generalizing rx with
  | _ n ih =>
    intro k lineBuffer passThrough
    rcases rx with _ | ⟨b, rx⟩
    · rfl
    have hlt : rx.length < n := by rw [← hn]; exact Nat.lt_succ_self _
    rw [readInput.eq_def]
    dsimp only
    split_ifs
    · rcases rx with _ | ⟨command, _ | ⟨option, rx⟩⟩
      · rfl
      · rfl
      · exact ih rx.length (by simp at hlt; omega) rx rfl k lineBuffer passThrough
    · exact ih rx.length hlt rx rfl k lineBuffer passThrough
    · rw [List.filterMap_cons_none rfl, List.filterMap_append, serverCall_onTelnetInput]
      exact ih rx.length hlt rx rfl _ _ _
    · exact ih rx.length hlt rx rfl k _ passThrough
    · exact ih rx.length hlt rx rfl k lineBuffer passThrough

namespace TelnetServer

theorem serverCall_readClient (s : TelnetServer) (replies : ℕ → List UInt8)
    (serial : List UInt8) : (s.readClient replies serial).1.server = s.server ∧
      (s.readClient replies serial).2.filterMap TelnetAction.serverCall = [] := by
  have htold : ∀ b : Bool, (if b then serial.map fun c ↦ TelnetAction.tell [c] else []).filterMap
      TelnetAction.serverCall = [] := by
    intro b
    cases b
    · rfl
    · show (serial.map _).filterMap _ = []
      rw [List.filterMap_map]
      exact List.filterMap_eq_nil_iff.2 fun _ _ ↦ rfl
  rw [readClient]
  rcases s.client with _ | c
  · exact ⟨rfl, htold _⟩
  dsimp only
  rcases c.connected
  · exact ⟨rfl, htold _⟩
  · refine ⟨rfl, ?_⟩
    rw [if_pos rfl]
    dsimp only
    rw [List.filterMap_append, serverCall_readInput, htold]
    rfl

/-- A call of the telnet loop polls the object at most. -/
theorem uses_loop (s : TelnetServer) (input : LoopInput) : (s.loop input).1.server = s.server ∧
    Uses s.server.mServer ((s.loop input).2.filterMap TelnetAction.serverCall)
      s.server.mServer := by
  have hcalls : ∀ calls : List ServerCall,
      (calls.map TelnetAction.server).filterMap TelnetAction.serverCall = calls := fun calls ↦ by
    rw [List.filterMap_map]
    exact List.filterMap_some
  have htake : ((s.arrive input.arrived).takeClient input.offered).1.server = s.server ∧
      Uses s.server.mServer (((s.arrive input.arrived).takeClient input.offered).2.filterMap
        TelnetAction.serverCall) s.server.mServer := by
    have haccept := s.server.uses_accept input.offered
    rw [takeClient]
    split_ifs
    · exact ⟨rfl, .nil⟩
    dsimp only
    rcases ((s.arrive input.arrived).server.accept input.offered).1 with _ | c
    · refine ⟨rfl, ?_⟩
      rw [hcalls]
      exact haccept
    · refine ⟨rfl, ?_⟩
      rw [List.filterMap_append, hcalls]
      exact haccept.append .nil
  obtain ⟨hserver, huses⟩ := htake
  obtain ⟨hserver', hnone⟩ := serverCall_readClient
    ((s.arrive input.arrived).takeClient input.offered).1 input.replies input.serial
  refine ⟨hserver'.trans hserver, ?_⟩
  rw [loop]
  dsimp only
  rw [List.filterMap_append, hnone, List.append_nil]
  exact huses

end TelnetServer

section Runs

variable {pf : Platform} {awg : AwgServer} {driver : AwgFy}
variable {answers : List UInt8 → List UInt8 → Bool}

/-- The object of the telnet server after the given actions. Its constructor creates it. -/
def TelnetObject (s : Device) (past : List DeviceAction) : Prop :=
  s.telnet.server.mServer = some 23 ∧
    Uses none ((({} : NetServerExt).begin 23).2 ++
      (({} : TelnetServer).begin.2 ++ telnetStory s past).filterMap TelnetAction.serverCall)
      (some 23)

theorem TelnetObject.of_eq {s s' : Device} {past out : List DeviceAction}
    (h : TelnetObject s past) (hserver : s'.telnet.server = s.telnet.server)
    (hcalls : (telnetActions out ++ telnetPending s'.tasks).filterMap TelnetAction.serverCall =
      (telnetPending s.tasks).filterMap TelnetAction.serverCall) :
    TelnetObject s' (past ++ out) := by
  have hstory : (telnetStory s' (past ++ out)).filterMap TelnetAction.serverCall =
      (telnetStory s past).filterMap TelnetAction.serverCall := by
    rw [telnetStory, telnetActions_append, List.append_assoc, List.filterMap_append, hcalls,
      ← List.filterMap_append, telnetStory]
  refine ⟨hserver ▸ h.1, ?_⟩
  rw [List.filterMap_append, hstory, ← List.filterMap_append]
  exact h.2

/-- **Every step keeps the object of the telnet server.** -/
theorem TelnetObject.step {s s' : Device} {past out : List DeviceAction} {event : DeviceEvent}
    (h : TelnetObject s past) (hstep : Device.step pf awg driver answers s event = .ok (s', out)) :
    TelnetObject s' (past ++ out) := by
  have hsystem : ∀ {system} (actions : List SystemAction), s.Idle →
      TelnetObject { s with system, tasks := actions.map .system } (past ++ []) := by
    intro system actions hidle
    have hnone : telnetPending (actions.map .system) = [] :=
      List.filterMap_eq_nil_iff.2 (by simp)
    exact h.of_eq rfl (by rw [hnone, hidle.2]; rfl)
  cases deviceStep_of_step hstep with
  | nothing => exact h.of_eq rfl rfl
  | @telnetLoop offered arrived polls hidle =>
    obtain ⟨hserver, huses⟩ := h
    obtain ⟨hserver', hloop⟩ := s.telnet.uses_loop { offered, arrived }
    refine ⟨(congrArg NetServerExt.mServer hserver').trans hserver, ?_⟩
    rw [hserver] at hloop
    rw [telnetStory, hidle.2, show telnetPending [] = [] from rfl, List.append_nil] at huses
    rw [List.append_nil, telnetStory, telnetPending_telnetLoop, ← List.append_assoc,
      List.filterMap_append, ← List.append_assoc]
    exact huses.append hloop
  | bindLoop hidle _ => exact hsystem _ hidle
  | vxiLoop hidle _ => exact hsystem _ hidle
  | peerCloses _ => exact h.of_eq rfl rfl
  | telnetPeerCloses => exact h.of_eq rfl rfl
  | setting _ htasks => exact h.of_eq rfl (by rw [htasks]; rfl)
  | passes _ htasks => exact h.of_eq rfl (by rw [htasks]; rfl)
  | puts _ htasks hputs =>
    refine h.of_eq rfl ?_
    rw [htasks]
    cases hputs <;> rfl
  | copied _ htasks _ => exact h.of_eq rfl (by rw [htasks]; rfl)
  | copies _ htasks _ => exact h.of_eq rfl rfl
  | @serial _ _ _ serialOut _ _ =>
    have hnone : telnetActions (serialOut.map .serial) = [] := by
      rw [telnetActions, List.filterMap_map]
      exact List.filterMap_eq_nil_iff.2 fun _ _ ↦ rfl
    exact h.of_eq rfl (by rw [hnone]; rfl)

/-! ### Runs -/

/-- What the two servers have done since `setup()`, and what they still have to do. -/
def systemStory (s : Device) (past : List DeviceAction) : List SystemAction :=
  System.setup.2 ++ (past.filterMap DeviceAction.systemAction ++
    s.tasks.filterMap DeviceTask.systemAction)

/-- **The three servers use their objects properly**, over every run of the device. -/
theorem device_server_objects {s : Device} {past : List DeviceAction} {events : List DeviceEvent}
    (hrun : Machine.runFrom (Device.step pf awg driver answers) Device.setup.1 events =
      .ok (s, past)) :
    Uses none ((systemStory s past).filterMap SystemAction.bindCall) (some 111) ∧
      (∃ p : UInt16, p.toNat = 9010 + linksEnded (systemStory s past) % 10 ∧
        Uses none ((systemStory s past).filterMap SystemAction.vxiCall) (some p)) ∧
      Uses none ((({} : NetServerExt).begin 23).2 ++
        (({} : TelnetServer).begin.2 ++ telnetStory s past).filterMap TelnetAction.serverCall)
        (some 23) := by
  obtain ⟨made, out, -, hsystem, howed⟩ := (carries_servers pf awg driver answers).run hrun
  have hstory : systemStory s past = System.setup.2 ++ out := congrArg (_ ++ ·) howed
  have hobjects : ObjectsInvariant s.system ([] ++ out) :=
    Machine.runFrom_trace_invariant (fun _ _ _ _ _ h hstep ↦ h.step hstep) []
      ⟨rfl, .create .nil, .create .nil⟩ hsystem
  have hlink : LinkInvariant s.system ([] ++ out) := linkInvariant_setup.run hsystem
  have htelnet : TelnetObject s ([] ++ past) :=
    Machine.runFrom_trace_invariant (fun _ _ _ _ _ h hstep ↦ h.step hstep) []
      ⟨rfl, .create (.begin .nil)⟩ hrun
  rw [List.nil_append] at hobjects hlink htelnet
  rw [hstory]
  refine ⟨hobjects.bind, ⟨s.system.vxi.vxiPort.toUInt32.toUInt16, ?_, ?_⟩, htelnet.2⟩
  · have hcount : linksEnded (System.setup.2 ++ out) = linksEnded out := by
      rw [linksEnded_append]
      exact Nat.zero_add _
    have hport := toNat_portAfter (linksEnded out)
    rw [hcount, UInt32.toNat_toUInt16, hlink.port, hport]
    omega
  · rw [← hlink.listens]
    exact hobjects.vxi

end Runs

/-- A client connects and destroys its link; then nobody comes. -/
def destroyRun : List DeviceEvent :=
  [.vxiLoop { offered := some (.ofStream
      (Record.lastFragment (plainRequest 8 .vxi11DestroyLink) (by decide)).bytes) },
    .proceed, .vxiLoop {}] ++ List.replicate 4 .proceed ++ [.vxiLoop {}]

theorem device_server_objects_destroyRun :
    ∃ s past, Machine.runFrom (Device.step (referencePlatform .binary64) .base (awgFy6900 0)
        fun _ _ ↦ true) Device.setup.1 destroyRun = .ok (s, past) ∧
      Uses none [.begin 9010, .available 9010, .delete 9010, .begin 9011, .available 9011]
        (some 9011) ∧
      Uses none ((({} : NetServerExt).begin 23).2 ++
        (({} : TelnetServer).begin.2 ++ telnetStory s past).filterMap TelnetAction.serverCall)
        (some 23) := by
  obtain ⟨⟨s, past⟩, hrun, hcalls⟩ := exists_of_map_eq_ok
    (b := ([.begin 9010, .available 9010, .delete 9010, .begin 9011, .available 9011], 1))
    (f := fun r : Device × List DeviceAction ↦
      ((systemStory r.1 r.2).filterMap SystemAction.vxiCall, linksEnded (systemStory r.1 r.2)))
    (x := Machine.runFrom (Device.step (referencePlatform .binary64) .base (awgFy6900 0)
      fun _ _ ↦ true) Device.setup.1 destroyRun) (by decide +kernel)
  obtain ⟨hvxi, hended⟩ := Prod.mk.inj hcalls
  obtain ⟨-, ⟨p, hp, huses⟩, htelnet⟩ := device_server_objects hrun
  rw [hended] at hp
  rw [hvxi, show p = 9011 from UInt16.toNat_inj.1 hp] at huses
  exact ⟨s, past, hrun, huses, htelnet⟩

end EspBode
