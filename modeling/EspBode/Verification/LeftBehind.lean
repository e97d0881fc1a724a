import Mathlib.Data.Set.Insert
import EspBode.Verification.BindReplies
import EspBode.Verification.Links

/-!
# What is left behind

Two things outlive their use.

**The client of a peer that has gone away.** Its variable stays true until `stop()`, nothing of it
can be read any more, so no call of the loop ever releases it, and as long as it is there the bind
server reads no request (`locked_out`). The property `Gone` is kept by every step of the two
servers, whatever the other clients do, and a step from such a state puts out nothing. A request to
destroy the link would release the client, but there is nobody to send it.

**The listening sockets of earlier ports.** The wrapper deletes its server object when a link is
closed, which closes no socket of the chip, so after `n` links the chip listens on all the ports
that were used up to then (`listening_eq`). Hence the current port is the only one exactly as long
as no request to destroy a link has been served (`listening_current_iff`).

The chip itself is not part of the repository. `Chip` is what the servers need of it, and
`Chip.Lawful` the documented behaviour of the Ethernet library: beginning a server object makes a
socket listen on its port, polling it sees to it that one does, and neither deleting it nor stopping
a client closes a socket that listens. `portChip` is a chip of this kind, which keeps a list of
ports.

The second result holds for every lawful chip and over every run. It is the run's output that moves
the chip, action by action, so the chip adds nothing to the state of the servers.
-/

namespace EspBode

open VxiServer

/-! ### A client whose peer has gone -/

/-- The peer has gone away: it has closed its end, and all its bytes have been read. -/
def Gone (s : System) : Prop :=
  ∃ c, s.vxi.client = some c ∧ c.connected = false

theorem rx_eq_nil_of_not_connected {c : NetClient} (h : c.connected = false) : c.rx = [] := by
  rw [NetClient.connected, Bool.or_eq_false_iff] at h
  simpa using h.2

/-- Nothing is received from a connection with nothing left to read, and it stays so. -/
theorem receive_of_not_connected {c : NetClient} (h : c.connected = false) :
    (receive vxiReadSize c).len = 0 ∧ (receive vxiReadSize c).client.connected = false := by
  obtain ⟨hread, hrx⟩ := c.readBytes_of_rx_eq_nil (rx_eq_nil_of_not_connected h) prefixSize
  have hfield : prefixField c = List.replicate 4 0 := by
    rw [prefixField, hread]
    rfl
  have hzero : ¬ (beWord (List.replicate 4 0)).toNat % 2 ^ 31 > 4 := by decide
  rw [receive, hfield]
  dsimp only
  rw [if_neg hzero]
  refine ⟨rfl, ?_⟩
  rw [NetClient.connected, Bool.or_eq_false_iff] at h ⊢
  exact ⟨h.1, by rw [hrx]; rfl⟩

/-- A call of the loop finds nothing to read, and keeps the client. -/
theorem loop_of_not_connected (awg : AwgServer) {s : VxiServer} {c : NetClient}
    (hc : s.client = some c) (h : c.connected = false) (input : LoopInput) :
    ∃ s', s.loop awg input = .ok (s', []) ∧ s'.available = false ∧
      ∃ c', s'.client = some c' ∧ c'.connected = false := by
  obtain ⟨hlen, hclient⟩ := receive_of_not_connected h
  refine ⟨{ s with vxiReadBuffer := requestIn s.vxiReadBuffer c,
                   client := some (receive vxiReadSize c).client }, ?_, rfl, _, rfl, hclient⟩
  rw [loop_of_client hc, if_neg (by omega)]

/-- Whatever the system does next, it puts out nothing, and the client stays. -/
theorem Gone.step {s : System} (h : Gone s) (awg : AwgServer) (event : SystemEvent) :
    ∃ s', System.step awg s event = .ok (s', []) ∧ Gone s' := by
  obtain ⟨c, hc, hgone⟩ := h
  rcases event with input | input | _
  · have hbusy : s.vxi.available = false := by
      rw [available, hc]
      rfl
    refine ⟨s, ?_, c, hc, hgone⟩
    rw [System.step, RpcBindServer.loop_of_not_available hbusy]
    rfl
  · obtain ⟨vxi, hloop, -, hgone'⟩ := loop_of_not_connected awg hc hgone input
    refine ⟨{ s with vxi }, ?_, hgone'⟩
    rw [System.step, hloop]
    rfl
  · refine ⟨_, rfl, { c with peerClosed := true }, ?_, ?_⟩
    · show Option.map _ s.vxi.client = _
      rw [hc, Option.map_some]
    · rw [NetClient.connected, rx_eq_nil_of_not_connected hgone]
      rfl

theorem Gone.run (awg : AwgServer) (events : List SystemEvent) : ∀ {s : System}, Gone s →
    ∃ s', Machine.runFrom (System.step awg) s events = .ok (s', []) ∧ Gone s' := by
  induction events with
  | nil => exact fun {s} h ↦ ⟨s, rfl, h⟩
  | cons event events ih =>
    intro s h
    obtain ⟨s₁, hstep, h₁⟩ := h.step awg event
    obtain ⟨s₂, hrun, h₂⟩ := ih h₁
    exact ⟨s₂, Machine.runFrom_cons_eq_ok.2 ⟨s₁, [], [], hstep, hrun, rfl⟩, h₂⟩

/-- **A departed peer locks the servers out.** A call of the loop with a client whose peer has gone
never leaves the server available; and in every run from there on it stays unavailable, and no bind
request is answered. -/
theorem locked_out {awg : AwgServer} {s : System} {c : NetClient} (hc : s.vxi.client = some c)
    (hgone : c.connected = false) :
    (∀ input, ¬ ∃ vxi out, s.vxi.loop awg input = .ok (vxi, out) ∧ vxi.available = true) ∧
    ∀ events s' out, Machine.runFrom (System.step awg) s events = .ok (s', out) →
      s'.vxi.available = false ∧ out = [] := by
  constructor
  · rintro input ⟨vxi, out, hloop, hav⟩
    obtain ⟨vxi', hloop', hbusy, -⟩ := loop_of_not_connected awg hc hgone input
    obtain ⟨rfl, -⟩ := Prod.mk.inj (Except.ok.inj (hloop.symm.trans hloop'))
    exact absurd (hav.symm.trans hbusy) (by decide)
  · intro events s' out hrun
    obtain ⟨s'', hrun', c', hc', -⟩ := Gone.run awg events ⟨c, hc, hgone⟩
    obtain ⟨rfl, rfl⟩ := Prod.mk.inj (Except.ok.inj (hrun.symm.trans hrun'))
    exact ⟨by rw [available, hc']; rfl, rfl⟩

/-- A client that creates a link and then closes its connection without destroying the link. -/
theorem not_released :
    ¬ ∀ s, Machine.Reachable (System.step .base) System.setup.1 s →
      ∀ c, s.vxi.client = some c → c.connected = false →
        ∀ input, ∃ vxi out, s.vxi.loop .base input = .ok (vxi, out) ∧ vxi.available = true := by
  intro h
  obtain ⟨⟨s, out⟩, hrun, hclient⟩ := exists_of_map_eq_ok
    (f := fun r : System × List SystemAction ↦ r.1.vxi.client)
    (x := Machine.runFrom (System.step .base) System.setup.1
      [.vxiLoop { offered := some (.ofStream (Record.lastFragment
        (createRequest 7 4 (ascii "inst")) (by decide)).bytes) }, .vxiLoop {}, .peerCloses])
    (b := some { rx := [], peerClosed := true }) (by decide +kernel)
  obtain ⟨vxi, out', hloop, hav⟩ := h s ⟨_, out, hrun⟩ _ hclient rfl {}
  obtain ⟨vxi', hloop', hbusy, -⟩ := loop_of_not_connected .base hclient rfl {}
  obtain ⟨rfl, -⟩ := Prod.mk.inj (Except.ok.inj (hloop.symm.trans hloop'))
  exact absurd (hav.symm.trans hbusy) (by decide)

theorem locked_out_at_once :
    let s := { System.setup.1 with
      vxi := { System.setup.1.vxi with client := some { rx := [], peerClosed := true } } }
    (∀ input, ¬ ∃ vxi out, s.vxi.loop .base input = .ok (vxi, out) ∧ vxi.available = true) ∧
    ∀ events s' out, Machine.runFrom (System.step .base) s events = .ok (s', out) →
      s'.vxi.available = false ∧ out = [] :=
  locked_out rfl rfl

/-! ### The listening sockets -/

/-- The Ethernet chip, as far as the VXI server moves it: the ports on which a socket listens, the
calls on server objects, and `stop()` of the client. -/
structure Chip (σ : Type*) where
  listening : σ → Set UInt16
  call : σ → ServerCall → σ
  clientStop : σ → σ

namespace Chip

variable {σ : Type*} (chip : Chip σ)

/-- The documented behaviour of the Ethernet library. -/
structure Lawful : Prop where
  /-- `EthernetServer::begin()` puts a socket in LISTEN on the port of the server. -/
  begin : ∀ x p, chip.listening (chip.call x (.begin p)) = insert p (chip.listening x)
  /-- Deleting an `EthernetServer` object closes no socket. -/
  delete : ∀ x p, chip.listening (chip.call x (.delete p)) = chip.listening x
  /-- `EthernetServer::available()` does the same if no socket listens on the port any more. -/
  available : ∀ x p, chip.listening (chip.call x (.available p)) = insert p (chip.listening x)
  /-- `EthernetClient::stop()` closes no listening socket. -/
  clientStop : ∀ x, chip.listening (chip.clientStop x) = chip.listening x

/-- What an action of the VXI server does to the chip. -/
def act (x : σ) : SystemAction → σ
  | .vxi (.server call) => chip.call x call
  | .vxi .clientStop => chip.clientStop x
  | _ => x

/-- The chip after the actions of the VXI server among those put out. -/
def after (x : σ) (out : List SystemAction) : σ :=
  out.foldl chip.act x

theorem after_append (x : σ) (out out' : List SystemAction) :
    chip.after x (out ++ out') = chip.after (chip.after x out) out' :=
  List.foldl_append

theorem after_bind (x : σ) (actions : List BindAction) :
    chip.after x (actions.map .bind) = x := by
  induction actions with
  | nil => rfl
  | cons a actions ih => exact ih

theorem after_quiet (x : σ) {actions : List VxiAction} (h : ∀ a ∈ actions, Quiet a) :
    chip.after x (actions.map .vxi) = x := by
  induction actions with
  | nil => rfl
  | cons a actions ih =>
    have hact : chip.act x (.vxi a) = x := by
      have ha := h a List.mem_cons_self
      cases a with
      | send => rfl
      | set => rfl
      | clientStop => exact ha.elim
      | server => exact ha.elim
    show chip.after (chip.act x (.vxi a)) (actions.map .vxi) = x
    rw [hact, ih fun a' ha' ↦ h a' (List.mem_cons_of_mem _ ha')]

end Chip

/-- The ports that have been used when `n` links have ended. -/
def usedPorts (n : ℕ) : Set UInt16 :=
  {p | ∃ k ≤ n, p = (portAfter k).toUInt32.toUInt16}

theorem usedPorts_zero : usedPorts 0 = {9010} := by
  ext p
  constructor
  · rintro ⟨k, hk, rfl⟩
    rw [Nat.le_zero.1 hk]
    rfl
  · rintro rfl
    exact ⟨0, le_rfl, rfl⟩

theorem usedPorts_succ (n : ℕ) :
    usedPorts (n + 1) = insert (portAfter (n + 1)).toUInt32.toUInt16 (usedPorts n) := by
  ext p
  constructor
  · rintro ⟨k, hk, rfl⟩
    rcases Nat.le_succ_iff.1 hk with hk | rfl
    · exact .inr ⟨k, hk, rfl⟩
    · exact .inl rfl
  · rintro (rfl | ⟨k, hk, rfl⟩)
    · exact ⟨n + 1, le_rfl, rfl⟩
    · exact ⟨k, Nat.le_succ_of_le hk, rfl⟩

/-- The current port is the only one that has been used exactly if no link has ended. -/
theorem usedPorts_eq_singleton_iff {n : ℕ} :
    usedPorts n = {(portAfter n).toUInt32.toUInt16} ↔ n = 0 := by
  constructor
  · intro h
    by_contra hn
    obtain ⟨m, rfl⟩ := Nat.exists_eq_succ_of_ne_zero hn
    have hm : (portAfter m).toUInt32.toUInt16 ∈ usedPorts (m + 1) := ⟨m, Nat.le_succ m, rfl⟩
    rw [h] at hm
    have hnat := congrArg UInt16.toNat (Set.mem_singleton_iff.1 hm)
    rw [UInt32.toNat_toUInt16, UInt32.toNat_toUInt16, toNat_portAfter, toNat_portAfter] at hnat
    omega
  · rintro rfl
    exact usedPorts_zero

section Listening

variable {σ : Type*} {chip : Chip σ} {x : σ} {awg : AwgServer}

/-- Closing a link deletes the server object and begins one for the next port. -/
theorem listening_beginNext (law : chip.Lawful) {t : VxiServer} {p : UInt16}
    (hserver : t.tcpServer.mServer = some p) (y : σ) :
    chip.listening (chip.after y (t.beginNext.2.map .vxi)) =
      insert t.vxiPort.gotoNext.toUInt32.toUInt16 (chip.listening y) := by
  have hcalls : t.beginNext.2 =
      [.clientStop, .server (.delete p),
        .server (.begin t.vxiPort.gotoNext.toUInt32.toUInt16)] := by
    simp only [beginNext, VxiServer.begin, NetServerExt.stop, NetServerExt.begin,
      NetServerExt.dropServer, hserver]
    rfl
  rw [hcalls]
  show chip.listening (chip.call (chip.call (chip.clientStop y) _) _) = _
  rw [law.begin, law.delete, law.clientStop]

/-- Polling the server object changes nothing while its port is listened on. -/
theorem listening_accept (law : chip.Lawful) {server : NetServerExt} {p : UInt16}
    (hserver : server.mServer = some p) {y : σ} (hy : p ∈ chip.listening y)
    (offered : Option NetClient) :
    chip.listening (chip.after y (((server.accept offered).2.map VxiAction.server).map .vxi)) =
      chip.listening y := by
  have hcalls : (server.accept offered).2 = [.available p] := by
    rw [NetServerExt.accept, hserver]
  rw [hcalls]
  show chip.listening (chip.call y _) = _
  rw [law.available, Set.insert_eq_of_mem hy]

/-- One step: the sockets stay, and closing a link adds the next port. -/
theorem listening_step (law : chip.Lawful) {s s' : System} {past out : List SystemAction}
    {event : SystemEvent} {y : σ} (hinv : LinkInvariant s past)
    (hy : chip.listening y = usedPorts (linksEnded past))
    (hstep : System.step awg s event = .ok (s', out)) :
    chip.listening (chip.after y out) = usedPorts (linksEnded (past ++ out)) := by
  have hsame : ∀ {out : List SystemAction}, linksEnded out = 0 →
      chip.listening (chip.after y out) = chip.listening y →
        chip.listening (chip.after y out) = usedPorts (linksEnded (past ++ out)) := by
    intro out hcount hafter
    rw [hafter, linksEnded_append, hcount, Nat.add_zero, hy]
  cases systemStep_of_step hstep with
  | bindLoop _ => exact hsame (linksEnded_bind _) (congrArg _ (chip.after_bind y _))
  | vxiLoop hloop =>
    cases loop_linkStep hloop with
    | serves _ _ _ hquiet =>
      exact hsame (linksEnded_quiet hquiet) (congrArg _ (chip.after_quiet y hquiet))
    | @closes c t quiet _ _ hlink hquiet =>
      have hport : t.vxiPort.gotoNext = portAfter (linksEnded past + 1) := by
        rw [portAfter_succ, ← hinv.port]
        exact congrArg CyclicUInt32.gotoNext hlink.vxiPort
      have hcount : linksEnded (past ++ (quiet ++ t.beginNext.2).map .vxi) =
          linksEnded past + 1 := by
        rw [linksEnded_append, List.map_append, linksEnded_append, linksEnded_quiet hquiet,
          linksEnded_beginNext]
      rw [hcount, usedPorts_succ, ← hport, ← hy, List.map_append, chip.after_append,
        chip.after_quiet y hquiet]
      exact listening_beginNext law (hlink.tcpServer.symm ▸ hinv.listens) y
    | accepts _ =>
      refine hsame (linksEnded_server _) (listening_accept law hinv.listens ?_ _)
      rw [hy, hinv.port]
      exact ⟨_, le_rfl, rfl⟩
  | peerCloses => exact hsame rfl rfl

/-- **After every run from `setup()` the chip listens on all the ports used so far.** -/
theorem listening_eq (law : chip.Lawful) (hx : chip.listening x = ∅) {events : List SystemEvent}
    {s : System} {out : List SystemAction}
    (hrun : Machine.runFrom (System.step awg) System.setup.1 events = .ok (s, out)) :
    chip.listening (chip.after x (System.setup.2 ++ out)) = usedPorts (linksEnded out) := by
  have hsetup : chip.listening (chip.after x System.setup.2) = usedPorts 0 := by
    show chip.listening (chip.call x (.begin 9010)) = _
    rw [law.begin, hx, usedPorts_zero]
    exact insert_empty_eq _
  have hstep : ∀ s past event s' out,
      LinkInvariant s past ∧ chip.listening (chip.after x (System.setup.2 ++ past)) =
        usedPorts (linksEnded past) →
      System.step awg s event = .ok (s', out) →
      LinkInvariant s' (past ++ out) ∧
        chip.listening (chip.after x (System.setup.2 ++ (past ++ out))) =
          usedPorts (linksEnded (past ++ out)) := by
    rintro s past event s' out ⟨hinv, hy⟩ hstep
    refine ⟨hinv.step hstep, ?_⟩
    rw [← List.append_assoc, chip.after_append]
    exact listening_step law hinv hy hstep
  have hstart : LinkInvariant System.setup.1 [] ∧
      chip.listening (chip.after x (System.setup.2 ++ [])) = usedPorts (linksEnded []) := by
    rw [List.append_nil]
    exact ⟨linkInvariant_setup, hsetup⟩
  exact (Machine.runFrom_trace_invariant hstep [] hstart hrun).2

/-- **Only the current port is listened on exactly as long as no request to destroy a link has been
served.** -/
theorem listening_current_iff (law : chip.Lawful) (hx : chip.listening x = ∅)
    {events : List SystemEvent} {s : System} {out : List SystemAction}
    (hrun : Machine.runFrom (System.step awg) System.setup.1 events = .ok (s, out)) :
    chip.listening (chip.after x (System.setup.2 ++ out)) = {s.vxi.vxiPort.toUInt32.toUInt16} ↔
      Machine.Along (System.step awg) (fun s event ↦ ¬ EndsLink s event) System.setup.1 events := by
  have hinv := linkInvariant_setup.run hrun
  rw [List.nil_append] at hinv
  rw [listening_eq law hx hrun, hinv.port, ← linksEnded_eq_zero_iff hrun]
  exact usedPorts_eq_singleton_iff

end Listening

/-! ### A chip -/

/-- A chip that keeps the list of the ports of its listening sockets. -/
def portChip : Chip (List UInt16) where
  listening ports := {p | p ∈ ports}
  call ports
    | .begin p => p :: ports
    | .delete _ => ports
    | .available p => if p ∈ ports then ports else p :: ports
  clientStop ports := ports

theorem portChip_lawful : portChip.Lawful where
  begin ports p := Set.ext fun q ↦ List.mem_cons
  delete _ _ := rfl
  available ports p := by
    by_cases h : p ∈ ports
    · show {q | q ∈ if p ∈ ports then ports else p :: ports} = _
      rw [if_pos h]
      exact (Set.insert_eq_of_mem (s := portChip.listening ports) h).symm
    · show {q | q ∈ if p ∈ ports then ports else p :: ports} = _
      rw [if_neg h]
      exact Set.ext fun q ↦ List.mem_cons
  clientStop _ := rfl

theorem listening_current_iff_oneLink : ∃ s,
    Machine.runFrom (System.step .base) System.setup.1 oneLink = .ok (s, oneLinkOut) ∧
      (portChip.listening (portChip.after [] (System.setup.2 ++ oneLinkOut)) =
        {s.vxi.vxiPort.toUInt32.toUInt16} ↔
      Machine.Along (System.step .base) (fun s event ↦ ¬ EndsLink s event) System.setup.1
        oneLink) := by
  obtain ⟨s, hrun⟩ := exists_run_oneLink
  exact ⟨s, hrun, listening_current_iff portChip_lawful
    (Set.eq_empty_of_forall_notMem fun _ ↦ List.not_mem_nil) hrun⟩

/-- After one link the chip listens on two ports. -/
theorem listening_on_old_port :
    ¬ ∀ events s out, Machine.runFrom (System.step .base) System.setup.1 events = .ok (s, out) →
      portChip.listening (portChip.after [] (System.setup.2 ++ out)) =
        {s.vxi.vxiPort.toUInt32.toUInt16} := by
  intro h
  obtain ⟨s, hrun⟩ := exists_run_oneLink
  have hports : portChip.after [] (System.setup.2 ++ oneLinkOut) = [9011, 9010] := by
    decide
  have heq := h oneLink s oneLinkOut hrun
  rw [hports] at heq
  have h₁ : (9011 : UInt16) ∈ ({s.vxi.vxiPort.toUInt32.toUInt16} : Set UInt16) :=
    heq ▸ List.mem_cons_self
  have h₀ : (9010 : UInt16) ∈ ({s.vxi.vxiPort.toUInt32.toUInt16} : Set UInt16) :=
    heq ▸ List.mem_cons_of_mem _ List.mem_cons_self
  exact absurd (h₁.trans h₀.symm) (by decide)

end EspBode
