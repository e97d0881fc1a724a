import EspBode.Firmware.System
import EspBode.Verification.Packets

/-!
# What a bind request is answered with

The specification of the bind server. A reply carries the decision of `process_request`, a status
and a port, behind the header that echoes the transaction id (`respondUdp_eq`, `respondTcp_eq`); the
earlier contents of the send buffers are gone.

The decision is what the two questions about replies come down to: which replies grant a port, and
whether a reply is determined by its request. On the two error paths the port is the uninitialized
local, so the answer to the second is no (`reply_determined_iff`): two calls with the same request
put out the same bytes, whatever is in the send buffers and in the local, exactly if the request
asks the port mapper for a port.

* **If it does**, the decision does not mention the local, and the body of a reply is all new.
* **If it does not**, two values of the local make two replies, since a reply determines the port in
  it (`bindBody_inj`). The statement asks for a complete header, so the program and the procedure
  are those of the request and not of an earlier one.

A call of the loop has four cases, each with an equation: the VXI server is busy, a datagram waits,
a connection is offered, or there is nothing. They are for any contents of the buffers, and the
decision in them is read from the buffer (`decisionOn`); for a request that reaches behind the
procedure it is a function of the bytes of the request (`decisionFor`).
-/

namespace EspBode

open Buffer

namespace RpcBindServer

/-! ### The decision -/

/-- The body of a bind reply. -/
def bindBody (decision : Rpc.RpcStatus × UInt32) : List UInt8 :=
  beBytes decision.1.code ++ beBytes decision.2

/-- The decision on the request that stands at index `base` of a read buffer. -/
def decisionOn {size : ℕ} (vxiServer : VxiServer) (port0 : UInt32) (base : ℕ)
    (request : Buffer size) : Rpc.RpcStatus × UInt32 :=
  decideRequest vxiServer port0 (request.word (base + RpcRequestPacket.program))
    (request.word (base + RpcRequestPacket.procedure))

@[simp]
theorem length_bindBody (decision : Rpc.RpcStatus × UInt32) : (bindBody decision).length = 8 :=
  rfl

theorem code_injective : Function.Injective Rpc.RpcStatus.code := by
  intro a b
  cases a <;> cases b <;> decide

theorem bindBody_inj {d d' : Rpc.RpcStatus × UInt32} : bindBody d = bindBody d' ↔ d = d' := by
  constructor
  · intro h
    obtain ⟨hcode, hport⟩ := List.append_inj h rfl
    exact Prod.ext (code_injective (beBytes_inj.1 hcode)) (beBytes_inj.1 hport)
  · rintro rfl
    rfl

/-- The processed request leaves the decision behind the header in the send buffer. -/
theorem processRequest_eq {readSize sendSize : ℕ} (vxiServer : VxiServer) (port0 : UInt32)
    {base : ℕ} (request : Buffer readSize) (response : Buffer sendSize) (hr : base + 24 ≤ readSize)
    (hs : base + 28 ≤ sendSize) :
    processRequest vxiServer port0 base request response =
      .ok (response.patch (base + 20) (bindBody (decisionOn vxiServer port0 base request))) := by
  have hr' : ∀ k < 6, base + member k + 4 ≤ readSize := fun k hk ↦ by
    show base + 4 * k + 4 ≤ readSize
    omega
  have hs' : ∀ k < 7, base + member k + 4 ≤ sendSize := fun k hk ↦ by
    show base + 4 * k + 4 ≤ sendSize
    omega
  rw [processRequest, loadField_eq_ok _ (hr' 3 (by decide)), ok_bind,
    loadField_eq_ok _ (hr' 5 (by decide)), ok_bind]
  show (response.storeField (base + member 5)
    (decisionOn vxiServer port0 base request).1.code >>= fun response ↦
      response.storeField (base + member 6) (decisionOn vxiServer port0 base request).2) = _
  rw [storeField_eq_ok _ (hs' 5 (by decide)), ok_bind,
    storeField_patch _ (by rfl) (hs' 6 (by decide))]
  rfl

/-! ### The replies -/

/-- **The reply to the request in the UDP read buffer.** -/
theorem respondUdp_eq (s : RpcBindServer) (vxiServer : VxiServer) (port0 : UInt32) :
    ∃ response, s.respondUdp vxiServer port0 = .ok ({ s with udpSendBuffer := response },
      replyHeader (s.udpReadBuffer.word 0) ++
        bindBody (decisionOn vxiServer port0 0 s.udpReadBuffer)) := by
  set body := bindBody (decisionOn vxiServer port0 0 s.udpReadBuffer) with hbody
  obtain ⟨response, hsend⟩ := sendBindPacketUdp_eq s.udpReadBuffer (s.udpSendBuffer.patch 20 body)
    BindResponsePacket.size (by decide) (by decide)
  have hslice : (s.udpSendBuffer.patch 20 body).slice 20 8 = body :=
    slice_patch_self _ (by show 20 + 8 ≤ 32; decide)
  refine ⟨response, ?_⟩
  rw [respondUdp, processRequest_eq _ _ _ _ (by decide) (by decide), ok_bind]
  show (sendBindPacketUdp s.udpReadBuffer (s.udpSendBuffer.patch 20 body) _ >>= _) = _
  rw [hsend, ok_bind, show BindResponsePacket.size - 20 = 8 by rfl, hslice]
  rfl

/-- **The reply to the request in the TCP read buffer.** -/
theorem respondTcp_eq (s : RpcBindServer) (vxiServer : VxiServer) (port0 : UInt32) :
    ∃ response, s.respondTcp vxiServer port0 = .ok ({ s with tcpSendBuffer := response },
      replyRecord (s.tcpReadBuffer.word 4)
        (bindBody (decisionOn vxiServer port0 prefixSize s.tcpReadBuffer))) := by
  set body := bindBody (decisionOn vxiServer port0 prefixSize s.tcpReadBuffer) with hbody
  obtain ⟨response, hsend⟩ := sendPacket_eq s.tcpReadBuffer (s.tcpSendBuffer.patch 24 body)
    BindResponsePacket.size (by decide) (by decide) (by decide)
  have hslice : (s.tcpSendBuffer.patch 24 body).slice 24 8 = body :=
    slice_patch_self _ (by show 24 + 8 ≤ 32; decide)
  refine ⟨response, ?_⟩
  rw [respondTcp, processRequest_eq _ _ _ _ (by decide) (by decide), ok_bind]
  show (sendBindPacketTcp s.tcpReadBuffer (s.tcpSendBuffer.patch 24 body) _ >>= _) = _
  rw [sendBindPacketTcp, hsend, ok_bind, show BindResponsePacket.size - 20 = 8 by rfl, hslice]
  rfl

/-! ### A call of the loop -/

section Loop

variable {s : RpcBindServer} {vxiServer : VxiServer} {input : LoopInput}

/-- While the VXI server is busy no request is read. -/
theorem loop_of_not_available (h : vxiServer.available = false) :
    s.loop vxiServer input = .ok (s, []) := by
  rw [loop, if_neg (by simp [h])]
  rfl

/-- A datagram that is waiting is answered. -/
theorem loop_of_datagram (h : vxiServer.available = true) (hd : input.datagram ≠ []) :
    ∃ s', s.loop vxiServer input = .ok (s',
      [.sendUdp (replyHeader ((s.udpReadBuffer.patch 0 (input.datagram.take udpReadSize)).word 0) ++
        bindBody (decisionOn vxiServer input.port0 0
          (s.udpReadBuffer.patch 0 (input.datagram.take udpReadSize))))]) := by
  have hpos : input.datagram.length > 0 := List.length_pos_iff.2 hd
  have hpos' : (input.datagram.take udpReadSize).length > 0 := by
    rw [List.length_take]
    show min 64 _ > 0
    omega
  have hfit : 0 + (input.datagram.take udpReadSize).length ≤ udpReadSize := by
    rw [Nat.zero_add]
    exact List.length_take_le _ _
  obtain ⟨response, hrespond⟩ := respondUdp_eq
    { s with udpReadBuffer := s.udpReadBuffer.patch 0 (input.datagram.take udpReadSize) }
    vxiServer input.port0
  refine ⟨{ s with udpReadBuffer := s.udpReadBuffer.patch 0 (input.datagram.take udpReadSize),
                   udpSendBuffer := response }, ?_⟩
  rw [loop, if_pos h, if_pos hpos, getBindPacketUdp, store_eq_ok _ hfit, ok_bind, pure_eq_ok,
    ok_bind]
  dsimp only
  rw [if_pos hpos', hrespond]
  rfl

/-- A connection that is offered when no datagram is waiting: its record is answered, unless its
length is zero. -/
theorem loop_of_connection (h : vxiServer.available = true) (hd : input.datagram = [])
    {c : NetClient} (ho : input.offered = some c) {p : UInt16} (hp : s.tcp.mServer = some p) :
    ∃ s', s.loop vxiServer input = .ok (s', .server (.available p) ::
      if (receive tcpReadSize c).len = 0 then [] else
        [.sendTcp (replyRecord ((s.tcpReadBuffer.patch 0 (receive tcpReadSize c).bytes).word 4)
          (bindBody (decisionOn vxiServer input.port0 prefixSize
            (s.tcpReadBuffer.patch 0 (receive tcpReadSize c).bytes))))]) := by
  have haccept : s.tcp.accept input.offered = (some c, [.available p]) := by
    rw [NetServerExt.accept, hp, ho]
  obtain ⟨response, hrespond⟩ := respondTcp_eq
    { s with tcpReadBuffer := s.tcpReadBuffer.patch 0 (receive tcpReadSize c).bytes }
    vxiServer input.port0
  rw [loop, if_pos h, if_neg (by simp [hd]), haccept]
  simp only [getBindPacketTcp, getPacket_eq (show 4 ≤ tcpReadSize by decide), ok_bind]
  rcases eq_or_ne ((receive tcpReadSize c).len) 0 with hlen | hlen
  · rw [if_neg (not_not.2 hlen), if_pos hlen]
    exact ⟨_, rfl⟩
  · rw [if_pos hlen, if_neg hlen, hrespond]
    exact ⟨_, rfl⟩

/-- Without a datagram and without a connection nothing is answered. -/
theorem loop_of_nothing (h : vxiServer.available = true) (hd : input.datagram = [])
    (ho : (s.tcp.accept input.offered).1 = none) :
    s.loop vxiServer input = .ok (s, (s.tcp.accept input.offered).2.map .server) := by
  rw [loop, if_pos h, if_neg (by simp [hd])]
  dsimp only
  rw [ho]
  rfl

end Loop

/-! ### Whether a reply is determined by its request -/

/-- The call asks the port mapper for a port. -/
def AsksForPort (call : List UInt8) : Prop :=
  wordAt call RpcRequestPacket.program = Rpc.Program.portmap.code ∧
    wordAt call RpcRequestPacket.procedure = Rpc.Procedure.getPort.code

/-- What the bind server puts out on a datagram, from a send buffer and an uninitialized local. -/
def onDatagram (s : RpcBindServer) (vxiServer : VxiServer) (datagram : List UInt8)
    (sendBuffer : Buffer udpSendSize) (port0 : UInt32) : Except Fault (List BindAction) :=
  (·.2) <$> { s with udpSendBuffer := sendBuffer }.loop vxiServer { datagram, port0 }

/-- What the bind server puts out on a connection, from a send buffer and an uninitialized local. -/
def onConnection (s : RpcBindServer) (vxiServer : VxiServer) (client : NetClient)
    (sendBuffer : Buffer tcpSendSize) (port0 : UInt32) : Except Fault (List BindAction) :=
  (·.2) <$> { s with tcpSendBuffer := sendBuffer }.loop vxiServer { offered := some client, port0 }

/-- The decision depends on the uninitialized local unless a port is asked for. -/
theorem decideRequest_determined_iff (vxiServer : VxiServer) (program procedure : UInt32) :
    (∀ port0 port0', decideRequest vxiServer port0 program procedure =
        decideRequest vxiServer port0' program procedure) ↔
      program = Rpc.Program.portmap.code ∧ procedure = Rpc.Procedure.getPort.code := by
  constructor
  · intro h
    have h01 := h 0 1
    by_contra hnot
    rw [not_and_or] at hnot
    rcases eq_or_ne program Rpc.Program.portmap.code with hprogram | hprogram
    · have hprocedure := hnot.resolve_left (not_not.2 hprogram)
      simp [decideRequest, hprogram, hprocedure] at h01
    · simp [decideRequest, hprogram] at h01
  · rintro ⟨hprogram, hprocedure⟩ port0 port0'
    simp [decideRequest, hprogram, hprocedure]

/-- The fields of a datagram in the read buffer. -/
theorem word_datagram (b : Buffer udpReadSize) {datagram : List UInt8} {i : ℕ}
    (h : i + 4 ≤ datagram.length) (hi : i + 4 ≤ 64) :
    (b.patch 0 (datagram.take udpReadSize)).word i = wordAt datagram i := by
  have hlen : (datagram.take udpReadSize).length = min 64 datagram.length := List.length_take
  have hwithin := word_patch_within b (i := 0) (k := i) (w := datagram.take udpReadSize)
    (by rw [hlen]; show 0 + min 64 _ ≤ 64; omega) (by omega)
  rw [Nat.zero_add] at hwithin
  rw [hwithin, wordAt, wordAt, List.drop_take, List.take_take, Nat.min_eq_left (by
    show 4 ≤ 64 - i
    omega)]

/-- The fields of a record in the read buffer. -/
theorem word_connection (b : Buffer tcpReadSize) {c : NetClient} {r : Record} {rest : List UInt8}
    (hc : c.Prompt) (hrx : c.rx = r.bytes ++ rest) (hlong : 4 < r.body.length) {i : ℕ}
    (h : i + 4 ≤ r.body.length) (hi : i + 4 ≤ 60) :
    (b.patch 0 (receive tcpReadSize c).bytes).word (4 + i) = wordAt r.body i := by
  have htaken : i + 4 ≤ taken tcpReadSize r.body.length := by
    rw [taken, if_pos hlong]
    show i + 4 ≤ min _ 60
    omega
  have hlen : (r.body.take (taken tcpReadSize r.body.length)).length =
      taken tcpReadSize r.body.length := List.length_take_of_le (taken_le _ _)
  have hle : taken tcpReadSize r.body.length ≤ 60 := by
    rw [taken, if_pos (by omega)]
    exact Nat.min_le_right _ _
  rw [receive_of_record tcpReadSize hc hrx]
  have hwithin := word_patch_within b (i := 0) (k := 4 + i)
    (w := beBytes r.lead ++ r.body.take (taken tcpReadSize r.body.length))
    (by rw [List.length_append, length_beBytes, hlen]; show 0 + (4 + _) ≤ 64; omega)
    (by rw [List.length_append, length_beBytes, hlen]; omega)
  rw [Nat.zero_add] at hwithin
  rw [hwithin, wordAt, wordAt, ← List.drop_drop, List.drop_left' (length_beBytes _),
    List.drop_take, List.take_take, Nat.min_eq_left (by omega)]

/-- The decision on a request, given as its bytes. -/
def decisionFor (vxiServer : VxiServer) (port0 : UInt32) (request : List UInt8) :
    Rpc.RpcStatus × UInt32 :=
  decideRequest vxiServer port0 (wordAt request RpcRequestPacket.program)
    (wordAt request RpcRequestPacket.procedure)

/-- **A datagram that reaches behind the procedure is answered** by the decision on it. -/
theorem loop_of_request_datagram {s : RpcBindServer} {vxiServer : VxiServer}
    (hv : vxiServer.available = true) (input : LoopInput) (hd : 24 ≤ input.datagram.length) :
    ∃ s', s.loop vxiServer input = .ok (s', [.sendUdp (replyHeader (wordAt input.datagram 0) ++
      bindBody (decisionFor vxiServer input.port0 input.datagram))]) := by
  have hne : input.datagram ≠ [] := fun h ↦ by simp [h] at hd
  have hword : ∀ i, i + 4 ≤ 24 → _ := fun i hi ↦
    word_datagram s.udpReadBuffer (i := i) (hi.trans hd) (hi.trans (by decide))
  obtain ⟨s', h⟩ := loop_of_datagram (s := s) hv hne
  refine ⟨s', ?_⟩
  rw [h, decisionOn, hword 0 (by decide), hword _ (by decide), hword _ (by decide), Nat.zero_add,
    Nat.zero_add]
  rfl

/-- **So is a record that reaches behind the procedure.** -/
theorem loop_of_request_record {s : RpcBindServer} {vxiServer : VxiServer}
    (hv : vxiServer.available = true) (input : LoopInput) (hd : input.datagram = [])
    {c : NetClient} (ho : input.offered = some c) {r : Record} {rest : List UInt8} (hc : c.Prompt)
    (hrx : c.rx = r.bytes ++ rest) (hr : 24 ≤ r.body.length) {p : UInt16}
    (hp : s.tcp.mServer = some p) :
    ∃ s', s.loop vxiServer input = .ok (s', [.server (.available p),
      .sendTcp (replyRecord (wordAt r.body 0)
        (bindBody (decisionFor vxiServer input.port0 r.body)))]) := by
  have hlen : (receive tcpReadSize c).len ≠ 0 := by
    rw [receive_of_record tcpReadSize hc hrx]
    dsimp only
    rw [if_pos (by omega)]
    show ¬ min _ 60 = 0
    omega
  have hword : ∀ i, i + 4 ≤ 24 → _ := fun i hi ↦
    word_connection s.tcpReadBuffer hc hrx (by omega) (i := i) (hi.trans hr)
      (hi.trans (by decide))
  obtain ⟨s', h⟩ := loop_of_connection (s := s) hv hd ho hp
  refine ⟨s', ?_⟩
  rw [h, if_neg hlen, decisionOn, hword 0 (by decide), hword _ (by decide), hword _ (by decide)]
  rfl

/-- What is put out on a datagram. -/
theorem onDatagram_eq (s : RpcBindServer) {vxiServer : VxiServer} (hv : vxiServer.available = true)
    {datagram : List UInt8} (hd : 24 ≤ datagram.length) (sendBuffer : Buffer udpSendSize)
    (port0 : UInt32) :
    onDatagram s vxiServer datagram sendBuffer port0 =
      .ok [.sendUdp (replyHeader (wordAt datagram 0) ++
        bindBody (decisionFor vxiServer port0 datagram))] := by
  obtain ⟨s', h⟩ := loop_of_request_datagram (s := { s with udpSendBuffer := sendBuffer }) hv
    { datagram, port0 } hd
  rw [onDatagram, h, map_ok]

/-- What is put out on a connection that brings a record. -/
theorem onConnection_eq (s : RpcBindServer) {vxiServer : VxiServer}
    (hv : vxiServer.available = true) {c : NetClient} {r : Record} {rest : List UInt8}
    (hc : c.Prompt) (hrx : c.rx = r.bytes ++ rest) (hr : 24 ≤ r.body.length) {p : UInt16}
    (hp : s.tcp.mServer = some p) (sendBuffer : Buffer tcpSendSize) (port0 : UInt32) :
    onConnection s vxiServer c sendBuffer port0 =
      .ok [.server (.available p), .sendTcp (replyRecord (wordAt r.body 0)
        (bindBody (decisionFor vxiServer port0 r.body)))] := by
  obtain ⟨s', h⟩ := loop_of_request_record (s := { s with tcpSendBuffer := sendBuffer }) hv
    { offered := some c, port0 } rfl rfl hc hrx hr hp
  rw [onConnection, h, map_ok]

/-- **A bind reply is determined by its request exactly if the request asks for a port.** The
request is a datagram or a record with a complete header; what may differ is the earlier contents of
the send buffer and the uninitialized local. On the error paths the local is sent to the client. -/
theorem reply_determined_iff (s : RpcBindServer) {vxiServer : VxiServer}
    (hv : vxiServer.available = true) {datagram : List UInt8} (hd : 40 ≤ datagram.length)
    {c : NetClient} {r : Record} {rest : List UInt8} (hc : c.Prompt) (hrx : c.rx = r.bytes ++ rest)
    (hr : 40 ≤ r.body.length) {p : UInt16} (hp : s.tcp.mServer = some p) :
    ((∀ send send' port0 port0', onDatagram s vxiServer datagram send port0 =
        onDatagram s vxiServer datagram send' port0') ↔ AsksForPort datagram) ∧
    ((∀ send send' port0 port0', onConnection s vxiServer c send port0 =
        onConnection s vxiServer c send' port0') ↔ AsksForPort r.body) := by
  have hd' : 24 ≤ datagram.length := by omega
  have hr' : 24 ≤ r.body.length := by omega
  constructor
  · rw [AsksForPort, ← decideRequest_determined_iff vxiServer]
    constructor
    · intro h port0 port0'
      have heq := h s.udpSendBuffer s.udpSendBuffer port0 port0'
      rw [onDatagram_eq s hv hd', onDatagram_eq s hv hd', Except.ok.injEq, List.singleton_inj,
        BindAction.sendUdp.injEq] at heq
      exact bindBody_inj.1 (List.append_cancel_left heq)
    · intro h send send' port0 port0'
      rw [onDatagram_eq s hv hd', onDatagram_eq s hv hd', decisionFor, h port0 port0', decisionFor]
  · rw [AsksForPort, ← decideRequest_determined_iff vxiServer]
    constructor
    · intro h port0 port0'
      have heq := h s.tcpSendBuffer s.tcpSendBuffer port0 port0'
      rw [onConnection_eq s hv hc hrx hr' hp, onConnection_eq s hv hc hrx hr' hp, Except.ok.injEq,
        List.cons.injEq, List.singleton_inj, BindAction.sendTcp.injEq] at heq
      exact bindBody_inj.1
        (replyRecord_inj ((length_bindBody _).trans (length_bindBody _).symm) heq.2).2
    · intro h send send' port0 port0'
      rw [onConnection_eq s hv hc hrx hr' hp, onConnection_eq s hv hc hrx hr' hp, decisionFor,
        h port0 port0', decisionFor]

/-- A datagram for a program that is not the port mapper. -/
theorem reply_not_determined :
    ¬ ∀ (s : RpcBindServer) (vxiServer : VxiServer) (datagram : List UInt8),
      vxiServer.available = true → 40 ≤ datagram.length →
        ∀ send send' port0 port0', onDatagram s vxiServer datagram send port0 =
          onDatagram s vxiServer datagram send' port0' := by
  intro h
  have heq := h System.setup.1.bind System.setup.1.vxi (callHeader 7 0 0) rfl (by decide) (.zero _)
    (.zero _) 0 77
  rw [onDatagram_eq _ rfl (by decide), onDatagram_eq _ rfl (by decide)] at heq
  exact absurd heq (by decide +kernel)

/-- A request for the port of the VXI server. -/
def portRequest : List UInt8 :=
  callHeader 7 Rpc.Program.portmap.code Rpc.Procedure.getPort.code ++ List.replicate 16 0

theorem reply_determined_iff_portRequest :
    let c := NetClient.ofStream ((Record.lastFragment portRequest (by decide)).bytes ++ [])
    ((∀ send send' port0 port0',
        onDatagram System.setup.1.bind System.setup.1.vxi portRequest send port0 =
          onDatagram System.setup.1.bind System.setup.1.vxi portRequest send' port0') ↔
      AsksForPort portRequest) ∧
    ((∀ send send' port0 port0',
        onConnection System.setup.1.bind System.setup.1.vxi c send port0 =
          onConnection System.setup.1.bind System.setup.1.vxi c send' port0') ↔
      AsksForPort (Record.lastFragment portRequest (by decide)).body) :=
  reply_determined_iff System.setup.1.bind rfl (by decide) (NetClient.prompt_ofStream _) rfl
    (by decide) rfl

end RpcBindServer

end EspBode
