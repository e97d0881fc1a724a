import EspBode.Verification.BindReplies

/-!
# Bind replies over UDP and over TCP

The two transports of a bind request end in the same reply. What is sent over UDP is the header and
the body of the reply; over TCP the same 28 bytes stand behind a prefix that declares them
(`replyRecord_bindBody`). `RepliesTo` says field by field what a reply to a request is, and the port
behind the status is that of the VXI server if the request asks for it (`replies_agree`).

**On the error paths the port is an uninitialized local**, which is all in which the two can differ:
each transport calls `process_request` for itself, with what is on the stack at the time. So the
statement takes two such values, and the ports are equal if they are, or if none of the two is used.

It rests on the equations for a call of the loop with a request that reaches behind the procedure
(`loop_of_request_datagram`, `loop_of_request_record`). They are there for any contents of the four
buffers, since the fields that are read stand within what was received, and all that is sent is
written before. The lower bound on the length of a request is for that reason the place where the
procedure ends, and the upper bound is what the read buffer of TCP holds behind the prefix.
-/

namespace EspBode

namespace RpcBindServer

/-- The bytes are a reply to the bind request, up to the port that they carry. -/
structure RepliesTo (request reply : List UInt8) : Prop where
  length_eq : reply.length = BindResponsePacket.size
  xid_eq : wordAt reply RpcResponsePacket.xid = wordAt request RpcRequestPacket.xid
  msgType_eq : wordAt reply RpcResponsePacket.msgType = Rpc.MsgType.reply.code
  replyState_eq : wordAt reply RpcResponsePacket.replyState = Rpc.ReplyState.msgAccepted.code
  verifierL_eq : wordAt reply RpcResponsePacket.verifierL = 0
  verifierH_eq : wordAt reply RpcResponsePacket.verifierH = 0
  success_iff : wordAt reply RpcResponsePacket.rpcStatus = Rpc.RpcStatus.success.code ↔
    AsksForPort request
  progUnavail_iff : wordAt reply RpcResponsePacket.rpcStatus = Rpc.RpcStatus.progUnavail.code ↔
    wordAt request RpcRequestPacket.program ≠ Rpc.Program.portmap.code
  procUnavail_iff : wordAt reply RpcResponsePacket.rpcStatus = Rpc.RpcStatus.procUnavail.code ↔
    wordAt request RpcRequestPacket.program = Rpc.Program.portmap.code ∧
      wordAt request RpcRequestPacket.procedure ≠ Rpc.Procedure.getPort.code

/-- The status of the reply to a request. -/
def bindStatus (request : List UInt8) : Rpc.RpcStatus :=
  if wordAt request RpcRequestPacket.program ≠ Rpc.Program.portmap.code then .progUnavail
  else if wordAt request RpcRequestPacket.procedure ≠ Rpc.Procedure.getPort.code then .procUnavail
  else .success

/-- A reply with this status replies to the request, whatever port it carries. -/
theorem repliesTo_bindStatus (request : List UInt8) (port : UInt32) :
    RepliesTo request (replyHeader (wordAt request 0) ++ bindBody (bindStatus request, port)) := by
  have hfield : ∀ k < 5, wordAt (replyHeader (wordAt request 0) ++
      bindBody (bindStatus request, port)) (member k) =
        wordAt (replyHeader (wordAt request 0)) (member k) := fun k hk ↦
    wordAt_append_left (by rw [length_replyHeader]; show 4 * k + 4 ≤ 20; omega)
  have hstatus : wordAt (replyHeader (wordAt request 0) ++ bindBody (bindStatus request, port))
      RpcResponsePacket.rpcStatus = (bindStatus request).code := by
    rw [wordAt_append_right (by rw [length_replyHeader])]
    exact beWord_beBytes _
  have hcode : ∀ rc : Rpc.RpcStatus, wordAt (replyHeader (wordAt request 0) ++
      bindBody (bindStatus request, port)) RpcResponsePacket.rpcStatus = rc.code ↔
        bindStatus request = rc := fun rc ↦ by
    rw [hstatus]
    exact code_injective.eq_iff
  refine ⟨rfl, ?_, ?_, ?_, ?_, ?_, ?_, ?_, ?_⟩
  · rw [hfield 0 (by decide)]
    exact beWord_beBytes _
  · rw [hfield 1 (by decide)]
    exact beWord_beBytes _
  · rw [hfield 2 (by decide)]
    exact beWord_beBytes _
  · rw [hfield 3 (by decide)]
    exact beWord_beBytes _
  · rw [hfield 4 (by decide)]
    exact beWord_beBytes _
  all_goals
    rw [hcode, bindStatus]
    split_ifs with hprogram hprocedure <;> simp_all [AsksForPort]

/-- The decision while the VXI server has a port to give. -/
theorem decisionFor_of_available {vxiServer : VxiServer} (hv : vxiServer.available = true)
    (hport : vxiServer.vxiPort.toUInt32 ≠ 0) (port0 : UInt32) (request : List UInt8) :
    decisionFor vxiServer port0 request = (bindStatus request,
      if bindStatus request = .success then vxiServer.vxiPort.toUInt32 else port0) := by
  have hallocate : vxiServer.allocate = vxiServer.vxiPort.toUInt32 := by
    rw [VxiServer.allocate, if_pos hv]
  rw [decisionFor, decideRequest, bindStatus, hallocate]
  split_ifs with hprogram hprocedure <;> simp_all

/-- The record that carries a bind reply: its prefix, and the bytes that are sent over UDP. -/
theorem replyRecord_bindBody (xid : UInt32) (decision : Rpc.RpcStatus × UInt32) :
    replyRecord xid (bindBody decision) =
      [0x80, 0x00, 0x00, 0x1C] ++ (replyHeader xid ++ bindBody decision) := by
  have hpayload : replyPayload xid (bindBody decision) = replyHeader xid ++ bindBody decision := by
    rw [replyPayload, length_bindBody]
    exact List.append_nil _
  have hprefix : beBytes (0x80000000 ||| UInt32.ofNat 28) = [0x80, 0x00, 0x00, 0x1C] := by decide
  have hlength : (replyHeader xid ++ bindBody decision).length = 28 := rfl
  rw [replyRecord, hpayload, hlength, hprefix]

/-- **Bind replies over UDP and TCP agree.** A request of 24 to 60 bytes, as a datagram and as a
record, while the VXI server is free: 28 bytes, and the same behind their prefix. -/
theorem replies_agree (s : RpcBindServer) (vxiServer : VxiServer) (r : Record)
    (hv : vxiServer.available = true)
    (hport : Rpc.vxiPortStart ≤ vxiServer.vxiPort.toUInt32 ∧
      vxiServer.vxiPort.toUInt32 ≤ Rpc.vxiPortEnd)
    (hlen : 24 ≤ r.body.length ∧ r.body.length ≤ 60) {c : NetClient} (hc : c.Prompt)
    {rest : List UInt8} (hrx : c.rx = r.bytes ++ rest) {p : UInt16} (hp : s.tcp.mServer = some p)
    (offered : Option NetClient) (port0 port0' : UInt32) :
    ∃ s₁ s₂ u t,
      s.loop vxiServer { datagram := r.body, offered, port0 } = .ok (s₁, [.sendUdp u]) ∧
      s.loop vxiServer { offered := some c, port0 := port0' } =
        .ok (s₂, [.server (.available p), .sendTcp ([0x80, 0x00, 0x00, 0x1C] ++ t)]) ∧
      RepliesTo r.body u ∧ RepliesTo r.body t ∧ u.take 24 = t.take 24 ∧
      (AsksForPort r.body → u.drop 24 = beBytes vxiServer.vxiPort.toUInt32 ∧
        t.drop 24 = beBytes vxiServer.vxiPort.toUInt32 ∧ u = t) := by
  have hport0 : vxiServer.vxiPort.toUInt32 ≠ 0 := fun h0 ↦ by
    rw [h0] at hport
    exact absurd hport.1 (by decide)
  obtain ⟨s₁, hudp⟩ := loop_of_request_datagram (s := s) hv
    { datagram := r.body, offered, port0 } hlen.1
  obtain ⟨s₂, htcp⟩ := loop_of_request_record (s := s) hv
    { offered := some c, port0 := port0' } rfl rfl hc hrx hlen.1 hp
  rw [decisionFor_of_available hv hport0] at hudp htcp
  rw [replyRecord_bindBody] at htcp
  refine ⟨s₁, s₂, _, _, hudp, htcp, repliesTo_bindStatus _ _, repliesTo_bindStatus _ _, rfl,
    fun hasks ↦ ?_⟩
  have hsuccess : bindStatus r.body = .success := by
    rw [bindStatus, if_neg (not_not.2 hasks.1), if_neg (not_not.2 hasks.2)]
  rw [if_pos hsuccess, if_pos hsuccess]
  exact ⟨rfl, rfl, rfl⟩

/-- The request for a port as a record. -/
def portRecord : Record :=
  .lastFragment portRequest (by decide)

theorem replies_agree_portRecord :
    ∃ s₁ s₂ u t,
      System.setup.1.bind.loop System.setup.1.vxi { datagram := portRecord.body } =
        .ok (s₁, [.sendUdp u]) ∧
      System.setup.1.bind.loop System.setup.1.vxi
          { offered := some (.ofStream (portRecord.bytes ++ [])) } =
        .ok (s₂, [.server (.available Rpc.bindPort),
          .sendTcp ([0x80, 0x00, 0x00, 0x1C] ++ t)]) ∧
      RepliesTo portRecord.body u ∧ RepliesTo portRecord.body t ∧ u.take 24 = t.take 24 ∧
      (AsksForPort portRecord.body →
        u.drop 24 = beBytes System.setup.1.vxi.vxiPort.toUInt32 ∧
        t.drop 24 = beBytes System.setup.1.vxi.vxiPort.toUInt32 ∧ u = t) :=
  replies_agree System.setup.1.bind System.setup.1.vxi portRecord rfl (by decide) (by decide)
    (NetClient.prompt_ofStream _) rfl rfl none 0 0

end RpcBindServer

end EspBode
