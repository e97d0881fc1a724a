import EspBode.Firmware.System
import EspBode.Foundations.Xdr
import EspBode.Verification.Requests

/-!
# Read replies as a client reads them

The client's side of a read request. It takes the fragment off the bytes that were sent, and off the
fragment nine words, as much data as the last of them counts, and what fills the data up to a
multiple of 4 (`ReadReply.decode`). `VxiServer.read_decodes` says that this gives back the
identification, of whatever length the send buffer has room for, and leaves no byte over.

The decoder is written from the format, and not from the server: it is a chain of the readers of the
XDR library, each of which takes something off the front and hands on the rest. So a proof that it
reads a stream is one step for each reader (`reads_ofFragment`), and the stream has to be shown as
the fields one behind the other, in the same order.

* The fragment's length is in the lower 31 bits of the first word; the top bit, which marks the last
  fragment of a record, does not count (`toNat_lead`).
* What fills the data up is computed by the server from the length of the whole packet, and by the
  client from the length of the data. The two agree, because everything in front of the data is a
  multiple of 4 long.

Nothing is assumed of the send buffer. What an earlier and longer reply has left in it stands behind
the record and is not sent.
-/

namespace EspBode

open Xdr Answer

/-- The reply to a read request, as its client reads it. -/
structure ReadReply where
  xid : UInt32
  msgType : UInt32
  replyState : UInt32
  verifierL : UInt32
  verifierH : UInt32
  rpcStatus : UInt32
  error : UInt32
  reason : UInt32
  dataLen : UInt32
  data : List UInt8
  padding : List UInt8
  deriving DecidableEq, Repr

namespace ReadReply

/-- The reply in a fragment. -/
def ofFragment : Decoder ReadReply := do
  let xid ← word
  let msgType ← word
  let replyState ← word
  let verifierL ← word
  let verifierH ← word
  let rpcStatus ← word
  let error ← word
  let reason ← word
  let dataLen ← word
  let data ← bytes dataLen.toNat
  let padding ← bytes (fill dataLen.toNat)
  return { xid, msgType, replyState, verifierL, verifierH, rpcStatus, error, reason, dataLen, data,
           padding }

/-- The reply in the bytes of a record, and the bytes that are left over within the fragment and
behind it. -/
def decode (sent : List UInt8) : Option (ReadReply × List UInt8) := do
  let (payload, behind) ← fragment sent
  let (reply, left) ← ofFragment payload
  return (reply, left ++ behind)

/-- The reply that hands over the identification. -/
def ofId (xid : UInt32) (id : List UInt8) : ReadReply where
  xid := xid
  msgType := Rpc.MsgType.reply.code
  replyState := Rpc.ReplyState.msgAccepted.code
  verifierL := 0
  verifierH := 0
  rpcStatus := Rpc.RpcStatus.success.code
  error := Rpc.Error.noError.code
  reason := Rpc.Reason.end'.code
  dataLen := UInt32.ofNat id.length
  data := id
  padding := List.replicate (fill id.length) 0

/-- The words of a reply one behind the other, its data and what fills it up. -/
theorem reads_ofFragment (r : ReadReply) (hdata : r.data.length = r.dataLen.toNat)
    (hpadding : r.padding.length = fill r.dataLen.toNat) :
    Reads ofFragment (beBytes r.xid ++ (beBytes r.msgType ++ (beBytes r.replyState ++
      (beBytes r.verifierL ++ (beBytes r.verifierH ++ (beBytes r.rpcStatus ++ (beBytes r.error ++
        (beBytes r.reason ++ (beBytes r.dataLen ++ (r.data ++ (r.padding ++ []))))))))))) r := by
  refine (reads_word _).bind ?_
  refine (reads_word _).bind ?_
  refine (reads_word _).bind ?_
  refine (reads_word _).bind ?_
  refine (reads_word _).bind ?_
  refine (reads_word _).bind ?_
  refine (reads_word _).bind ?_
  refine (reads_word _).bind ?_
  refine (reads_word _).bind ?_
  refine (reads_bytes hdata).bind ?_
  exact (reads_bytes hpadding).bind (reads_pure _)

end ReadReply

/-- The top bit of a record's word does not count. -/
theorem toNat_lead {n : ℕ} (h : n < 2 ^ 31) :
    ((0x80000000 ||| UInt32.ofNat n) &&& 0x7fffffff).toNat = n := by
  have hor : (1 * 2 ^ 31 ||| n) = 1 * 2 ^ 31 + n := or_eq_add_of_lt h 1
  have hn : (UInt32.ofNat n).toNat = n := UInt32.toNat_ofNat_of_lt' (by show n < 2 ^ 32; omega)
  rw [toNat_and_mask, UInt32.toNat_or, hn]
  show (1 * 2 ^ 31 ||| n) % 2 ^ 31 = n
  rw [hor]
  omega

/-- The fragment of a reply record is its payload. -/
theorem fragment_replyRecord {xid : UInt32} {body : List UInt8}
    (h : (replyPayload xid body).length < 2 ^ 31) :
    fragment (replyRecord xid body) = some (replyPayload xid body, []) := by
  have hreads : Reads fragment (replyRecord xid body) (replyPayload xid body) :=
    reads_fragment (toNat_lead h)
  have hrecord := hreads []
  rwa [List.append_nil] at hrecord

/-- The payload of the reply to a read request, field by field. -/
theorem ofFragment_replyPayload (xid : UInt32) {awg : AwgServer} (h : awg.id.length < 2 ^ 32) :
    ReadReply.ofFragment (replyPayload xid (readBody awg)) =
      some (.ofId xid awg.id, []) := by
  have hlen : (UInt32.ofNat awg.id.length).toNat = awg.id.length := UInt32.toNat_ofNat_of_lt' h
  have hbody : (readBody awg).length = 16 + awg.id.length := List.length_append
  have hpadding : padding (20 + (readBody awg).length) = List.replicate (fill awg.id.length) 0 := by
    rw [padding, hbody, fill]
    congr 2
    omega
  have hreads := ReadReply.reads_ofFragment (.ofId xid awg.id) hlen.symm
    ((List.length_replicate).trans (congrArg fill hlen.symm)) []
  rw [List.append_nil, List.append_nil] at hreads
  rw [replyPayload, hpadding]
  simp only [readBody, noError, replyHeader, List.append_assoc]
  exact hreads

namespace VxiServer

/-- **A read reply decodes to the identification.** Whatever has been in the send buffer, the read
handler stays within it, and what it sends is one record with the identification in it. -/
theorem read_decodes (s : VxiServer) (awg : AwgServer) (h : awg.id.length ≤ 215) :
    ∃ response sent, s.read awg = .ok ({ s with vxiSendBuffer := response }, [.send sent]) ∧
      ReadReply.decode sent = some (.ofId (VxiRequest.xid s.vxiReadBuffer) awg.id, []) := by
  obtain ⟨response, hread⟩ := read_eq s (Nat.lt_succ_of_le h)
  have hbody : (readBody awg).length = 16 + awg.id.length := List.length_append
  have hpayload := length_replyPayload (VxiRequest.xid s.vxiReadBuffer) (readBody awg)
  refine ⟨response, _, hread, ?_⟩
  rw [ReadReply.decode, fragment_replyRecord (by omega)]
  show (ReadReply.ofFragment _ >>= _) = _
  rw [ofFragment_replyPayload _ (by omega)]
  rfl

theorem read_decodes_base :
    ∃ response sent, System.setup.1.vxi.read .base =
        .ok ({ System.setup.1.vxi with vxiSendBuffer := response }, [.send sent]) ∧
      ReadReply.decode sent =
        some (.ofId (VxiRequest.xid System.setup.1.vxi.vxiReadBuffer) AwgServer.base.id, []) :=
  read_decodes System.setup.1.vxi .base (by decide)

end VxiServer

end EspBode
