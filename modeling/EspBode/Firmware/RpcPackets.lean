import EspBode.Firmware.NetCompat
import EspBode.Firmware.RpcEnums
import EspBode.Firmware.Utilities

/-!
# Receiving and sending packets

The packet structures, as the offsets of their members, and the functions that move packets between
a connection and its buffers. All members in front of a `data` member are `BigEndian32`, so member
`k` of a structure is at offset `4 * k` (`member`). A TCP packet follows a 4-byte prefix in its
buffer (`prefixSize`).

A packet is not a value that is decoded and passed on. The source casts a pointer into the buffer to
the structure and reads and writes its members there, so a field is a **checked access to the
buffer** at the offset of the member, and whatever an earlier packet left in the buffer is still in
it. Whether a reply shows any of that is a question about the accesses.

* The two TCP receive functions are one function at two buffer sizes (`getPacket`), and so are the
  two TCP send functions (`sendPacket`). The source's names stay, as instances.
* `getPacket` returns the length that the prefix declares, up to the size of the buffer. It returns
  it also when fewer bytes have arrived, and when the length is too small for a body to be read.
* `sendPacket` takes the transaction id from the request, pads the packet to a multiple of four with
  zeros, and sets the prefix last. The loop that pads has fuel for three zeros and its last test.

The debug messages are left out, but not what they read: the dump of a packet that was received goes
over all of the declared length, whether or not it is shown.
-/

namespace EspBode

/-! ### Buffer sizes -/

/-- The UDP bind request should be 56 bytes. -/
abbrev udpReadSize : ℕ := 64

/-- The UDP bind response should be 28 bytes. -/
abbrev udpSendSize : ℕ := 32

/-- The TCP bind request should be 56 bytes + 4 bytes for prefix. -/
abbrev tcpReadSize : ℕ := 64

/-- The TCP bind response should be 28 bytes + 4 bytes for prefix. -/
abbrev tcpSendSize : ℕ := 32

/-- The VXI requests should never exceed 128 bytes, but extra allowed. -/
abbrev vxiReadSize : ℕ := 256

/-- The VXI responses should never exceed 128 bytes, but extra allowed. -/
abbrev vxiSendSize : ℕ := 256

/-- The size of the prefix of a TCP packet. -/
abbrev prefixSize : ℕ := 4

/-! ### Packet structures -/

/-- The offset of member `k` of a structure whose members are all 4 bytes long. -/
abbrev member (k : ℕ) : ℕ := 4 * k

namespace RpcRequestPacket

abbrev xid : ℕ := member 0
abbrev program : ℕ := member 3
abbrev procedure : ℕ := member 5

end RpcRequestPacket

namespace RpcResponsePacket

abbrev xid : ℕ := member 0
abbrev msgType : ℕ := member 1
abbrev replyState : ℕ := member 2
abbrev verifierL : ℕ := member 3
abbrev verifierH : ℕ := member 4
abbrev rpcStatus : ℕ := member 5
abbrev size : ℕ := member 6

end RpcResponsePacket

namespace BindResponsePacket

abbrev rpcStatus : ℕ := member 5
abbrev vxiPort : ℕ := member 6
abbrev size : ℕ := member 7

end BindResponsePacket

namespace CreateRequestPacket

abbrev dataLen : ℕ := member 13
abbrev data : ℕ := member 14

end CreateRequestPacket

namespace CreateResponsePacket

abbrev rpcStatus : ℕ := member 5
abbrev error : ℕ := member 6
abbrev linkId : ℕ := member 7
abbrev abortPort : ℕ := member 8
abbrev maxReceiveSize : ℕ := member 9
abbrev size : ℕ := member 10

end CreateResponsePacket

namespace DestroyResponsePacket

abbrev rpcStatus : ℕ := member 5
abbrev error : ℕ := member 6
abbrev size : ℕ := member 7

end DestroyResponsePacket

namespace ReadResponsePacket

abbrev rpcStatus : ℕ := member 5
abbrev error : ℕ := member 6
abbrev reason : ℕ := member 7
abbrev dataLen : ℕ := member 8
abbrev data : ℕ := member 9
abbrev size : ℕ := member 9

end ReadResponsePacket

namespace WriteRequestPacket

abbrev dataLen : ℕ := member 14
abbrev data : ℕ := member 15

end WriteRequestPacket

namespace WriteResponsePacket

abbrev rpcStatus : ℕ := member 5
abbrev error : ℕ := member 6
abbrev dataSize : ℕ := member 7
abbrev size : ℕ := member 8

end WriteResponsePacket

/-! ### Receiving -/

/-- Receive a bind request packet via UDP: the datagram, as far as the buffer holds it. -/
def getBindPacketUdp (buf : Buffer udpReadSize) (datagram : List UInt8) :
    Except Fault (ℕ × Buffer udpReadSize) := do
  let received := datagram.take udpReadSize
  return (received.length, ← buf.store 0 received)

/-- Receive a packet via TCP into a buffer of the given size. The first two results are the length
that is returned and the buffer. -/
def getPacket {size : ℕ} (buf : Buffer size) (tcp : NetClient) :
    Except Fault (ℕ × Buffer size × NetClient) := do
  -- set the length to zero in case the following read fails
  let buf ← buf.storeField 0 0
  -- get the FRAG + LENGTH field
  let (bytes, tcp) := tcp.readBytes prefixSize
  let buf ← buf.store 0 bytes
  -- mask out the FRAG bit
  let len := ((← buf.loadField 0) &&& 0x7fffffff).toNat
  if len > 4 then
    -- do not read more than the buffer can hold
    let len := min len (size - 4)
    let (bytes, tcp) := tcp.readBytes len
    let buf ← buf.store prefixSize bytes
    -- the dump of the packet reads all of it, whether or not it is shown
    let _ ← buf.load 0 (len + 4)
    return (len, buf, tcp)
  else
    return (len, buf, tcp)

/-- Receive a bind request packet via TCP. -/
def getBindPacketTcp (buf : Buffer tcpReadSize) (tcp : NetClient) :
    Except Fault (ℕ × Buffer tcpReadSize × NetClient) :=
  getPacket buf tcp

/-- Receive a VXI command request packet via TCP. -/
def getVxiPacket (buf : Buffer vxiReadSize) (tcp : NetClient) :
    Except Fault (ℕ × Buffer vxiReadSize × NetClient) :=
  getPacket buf tcp

/-! ### Sending -/

/-- Fill in the standard response header data; the packet starts at index `base` of the buffer. -/
def fillResponseHeader {size : ℕ} (buffer : Buffer size) (base : ℕ) (xid : UInt32) :
    Except Fault (Buffer size) := do
  let buffer ← buffer.storeField (base + RpcResponsePacket.xid) xid
  let buffer ← buffer.storeField (base + RpcResponsePacket.msgType) Rpc.MsgType.reply.code
  let buffer ← buffer.storeField (base + RpcResponsePacket.replyState)
    Rpc.ReplyState.msgAccepted.code
  let buffer ← buffer.storeField (base + RpcResponsePacket.verifierL) 0
  buffer.storeField (base + RpcResponsePacket.verifierH) 0

/-- Adjust the length of the packet to a multiple of 4, appending 0's to fill the dword. The first
argument is the fuel of the loop. -/
def padPacket {size : ℕ} : ℕ → Buffer size → ℕ → Except Fault (Buffer size × ℕ)
  | 0, _, _ => .error .outOfFuel
  | fuel + 1, buf, len => do
    if len &&& 3 > 0 then
      let buf ← buf.store (prefixSize + len) [0]
      padPacket fuel buf (len + 1)
    else
      return (buf, len)

/-- Send a packet of `len` bytes via TCP, as the response to the request in the read buffer. The
results are the send buffer and the bytes written. -/
def sendPacket {readSize sendSize : ℕ} (request : Buffer readSize) (response : Buffer sendSize)
    (len : ℕ) : Except Fault (Buffer sendSize × List UInt8) := do
  let xid ← request.loadField (prefixSize + RpcRequestPacket.xid)
  let response ← fillResponseHeader response prefixSize xid
  let (response, len) ← padPacket 4 response len
  -- set the FRAG bit and the length
  let response ← response.storeField 0 (0x80000000 ||| UInt32.ofNat len)
  -- add 4 to the length to account for the prefix
  return (response, ← response.load 0 (len + 4))

/-- Send a bind response packet via UDP. -/
def sendBindPacketUdp (request : Buffer udpReadSize) (response : Buffer udpSendSize) (len : ℕ) :
    Except Fault (Buffer udpSendSize × List UInt8) := do
  let xid ← request.loadField RpcRequestPacket.xid
  let response ← fillResponseHeader response 0 xid
  return (response, ← response.load 0 len)

/-- Send a bind response packet via TCP. -/
def sendBindPacketTcp (request : Buffer tcpReadSize) (response : Buffer tcpSendSize) (len : ℕ) :
    Except Fault (Buffer tcpSendSize × List UInt8) :=
  sendPacket request response len

/-- Send a VXI command response packet via TCP. -/
def sendVxiPacket (request : Buffer vxiReadSize) (response : Buffer vxiSendSize) (len : ℕ) :
    Except Fault (Buffer vxiSendSize × List UInt8) :=
  sendPacket request response len

end EspBode
