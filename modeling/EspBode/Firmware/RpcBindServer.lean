import EspBode.Firmware.VxiServer

/-!
# The bind server

`RPC_Bind_Server`, with the four global buffers that only it uses. It answers requests for the port
of the VXI server, over UDP and TCP, and reads none while the VXI server is busy.

`process_request` is one function for the two transports, which is given the base of the packet in
its buffers; the transports differ in the buffers and in the prefix of a TCP record. Its first half
is a pure function of two fields of the request and of the port the VXI server would allocate, so it
stands apart (`decideRequest`), and what is left over is where the status and the port are stored.

Two things are kept as the source has them, since results depend on them:

* **the local `port` is not initialized.** `port0` is what the call finds in it; the branches that
  refuse a request never assign it, and it is put into the response all the same.
* **the fields are read from the buffer and not from what was received.** A datagram that is shorter
  than a request leaves the rest of the buffer to an earlier one, and its fields are then read from
  there.

A call of `loop()` serves one request at most, and a datagram before a connection.
-/

namespace EspBode

/-- What the bind server does beyond changing its state. -/
inductive BindAction
  /-- A datagram is sent back. -/
  | sendUdp (bytes : List UInt8)
  /-- A record is written to the accepted TCP connection. -/
  | sendTcp (bytes : List UInt8)
  /-- A call on the listening TCP server object. -/
  | server (call : ServerCall)
  deriving DecidableEq, Repr

/-- The bind server and the buffers that only it uses. -/
structure RpcBindServer where
  udpReadBuffer : Buffer udpReadSize := .zero _
  udpSendBuffer : Buffer udpSendSize := .zero _
  tcpReadBuffer : Buffer tcpReadSize := .zero _
  tcpSendBuffer : Buffer tcpSendSize := .zero _
  tcp : NetServerExt := {}

namespace RpcBindServer

/-- `begin()`: listen for bind requests. -/
def begin (s : RpcBindServer) : RpcBindServer × List BindAction :=
  let (tcp, calls) := s.tcp.begin Rpc.bindPort
  ({ s with tcp }, calls.map .server)

/-- The decision of `process_request`: the status and the port that are put into the response. -/
def decideRequest (vxiServer : VxiServer) (port0 program procedure : UInt32) :
    Rpc.RpcStatus × UInt32 :=
  if program ≠ Rpc.Program.portmap.code then
    (.progUnavail, port0)
  else if procedure ≠ Rpc.Procedure.getPort.code then
    (.procUnavail, port0)
  else
    let port := vxiServer.allocate
    if port = 0 then (.garbageArgs, port) else (.success, port)

/-- `process_request`: validate the request and assemble the response. The packets start at index
`base` of the buffers. -/
def processRequest {readSize sendSize : ℕ} (vxiServer : VxiServer) (port0 : UInt32) (base : ℕ)
    (request : Buffer readSize) (response : Buffer sendSize) : Except Fault (Buffer sendSize) := do
  let program ← request.loadField (base + RpcRequestPacket.program)
  let procedure ← request.loadField (base + RpcRequestPacket.procedure)
  let (rc, port) := decideRequest vxiServer port0 program procedure
  let response ← response.storeField (base + BindResponsePacket.rpcStatus) rc.code
  response.storeField (base + BindResponsePacket.vxiPort) port

/-- Respond to the request in the UDP read buffer. -/
def respondUdp (s : RpcBindServer) (vxiServer : VxiServer) (port0 : UInt32) :
    Except Fault (RpcBindServer × List UInt8) := do
  let response ← processRequest vxiServer port0 0 s.udpReadBuffer s.udpSendBuffer
  let (response, bytes) ← sendBindPacketUdp s.udpReadBuffer response BindResponsePacket.size
  return ({ s with udpSendBuffer := response }, bytes)

/-- Respond to the request in the TCP read buffer. -/
def respondTcp (s : RpcBindServer) (vxiServer : VxiServer) (port0 : UInt32) :
    Except Fault (RpcBindServer × List UInt8) := do
  let response ← processRequest vxiServer port0 prefixSize s.tcpReadBuffer s.tcpSendBuffer
  let (response, bytes) ← sendBindPacketTcp s.tcpReadBuffer response BindResponsePacket.size
  return ({ s with tcpSendBuffer := response }, bytes)

/-- What one call of `loop()` meets: the datagram that is waiting, empty if there is none; the
connection that `available()` of the listening server offers; the uninitialized local. -/
structure LoopInput where
  datagram : List UInt8 := []
  offered : Option NetClient := none
  port0 : UInt32 := 0

/-- `loop()`. -/
def loop (s : RpcBindServer) (vxiServer : VxiServer) (input : LoopInput) :
    Except Fault (RpcBindServer × List BindAction) := do
  if vxiServer.available then
    if input.datagram.length > 0 then
      let (len, request) ← getBindPacketUdp s.udpReadBuffer input.datagram
      let s := { s with udpReadBuffer := request }
      if len > 0 then
        let (s, bytes) ← s.respondUdp vxiServer input.port0
        return (s, [.sendUdp bytes])
      else
        return (s, [])
    else
      let (tcpClient, calls) := s.tcp.accept input.offered
      match tcpClient with
      | none => return (s, calls.map .server)
      | some tcpClient =>
        let (len, request, _) ← getBindPacketTcp s.tcpReadBuffer tcpClient
        let s := { s with tcpReadBuffer := request }
        if len ≠ 0 then
          let (s, bytes) ← s.respondTcp vxiServer input.port0
          return (s, calls.map .server ++ [.sendTcp bytes])
        else
          return (s, calls.map .server)
  else
    return (s, [])

end RpcBindServer

end EspBode
