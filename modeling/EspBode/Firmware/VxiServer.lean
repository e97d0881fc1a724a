import EspBode.Firmware.RpcPackets
import EspBode.Firmware.Scpi

/-!
# The VXI server

`VXI_Server`, with the two global buffers that only it uses as part of its state. What its methods
do beyond changing the state they return as a list of actions, in order: records written to the
client, settings passed to the AWG, and calls into the Ethernet library.

## The parser

The SCPI parser works on a buffer and positions in it, as the source does, so that the tokenizers
overwrite each other's memory exactly as they do there. A pointer that may be null is an `Option`,
and a use of one that is null is a fault. The local `value` of `process_parameters` is not
initialized; the `k`-th call finds `uninit k` in it, and it keeps its value from one parameter to
the next. The loops over commands and parameters run on fuel, which the size of the buffer covers:
each pass moves the context forward.

## The handlers

A handler reads the fields of the request from the read buffer, fills the send buffer and responds;
the text of a command is parsed where it was received. The declared length of a string is the field
of the request. A NUL is stored behind the text at that length, and the index is checked against the
buffer and not against what was received, as no such check exists in the source.

A call of `loop()` reads one packet from the client it has, or takes a client if it has none. The
connection ends with a request to destroy the link, and in no other way. The debug messages are left
out, but not what they read: a message that shows a string scans it.
-/

namespace EspBode

/-! ### The AWG behind the server -/

/-- What the VXI server asks of the AWG server it was given. -/
structure AwgServer where
  /-- `id()`, a C-style string. -/
  id : List UInt8
  id_nulFree : 0 ∉ id

/-- The base class provides a valid Siglent AWG id, and no class of the program overrides it. -/
def AwgServer.base : AwgServer :=
  ⟨ascii "IDN-SGLT-PRI SDG1062X", by decide⟩

/-- A call of `awg_server.set`. -/
structure SetCall where
  channel : UInt32
  parameter : ℕ
  value : Double
  deriving DecidableEq, Repr

/-- What the next read request is expected to ask for. -/
inductive ReadType
  | rtNone
  | rtIdentification
  | rtParameters
  deriving DecidableEq, Repr

/-! ### The SCPI parser -/

section Parser

variable {n : ℕ}

/-- `strncmp(id_text, id, strlen(id)) == 0`. -/
def matchesId (b : Buffer n) (idText : Option ℕ) (id : List UInt8) : Except Fault Bool :=
  match idText with
  | none => .error .nullPointer
  | some p => b.startsWith p id

/-- `get_id`: the index of the first entry of the list that matches; `i` counts the entries already
passed. -/
def getId (b : Buffer n) (idText : Option ℕ) (i : ℕ) :
    List (List UInt8) → Except Fault (Option ℕ)
  | [] => .ok none
  | id :: ids => do
    if ← matchesId b idText id then return some i else getId b idText (i + 1) ids

/-- The `switch` of `process_parameters`: the value for the parameter, and the context and buffer
behind it. -/
def readValue (b : Buffer n) (context : ℕ) (id : ℕ) (value : Double) :
    Except Fault (Double × ℕ × Buffer n) := do
  if id = Scpi.outputOff ∨ id = Scpi.outputOn then
    -- if id is ON or OFF, let value = 0 (OFF) or 1 (ON)
    return (Double.ofNat id, context, b)
  else
    let (sVal, context, b) ← b.strtokR context Scpi.parametersDelimiter
    if id = Scpi.wave then
      -- read the following value ... but discard it
      return (Double.ofNat Siglent.sine, context, b)
    else
      match sVal with
      | none => .error .nullPointer
      | some v => return ((sscanfLf (← b.cString v)).getD value, context, b)

/-- `process_parameters`. The first argument is the fuel of the loop. -/
def processParameters (rwChannel : UInt32) :
    ℕ → Buffer n → ℕ → Double → Except Fault (Buffer n × List SetCall)
  | 0, _, _, _ => .error .outOfFuel
  | fuel + 1, b, context, value => do
    let (parameter, context, b) ← b.strtokR context Scpi.parametersDelimiter
    match parameter with
    | none => return (b, [])
    | some p =>
      match ← getId b (some p) 0 Scpi.parameters with
      | none => processParameters rwChannel fuel b context value
      | some id =>
        let (value, context, b) ← readValue b context id value
        let (b, calls) ← processParameters rwChannel fuel b context value
        return (b, ⟨rwChannel, id, value⟩ :: calls)

/-- One command line of `parse_scpi`, from position `line` on. -/
def parseCommand (rwChannel : UInt32) (b : Buffer n) (line : ℕ) (readType : ReadType)
    (uninit : Double) : Except Fault (Buffer n × ReadType × List SetCall) := do
  let (command, parameterContext, b) ← b.strtokR line Scpi.preParametersDelimiter
  match ← getId b command 0 Scpi.commands with
  | none => return (b, readType, [])
  | some id =>
    if id = Scpi.setOutput ∨ id = Scpi.setParameters then
      let (b, calls) ← processParameters rwChannel (n + 1) b parameterContext uninit
      return (b, readType, calls)
    else
      return (b, .rtParameters, [])

/-- The `while` loop of `parse_scpi`. The first argument is the fuel, `k` counts the command lines
already passed. -/
def parseCommands (rwChannel : UInt32) (uninit : ℕ → Double) :
    ℕ → ℕ → Buffer n → ℕ → ReadType → Except Fault (Buffer n × ReadType × List SetCall)
  | 0, _, _, _, _ => .error .outOfFuel
  | fuel + 1, k, b, commandContext, readType => do
    let (commandLine, commandContext, b) ← b.strtokR commandContext Scpi.commandDelimiter
    match commandLine with
    | none => return (b, readType, [])
    | some line =>
      let (b, readType, calls) ← parseCommand rwChannel b line readType (uninit k)
      let (b, readType, rest) ←
        parseCommands rwChannel uninit fuel (k + 1) b commandContext readType
      return (b, readType, calls ++ rest)

/-- What `parse_scpi` leaves behind. -/
structure ScpiRun (n : ℕ) where
  buffer : Buffer n
  rwChannel : UInt32
  readType : ReadType
  calls : List SetCall
  deriving DecidableEq, Repr

/-- `parse_scpi` on the string at position `buffer`. -/
def parseScpi (b : Buffer n) (buffer : ℕ) (uninit : ℕ → Double) : Except Fault (ScpiRun n) := do
  -- first, get the initiator and its id
  let (initiator, commandContext, b) ← b.strtokR buffer Scpi.initiatorDelimiter
  match initiator, ← getId b initiator 0 Scpi.initiators with
  | some p, some id =>
    if id = Scpi.idRequest then
      return ⟨b, 0, .rtIdentification, []⟩
    else
      let rwChannel := (sscanfD (← b.cString (p + 1))).getD 0
      let (b, readType, calls) ← parseCommands rwChannel uninit (n + 1) 0 b commandContext .rtNone
      return ⟨b, rwChannel, readType, calls⟩
  | _, _ => return ⟨b, 0, .rtNone, []⟩

end Parser

/-! ### The server -/

/-- What the server does beyond changing its state. -/
inductive VxiAction
  /-- A record is written to the client. -/
  | send (bytes : List UInt8)
  /-- A setting is passed to the AWG. -/
  | set (call : SetCall)
  /-- The client connection is stopped. -/
  | clientStop
  /-- A call on the listening server object. -/
  | server (call : ServerCall)
  deriving DecidableEq, Repr

/-- The VXI server and the buffers that only it uses. -/
structure VxiServer where
  vxiReadBuffer : Buffer vxiReadSize := .zero _
  vxiSendBuffer : Buffer vxiSendSize := .zero _
  tcpServer : NetServerExt := {}
  client : Option NetClient := none
  readType : ReadType := .rtNone
  rwChannel : UInt32 := 0
  vxiPort : CyclicUInt32 := .new Rpc.vxiPortStart Rpc.vxiPortEnd

namespace VxiServer

/-- Whether the server can take a new client. -/
def available (s : VxiServer) : Bool :=
  s.client.isNone

/-- The port for a bind request; 0 if the server is not available. -/
def allocate (s : VxiServer) : UInt32 :=
  if s.available then s.vxiPort.toUInt32 else 0

/-- `begin(bNext)`: listen on the current port, or stop everything and go on to the next one. -/
def begin (s : VxiServer) (bNext : Bool := false) : VxiServer × List VxiAction :=
  if bNext then
    let (tcpServer, calls) := s.tcpServer.stop
    let vxiPort := s.vxiPort.gotoNext
    let (tcpServer, calls') := tcpServer.begin vxiPort.toUInt32.toUInt16
    ({ s with client := none, tcpServer, vxiPort },
      .clientStop :: (calls ++ calls').map .server)
  else
    let (tcpServer, calls) := s.tcpServer.begin s.vxiPort.toUInt32.toUInt16
    ({ s with tcpServer }, calls.map .server)

/-- Go on to the next port. -/
def beginNext (s : VxiServer) : VxiServer × List VxiAction :=
  s.begin true

/-- Send the response of `len` bytes that stands in the send buffer. -/
def respond (s : VxiServer) (len : ℕ) : Except Fault (VxiServer × List VxiAction) := do
  let (response, bytes) ← sendVxiPacket s.vxiReadBuffer s.vxiSendBuffer len
  return ({ s with vxiSendBuffer := response }, [.send bytes])

/-- `create_link()`. -/
def createLink (s : VxiServer) : Except Fault (VxiServer × List VxiAction) := do
  let dataLen ← s.vxiReadBuffer.loadField (prefixSize + CreateRequestPacket.dataLen)
  let request ← s.vxiReadBuffer.store (prefixSize + CreateRequestPacket.data + dataLen.toNat) [0]
  let _ ← request.cString (prefixSize + CreateRequestPacket.data)
  let response ← s.vxiSendBuffer.storeField (prefixSize + CreateResponsePacket.rpcStatus)
    Rpc.RpcStatus.success.code
  let response ← response.storeField (prefixSize + CreateResponsePacket.error)
    Rpc.Error.noError.code
  let response ← response.storeField (prefixSize + CreateResponsePacket.linkId) 0
  let response ← response.storeField (prefixSize + CreateResponsePacket.abortPort) 0
  let response ← response.storeField (prefixSize + CreateResponsePacket.maxReceiveSize)
    (UInt32.ofNat (vxiReadSize - 4))
  respond { s with vxiReadBuffer := request, vxiSendBuffer := response } CreateResponsePacket.size

/-- `destroy_link()`. -/
def destroyLink (s : VxiServer) : Except Fault (VxiServer × List VxiAction) := do
  let response ← s.vxiSendBuffer.storeField (prefixSize + DestroyResponsePacket.rpcStatus)
    Rpc.RpcStatus.success.code
  let response ← response.storeField (prefixSize + DestroyResponsePacket.error)
    Rpc.Error.noError.code
  respond { s with vxiSendBuffer := response } DestroyResponsePacket.size

/-- `read()`. -/
def read (awg : AwgServer) (s : VxiServer) : Except Fault (VxiServer × List VxiAction) := do
  let len := awg.id.length
  let response ← s.vxiSendBuffer.storeField (prefixSize + ReadResponsePacket.rpcStatus)
    Rpc.RpcStatus.success.code
  let response ← response.storeField (prefixSize + ReadResponsePacket.error)
    Rpc.Error.noError.code
  let response ← response.storeField (prefixSize + ReadResponsePacket.reason) Rpc.Reason.end'.code
  let response ← response.storeField (prefixSize + ReadResponsePacket.dataLen) (UInt32.ofNat len)
  let response ← response.store (prefixSize + ReadResponsePacket.data) (awg.id ++ [0])
  respond { s with vxiSendBuffer := response } (ReadResponsePacket.size + len)

/-- The first loop of `write()`: the length without the newlines at the end of the data. -/
def trimNewlines (request : Buffer vxiReadSize) : ℕ → Except Fault ℕ
  | 0 => .ok 0
  | len + 1 => do
    if (← request.get (prefixSize + WriteRequestPacket.data + len)) = chr '\n' then
      trimNewlines request len
    else
      return len + 1

/-- The first half of `write()`: terminate the data behind its last byte that is not a newline. The
results are the length the client sent and the read buffer. -/
def terminateData (request : Buffer vxiReadSize) : Except Fault (UInt32 × Buffer vxiReadSize) := do
  let wlen ← request.loadField (prefixSize + WriteRequestPacket.dataLen)
  let len ← trimNewlines request wlen.toNat
  let request ← request.store (prefixSize + WriteRequestPacket.data + len) [0]
  let _ ← request.cString (prefixSize + WriteRequestPacket.data)
  return (wlen, request)

/-- `write()`. -/
def write (s : VxiServer) (uninit : ℕ → Double) : Except Fault (VxiServer × List VxiAction) := do
  let (wlen, request) ← terminateData s.vxiReadBuffer
  -- parse and respond to the SCPI command
  let scpi ← parseScpi request (prefixSize + WriteRequestPacket.data) uninit
  let response ← s.vxiSendBuffer.storeField (prefixSize + WriteResponsePacket.rpcStatus)
    Rpc.RpcStatus.success.code
  let response ← response.storeField (prefixSize + WriteResponsePacket.error)
    Rpc.Error.noError.code
  let response ← response.storeField (prefixSize + WriteResponsePacket.dataSize) wlen
  let (s, actions) ← respond
    { s with vxiReadBuffer := scpi.buffer, vxiSendBuffer := response, readType := scpi.readType,
             rwChannel := scpi.rwChannel }
    WriteResponsePacket.size
  return (s, scpi.calls.map .set ++ actions)

/-- The end of `handle_packet()`: respond with an error status. -/
def refuse (s : VxiServer) (rc : Rpc.RpcStatus) : Except Fault (VxiServer × List VxiAction) := do
  let response ← s.vxiSendBuffer.storeField (prefixSize + RpcResponsePacket.rpcStatus) rc.code
  respond { s with vxiSendBuffer := response } RpcResponsePacket.size

/-- `handle_packet()`; the first result signals to the caller whether the connection should be
closed. -/
def handlePacket (awg : AwgServer) (s : VxiServer) (uninit : ℕ → Double) :
    Except Fault (Bool × VxiServer × List VxiAction) := do
  let program ← s.vxiReadBuffer.loadField (prefixSize + RpcRequestPacket.program)
  let procedure ← s.vxiReadBuffer.loadField (prefixSize + RpcRequestPacket.procedure)
  if program ≠ Rpc.Program.vxi11Core.code then
    return (false, ← s.refuse .progUnavail)
  else if procedure = Rpc.Procedure.vxi11CreateLink.code then
    return (false, ← s.createLink)
  else if procedure = Rpc.Procedure.vxi11DevRead.code then
    return (false, ← s.read awg)
  else if procedure = Rpc.Procedure.vxi11DevWrite.code then
    return (false, ← s.write uninit)
  else if procedure = Rpc.Procedure.vxi11DestroyLink.code then
    return (true, ← s.destroyLink)
  else
    return (false, ← s.refuse .procUnavail)

/-- What one call of `loop()` meets: the connection that `available()` of the listening server
offers, and the contents of the uninitialized locals. -/
structure LoopInput where
  offered : Option NetClient := none
  uninit : ℕ → Double := fun _ ↦ .finite 0

/-- `loop()`. -/
def loop (awg : AwgServer) (s : VxiServer) (input : LoopInput) :
    Except Fault (VxiServer × List VxiAction) := do
  match s.client with
  | some client =>
    let (len, request, client) ← getVxiPacket s.vxiReadBuffer client
    let s := { s with vxiReadBuffer := request, client := some client }
    if len > 0 then
      let (bClose, s, actions) ← s.handlePacket awg input.uninit
      if bClose then
        -- stop the client and the tcp_server, rotate to the next port, and listen there
        let (s, calls) := s.beginNext
        return (s, actions ++ calls)
      else
        return (s, actions)
    else
      return (s, [])
  | none =>
    -- see if a client is available (data has been sent on port)
    let (client, calls) := s.tcpServer.accept input.offered
    return ({ s with client }, calls.map .server)

end VxiServer

end EspBode
