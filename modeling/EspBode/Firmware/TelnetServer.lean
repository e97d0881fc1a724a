import Mathlib.Data.List.DropRight
import EspBode.Firmware.NetCompat
import EspBode.Foundations.Machine
import EspBode.Foundations.Scanf

/-!
# The telnet server

`Telnet_Server`: the scan of what a telnet client types, and the pass-through of its lines to the
AWG.

A call of `loop()` meets the bytes that have arrived on the connection since the last call; a byte
that arrives while the call is under way and is still read by it counts as one of them. The inner
loop reads the bytes one at a time, so it is a recursion on what is available (`readInput`), and
what it leaves unread stays in `rx`. Two of its branches are easily overlooked:

* **a negotiation that has not arrived as a whole** ends the call. The byte that starts it has been
  read by then, and nothing remembers it.
* **a line of more than 256 bytes** keeps its first 256; the others are read and dropped.

The strings are those of the Arduino library: `trim` and `toUpperCase` are the ones of the C locale,
and `==` with a literal compares C strings, so it looks at the characters before the first NUL. A
line may well hold one, since the bytes of a client are taken as they come.

What goes to the stream `Telnet` and to `AWGSerial` is put out as actions, in order, and so is every
call of `onTelnetInput`. The state of the pass-through is a static member of the class in the
source; the program has one object of the class, so here it is a field.
-/

namespace EspBode

/-! ### Strings -/

/-- `toupper` in the C locale. -/
def toUpper (c : UInt8) : UInt8 :=
  if 97 ≤ c ∧ c ≤ 122 then c - 32 else c

/-- `String::trim`. -/
def trim (s : List UInt8) : List UInt8 :=
  (s.dropWhile isSpace).rdropWhile isSpace

/-- `String::toUpperCase`. -/
def toUpperCase (s : List UInt8) : List UInt8 :=
  s.map toUpper

/-- `String::operator==` with a string literal. -/
def equalsLiteral (s literal : List UInt8) : Bool :=
  s.takeWhile (· != 0) == literal

/-! ### Lines -/

/-- What the server does beyond changing its state. -/
inductive TelnetAction
  /-- Bytes are written to the stream `Telnet`. -/
  | tell (bytes : List UInt8)
  /-- A line is handed to `onTelnetInput`. -/
  | input (line : List UInt8)
  /-- Bytes are written to `AWGSerial`. -/
  | awg (bytes : List UInt8)
  /-- A call on the listening server object. -/
  | server (call : ServerCall)
  deriving DecidableEq, Repr

/-- The command that toggles the pass-through. -/
def passThroughCommand : List UInt8 :=
  ascii "PASSTHROUGH"

/-- `onTelnetInput`: the new state of the pass-through, and what is written. `reply` is what the AWG
answers within the 50 milliseconds that follow a line that is passed on. -/
def onTelnetInput (passThrough : Bool) (input reply : List UInt8) : Bool × List TelnetAction :=
  let s := toUpperCase (trim input)
  if equalsLiteral s passThroughCommand then
    let passThrough := !passThrough
    (passThrough,
      [.tell [chr '\n'], .tell s, .tell (if passThrough then ascii " ON" else ascii " OFF"),
        .tell [chr '\n']])
  else if passThrough then
    -- Send exactly one LF; many instruments dislike CRLF.
    (passThrough, [.awg input, .awg [chr '\n']] ++ reply.map fun c ↦ .tell [c])
  else (passThrough, [])

/-! ### Reading -/

/-- What the inner loop of `loop()` leaves behind. -/
structure TelnetScan where
  /-- The bytes that are not read. -/
  rx : List UInt8
  lineBuffer : List UInt8
  passThrough : Bool
  /-- Whether the call returned before its end. -/
  returned : Bool
  actions : List TelnetAction
  deriving DecidableEq, Repr

/-- The byte that starts a TELNET option negotiation. -/
def iac : UInt8 := 0xFF

/-- The inner loop of `loop()` on the available bytes; `replies k` is what the AWG answers to the
`k`-th line. -/
def readInput (replies : ℕ → List UInt8) :
    ℕ → List UInt8 → Bool → List UInt8 → TelnetScan
  | _, lineBuffer, passThrough, [] => ⟨[], lineBuffer, passThrough, false, []⟩
  | k, lineBuffer, passThrough, b :: rx =>
    if b = iac then
      -- Try to consume: IAC <command> <option>
      match rx with
      | _ :: _ :: rx => readInput replies k lineBuffer passThrough rx
      | rx => ⟨rx, lineBuffer, passThrough, true, []⟩
    else if b = chr '\r' then readInput replies k lineBuffer passThrough rx
    else if b = chr '\n' then
      let (passThrough, actions) := onTelnetInput passThrough lineBuffer (replies k)
      let scan := readInput replies (k + 1) [] passThrough rx
      { scan with actions := .input lineBuffer :: (actions ++ scan.actions) }
    else if lineBuffer.length < 256 then
      readInput replies k (lineBuffer ++ [b]) passThrough rx
    else readInput replies k lineBuffer passThrough rx

/-! ### The server -/

/-- The telnet server, with the static state of the pass-through. Its listening server is
constructed for port 23. -/
structure TelnetServer where
  server : NetServerExt := (({} : NetServerExt).begin 23).1
  client : Option NetClient := none
  lineBuffer : List UInt8 := []
  /-- State variable shows whether PASSTHROUGH is enabled. -/
  passThrough : Bool := false
  deriving DecidableEq, Repr

namespace TelnetServer

/-- `begin()`. -/
def begin (s : TelnetServer) : TelnetServer × List TelnetAction :=
  let (server, calls) := s.server.beginDefault
  ({ s with server }, calls.map .server)

/-- What one call of `loop()` meets. -/
structure LoopInput where
  /-- The connection that `available()` of the listening server offers. -/
  offered : Option NetClient := none
  /-- The bytes that have arrived on the connection since the last call. -/
  arrived : List UInt8 := []
  /-- What the AWG answers to each line that is passed on. -/
  replies : ℕ → List UInt8 := fun _ ↦ []
  /-- What stands in the serial input from the AWG at the end. -/
  serial : List UInt8 := []

/-- Whether there is a client and it is connected. -/
def live (s : TelnetServer) : Bool :=
  s.client.any NetClient.connected

/-- The first part of `loop()`: without a live client, take a new one and greet it. -/
def takeClient (s : TelnetServer) (offered : Option NetClient) :
    TelnetServer × List TelnetAction :=
  if s.live then (s, [])
  else
    let (client, calls) := s.server.accept offered
    match client with
    | some c => ({ s with client := some c, lineBuffer := [] },
        calls.map .server ++
          [.tell (ascii "\nespBode telnet connected. Type PASSTHROUGH to toggle.\n")])
    | none => ({ s with client := none }, calls.map .server)

/-- The second part of `loop()`: read telnet input lines, and copy data from the serial port if
passthrough is enabled. -/
def readClient (s : TelnetServer) (replies : ℕ → List UInt8) (serial : List UInt8) :
    TelnetServer × List TelnetAction :=
  match s.client with
  | some c =>
    if c.connected then
      let scan := readInput replies 0 s.lineBuffer s.passThrough c.rx
      ({ s with client := some { c with rx := scan.rx }, lineBuffer := scan.lineBuffer,
                passThrough := scan.passThrough },
        scan.actions ++
          if !scan.returned && scan.passThrough then serial.map fun c ↦ .tell [c] else [])
    else (s, if s.passThrough then serial.map fun c ↦ .tell [c] else [])
  | none => (s, if s.passThrough then serial.map fun c ↦ .tell [c] else [])

/-- The bytes that have arrived can be read. -/
def arrive (s : TelnetServer) (bytes : List UInt8) : TelnetServer :=
  { s with client := s.client.map fun c : NetClient ↦ { c with rx := c.rx ++ bytes } }

/-- `loop()`. -/
def loop (s : TelnetServer) (input : LoopInput) : TelnetServer × List TelnetAction :=
  let s := s.arrive input.arrived
  let (s, greeting) := s.takeClient input.offered
  let (s, actions) := s.readClient input.replies input.serial
  (s, greeting ++ actions)

/-- The server as a machine whose steps are the calls of `loop()`. -/
def step : Machine TelnetServer LoopInput TelnetAction :=
  fun s input ↦ .ok (s.loop input)

end TelnetServer

end EspBode
