import EspBode.Firmware.AwgFy
import EspBode.Firmware.System
import EspBode.Firmware.TelnetServer
import EspBode.Foundations.SerialLine

/-!
# The whole device

`setup()` and `loop()` of the program: the telnet server, the two servers of the oscilloscope, and
the serial line to the AWG that `set` and the pass-through share.

## Calls and their tasks

The calls of the three `loop()` methods may come in any order and number; the main loop makes them
in turn. A call decides at once what it does to the network and to the serial line, and leaves it
behind as a list of tasks, in the order of the source. The tasks take their time, since the driver
waits for the AWG and the pass-through for 50 milliseconds, and no other call is made before they
are done: a `loop()` that is tried while one is under way does nothing. What a server decides does
not depend on how its tasks go, because `set` returns a result that nobody uses.

## What happens in the meantime

The AWG takes lines and answers, bytes arrive, and peers go away, each as an event of its own that
may come between any two others. How many times the pass-through comes to look for an answer of the
AWG is up to the clock (`polls`). A reading of the driver gives up when its timeout passes, which an
event says as well; there is no time in the model beside these.

What can be observed are the actions of the servers and of the line. A step fails where a `loop()`
of a server or the driver does, and an event that finds nothing to do changes nothing. The debug
messages are left out.
-/

namespace EspBode

/-! ### Tasks -/

/-- What can be observed of the device. -/
inductive DeviceAction
  | system (action : SystemAction)
  | telnet (action : TelnetAction)
  | serial (action : SerialAction)
  deriving DecidableEq, Repr

/-- What a call still has to do: an action of its server, or the copying of what `AWGSerial` has
available to the client. -/
inductive DeviceTask
  | system (action : SystemAction)
  | telnet (action : TelnetAction)
  | copySerial
  deriving DecidableEq, Repr

/-- What the actions of the telnet server take. A line that is passed on ends with the newline;
behind the `k`-th one the serial input is looked at `polls k` times. -/
def telnetTasks (polls : ℕ → ℕ) : ℕ → List TelnetAction → List DeviceTask
  | _, [] => []
  | k, .awg bytes :: actions =>
    if bytes = [chr '\n'] then
      .telnet (.awg bytes) ::
        (List.replicate (polls k) .copySerial ++ telnetTasks polls (k + 1) actions)
    else .telnet (.awg bytes) :: telnetTasks polls k actions
  | k, action :: actions => .telnet action :: telnetTasks polls k actions

/-- Whether `loop()` comes to its last part, with the pass-through on: the client may be gone, but
the call may not have returned from within an option negotiation. -/
def TelnetServer.copiesSerial (s : TelnetServer) : Bool :=
  match s.client with
  | some c =>
    if c.connected then
      let scan := readInput (fun _ ↦ []) 0 s.lineBuffer s.passThrough c.rx
      !scan.returned && scan.passThrough
    else s.passThrough
  | none => s.passThrough

/-! ### The device -/

/-- The servers, the serial line, and what the call under way still has to do. -/
structure Device where
  system : System
  telnet : TelnetServer
  line : SerialLine := {}
  tasks : List DeviceTask := []

/-- A step of the device. -/
inductive DeviceEvent
  /-- `telnet_server.loop()`. -/
  | telnetLoop (offered : Option NetClient) (arrived : List UInt8) (polls : ℕ → ℕ)
  /-- `rpc_bind_server.loop()`. -/
  | bindLoop (input : RpcBindServer.LoopInput)
  /-- `vxi_server.loop()`. -/
  | vxiLoop (input : VxiServer.LoopInput)
  /-- The peer of the VXI client closes its end of the connection. -/
  | peerCloses
  /-- The peer of the telnet client closes its end of the connection. -/
  | telnetPeerCloses
  /-- The call under way goes on. -/
  | proceed
  /-- A reading of the driver for which nothing comes ends. -/
  | giveUp
  /-- The AWG takes a line and answers. -/
  | take (answer : List UInt8)
  /-- A byte of the AWG arrives. -/
  | arrive

namespace Device

/-- The device after `setup()`. -/
def setup : Device × List DeviceAction :=
  let (system, out) := System.setup
  let (telnet, out') := ({} : TelnetServer).begin
  ({ system, telnet }, out.map .system ++ out'.map .telnet)

/-- No call is under way. -/
def Idle (s : Device) : Prop :=
  s.line.running = none ∧ s.tasks = []

instance (s : Device) : Decidable s.Idle :=
  decidable_of_iff (s.line.running.isNone ∧ s.tasks = []) (by rw [Option.isNone_iff_eq_none]; rfl)

variable (pf : Platform) (awg : AwgServer) (driver : AwgFy)

/-- A call of `awg_server.set`; its result is not used. -/
def program (call : SetCall) : Dialogue Unit := do
  let _ ← AwgFy.set pf driver call.channel call.parameter call.value

/-- `telnet_server.loop()`. -/
def telnetLoop (s : Device) (offered : Option NetClient) (arrived : List UInt8) (polls : ℕ → ℕ) :
    Device :=
  let (telnet, actions) := s.telnet.loop { offered, arrived }
  let copies := ((s.telnet.arrive arrived).takeClient offered).1.copiesSerial
  { s with telnet, tasks := telnetTasks polls 0 actions ++ if copies then [.copySerial] else [] }

/-- A `loop()` of the two servers of the oscilloscope. -/
def systemLoop (s : Device) (event : SystemEvent) : Except Fault Device := do
  let (system, actions) ← s.system.step awg event
  return { s with system, tasks := actions.map .system }

/-- The next task is done, or a part of it: a setting calls the driver, and what is passed on is
written to the line. -/
def work (s : Device) : Device × List DeviceAction :=
  match s.tasks with
  | [] => (s, [])
  | .system (.vxi (.set call)) :: tasks =>
    ({ s with tasks, line := { s.line with running := some (program pf driver call) } },
      [.system (.vxi (.set call))])
  | .telnet (.awg bytes) :: tasks =>
    ({ s with tasks, line := { s.line with outgoing := s.line.outgoing ++ bytes } },
      [.telnet (.awg bytes)])
  | .system action :: tasks => ({ s with tasks }, [.system action])
  | .telnet action :: tasks => ({ s with tasks }, [.telnet action])
  | .copySerial :: tasks =>
    match s.line.rx with
    | [] => ({ s with tasks }, [])
    | c :: rx => ({ s with line := { s.line with rx } }, [.telnet (.tell [c])])

/-- A step of the serial line. -/
def serial (answers : List UInt8 → List UInt8 → Bool) (s : Device) (event : SerialEvent SetCall) :
    Except Fault (Device × List DeviceAction) := do
  let (line, out) ← SerialLine.step (chr '\n') answers (program pf driver) s.line event
  return ({ s with line }, out.map .serial)

/-- One step. A `loop()` is not called while another call is under way. -/
def step (answers : List UInt8 → List UInt8 → Bool) : Machine Device DeviceEvent DeviceAction :=
  fun s event ↦
  match event with
  | .telnetLoop offered arrived polls =>
    if s.Idle then .ok (s.telnetLoop offered arrived polls, []) else .ok (s, [])
  | .bindLoop input =>
    if s.Idle then (·, []) <$> s.systemLoop awg (.bindLoop input) else .ok (s, [])
  | .vxiLoop input =>
    if s.Idle then (·, []) <$> s.systemLoop awg (.vxiLoop input) else .ok (s, [])
  | .peerCloses => do
    let (system, _) ← s.system.step awg .peerCloses
    return ({ s with system }, [])
  | .telnetPeerCloses =>
    let client := s.telnet.client.map fun c : NetClient ↦ { c with peerClosed := true }
    .ok ({ s with telnet := { s.telnet with client } }, [])
  | .proceed =>
    if s.line.running = none then .ok (s.work pf driver) else s.serial pf driver answers .proceed
  | .giveUp => s.serial pf driver answers .giveUp
  | .take answer => s.serial pf driver answers (.take answer)
  | .arrive => s.serial pf driver answers .arrive

end Device

end EspBode
