import EspBode.Firmware.RpcBindServer
import EspBode.Foundations.Machine

/-!
# The two servers together

The bind server and the VXI server after `setup()`, and the steps that move them: a call of either
`loop()`, in any order and any number, and the peer of the attached VXI client closing its end. The
main loop of the program calls the two in turn, which is one of these orders; a result about all
runs of this machine does not depend on which one it is.

The two share one thing. The bind server holds a reference to the VXI server and asks it for a port,
so `bindLoop` is given the state of the VXI server, reads it and does not change it; `vxiLoop` does
not see the bind server at all. What moves the port along is the VXI server alone, when it closes a
link and begins to listen again.

What comes from outside is part of the event: the datagram that waits, the connection that the
library offers, with the bytes on it, and the contents of the locals that the code leaves
uninitialized. A step may fail, since an access to a buffer is checked, and a run stops there.
-/

namespace EspBode

/-- The two servers. -/
structure System where
  bind : RpcBindServer
  vxi : VxiServer

/-- What a step puts out. -/
inductive SystemAction
  | bind (action : BindAction)
  | vxi (action : VxiAction)
  deriving DecidableEq, Repr

/-- A step of the system. -/
inductive SystemEvent
  /-- `rpc_bind_server.loop()`. -/
  | bindLoop (input : RpcBindServer.LoopInput)
  /-- `vxi_server.loop()`. -/
  | vxiLoop (input : VxiServer.LoopInput)
  /-- The peer of the VXI client closes its end of the connection. -/
  | peerCloses

namespace System

/-- The servers after `setup()`. -/
def setup : System × List SystemAction :=
  let (vxi, calls) := ({} : VxiServer).begin
  let (bind, calls') := ({} : RpcBindServer).begin
  ({ bind, vxi }, calls.map .vxi ++ calls'.map .bind)

/-- One step. -/
def step (awg : AwgServer) : Machine System SystemEvent SystemAction := fun s event ↦ do
  match event with
  | .bindLoop input =>
    let (bind, actions) ← s.bind.loop s.vxi input
    return ({ s with bind }, actions.map .bind)
  | .vxiLoop input =>
    let (vxi, actions) ← s.vxi.loop awg input
    return ({ s with vxi }, actions.map .vxi)
  | .peerCloses =>
    let client := s.vxi.client.map fun c ↦ { c with peerClosed := true }
    return ({ s with vxi := { s.vxi with client } }, [])

theorem step_bindLoop {awg : AwgServer} {s : System} {input : RpcBindServer.LoopInput}
    {bind : RpcBindServer} {actions : List BindAction}
    (h : s.bind.loop s.vxi input = .ok (bind, actions)) :
    step awg s (.bindLoop input) = .ok ({ s with bind }, actions.map .bind) := by
  show (s.bind.loop s.vxi input >>= _) = _
  rw [h]
  rfl

theorem step_vxiLoop {awg : AwgServer} {s : System} {input : VxiServer.LoopInput}
    {vxi : VxiServer} {actions : List VxiAction} (h : s.vxi.loop awg input = .ok (vxi, actions)) :
    step awg s (.vxiLoop input) = .ok ({ s with vxi }, actions.map .vxi) := by
  show (s.vxi.loop awg input >>= _) = _
  rw [h]
  rfl

end System

end EspBode
