/-!
# Protocol codes

The enumerations of the RPC and VXI protocols, as far as the servers read or send them.

A field that arrives is a **bare word** and is compared with a code. That is what the source does,
and it is more than a matter of types: a request may name any program and any procedure, and what
the servers do with those they do not know is a large part of what is to be shown about them.

A value that is sent comes from an enumeration instead, so each of these is an inductive type with
its numeric `code`. The statuses of a reply are there in full; of the programs, the procedures, the
errors of a device and the reasons for the end of a read there are those that are compared or sent
somewhere, which is one each in the last two cases.

The ports belong here too. There is one fixed port for bind requests, and a block of ten through
which the VXI server rotates; the word types are those of the counter, and the number of a port is
what remains of such a word in 16 bits.
-/

namespace EspBode.Rpc

/-! ### Ports -/

/-- Port to listen on for bind requests. -/
def bindPort : UInt16 := 111

/-- Start of a block of ports to use for VXI transactions. -/
def vxiPortStart : UInt32 := 9010

/-- End of a block of ports to use for VXI transactions. -/
def vxiPortEnd : UInt32 := 9019

/-! ### Message codes -/

/-- Message types. -/
inductive MsgType
  | call
  | reply
  deriving DecidableEq, Repr

def MsgType.code : MsgType → UInt32
  | call => 0
  | reply => 1

/-- Whether the request was accepted or denied. -/
inductive ReplyState
  | msgAccepted
  | msgDenied
  deriving DecidableEq, Repr

def ReplyState.code : ReplyState → UInt32
  | msgAccepted => 0
  | msgDenied => 1

/-- Response status for accepted messages. -/
inductive RpcStatus
  | success
  | progUnavail
  | progMismatch
  | procUnavail
  | garbageArgs
  deriving DecidableEq, Repr

def RpcStatus.code : RpcStatus → UInt32
  | success => 0
  | progUnavail => 1
  | progMismatch => 2
  | procUnavail => 3
  | garbageArgs => 4

/-- The programs that are answered. -/
inductive Program
  | portmap
  | vxi11Core
  deriving DecidableEq, Repr

def Program.code : Program → UInt32
  | portmap => 0x186A0
  | vxi11Core => 0x607AF

/-- The procedures that are answered. -/
inductive Procedure
  | getPort
  | vxi11CreateLink
  | vxi11DevWrite
  | vxi11DevRead
  | vxi11DestroyLink
  deriving DecidableEq, Repr

def Procedure.code : Procedure → UInt32
  | getPort => 3
  | vxi11CreateLink => 10
  | vxi11DevWrite => 11
  | vxi11DevRead => 12
  | vxi11DestroyLink => 23

/-- The one error code that is ever sent. -/
inductive Error
  | noError
  deriving DecidableEq, Repr

def Error.code : Error → UInt32
  | noError => 0

/-- The reason for ending the read of data that is ever sent. -/
inductive Reason
  | end'
  deriving DecidableEq, Repr

def Reason.code : Reason → UInt32
  | end' => 4

end EspBode.Rpc
