import Mathlib.Data.List.Basic

/-!
# The network layer under the servers

The Ethernet library is not part of the repository, and the servers see little of it.

A `NetClient` is an accepted connection, as its reader meets it: the bytes the peer sends, in order,
and how patient the coming reads are. `readBytes` returns what has arrived when its timeout ends, so
a read may come back short although the peer sends more later; `waits` lists how many bytes each of
the coming reads gets that way. A connection with no `waits` is **prompt**: every read is given all
it asks for as long as the stream still holds it.

A variable of type `NetClient` in the source either refers to a socket or does not; its conversion
to `bool` asks which. Here it is an `Option NetClient`, so the conversion holds from the moment a
connection is accepted until `stop()`, whatever the peer does meanwhile.

`NetServerExt` wraps a pointer to a server object of the library. What it does to the hardware it
does through that object, and its operations return the calls they make (`ServerCall`).
-/

namespace EspBode

/-! ### Connections -/

/-- An accepted connection. -/
structure NetClient where
  /-- The bytes the peer sends and the server has not read yet. -/
  rx : List UInt8
  /-- How many bytes each of the coming reads gets before its timeout. -/
  waits : List ℕ := []
  /-- Whether the peer has closed its end. -/
  peerClosed : Bool := false
  deriving DecidableEq, Repr

namespace NetClient

/-- Read up to `len` bytes, as many as arrive before the timeout. -/
def readBytes (c : NetClient) (len : ℕ) : List UInt8 × NetClient :=
  let m := match c.waits with
    | [] => len
    | w :: _ => min len w
  (c.rx.take m, { c with rx := c.rx.drop m, waits := c.waits.tail })

/-- Every read is given all it asks for as long as the stream still holds it. -/
def Prompt (c : NetClient) : Prop :=
  c.waits = []

/-- Whether the connection is alive: the peer has not closed it, or bytes are still unread. -/
def connected (c : NetClient) : Bool :=
  !c.peerClosed || !c.rx.isEmpty

/-- A prompt connection with the given stream. -/
def ofStream (rx : List UInt8) : NetClient :=
  { rx }

@[simp]
theorem prompt_ofStream (rx : List UInt8) : (ofStream rx).Prompt :=
  rfl

theorem readBytes_of_prompt {c : NetClient} (h : c.Prompt) (len : ℕ) :
    c.readBytes len = (c.rx.take len, { c with rx := c.rx.drop len }) := by
  obtain ⟨rx, waits, closed⟩ := c
  obtain rfl : waits = [] := h
  rfl

theorem length_readBytes_le (c : NetClient) (len : ℕ) : (c.readBytes len).1.length ≤ len := by
  obtain ⟨rx, _ | ⟨w, waits⟩, closed⟩ := c
  · exact List.length_take_le _ _
  · exact Nat.le_trans (List.length_take_le _ _) (Nat.min_le_left _ _)

/-- A connection with nothing left to read gives nothing. -/
theorem readBytes_of_rx_eq_nil {c : NetClient} (h : c.rx = []) (len : ℕ) :
    (c.readBytes len).1 = [] ∧ (c.readBytes len).2.rx = [] := by
  obtain ⟨rx, waits, closed⟩ := c
  obtain rfl : rx = [] := h
  exact ⟨List.take_nil, List.drop_nil⟩

end NetClient

/-! ### Listening -/

/-- A call on a server object of the Ethernet library. -/
inductive ServerCall
  /-- `EthernetServer::begin()` of the server object for this port. -/
  | begin (port : UInt16)
  /-- The server object for this port is deleted. -/
  | delete (port : UInt16)
  /-- `EthernetServer::available()` of the server object for this port. -/
  | available (port : UInt16)
  deriving DecidableEq, Repr

/-- Provide WiFiServer-like API: default constructor + begin(port) + accept() + stop(). -/
structure NetServerExt where
  mPort : UInt16 := 23
  /-- The port of the server object, if there is one. -/
  mServer : Option UInt16 := none
  deriving DecidableEq, Repr

namespace NetServerExt

/-- Delete the server object, if there is one. -/
def dropServer (s : NetServerExt) : NetServerExt × List ServerCall :=
  match s.mServer with
  | some p => ({ s with mServer := none }, [.delete p])
  | none => (s, [])

/-- `begin(port)`: replace the server object by a new one for the port, and begin it. -/
def begin (s : NetServerExt) (port : UInt16) : NetServerExt × List ServerCall :=
  let (s, calls) := s.dropServer
  ({ s with mPort := port, mServer := some port }, calls ++ [.begin port])

/-- `begin()`: begin the server object, or a new one for port 23. -/
def beginDefault (s : NetServerExt) : NetServerExt × List ServerCall :=
  match s.mServer with
  | none => s.begin 23
  | some p => (s, [.begin p])

/-- `stop()`: EthernetServer doesn't expose stop(); best effort. -/
def stop (s : NetServerExt) : NetServerExt × List ServerCall :=
  s.dropServer

/-- `accept()`; `offered` is what `available()` of the server object returns. -/
def accept (s : NetServerExt) (offered : Option NetClient) : Option NetClient × List ServerCall :=
  match s.mServer with
  | none => (none, [])
  | some p => (offered, [.available p])

end NetServerExt

end EspBode
