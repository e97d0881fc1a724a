import EspBode.Foundations.CString
import EspBode.Foundations.Machine
import EspBode.Foundations.Scanf

/-!
# The debug output

`DEBUG`: a buffer that collects the output and is handed over to `Serial` or to `Telnet` when a line
ends, when it is full, and when it is flushed. Output is kept only if its type and the filter have a
bit in common.

**The object is a machine** whose steps are the calls of its methods, in any order, so that a result
about its runs is one about every program that uses it. What a call puts out are actions: the chunk
that is handed over, and the result of `write` for a byte. `buffer` and `index` are the members of
the class, and a store into the buffer is checked. The buffer of a new object is arbitrary.

The methods that set a channel, a filter or a type clamp their argument with `max` and `min`, in the
order in which the source nests them. A filter is a word of bits, one for each type of output; the
shortcuts set it to the combinations that the program uses.

**`Dump`** shows bytes as lines of hexadecimal numbers and characters. Its two inner loops are
machines, each run over the fixed indices of its loop. The loop around them, over the lines, ends
when `len` has been counted down; its fuel is one more than the number of bytes. What the loops
change beside `len` is a `DumpState`. What is printed and what is read of the dumped buffer are put
out in the order of the source, so one list says which bytes were read, how often, and which
characters they became. `ascii_buffer` is not initialized.
-/

namespace EspBode

/-! ### Channels and filters -/

/-- Where to direct output. -/
inductive DbChannel
  | viaSerial
  | viaTelnet
  deriving DecidableEq, Repr

def DbChannel.code : DbChannel → ℕ
  | .viaSerial => 0
  | .viaTelnet => 1

instance : LinearOrder DbChannel :=
  LinearOrder.lift' DbChannel.code fun c d h ↦ by
    cases c <;> cases d <;> first | rfl | exact absurd h (by decide)

/-- Types of debugging information, one bit each. -/
abbrev DbFilter : Type :=
  UInt32

namespace DbFilter

/-- Suppress all debugging output. -/
def none : DbFilter := 0

/-- Include messages marked as ERROR type. -/
def error : DbFilter := 1

/-- Include messages marked as PROGRESS type. -/
def progress : DbFilter := 2

/-- Include messages marked as SERIAL_IO. -/
def serialIo : DbFilter := 4

/-- Include messages marked as PACKET type. -/
def packet : DbFilter := 8

/-- Combine all of the above. -/
def all : DbFilter := 15

end DbFilter

/-! ### The buffer -/

/-- Size of buffer used by DEBUG instance. -/
def debugBufferSize : ℕ := 128

/-- The object behind the debug output. -/
structure Debug where
  /-- Buffer to improve performance. -/
  buffer : Buffer debugBufferSize
  /-- Position for next entry into the buffer. -/
  index : ℕ
  /-- The current output channel. -/
  mChannel : DbChannel
  /-- The current filter to determine which messages are output. -/
  mFilter : DbFilter
  /-- The current type to consider any output received. -/
  mOutputType : DbFilter
  deriving DecidableEq, Repr

/-- What a call puts out. -/
inductive DebugAction
  /-- The bytes are written to `Serial` or to `Telnet`. -/
  | hand (channel : DbChannel) (chunk : List UInt8)
  /-- `write` returns for the byte. -/
  | wrote (byte : UInt8) (result : ℕ)
  deriving DecidableEq, Repr

namespace Debug

/-- The constructor; the buffer is not initialized. -/
def new (buffer : Buffer debugBufferSize) (channel : DbChannel := .viaSerial)
    (filter : DbFilter := .error) : Debug :=
  { buffer, index := 0, mChannel := channel, mFilter := filter, mOutputType := .none }

/-- `flush()`. -/
def flush (d : Debug) : Except Fault (Debug × List DebugAction) := do
  if d.index > 0 then
    let chunk ← d.buffer.load 0 d.index
    return ({ d with index := 0 }, [.hand d.mChannel chunk])
  else
    return (d, [])

/-- `write(byte)`. -/
def write (d : Debug) (byte : UInt8) : Except Fault (Debug × List DebugAction) := do
  -- output of a type that the filter does not include is discarded
  if d.mOutputType &&& d.mFilter = 0 then
    return (d, [.wrote byte 0])
  else
    let d := { d with buffer := ← d.buffer.store d.index [byte], index := d.index + 1 }
    if byte = chr '\n' ∨ d.index ≥ debugBufferSize then
      let (d, actions) ← d.flush
      return (d, actions ++ [.wrote byte 1])
    else
      return (d, [.wrote byte 1])

/-! The methods that set where the output goes, what is output, and what type it is. -/

/-- `Channel(channel)`. -/
def channel (d : Debug) (channel : DbChannel) : Debug :=
  { d with mChannel := max (min channel .viaTelnet) .viaSerial }

/-- `Filter(filter)`. -/
def filter (d : Debug) (filter : DbFilter) : Debug :=
  { d with mFilter := max (min filter .all) .none }

/-- `Output(type)`. -/
def output (d : Debug) (type : DbFilter) : Debug :=
  { d with mOutputType := max (min type .all) .none }

/-- The shortcuts for them. -/
inductive Shortcut
  | viaSerial
  | viaTelnet
  | filterNone
  | filterError
  | filterProgress
  | filterSerialIo
  | filterAll
  | error
  | progress
  | serialIo
  | packet
  deriving DecidableEq, Repr

def Shortcut.apply (d : Debug) : Shortcut → Debug
  | .viaSerial => { d with mChannel := .viaSerial }
  | .viaTelnet => { d with mChannel := .viaTelnet }
  | .filterNone => { d with mFilter := .none }
  | .filterError => { d with mFilter := .error }
  | .filterProgress => { d with mFilter := .progress ||| .error }
  | .filterSerialIo => { d with mFilter := .progress ||| .serialIo ||| .error }
  | .filterAll => { d with mFilter := .all }
  | .error => { d with mOutputType := .error }
  | .progress => { d with mOutputType := .progress }
  | .serialIo => { d with mOutputType := .serialIo }
  | .packet => { d with mOutputType := .packet }

/-- A call of a method. -/
inductive Call
  | write (byte : UInt8)
  | flush
  | channel (channel : DbChannel)
  | filter (filter : DbFilter)
  | output (type : DbFilter)
  | shortcut (s : Shortcut)
  deriving DecidableEq, Repr

/-- One call. -/
def step : Machine Debug Call DebugAction := fun d call ↦
  match call with
  | .write byte => d.write byte
  | .flush => d.flush
  | .channel channel => .ok (d.channel channel, [])
  | .filter filter => .ok (d.filter filter, [])
  | .output type => .ok (d.output type, [])
  | .shortcut s => .ok (s.apply d, [])

/-! ### The dump -/

/-- What the dump does. -/
inductive DumpAction
  /-- The byte at the index of the dumped buffer is read. -/
  | load (i : ℕ)
  /-- The bytes are printed. -/
  | print (bytes : List UInt8)
  deriving DecidableEq, Repr

/-- A digit of `%x`. -/
def hexDigit (n : ℕ) : UInt8 :=
  if n < 10 then chr '0' + UInt8.ofNat n else chr 'a' + UInt8.ofNat (n - 10)

/-- A byte as 2-digit hex, `%02x`. -/
def hexByte (c : UInt8) : List UInt8 :=
  [hexDigit (c.toNat / 16), hexDigit (c.toNat % 16)]

/-- The character for a byte; if it is not a printable character, substitute `.`. -/
def printable (c : UInt8) : UInt8 :=
  if c < 0x20 then chr '.' else if c > 0x7f then chr '.' else c

/-- The locals of `Dump` that its loops change, `len` apart. -/
structure DumpState where
  /-- The character representations of a line. -/
  asciiBuffer : Buffer 17
  /-- The current location in `ascii_buffer`. -/
  ab : ℕ
  /-- The current location in the dumped buffer. -/
  buffer : ℕ
  deriving DecidableEq, Repr

section Dump

variable {m : ℕ} (source : Buffer m)

/-- The body of the loop over the bytes of a group. -/
def dumpByte (len : ℤ) (i : ℕ) : Machine DumpState ℕ DumpAction := fun s j ↦ do
  if i + j < len then
    let c ← source.get s.buffer
    let asciiBuffer ← s.asciiBuffer.store s.ab [printable c]
    return ({ asciiBuffer, ab := s.ab + 1, buffer := s.buffer + 1 },
      [.load s.buffer, .print (hexByte c ++ ascii " ")])
  else
    -- if no data left, print blank spaces
    return (s, [.print (ascii "   ")])

/-- The body of the loop over the groups of four bytes. -/
def dumpGroup (len : ℤ) : Machine DumpState ℕ DumpAction := fun s i ↦ do
  let (s, actions) ← Machine.runFrom (dumpByte source len i) s [0, 1, 2, 3]
  -- extra space between each set of four bytes
  return (s, actions ++ [.print (ascii " ")])

/-- If the last line of data is less than 16 bytes, we need to terminate accordingly. -/
def terminate (len : ℤ) (asciiBuffer : Buffer 17) : Except Fault (Buffer 17) :=
  if len < 16 then asciiBuffer.store len.toNat [0] else return asciiBuffer

/-- The body of the loop over the lines. -/
def dumpLine (len : ℤ) (s : DumpState) : Except Fault (DumpState × List DumpAction) := do
  let asciiBuffer ← terminate len s.asciiBuffer
  let (s, actions) ←
    Machine.runFrom (dumpGroup source len) { s with asciiBuffer, ab := 0 } [0, 4, 8, 12]
  -- print string representation after the 16 bytes
  let text ← s.asciiBuffer.cString 0
  return (s, actions ++ [.print (text ++ ascii "\r\n")])

/-- The loop over the lines. The first argument is its fuel. -/
def dumpLines : ℕ → ℤ → DumpState → Except Fault (DumpState × List DumpAction)
  | 0, _, _ => .error .outOfFuel
  | fuel + 1, len, s => do
    if len > 0 then
      let (s, actions) ← dumpLine source len s
      let (s, rest) ← dumpLines fuel (len - 16) s
      return (s, actions ++ rest)
    else
      return (s, [])

/-- `Dump(buffer, len)`. -/
def dump (len : ℤ) (asciiBuffer : Buffer 17) : Except Fault (List DumpAction) := do
  let asciiBuffer ← asciiBuffer.store 16 [0]
  let (_, actions) ← dumpLines source (len.toNat + 1) len { asciiBuffer, ab := 0, buffer := 0 }
  return actions

end Dump

end Debug

end EspBode
