import EspBode.Verification.Requests

/-!
# Requests as records

The fields of a request, read from the record the client sends rather than from the buffer it lands
in, and the records a client makes.

The two readings have to be told apart, because the code reads the buffer. What stands there are the
bytes that a receive call has put behind the prefix (`received`) and then whatever the buffer held
before (`drop_requestIn`), so a field of a short request may come from an earlier one. A record that
arrives in full on a prompt connection puts its body behind the prefix, as far as the buffer holds
it, and then the two readings agree on what was taken of the body (`word_requestIn`,
`slice_requestIn`).

* The offsets of the fields are those of the packet structures, less the prefix; a body that is too
  short for a field gives a word all the same, made of the bytes that are there, and statements ask
  for the length where that would matter.
* `writePayload` is the text that the data of a write request is: what the handler leaves of it when
  it has cut off the newlines at its end and the reader stops at the first NUL.
* `Calls` says that a request calls a procedure of the VXI core program. It is decidable, since it
  compares two words.

The requests at the end (`createRequest`, `writeRequest`, `plainRequest`) are those of a client that
fills in what the server looks at. They are there to be run.
-/

namespace EspBode

open Buffer VxiRequest

/-! ### The fields of a request record -/

namespace Record

variable (r : Record)

/-- The field at offset `i` of the body. -/
def field (i : ℕ) : UInt32 :=
  wordAt r.body i

abbrev xid : UInt32 :=
  r.field RpcRequestPacket.xid

abbrev program : UInt32 :=
  r.field RpcRequestPacket.program

abbrev procedure : UInt32 :=
  r.field RpcRequestPacket.procedure

/-- The length of the data of a request to create a link. -/
abbrev createDataLen : ℕ :=
  (r.field CreateRequestPacket.dataLen).toNat

/-- The length of the data of a write request. -/
abbrev writeDataLen : ℕ :=
  (r.field WriteRequestPacket.dataLen).toNat

/-- The data of a write request. -/
def writeData : List UInt8 :=
  (r.body.drop WriteRequestPacket.data).take r.writeDataLen

/-- The text that the data of a write request is, up to its first NUL and without the newlines at
its end. -/
def writePayload : List UInt8 :=
  (withoutNewlines r.writeData).takeWhile (· != 0)

/-- The request calls the given procedure of the VXI core program. -/
def Calls (procedure : Rpc.Procedure) : Prop :=
  r.program = Rpc.Program.vxi11Core.code ∧ r.procedure = procedure.code

instance (procedure : Rpc.Procedure) : Decidable (r.Calls procedure) :=
  inferInstanceAs (Decidable (_ ∧ _))

end Record

/-! ### The received bytes in the read buffer -/

/-- The bytes that a receive call puts behind the prefix. -/
def received (c : NetClient) : List UInt8 :=
  (receive vxiReadSize c).bytes.drop prefixSize

theorem length_received (c : NetClient) : prefixSize + (received c).length =
    (receive vxiReadSize c).bytes.length := by
  have := four_le_length_receive vxiReadSize c
  rw [received, List.length_drop]
  show 4 + (_ - 4) = _
  omega

theorem length_received_le (c : NetClient) : (received c).length ≤ 252 := by
  have hle : (receive vxiReadSize c).bytes.length ≤ 256 := length_receive_le (by decide) c
  have : 4 + (received c).length = _ := length_received c
  omega

/-- **Behind the prefix stand the received bytes, and then what the buffer held before.** -/
theorem drop_requestIn (b : Buffer vxiReadSize) (c : NetClient) :
    (requestIn b c).bytes.drop prefixSize =
      received c ++ b.bytes.drop (prefixSize + (received c).length) := by
  have hfit : (receive vxiReadSize c).bytes.length ≤ vxiReadSize := length_receive_le (by decide) c
  have hbytes : (requestIn b c).bytes =
      (receive vxiReadSize c).bytes ++ b.bytes.drop (receive vxiReadSize c).bytes.length := by
    rw [requestIn, bytes_patch b (by rwa [Nat.zero_add]), List.take_zero, List.nil_append,
      Nat.zero_add]
  rw [hbytes, List.drop_append_of_le_length (four_le_length_receive _ c), length_received, received]

/-- The fields of a request, read behind the prefix. -/
theorem word_eq_wordAt {n : ℕ} (b : Buffer n) (i : ℕ) :
    b.word (prefixSize + i) = wordAt (b.bytes.drop prefixSize) i := by
  rw [word, slice, wordAt, List.drop_drop]

/-! ### A record in the read buffer -/

section Arrival

variable {b : Buffer vxiReadSize} {c : NetClient} {r : Record} {rest : List UInt8}

/-- Of a record on a prompt connection, what is taken of the body is received. -/
theorem received_of_record (hc : c.Prompt) (hrx : c.rx = r.bytes ++ rest) :
    received c = r.body.take (taken vxiReadSize r.body.length) := by
  rw [received, receive_of_record vxiReadSize hc hrx]
  exact List.drop_left' (length_beBytes _)

/-- What was taken of the body stands behind the prefix. -/
theorem slice_requestIn (hc : c.Prompt) (hrx : c.rx = r.bytes ++ rest) {i k : ℕ}
    (h : i + k ≤ taken vxiReadSize r.body.length) :
    (requestIn b c).slice (prefixSize + i) k = (r.body.drop i).take k := by
  have hlen : (r.body.take (taken vxiReadSize r.body.length)).length =
      taken vxiReadSize r.body.length := List.length_take_of_le (taken_le _ _)
  rw [slice, ← List.drop_drop, drop_requestIn, received_of_record hc hrx,
    List.drop_append_of_le_length (by omega),
    List.take_append_of_le_length (by rw [List.length_drop]; omega), List.drop_take, List.take_take,
    Nat.min_eq_left (by omega)]

theorem word_requestIn (hc : c.Prompt) (hrx : c.rx = r.bytes ++ rest) {i : ℕ}
    (h : i + 4 ≤ taken vxiReadSize r.body.length) :
    (requestIn b c).word (prefixSize + i) = r.field i := by
  rw [word, slice_requestIn hc hrx h, Record.field, wordAt]

end Arrival

/-! ### The requests a client makes -/

/-- A request to create a link; the three arguments in front of the data are zero. -/
def createRequest (xid dataLen : UInt32) (data : List UInt8) : List UInt8 :=
  callHeader xid Rpc.Program.vxi11Core.code Rpc.Procedure.vxi11CreateLink.code ++
    List.replicate 12 0 ++ beBytes dataLen ++ data

/-- A write request; the four arguments in front of the data are zero. -/
def writeRequest (xid : UInt32) (data : List UInt8) : List UInt8 :=
  callHeader xid Rpc.Program.vxi11Core.code Rpc.Procedure.vxi11DevWrite.code ++
    List.replicate 16 0 ++ beBytes (UInt32.ofNat data.length) ++ data ++ padding data.length

/-- A request without data: read, or destroy the link. -/
def plainRequest (xid : UInt32) (procedure : Rpc.Procedure) : List UInt8 :=
  callHeader xid Rpc.Program.vxi11Core.code procedure.code ++ List.replicate 24 0

end EspBode
