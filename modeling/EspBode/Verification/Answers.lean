import Mathlib.Data.List.DropRight
import EspBode.Verification.Packets
import EspBode.Verification.ScpiText

/-!
# What a VXI request is answered with

The abstract side of the VXI server. A request is the contents of the read buffer when a record has
been received, and `answer` says what happens on it: whether the connection is closed, which
settings are passed on, and which record is sent. Its faults are those of the handlers. There is no
send buffer in it and no state.

A result about requests goes through `requestCase`: a request is for another program, for one of the
four procedures that are handled, or for another procedure. `answer_of_program_ne` and its
neighbours say what the answer is in each case.

Two of the cases depend on a length that the client declares, and the conditions under which the
data fits are there by name:

* **creating a link** (`CreateFits`): a terminator is put behind the data, wherever that is;
* **a write** (`WriteFits`): the newlines at the end of the data are looked at first, so all of the
  data has to be in the buffer; the terminator is put behind what is left, so room for it may come
  from a newline.

The identification that a read returns is limited by the send buffer. The text of a write is what
stands in the buffer at its place up to the first NUL; whether it was received is not asked here.
Inside of it the parser fails at a null pointer only, so that an answer fails at an index exactly
where something does not fit (`lineText_reply_ne_index`).
-/

namespace EspBode

open Buffer

/-! ### The fields of a request -/

namespace VxiRequest

/-- The transaction id. -/
abbrev xid (b : Buffer vxiReadSize) : UInt32 :=
  b.word 4

abbrev program (b : Buffer vxiReadSize) : UInt32 :=
  b.word 16

abbrev procedure (b : Buffer vxiReadSize) : UInt32 :=
  b.word 24

/-- The length of the data of a request to create a link. -/
abbrev createDataLen (b : Buffer vxiReadSize) : ℕ :=
  (b.word 56).toNat

/-- The length of the data of a write request, as it is sent. -/
abbrev writeDataSize (b : Buffer vxiReadSize) : UInt32 :=
  b.word 60

/-- The length of the data of a write request. -/
abbrev writeDataLen (b : Buffer vxiReadSize) : ℕ :=
  (writeDataSize b).toNat

/-- The bytes without the newlines at their end. -/
def withoutNewlines (data : List UInt8) : List UInt8 :=
  data.rdropWhile (· == chr '\n')

/-- The data of a write request without the newlines at its end. -/
def strippedData (b : Buffer vxiReadSize) : List UInt8 :=
  withoutNewlines (b.slice 64 (writeDataLen b))

/-- The text that a write request hands to the parser: the C string that the stripped data is. -/
def writtenText (b : Buffer vxiReadSize) : List UInt8 :=
  (strippedData b).takeWhile (· != 0)

/-- There is room for the data of a request to create a link, and for its terminator. -/
abbrev CreateFits (b : Buffer vxiReadSize) : Prop :=
  createDataLen b < 196

/-- There is room for the data of a write request, and behind the stripped data for a terminator. -/
abbrev WriteFits (b : Buffer vxiReadSize) : Prop :=
  writeDataLen b ≤ 192 ∧ (strippedData b).length < 192

end VxiRequest

open VxiRequest

/-! ### Answers -/

/-- What happens on a request. -/
structure Answer where
  /-- Whether the connection is to be closed. -/
  bClose : Bool
  /-- The settings that are passed to the AWG. -/
  calls : List SetCall
  /-- The record that is sent to the client. -/
  reply : List UInt8
  deriving DecidableEq, Repr

namespace Answer

/-- Success, and no error. -/
def noError : List UInt8 :=
  beBytes Rpc.RpcStatus.success.code ++ beBytes Rpc.Error.noError.code

/-- The link: its id, no port to abort on, and the most data a write may send. -/
def createBody : List UInt8 :=
  noError ++ beBytes 0 ++ beBytes 0 ++ beBytes (UInt32.ofNat (vxiReadSize - 4))

/-- The identification, which ends the read. -/
def readBody (awg : AwgServer) : List UInt8 :=
  noError ++ beBytes Rpc.Reason.end'.code ++ beBytes (UInt32.ofNat awg.id.length) ++ awg.id

/-- The number of bytes that were sent. -/
def writeBody (size : UInt32) : List UInt8 :=
  noError ++ beBytes size

end Answer

open Answer

/-- The answer to the request in the read buffer. -/
def answer (awg : AwgServer) (b : Buffer vxiReadSize) (uninit : ℕ → Double) :
    Except Fault Answer :=
  if program b ≠ Rpc.Program.vxi11Core.code then
    .ok ⟨false, [], replyRecord (xid b) (beBytes Rpc.RpcStatus.progUnavail.code)⟩
  else if procedure b = Rpc.Procedure.vxi11CreateLink.code then
    if CreateFits b then .ok ⟨false, [], replyRecord (xid b) createBody⟩ else .error .index
  else if procedure b = Rpc.Procedure.vxi11DevRead.code then
    if awg.id.length < 216 then .ok ⟨false, [], replyRecord (xid b) (readBody awg)⟩
    else .error .index
  else if procedure b = Rpc.Procedure.vxi11DevWrite.code then
    if WriteFits b then do
      let (_, _, calls) ← Scpi.lineText (writtenText b) uninit
      return ⟨false, calls, replyRecord (xid b) (writeBody (writeDataSize b))⟩
    else .error .index
  else if procedure b = Rpc.Procedure.vxi11DestroyLink.code then
    .ok ⟨true, [], replyRecord (xid b) noError⟩
  else
    .ok ⟨false, [], replyRecord (xid b) (beBytes Rpc.RpcStatus.procUnavail.code)⟩

/-- The procedures that are not refused. -/
def handledProcedures : List UInt32 :=
  [Rpc.Procedure.vxi11CreateLink.code, Rpc.Procedure.vxi11DevRead.code,
    Rpc.Procedure.vxi11DevWrite.code, Rpc.Procedure.vxi11DestroyLink.code]

/-- What a request can be for. -/
inductive RequestCase (program procedure : UInt32) : Prop
  | otherProgram (h : program ≠ Rpc.Program.vxi11Core.code)
  | createLink (core : program = Rpc.Program.vxi11Core.code)
      (h : procedure = Rpc.Procedure.vxi11CreateLink.code)
  | devRead (core : program = Rpc.Program.vxi11Core.code)
      (h : procedure = Rpc.Procedure.vxi11DevRead.code)
  | devWrite (core : program = Rpc.Program.vxi11Core.code)
      (h : procedure = Rpc.Procedure.vxi11DevWrite.code)
  | destroyLink (core : program = Rpc.Program.vxi11Core.code)
      (h : procedure = Rpc.Procedure.vxi11DestroyLink.code)
  | otherProcedure (core : program = Rpc.Program.vxi11Core.code)
      (h : procedure ∉ handledProcedures)

/-- **The case analysis on requests.** -/
theorem requestCase (program procedure : UInt32) : RequestCase program procedure := by
  rcases eq_or_ne program Rpc.Program.vxi11Core.code with hcore | hcore
  swap
  · exact .otherProgram hcore
  by_cases h : procedure ∈ handledProcedures
  swap
  · exact .otherProcedure hcore h
  simp only [handledProcedures, List.mem_cons, List.not_mem_nil, or_false] at h
  rcases h with h | h | h | h
  · exact .createLink hcore h
  · exact .devRead hcore h
  · exact .devWrite hcore h
  · exact .destroyLink hcore h

section Cases

variable {awg : AwgServer} {b : Buffer vxiReadSize} {uninit : ℕ → Double}

/-- Inside the text of a write the parser fails at a null pointer only. -/
theorem lineText_reply_ne_index (text reply : List UInt8) (uninit : ℕ → Double) :
    (do
      let (_, _, calls) ← Scpi.lineText text uninit
      return ⟨false, calls, reply⟩ : Except Fault Answer) ≠ .error .index := by
  have hfault := (lineText_failsOnly text uninit).bind
    (f := fun q ↦ .ok (⟨false, q.2.2, reply⟩ : Answer)) fun _ ↦ .ok _
  exact fun hindex ↦ absurd (hfault _ hindex) (by decide)

theorem answer_of_program_ne (h : program b ≠ Rpc.Program.vxi11Core.code) :
    answer awg b uninit =
      .ok ⟨false, [], replyRecord (xid b) (beBytes Rpc.RpcStatus.progUnavail.code)⟩ := by
  rw [answer, if_pos h]

theorem answer_of_createLink (hcore : program b = Rpc.Program.vxi11Core.code)
    (h : procedure b = Rpc.Procedure.vxi11CreateLink.code) :
    answer awg b uninit =
      if CreateFits b then .ok ⟨false, [], replyRecord (xid b) createBody⟩ else .error .index := by
  rw [answer, if_neg (not_not.2 hcore), if_pos h]

theorem answer_of_devRead (hcore : program b = Rpc.Program.vxi11Core.code)
    (h : procedure b = Rpc.Procedure.vxi11DevRead.code) :
    answer awg b uninit =
      if awg.id.length < 216 then .ok ⟨false, [], replyRecord (xid b) (readBody awg)⟩
      else .error .index := by
  rw [answer, if_neg (not_not.2 hcore), h, if_neg (by decide), if_pos rfl]

theorem answer_of_devWrite (hcore : program b = Rpc.Program.vxi11Core.code)
    (h : procedure b = Rpc.Procedure.vxi11DevWrite.code) :
    answer awg b uninit = if WriteFits b then do
      let (_, _, calls) ← Scpi.lineText (writtenText b) uninit
      return ⟨false, calls, replyRecord (xid b) (writeBody (writeDataSize b))⟩
    else .error .index := by
  rw [answer, if_neg (not_not.2 hcore), h, if_neg (by decide), if_neg (by decide), if_pos rfl]

theorem answer_of_destroyLink (hcore : program b = Rpc.Program.vxi11Core.code)
    (h : procedure b = Rpc.Procedure.vxi11DestroyLink.code) :
    answer awg b uninit = .ok ⟨true, [], replyRecord (xid b) noError⟩ := by
  have hwrite : ¬ Rpc.Procedure.vxi11DestroyLink.code = Rpc.Procedure.vxi11DevWrite.code := by
    decide
  rw [answer, if_neg (not_not.2 hcore), h, if_neg (by decide), if_neg (by decide), if_neg hwrite,
    if_pos rfl]

theorem answer_of_not_handled (hcore : program b = Rpc.Program.vxi11Core.code)
    (h : procedure b ∉ handledProcedures) :
    answer awg b uninit =
      .ok ⟨false, [], replyRecord (xid b) (beBytes Rpc.RpcStatus.procUnavail.code)⟩ := by
  simp only [handledProcedures, List.mem_cons, List.not_mem_nil, or_false, not_or] at h
  obtain ⟨hcreate, hread, hwrite, hdestroy⟩ := h
  rw [answer, if_neg (not_not.2 hcore), if_neg hcreate, if_neg hread, if_neg hwrite,
    if_neg hdestroy]

end Cases

end EspBode
