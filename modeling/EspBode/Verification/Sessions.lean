import EspBode.Firmware.System
import EspBode.Verification.RequestRecords
import EspBode.Verification.ScpiSettings

/-!
# One reply per request

A whole session on one accepted connection. `replyTo r` is the reply to the request record `r`, and
`answered rs` are the requests up to the one that destroys the link. `session_replies` says that `k`
calls of the loop send exactly the replies to the first `k` of these, in order.

A request is `Complete` if it fits the buffer, holds all of its data and leaves room for the
terminator of the data, and if the parser comes back from what it writes. These are conditions on
the record, and they are what makes the answer a function of it:

* the fields that the handlers read, and the data, stand in the received part of the buffer, so
  nothing of an earlier request is seen (`Complete.word_eq`, `Complete.writtenText_eq`);
* no handler stops with a fault.

On a stream of complete requests every call of the loop takes the next record off the stream and
sends its reply, whatever the buffers held before (`loop_of_complete`). A record of this kind has at
least the header as its body, and it fits, so it is taken as a whole and the next call begins at the
next record. The session is the induction on the calls (`session_run`), for any state with this
connection in it. When the link has been destroyed there is no client, and a call does nothing
unless a connection is offered; when the stream has ended, a call receives nothing and sends
nothing. So there is no bound on the number of calls.

`IsReplyFor` says in terms of the bytes what it means to be a reply for a transaction id.
-/

namespace EspBode

open Buffer VxiRequest Answer

/-! ### Complete requests -/

/-- The parser comes back from the text, whatever is in its uninitialized local. -/
def ParserReturns (text : List UInt8) : Prop :=
  ∀ uninit, ∃ run,
    parseScpi ((Buffer.zero (text.length + 1)).patch 0 text) 0 uninit = .ok run

/-- A text in a buffer of its own. -/
theorem isString_own {text : List UInt8} (h : 0 ∉ text) :
    ((Buffer.zero (text.length + 1)).patch 0 text).IsString 0 text := by
  have hfit : 0 + text.length ≤ text.length + 1 := by omega
  refine .of_drop_eq (r := []) h ?_
  rw [drop_patch_self _ hfit, zero]
  simp

theorem parserReturns_iff {text : List UInt8} (h : 0 ∉ text) :
    ParserReturns text ↔ ∀ uninit, ∃ q, Scpi.lineText text uninit = .ok q := by
  refine forall_congr' fun uninit ↦ ?_
  have hsim := parseScpi_simulates (isString_own h) uninit
  constructor
  · rintro ⟨run, hrun⟩
    obtain ⟨q, hq, -⟩ := hsim.exists_of_eq_ok hrun
    exact ⟨q, hq⟩
  · rintro ⟨q, hq⟩
    obtain ⟨run, hrun, -⟩ := hsim.of_eq_ok hq
    exact ⟨run, hrun⟩

/-- The parser comes back from every well-formed line. -/
theorem parserReturns_of_wellFormed {text : List UInt8} (h : Scpi.WellFormed text) :
    ParserReturns text :=
  (parserReturns_iff h.nulFree).2 fun uninit ↦ by
    obtain ⟨ch, readType, hline⟩ := lineText_eq h uninit
    exact ⟨_, hline⟩

/-- A request record that fits, holds all of its data, and leaves room for the terminator of the
data; what it writes is a text that the parser comes back from. -/
structure Complete (r : Record) : Prop where
  header : 40 ≤ r.body.length
  fits : r.body.length ≤ 252
  createData : r.Calls .vxi11CreateLink →
    56 + r.createDataLen ≤ r.body.length ∧ 60 + r.createDataLen < vxiReadSize
  writeData : r.Calls .vxi11DevWrite →
    60 + r.writeDataLen ≤ r.body.length ∧ 64 + r.writeDataLen < vxiReadSize
  parses : r.Calls .vxi11DevWrite → ParserReturns r.writePayload

/-! ### The replies -/

/-- The body of the reply to a request. -/
def replyBody (r : Record) : List UInt8 :=
  if r.program ≠ Rpc.Program.vxi11Core.code then beBytes Rpc.RpcStatus.progUnavail.code
  else if r.procedure = Rpc.Procedure.vxi11CreateLink.code then createBody
  else if r.procedure = Rpc.Procedure.vxi11DevRead.code then readBody .base
  else if r.procedure = Rpc.Procedure.vxi11DevWrite.code then
    writeBody (r.field WriteRequestPacket.dataLen)
  else if r.procedure = Rpc.Procedure.vxi11DestroyLink.code then noError
  else beBytes Rpc.RpcStatus.procUnavail.code

/-- The reply to a request: one record that echoes the transaction id. -/
def replyTo (r : Record) : List UInt8 :=
  replyRecord r.xid (replyBody r)

/-- The requests up to the first one that destroys the link. -/
def answered : List Record → List Record
  | [] => []
  | r :: rs => if r.Calls .vxi11DestroyLink then [r] else r :: answered rs

/-- The records that are sent. -/
def sent (actions : List VxiAction) : List (List UInt8) :=
  actions.filterMap fun
    | .send bytes => some bytes
    | _ => none

/-- The bytes are one record: the word in front has its top bit set and declares the rest, which is
a multiple of 4 bytes long and starts with the reply header for the transaction id. -/
def IsReplyFor (xid : UInt32) (bytes : List UInt8) : Prop :=
  ∃ n rest, bytes = beBytes (0x80000000 ||| UInt32.ofNat n) ++ (replyHeader xid ++ rest) ∧
    (replyHeader xid ++ rest).length = n ∧ n % 4 = 0 ∧ n < 2 ^ 31

theorem sent_append (as bs : List VxiAction) : sent (as ++ bs) = sent as ++ sent bs :=
  List.filterMap_append

theorem sent_actions (a : Answer) : sent (Answer.actions (some a)) = [a.reply] := by
  rw [Answer.actions, Option.elim_some, sent_append]
  simp [sent, List.filterMap_map]

/-- Closing the link sends nothing. -/
theorem sent_afterReply (s : VxiServer) (bClose : Bool) : sent (s.afterReply bClose).2 = [] := by
  cases bClose
  · rfl
  · show sent (.clientStop :: List.map VxiAction.server _) = []
    simp [sent, List.filterMap_map]

/-- Every reply body is short. -/
theorem length_replyBody_le (r : Record) : (replyBody r).length ≤ 40 := by
  have hread : (readBody .base).length ≤ 40 := by decide
  have hcreate : createBody.length ≤ 40 := by decide
  unfold replyBody
  split_ifs
  · exact Nat.le_of_ble_eq_true rfl
  · exact hcreate
  · exact hread
  · exact Nat.le_of_ble_eq_true rfl
  · exact Nat.le_of_ble_eq_true rfl
  · exact Nat.le_of_ble_eq_true rfl

theorem isReplyFor_replyTo (r : Record) : IsReplyFor r.xid (replyTo r) := by
  obtain ⟨n, hbytes, hlen, hmod, hlt⟩ := replyRecord_framed r.xid (replyBody r)
    (by have := length_replyBody_le r; omega)
  rw [replyPayload, List.append_assoc] at hbytes hlen
  exact ⟨n, _, hbytes, hlen, hmod, hlt⟩

/-! ### One call -/

section Call

variable {b : Buffer vxiReadSize} {c : NetClient} {r : Record} {rest : List UInt8}

theorem Complete.taken_eq (h : Complete r) : taken vxiReadSize r.body.length = r.body.length :=
  taken_eq_iff.2 (.inr ⟨by have := h.header; omega, h.fits⟩)

/-- The fields of a complete request stand in the buffer. -/
theorem Complete.word_eq (h : Complete r) (hc : c.Prompt) (hrx : c.rx = r.bytes ++ rest) {i : ℕ}
    (hi : i + 4 ≤ r.body.length) : (requestIn b c).word (4 + i) = r.field i :=
  word_requestIn hc hrx (by rwa [h.taken_eq])

/-- A complete write request hands its payload to the parser. -/
theorem Complete.writtenText_eq (h : Complete r) (hw : r.Calls .vxi11DevWrite) (hc : c.Prompt)
    (hrx : c.rx = r.bytes ++ rest) :
    WriteFits (requestIn b c) ∧ writtenText (requestIn b c) = r.writePayload ∧
      writeDataSize (requestIn b c) = r.field 56 := by
  obtain ⟨hdata, hfit⟩ := h.writeData hw
  have h256 : vxiReadSize = 256 := rfl
  have hsize : writeDataSize (requestIn b c) = r.field 56 := h.word_eq hc hrx (i := 56) (by omega)
  have hlen : writeDataLen (requestIn b c) = r.writeDataLen := by
    rw [writeDataLen, hsize]
  have hslice : (requestIn b c).slice 64 r.writeDataLen = r.writeData :=
    slice_requestIn hc hrx (i := 60) (by rwa [h.taken_eq])
  have hstripped : strippedData (requestIn b c) = withoutNewlines r.writeData := by
    rw [strippedData, hlen, hslice]
  have hle := length_strippedData_le (requestIn b c)
  exact ⟨⟨by omega, by omega⟩, by rw [writtenText, hstripped, Record.writePayload], hsize⟩

/-- **The answer to a complete request** closes the link if that was asked for, and is the reply. -/
theorem Complete.answer_eq (h : Complete r) (hc : c.Prompt) (hrx : c.rx = r.bytes ++ rest)
    (uninit : ℕ → Double) :
    ∃ calls, answer .base (requestIn b c) uninit =
      .ok ⟨decide (r.Calls .vxi11DestroyLink), calls, replyTo r⟩ := by
  have h40 := h.header
  have hxid : xid (requestIn b c) = r.xid := h.word_eq hc hrx (i := 0) (by omega)
  have hprogram : program (requestIn b c) = r.program := h.word_eq hc hrx (i := 12) (by omega)
  have hprocedure : procedure (requestIn b c) = r.procedure :=
    h.word_eq hc hrx (i := 20) (by omega)
  have hnot : ∀ {procedure}, r.procedure = procedure →
      procedure ≠ Rpc.Procedure.vxi11DestroyLink.code → ¬ r.Calls .vxi11DestroyLink :=
    fun hr hne hd ↦ hne (hr.symm.trans hd.2)
  rw [replyTo, replyBody]
  cases requestCase r.program r.procedure with
  | otherProgram hother =>
    rw [answer_of_program_ne (hprogram ▸ hother), hxid, if_pos hother,
      decide_eq_false fun hd ↦ hother hd.1]
    exact ⟨[], rfl⟩
  | createLink hcore hcreate =>
    obtain ⟨hdata, hfit⟩ := h.createData ⟨hcore, hcreate⟩
    have h256 : vxiReadSize = 256 := rfl
    have hlen : createDataLen (requestIn b c) = r.createDataLen :=
      congrArg UInt32.toNat (h.word_eq hc hrx (i := 52) (by omega))
    have hfits : CreateFits (requestIn b c) := by
      rw [CreateFits, hlen]
      omega
    rw [answer_of_createLink (hprogram.trans hcore) (hprocedure.trans hcreate), if_pos hfits, hxid,
      if_neg (not_not.2 hcore), if_pos hcreate, decide_eq_false (hnot hcreate (by decide))]
    exact ⟨[], rfl⟩
  | devRead hcore hread =>
    rw [answer_of_devRead (hprogram.trans hcore) (hprocedure.trans hread), if_pos (by decide), hxid,
      if_neg (not_not.2 hcore), hread, if_neg (by decide), if_pos rfl,
      decide_eq_false (hnot hread (by decide))]
    exact ⟨[], rfl⟩
  | devWrite hcore hwrite =>
    obtain ⟨hfits, htext, hsize⟩ := h.writtenText_eq (b := b) ⟨hcore, hwrite⟩ hc hrx
    have h0 : 0 ∉ r.writePayload := (takeWhile_dropWhile_ne 0 _).1
    obtain ⟨q, hq⟩ := (parserReturns_iff h0).1 (h.parses ⟨hcore, hwrite⟩) uninit
    rw [answer_of_devWrite (hprogram.trans hcore) (hprocedure.trans hwrite), if_pos hfits, htext,
      hq, ok_bind, hxid, hsize, if_neg (not_not.2 hcore), hwrite, if_neg (by decide),
      if_neg (by decide), if_pos rfl, decide_eq_false (hnot hwrite (by decide))]
    exact ⟨q.2.2, rfl⟩
  | destroyLink hcore hdestroy =>
    have hwrite : ¬ Rpc.Procedure.vxi11DestroyLink.code = Rpc.Procedure.vxi11DevWrite.code := by
      decide
    rw [answer_of_destroyLink (hprogram.trans hcore) (hprocedure.trans hdestroy), hxid,
      if_neg (not_not.2 hcore), decide_eq_true ⟨hcore, hdestroy⟩, hdestroy, if_neg (by decide),
      if_neg (by decide), if_neg hwrite, if_pos rfl]
    exact ⟨[], rfl⟩
  | otherProcedure hcore hunhandled =>
    have hdestroy' : ¬ r.Calls .vxi11DestroyLink := fun hd ↦ hunhandled (hd.2 ▸ by decide)
    rw [answer_of_not_handled (hprogram.trans hcore) (hprocedure ▸ hunhandled), hxid,
      if_neg (not_not.2 hcore), decide_eq_false hdestroy']
    simp only [handledProcedures, List.mem_cons, List.not_mem_nil, or_false, not_or] at hunhandled
    obtain ⟨hcreate, hread, hwrite, hdestroy⟩ := hunhandled
    rw [if_neg hcreate, if_neg hread, if_neg hwrite, if_neg hdestroy]
    exact ⟨[], rfl⟩

/-- **One call on a stream that starts with a complete request** sends its reply, and drops the
client or leaves it at the next record. -/
theorem loop_of_complete {s : VxiServer} (h : Complete r) (hs : s.client = some c) (hc : c.Prompt)
    (hrx : c.rx = r.bytes ++ rest) (uninit : ℕ → Double) :
    ∃ s' out, s.loop .base { uninit } = .ok (s', out) ∧ sent out = [replyTo r] ∧
      s'.client = if r.Calls .vxi11DestroyLink then none else some { c with rx := rest } := by
  obtain ⟨calls, ha⟩ := h.answer_eq (b := s.vxiReadBuffer) hc hrx uninit
  have hreceive : (receive vxiReadSize c).len > 0 ∧
      (receive vxiReadSize c).client = { c with rx := rest } := by
    have h40 := h.header
    have hfits := h.fits
    rw [receive_of_record vxiReadSize hc hrx, h.taken_eq]
    refine ⟨?_, by rw [List.drop_length, List.nil_append]⟩
    dsimp only
    rw [if_pos (by omega)]
    show 0 < min r.body.length 252
    omega
  have hserve : serve .base s.vxiReadBuffer c uninit = .ok (some
      ⟨decide (r.Calls .vxi11DestroyLink), calls, replyTo r⟩) := by
    rw [serve, if_pos hreceive.1, ha, map_ok]
  obtain ⟨⟨s', out⟩, hrun, t, hlink, hs', hout⟩ :=
    (VxiServer.loop_simulates .base hs { uninit }).of_eq_ok hserve
  refine ⟨s', out, hrun, ?_, ?_⟩
  · rw [show out = _ from hout, sent_append, sent_actions, sent_afterReply, List.append_nil]
  · rw [show s' = _ from hs', VxiServer.client_afterReply, hlink.client, hreceive.2]
    simp only [closes, Option.elim_some, decide_eq_true_eq]

end Call

/-! ### Whole sessions -/

/-- A call when there is no client, and none is offered. -/
theorem loop_of_no_client {s : VxiServer} (hs : s.client = none) (uninit : ℕ → Double) :
    ∃ out, s.loop .base { uninit } = .ok (s, out) ∧ sent out = [] := by
  have haccept : s.tcpServer.accept none = (none, (s.tcpServer.accept none).2) := by
    rw [NetServerExt.accept]
    cases s.tcpServer.mServer <;> rfl
  refine ⟨(s.tcpServer.accept none).2.map .server, ?_, by simp [sent, List.filterMap_map]⟩
  rw [VxiServer.loop, hs]
  dsimp only
  rw [haccept]
  obtain ⟨readBuffer, sendBuffer, server, client, readType, channel, port⟩ := s
  obtain rfl : client = none := hs
  rfl

/-- A call when the stream of the client has ended. -/
theorem loop_of_no_record {awg : AwgServer} {s : VxiServer} {c : NetClient}
    (hs : s.client = some c) (hc : c.Prompt) (hrx : c.rx = []) (input : VxiServer.LoopInput) :
    s.loop awg input =
      .ok ({ s with vxiReadBuffer := requestIn s.vxiReadBuffer c, client := some c }, []) := by
  rw [VxiServer.loop_of_client hs, receive_of_rx_eq_nil vxiReadSize hc hrx]
  rfl

/-- The calls of a session: no connection is offered, and each call finds what it finds in its
uninitialized locals. -/
abbrev sessionCalls (uninits : List (ℕ → Double)) : List VxiServer.LoopInput :=
  uninits.map fun uninit ↦ { uninit }

theorem session_without_client (uninits : List (ℕ → Double)) :
    ∀ {s : VxiServer}, s.client = none →
    ∃ out, Machine.runFrom (VxiServer.loop .base) s (sessionCalls uninits) = .ok (s, out) ∧
      sent out = [] := by
  induction uninits with
  | nil => exact fun _ ↦ ⟨[], rfl, rfl⟩
  | cons uninit uninits ih =>
    intro s hs
    obtain ⟨out, hloop, hsent⟩ := loop_of_no_client hs uninit
    obtain ⟨out', hrun, hsent'⟩ := ih hs
    exact ⟨out ++ out', Machine.runFrom_cons_eq_ok.2 ⟨s, out, out', hloop, hrun, rfl⟩,
      by rw [sent_append, hsent, hsent', List.append_nil]⟩

/-- The induction on the calls. -/
theorem session_run {uninits : List (ℕ → Double)} :
    ∀ {s : VxiServer} {c : NetClient} {rs : List Record}, s.client = some c → c.Prompt →
      c.rx = Record.stream rs → (∀ r ∈ rs, Complete r) →
        ∃ s' out, Machine.runFrom (VxiServer.loop .base) s (sessionCalls uninits) = .ok (s', out) ∧
          sent out = (answered (rs.take uninits.length)).map replyTo ∧
          (s'.client = none ↔ ∃ r ∈ rs.take uninits.length, r.Calls .vxi11DestroyLink) := by
  induction uninits with
  | nil =>
    intro s c rs hs _ _ _
    exact ⟨s, [], rfl, rfl, by simp [hs]⟩
  | cons uninit uninits ih =>
    intro s c rs hs hc hrx hrs
    rcases rs with _ | ⟨r, rs⟩
    · -- the stream has ended
      have hloop : s.loop .base { uninit } = _ := loop_of_no_record hs hc hrx _
      obtain ⟨s₂, out, hrun, hsent, hclient⟩ := ih
        (s := { s with vxiReadBuffer := requestIn s.vxiReadBuffer c, client := some c }) rfl hc
        (show c.rx = Record.stream [] from hrx) hrs
      refine ⟨s₂, [] ++ out, Machine.runFrom_cons_eq_ok.2 ⟨_, [], out, hloop, hrun, rfl⟩, ?_, ?_⟩
      · simpa using hsent
      · simpa using hclient
    obtain ⟨s₁, out₁, hloop, hsent₁, hs₁⟩ := loop_of_complete (hrs r List.mem_cons_self) hs hc
      hrx uninit
    rw [List.length_cons, List.take_succ_cons, answered]
    by_cases hdestroy : r.Calls .vxi11DestroyLink
    · rw [if_pos hdestroy] at hs₁
      obtain ⟨out₂, hrun, hsent₂⟩ := session_without_client uninits hs₁
      refine ⟨s₁, out₁ ++ out₂, Machine.runFrom_cons_eq_ok.2 ⟨s₁, out₁, out₂, hloop, hrun, rfl⟩,
        ?_, ?_⟩
      · rw [sent_append, hsent₁, hsent₂, if_pos hdestroy]
        rfl
      · simp [hs₁, hdestroy]
    · rw [if_neg hdestroy] at hs₁
      obtain ⟨s₂, out₂, hrun, hsent₂, hclient⟩ := ih hs₁ hc
        (rfl : _ = Record.stream rs) fun r' hr' ↦ hrs r' (List.mem_cons_of_mem _ hr')
      refine ⟨s₂, out₁ ++ out₂, Machine.runFrom_cons_eq_ok.2 ⟨s₁, out₁, out₂, hloop, hrun, rfl⟩,
        ?_, ?_⟩
      · rw [sent_append, hsent₁, hsent₂, if_neg hdestroy]
        rfl
      · rw [hclient]
        simp [hdestroy]

/-- **One reply per request.** On a connection that brings complete requests, whatever state the
server was left in, `k` calls of the loop send exactly the replies to those of the first `k`
requests that precede the destruction of the link or are it, in order; the client is dropped by the
call that destroys the link; and every reply is one well-framed record that echoes the transaction
id. -/
theorem session_replies {s : VxiServer} {c : NetClient} {rs : List Record}
    (hs : s.client = some c) (hc : c.Prompt) (hrx : c.rx = Record.stream rs)
    (hrs : ∀ r ∈ rs, Complete r) (uninits : List (ℕ → Double)) :
    (∃ s' out, Machine.runFrom (VxiServer.loop .base) s (sessionCalls uninits) = .ok (s', out) ∧
      sent out = (answered (rs.take uninits.length)).map replyTo ∧
      (s'.client = none ↔ ∃ r ∈ rs.take uninits.length, r.Calls .vxi11DestroyLink)) ∧
    ∀ r ∈ rs, IsReplyFor r.xid (replyTo r) :=
  ⟨session_run hs hc hrx hrs, fun r _ ↦ isReplyFor_replyTo r⟩

/-- A session: create a link, write a line, read the identification, destroy the link. -/
def exampleSession : List Record :=
  [.lastFragment (createRequest 1 4 (ascii "inst")) (by decide),
    .lastFragment (writeRequest 2 exampleLine) (by decide +kernel),
    .lastFragment (plainRequest 3 .vxi11DevRead) (by decide),
    .lastFragment (plainRequest 4 .vxi11DestroyLink) (by decide)]

theorem writePayload_example :
    (Record.lastFragment (writeRequest 2 exampleLine) (by decide +kernel)).writePayload =
      exampleLine := by
  decide +kernel

theorem complete_exampleSession : ∀ r ∈ exampleSession, Complete r := by
  simp only [exampleSession, List.forall_mem_cons, List.not_mem_nil, false_imp_iff, implies_true,
    and_true]
  refine ⟨⟨?_, ?_, ?_, ?_, fun h ↦ absurd h (by decide +kernel)⟩, ⟨?_, ?_, ?_, ?_, fun _ ↦ ?_⟩,
    ⟨?_, ?_, ?_, ?_, fun h ↦ absurd h (by decide +kernel)⟩,
    ⟨?_, ?_, ?_, ?_, fun h ↦ absurd h (by decide +kernel)⟩⟩
  case refine_9 =>
    rw [writePayload_example]
    exact parserReturns_of_wellFormed wellFormed_exampleLine
  all_goals decide +kernel

theorem session_replies_example :
    let s := { System.setup.1.vxi with client := some (.ofStream (Record.stream exampleSession)) }
    (∃ s' out, Machine.runFrom (VxiServer.loop .base) s
        (sessionCalls (List.replicate 5 fun _ ↦ .nan)) = .ok (s', out) ∧
      sent out = (answered (exampleSession.take 5)).map replyTo ∧
      (s'.client = none ↔ ∃ r ∈ exampleSession.take 5, r.Calls .vxi11DestroyLink)) ∧
    ∀ r ∈ exampleSession, IsReplyFor r.xid (replyTo r) :=
  session_replies rfl (NetClient.prompt_ofStream _) rfl complete_exampleSession
    (List.replicate 5 fun _ ↦ .nan)

end EspBode
