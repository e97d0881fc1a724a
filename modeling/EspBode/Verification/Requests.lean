import EspBode.Verification.Answers

/-!
# The handlers refine the answer

`handlePacket_simulates` is the refinement: the handlers do what `answer` says, for whatever the
send buffer holds, and leave the rest of the server as it was. `loop_simulates` extends it to a call
of `loop()` with a client attached, which is what results about whole sessions step through.

The handlers and the answer meet in the middle, and so the proof has two halves.

* **From the answer**: `answer` is a case distinction on the program and the procedure, and each
  case says whether the data of the request fits (`CreateFits`, `WriteFits`, the length of the
  identification). Its equations are used by name.
* **From the code**: each handler has two lemmas, `_eq` for data that fits and `_eq_error` for data
  that does not. A response is written field by field, one field behind the other, so the body
  stands in the send buffer as one range (`storeField_patch`), and `respond_eq` sends it.

**Errors are part of the refinement.** Where the answer is a fault, the handlers stop with the same
fault, so nothing has to be assumed about the lengths that a client declares. The faults of the
parser come with it, from the refinement of the parser.

`SameLink` is what no handler touches: the client, the server object and the port. Together with the
actions it determines what a session needs to know of the state behind a reply.
-/

namespace EspBode

open Buffer VxiRequest Answer

/-! ### The data of a write request -/

/-- The scan for newlines finds the length of the stripped data. -/
theorem trimNewlines_eq (b : Buffer vxiReadSize) : ∀ {len : ℕ}, len ≤ 192 →
    VxiServer.trimNewlines b len = .ok (withoutNewlines (b.slice 64 len)).length
  | 0, _ => rfl
  | len + 1, h => by
    have h256 : vxiReadSize = 256 := rfl
    obtain ⟨c, hget, hslice⟩ := get_eq_ok b (i := 64 + len) (by omega)
    have hget' : b.get (prefixSize + WriteRequestPacket.data + len) = .ok c := hget
    rw [VxiServer.trimNewlines, hget', ok_bind, slice_add, hslice, withoutNewlines]
    rcases eq_or_ne c (chr '\n') with hc | hc
    · rw [if_pos hc, trimNewlines_eq b (by omega), List.rdropWhile_concat_pos _ _ _ (by simp [hc])]
      rfl
    · rw [if_neg hc, List.rdropWhile_concat_neg _ _ _ (by simp [hc]), List.length_append,
        length_slice b (by omega)]
      rfl

/-- A length that leaves the buffer is noticed at the first byte of the scan. -/
theorem trimNewlines_eq_error (b : Buffer vxiReadSize) {len : ℕ} (h : 192 < len) :
    VxiServer.trimNewlines b len = .error .index := by
  obtain ⟨len, rfl⟩ := Nat.exists_eq_add_of_lt h
  rw [VxiServer.trimNewlines,
    get_eq_error b (by show 256 ≤ 64 + (192 + len); omega), error_bind]

/-- Stripping makes room for a terminator exactly if there is room already, or the last byte is a
newline. -/
theorem length_withoutNewlines_lt_iff {data : List UInt8} (h : data.length ≤ 192) :
    (withoutNewlines data).length < 192 ↔
      data.length ≤ 191 ∨ data.length = 192 ∧ data.getLast? = some (chr '\n') := by
  rcases List.eq_nil_or_concat' data with rfl | ⟨xs, x, rfl⟩
  · exact iff_of_true (by decide) (.inl (by decide))
  rw [List.getLast?_concat, Option.some.injEq, withoutNewlines]
  rw [List.length_append, List.length_singleton] at h ⊢
  rcases eq_or_ne x (chr '\n') with hx | hx
  · have := (List.rdropWhile_prefix (· == chr '\n') xs).length_le
    rw [List.rdropWhile_concat_pos _ _ _ (by simp [hx])]
    simp only [hx, and_true]
    omega
  · rw [List.rdropWhile_concat_neg _ _ _ (by simp [hx]), List.length_append, List.length_singleton]
    simp only [hx, and_false, or_false]
    omega

/-- The stripped data is the start of the data. -/
theorem strippedData_isPrefix (b : Buffer vxiReadSize) :
    strippedData b <+: b.slice 64 (writeDataLen b) :=
  List.rdropWhile_prefix _ _

theorem length_strippedData_le (b : Buffer vxiReadSize) :
    (strippedData b).length ≤ writeDataLen b :=
  (strippedData_isPrefix b).length_le.trans (List.length_take_le _ _)

/-- The stripped data stands at the start of the data. -/
theorem slice_strippedData (b : Buffer vxiReadSize) :
    b.slice 64 (strippedData b).length = strippedData b := by
  have hle := length_strippedData_le b
  have htake := List.prefix_iff_eq_take.1 (strippedData_isPrefix b)
  rw [slice, List.take_take, Nat.min_eq_left hle] at htake
  exact htake.symm

/-- **Terminating the data of a write request** leaves its text as a string in the buffer, and
touches only the byte behind the stripped data. -/
theorem terminateData_eq {b : Buffer vxiReadSize} (h : WriteFits b) :
    VxiServer.terminateData b =
        .ok (writeDataSize b, b.patch (64 + (strippedData b).length) [0]) ∧
      (b.patch (64 + (strippedData b).length) [0]).IsString 64 (writtenText b) := by
  have h256 : vxiReadSize = 256 := rfl
  have hfit : 64 + (strippedData b).length + [(0 : UInt8)].length ≤ vxiReadSize := by
    rw [List.length_singleton]
    omega
  have hstring : (b.patch (64 + (strippedData b).length) [0]).IsString 64 (writtenText b) := by
    have := IsString.of_patch b (p := 64) (k := (strippedData b).length) (by omega)
    rwa [slice_strippedData] at this
  refine ⟨?_, hstring⟩
  rw [VxiServer.terminateData, loadField_eq_ok _ (by decide), ok_bind]
  show (VxiServer.trimNewlines b (writeDataLen b) >>= _) = _
  rw [trimNewlines_eq b h.1, ok_bind]
  show (b.store (64 + (strippedData b).length) [0] >>= _) = _
  rw [store_eq_ok _ hfit, ok_bind]
  show ((b.patch (64 + (strippedData b).length) [0]).cString 64 >>= _) = _
  rw [hstring.cString_eq]
  rfl

/-- Data that does not fit makes the termination leave the buffer. -/
theorem terminateData_eq_error {b : Buffer vxiReadSize} (h : ¬ WriteFits b) :
    VxiServer.terminateData b = .error .index := by
  rw [VxiServer.terminateData, loadField_eq_ok _ (by decide), ok_bind]
  show (VxiServer.trimNewlines b (writeDataLen b) >>= _) = _
  by_cases hlen : writeDataLen b ≤ 192
  · have hnot : ¬ (strippedData b).length < 192 := fun hlt ↦ h ⟨hlen, hlt⟩
    rw [trimNewlines_eq b hlen, ok_bind, store_eq_error]
    · rfl
    · show ¬ 64 + (strippedData b).length + 1 ≤ 256
      omega
  · rw [trimNewlines_eq_error b (by omega), error_bind]

/-! ### The handlers -/

namespace VxiServer

/-- The parts of the state that no handler touches. -/
structure SameLink (s t : VxiServer) : Prop where
  tcpServer : s.tcpServer = t.tcpServer
  client : s.client = t.client
  vxiPort : s.vxiPort = t.vxiPort

/-- The response whose body stands behind the header in the send buffer is sent as a record. -/
theorem respond_eq (s : VxiServer) (len : ℕ) (body : List UInt8) (hlen : len = 20 + body.length)
    (hbody : s.vxiSendBuffer.slice 24 body.length = body) (hfit : body.length ≤ 232) :
    ∃ response, s.respond len = .ok ({ s with vxiSendBuffer := response },
      [.send (replyRecord (xid s.vxiReadBuffer) body)]) := by
  obtain ⟨response, hsend⟩ := sendPacket_eq s.vxiReadBuffer s.vxiSendBuffer len
    (by decide) (by omega) (show 4 + len + (4 - len % 4) % 4 ≤ 256 by omega)
  rw [show len - 20 = body.length by omega, hbody] at hsend
  exact ⟨response, by rw [respond, sendVxiPacket, hsend]; rfl⟩

/-- A request that is refused. -/
theorem refuse_eq (s : VxiServer) (rc : Rpc.RpcStatus) :
    ∃ response, s.refuse rc = .ok ({ s with vxiSendBuffer := response },
      [.send (replyRecord (xid s.vxiReadBuffer) (beBytes rc.code))]) := by
  obtain ⟨response, h⟩ := respond_eq
    { s with vxiSendBuffer := s.vxiSendBuffer.patch 24 (beBytes rc.code) }
    RpcResponsePacket.size (beBytes rc.code) rfl
    (slice_patch_self _ (by rw [length_beBytes]; decide)) (by rw [length_beBytes]; decide)
  exact ⟨response, by rw [refuse, storeField_eq_ok _ (by decide), ok_bind]; exact h⟩

theorem destroyLink_eq (s : VxiServer) :
    ∃ response, s.destroyLink = .ok ({ s with vxiSendBuffer := response },
      [.send (replyRecord (xid s.vxiReadBuffer) noError)]) := by
  obtain ⟨response, h⟩ := respond_eq
    { s with vxiSendBuffer := s.vxiSendBuffer.patch 24 noError }
    DestroyResponsePacket.size noError rfl
    (slice_patch_self _ (by decide)) (by decide)
  refine ⟨response, ?_⟩
  rw [destroyLink, storeField_eq_ok _ (by decide), ok_bind, storeField_patch _ (by rfl) (by decide),
    ok_bind]
  exact h

theorem read_eq {awg : AwgServer} (s : VxiServer) (h : awg.id.length < 216) :
    ∃ response, s.read awg = .ok ({ s with vxiSendBuffer := response },
      [.send (replyRecord (xid s.vxiReadBuffer) (readBody awg))]) := by
  have hlen : (readBody awg).length = 16 + awg.id.length := List.length_append
  have hstore : prefixSize + ReadResponsePacket.data + (awg.id ++ [0]).length ≤ vxiSendSize := by
    rw [List.length_append, List.length_singleton]
    show 40 + (awg.id.length + 1) ≤ 256
    omega
  -- behind the body stands its terminator, which is not sent
  obtain ⟨response, hrespond⟩ := respond_eq
    { s with vxiSendBuffer := s.vxiSendBuffer.patch 24 (readBody awg ++ [0]) }
    (ReadResponsePacket.size + awg.id.length) (readBody awg)
    (by rw [hlen]; show 36 + _ = _; omega)
    (slice_patch_append _ (by
      rw [List.length_append, List.length_singleton, hlen]; show _ ≤ 256; omega)) (by omega)
  refine ⟨response, ?_⟩
  rw [VxiServer.read, storeField_eq_ok _ (by decide), ok_bind,
    storeField_patch _ (by rfl) (by decide), ok_bind,
    storeField_patch _ (by rfl) (by decide), ok_bind,
    storeField_patch _ (by rfl) (by decide), ok_bind, store_patch _ (by rfl) hstore, ok_bind,
    ← List.append_assoc]
  exact hrespond

/-- An identification that does not fit makes the read handler leave the send buffer. -/
theorem read_eq_error {awg : AwgServer} (s : VxiServer) (h : ¬ awg.id.length < 216) :
    s.read awg = .error .index := by
  have hstore : ¬ prefixSize + ReadResponsePacket.data + (awg.id ++ [0]).length ≤ vxiSendSize := by
    rw [List.length_append, List.length_singleton]
    show ¬ 40 + (awg.id.length + 1) ≤ 256
    omega
  rw [VxiServer.read, storeField_eq_ok _ (by decide), ok_bind, storeField_eq_ok _ (by decide),
    ok_bind, storeField_eq_ok _ (by decide), ok_bind, storeField_eq_ok _ (by decide), ok_bind,
    store_eq_error _ hstore, error_bind]

theorem createLink_eq (s : VxiServer) (h : CreateFits s.vxiReadBuffer) :
    ∃ request response, s.createLink =
      .ok ({ s with vxiReadBuffer := request, vxiSendBuffer := response },
        [.send (replyRecord (xid s.vxiReadBuffer) createBody)]) := by
  have h256 : vxiReadSize = 256 := rfl
  have hfit : 60 + createDataLen s.vxiReadBuffer + [(0 : UInt8)].length ≤ vxiReadSize := by
    rw [List.length_singleton]
    omega
  set request := s.vxiReadBuffer.patch (60 + createDataLen s.vxiReadBuffer) [0] with hrequest
  -- the data is a string, and its terminator is behind the header
  have hstring := IsString.of_patch s.vxiReadBuffer (p := 60)
    (k := createDataLen s.vxiReadBuffer) (by omega)
  have hxid : xid request = xid s.vxiReadBuffer :=
    word_patch_of_disjoint _ hfit (.inl (by omega))
  obtain ⟨response, hrespond⟩ := respond_eq
    { s with vxiReadBuffer := request, vxiSendBuffer := s.vxiSendBuffer.patch 24 createBody }
    CreateResponsePacket.size createBody rfl
    (slice_patch_self _ (by decide)) (by decide)
  refine ⟨request, response, ?_⟩
  rw [createLink, loadField_eq_ok _ (by decide), ok_bind]
  show (s.vxiReadBuffer.store (60 + createDataLen s.vxiReadBuffer) [0] >>= _) = _
  rw [store_eq_ok _ hfit, ok_bind]
  show (request.cString 60 >>= _) = _
  rw [hstring.cString_eq, ok_bind, storeField_eq_ok _ (by decide), ok_bind,
    storeField_patch _ (by rfl) (by decide), ok_bind,
    storeField_patch _ (by rfl) (by decide), ok_bind,
    storeField_patch _ (by rfl) (by decide), ok_bind,
    storeField_patch _ (by rfl) (by decide), ok_bind]
  rw [hxid] at hrespond
  exact hrespond

/-- Data that does not fit makes the terminator leave the read buffer. -/
theorem createLink_eq_error (s : VxiServer) (h : ¬ CreateFits s.vxiReadBuffer) :
    s.createLink = .error .index := by
  have hnot : ¬ 60 + createDataLen s.vxiReadBuffer + [(0 : UInt8)].length ≤ vxiReadSize := by
    rw [List.length_singleton]
    show ¬ 60 + createDataLen s.vxiReadBuffer + 1 ≤ 256
    omega
  rw [createLink, loadField_eq_ok _ (by decide), ok_bind]
  show (s.vxiReadBuffer.store (60 + createDataLen s.vxiReadBuffer) [0] >>= _) = _
  rw [store_eq_error _ hnot, error_bind]

/-- **A handled request**: whether to close, the settings and the reply are those of the answer,
and the link is as before. -/
structure Handled (s : VxiServer) (r : Bool × VxiServer × List VxiAction) (a : Answer) : Prop where
  bClose : r.1 = a.bClose
  actions : r.2.2 = a.calls.map .set ++ [.send a.reply]
  link : SameLink r.2.1 s

/-- The write handler hands the text to the parser, and then acknowledges the data. -/
theorem write_simulates (s : VxiServer) (uninit : ℕ → Double) (h : WriteFits s.vxiReadBuffer) :
    Simulates
      (fun r (q : UInt32 × ReadType × List SetCall) ↦
        r.2 = q.2.2.map .set ++ [.send (replyRecord (xid s.vxiReadBuffer)
          (writeBody (writeDataSize s.vxiReadBuffer)))] ∧ SameLink r.1 s)
      (s.write uninit) (Scpi.lineText (writtenText s.vxiReadBuffer) uninit) := by
  obtain ⟨hterm, hstring⟩ := terminateData_eq h
  have hfit : 64 + (strippedData s.vxiReadBuffer).length + [(0 : UInt8)].length ≤ vxiReadSize := by
    rw [List.length_singleton]
    show 64 + (strippedData s.vxiReadBuffer).length + 1 ≤ 256
    omega
  rw [write, hterm, ok_bind]
  dsimp only
  have hparse := parseScpi_simulates hstring uninit
  rcases hline : Scpi.lineText (writtenText s.vxiReadBuffer) uninit with e | q
  · rw [hline] at hparse
    rw [show parseScpi _ (prefixSize + WriteRequestPacket.data) uninit = .error e from hparse]
    exact .error e
  obtain ⟨run, hrun, hframe, rfl⟩ := hparse.of_eq_ok hline
  rw [show parseScpi _ (prefixSize + WriteRequestPacket.data) uninit = .ok run from hrun, ok_bind]
  -- the tokenizers stay inside the text, so the transaction id is the one that was received
  have hxid : xid run.buffer = xid s.vxiReadBuffer := by
    rw [xid, hframe.word_eq (by omega), word_patch_of_disjoint _ hfit (.inl (by omega))]
  have hlen : (writeBody (writeDataSize s.vxiReadBuffer)).length = 12 := rfl
  obtain ⟨response, hrespond⟩ := respond_eq
    { s with vxiReadBuffer := run.buffer,
             vxiSendBuffer := s.vxiSendBuffer.patch 24
               (writeBody (writeDataSize s.vxiReadBuffer)),
             readType := run.readType, rwChannel := run.rwChannel }
    WriteResponsePacket.size (writeBody (writeDataSize s.vxiReadBuffer)) rfl
    (slice_patch_self _ (by rw [hlen]; decide)) (by rw [hlen]; decide)
  rw [hxid] at hrespond
  rw [storeField_eq_ok _ (by decide), ok_bind, storeField_patch _ (by rfl) (by decide), ok_bind,
    storeField_patch _ (by rfl) (by decide), ok_bind]
  exact .ok_bind_left hrespond (.ok ⟨rfl, rfl, rfl, rfl⟩)

/-- Data that does not fit makes the write handler leave the read buffer. -/
theorem write_eq_error (s : VxiServer) (uninit : ℕ → Double) (h : ¬ WriteFits s.vxiReadBuffer) :
    s.write uninit = .error .index := by
  rw [write, terminateData_eq_error h, error_bind]

/-- A handler whose only action is its reply, under the decision whether to close. -/
theorem handled_of_eq_ok {s s' : VxiServer} {x : Except Fault (VxiServer × List VxiAction)}
    {bClose : Bool} {reply : List UInt8} (hx : x = .ok (s', [.send reply])) (hl : SameLink s' s) :
    Simulates (Handled s) (x >>= fun r ↦ .ok (bClose, r)) (.ok ⟨bClose, [], reply⟩) :=
  ⟨_, by rw [hx]; rfl, rfl, rfl, hl⟩

/-- The dispatch on the fields of the request. -/
theorem handlePacket_eq (awg : AwgServer) (s : VxiServer) (uninit : ℕ → Double) :
    s.handlePacket awg uninit =
      if program s.vxiReadBuffer ≠ Rpc.Program.vxi11Core.code then
        s.refuse .progUnavail >>= fun r ↦ .ok (false, r)
      else if procedure s.vxiReadBuffer = Rpc.Procedure.vxi11CreateLink.code then
        s.createLink >>= fun r ↦ .ok (false, r)
      else if procedure s.vxiReadBuffer = Rpc.Procedure.vxi11DevRead.code then
        s.read awg >>= fun r ↦ .ok (false, r)
      else if procedure s.vxiReadBuffer = Rpc.Procedure.vxi11DevWrite.code then
        s.write uninit >>= fun r ↦ .ok (false, r)
      else if procedure s.vxiReadBuffer = Rpc.Procedure.vxi11DestroyLink.code then
        s.destroyLink >>= fun r ↦ .ok (true, r)
      else
        s.refuse .procUnavail >>= fun r ↦ .ok (false, r) := by
  rw [handlePacket, loadField_eq_ok _ (by decide), ok_bind, loadField_eq_ok _ (by decide), ok_bind]
  rfl

/-- A procedure that is not handled is refused. -/
theorem handlePacket_of_not_handled {awg : AwgServer} {s : VxiServer} {uninit : ℕ → Double}
    (hcore : program s.vxiReadBuffer = Rpc.Program.vxi11Core.code)
    (h : procedure s.vxiReadBuffer ∉ handledProcedures) :
    s.handlePacket awg uninit = s.refuse .procUnavail >>= fun r ↦ .ok (false, r) := by
  simp only [handledProcedures, List.mem_cons, List.not_mem_nil, or_false, not_or] at h
  obtain ⟨hcreate, hread, hwrite, hdestroy⟩ := h
  rw [handlePacket_eq, if_neg (not_not.2 hcore), if_neg hcreate, if_neg hread, if_neg hwrite,
    if_neg hdestroy]

/-- **The handlers refine the answer.** -/
theorem handlePacket_simulates (awg : AwgServer) (s : VxiServer) (uninit : ℕ → Double) :
    Simulates (Handled s) (s.handlePacket awg uninit) (answer awg s.vxiReadBuffer uninit) := by
  cases requestCase (program s.vxiReadBuffer) (procedure s.vxiReadBuffer) with
  | otherProgram h =>
    obtain ⟨response, hrefuse⟩ := refuse_eq s .progUnavail
    rw [handlePacket_eq, if_pos h, answer_of_program_ne h]
    exact handled_of_eq_ok hrefuse ⟨rfl, rfl, rfl⟩
  | createLink hcore h =>
    rw [handlePacket_eq, if_neg (not_not.2 hcore), if_pos h, answer_of_createLink hcore h]
    by_cases hfits : CreateFits s.vxiReadBuffer
    · obtain ⟨request, response, hcreate⟩ := createLink_eq s hfits
      rw [if_pos hfits]
      exact handled_of_eq_ok hcreate ⟨rfl, rfl, rfl⟩
    · rw [if_neg hfits, createLink_eq_error s hfits]
      exact .error _
  | devRead hcore h =>
    rw [handlePacket_eq, if_neg (not_not.2 hcore), h, if_neg (by decide), if_pos rfl,
      answer_of_devRead hcore h]
    by_cases hid : awg.id.length < 216
    · obtain ⟨response, hread⟩ := read_eq s hid
      rw [if_pos hid]
      exact handled_of_eq_ok hread ⟨rfl, rfl, rfl⟩
    · rw [if_neg hid, read_eq_error s hid]
      exact .error _
  | devWrite hcore h =>
    rw [handlePacket_eq, if_neg (not_not.2 hcore), h, if_neg (by decide), if_neg (by decide),
      if_pos rfl, answer_of_devWrite hcore h]
    by_cases hfits : WriteFits s.vxiReadBuffer
    · rw [if_pos hfits]
      exact (write_simulates s uninit hfits).bind fun r q ⟨hactions, hlink⟩ ↦
        .ok ⟨rfl, hactions, hlink⟩
    · rw [if_neg hfits, write_eq_error s uninit hfits]
      exact .error _
  | destroyLink hcore h =>
    have hwrite : ¬ Rpc.Procedure.vxi11DestroyLink.code = Rpc.Procedure.vxi11DevWrite.code := by
      decide
    obtain ⟨response, hdestroy⟩ := destroyLink_eq s
    rw [handlePacket_eq, if_neg (not_not.2 hcore), h, if_neg (by decide), if_neg (by decide),
      if_neg hwrite, if_pos rfl, answer_of_destroyLink hcore h]
    exact handled_of_eq_ok hdestroy ⟨rfl, rfl, rfl⟩
  | otherProcedure hcore h =>
    obtain ⟨response, hrefuse⟩ := refuse_eq s .procUnavail
    rw [handlePacket_of_not_handled hcore h, answer_of_not_handled hcore h]
    exact handled_of_eq_ok hrefuse ⟨rfl, rfl, rfl⟩

/-! ### A call of the loop with a client attached -/

/-- What the server does behind its reply: close the link and go on to the next port, or nothing. -/
def afterReply (s : VxiServer) (bClose : Bool) : VxiServer × List VxiAction :=
  if bClose then s.beginNext else (s, [])

/-- Closing the link drops the client. -/
theorem client_afterReply (s : VxiServer) (bClose : Bool) :
    (s.afterReply bClose).1.client = if bClose then none else s.client := by
  cases bClose <;> rfl

end VxiServer

/-- The request that stands in the buffer when a record has been received. -/
def requestIn (b : Buffer vxiReadSize) (c : NetClient) : Buffer vxiReadSize :=
  b.patch 0 (receive vxiReadSize c).bytes

/-- What a call of the loop makes of the connection: an answer, or none if no record is there. -/
def serve (awg : AwgServer) (b : Buffer vxiReadSize) (c : NetClient) (uninit : ℕ → Double) :
    Except Fault (Option Answer) :=
  if (receive vxiReadSize c).len > 0 then some <$> answer awg (requestIn b c) uninit else .ok none

namespace Answer

/-- Whether the connection is to be closed; without an answer it is not. -/
def closes (a : Option Answer) : Bool :=
  a.elim false bClose

/-- The actions of an answer; without one there are none. -/
def actions (a : Option Answer) : List VxiAction :=
  a.elim [] fun a ↦ a.calls.map .set ++ [.send a.reply]

end Answer

namespace VxiServer

/-- **A served call**: the actions of the answer, then those of closing the link if it is to be
closed. Up to the closing the link is as before, but for what was read from it. -/
def Served (s : VxiServer) (c : NetClient) (r : VxiServer × List VxiAction) (a : Option Answer) :
    Prop :=
  ∃ t, SameLink t { s with client := some (receive vxiReadSize c).client } ∧
    r.1 = (t.afterReply (closes a)).1 ∧ r.2 = Answer.actions a ++ (t.afterReply (closes a)).2

/-- The receive step of the loop. -/
theorem loop_of_client {awg : AwgServer} {s : VxiServer} {c : NetClient} (hc : s.client = some c)
    (input : LoopInput) :
    s.loop awg input =
      if (receive vxiReadSize c).len > 0 then do
        let (bClose, t, actions) ← handlePacket awg
          { s with vxiReadBuffer := requestIn s.vxiReadBuffer c,
                   client := some (receive vxiReadSize c).client } input.uninit
        return ((t.afterReply bClose).1, actions ++ (t.afterReply bClose).2)
      else
        .ok ({ s with vxiReadBuffer := requestIn s.vxiReadBuffer c,
                      client := some (receive vxiReadSize c).client }, []) := by
  rw [loop, hc]
  dsimp only
  rw [getVxiPacket, getPacket_eq (by decide), ok_bind]
  by_cases hlen : (receive vxiReadSize c).len > 0
  · simp only [if_pos hlen]
    refine congrArg (_ >>= ·) (funext fun r ↦ ?_)
    rcases hclose : r.1
    · simp [afterReply]
    · simp [afterReply]
  · simp only [if_neg hlen]
    rfl

/-- **A call of the loop refines the answer to the request it receives.** -/
theorem loop_simulates (awg : AwgServer) {s : VxiServer} {c : NetClient} (hc : s.client = some c)
    (input : LoopInput) :
    Simulates (Served s c) (s.loop awg input) (serve awg s.vxiReadBuffer c input.uninit) := by
  rw [loop_of_client hc, serve]
  by_cases hlen : (receive vxiReadSize c).len > 0
  · rw [if_pos hlen, if_pos hlen, map_eq_bind]
    exact (handlePacket_simulates awg _ input.uninit).bind fun r a h ↦
      .ok ⟨r.2.1, ⟨h.link.tcpServer, h.link.client, h.link.vxiPort⟩, by rw [h.bClose]; rfl,
        by rw [h.bClose, h.actions]; rfl⟩
  · rw [if_neg hlen, if_neg hlen]
    exact .ok ⟨{ s with vxiReadBuffer := requestIn s.vxiReadBuffer c,
                        client := some (receive vxiReadSize c).client },
      ⟨rfl, rfl, rfl⟩, rfl, rfl⟩

end VxiServer

end EspBode
