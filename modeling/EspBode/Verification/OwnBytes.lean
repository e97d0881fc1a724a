import EspBode.Verification.RequestRecords

/-!
# Requests that act on their own bytes

The read buffer is reused, so behind the bytes of a record stands what earlier requests left there,
and a handler may read past the end of what has arrived. `effect` is all that a request brings
about: the text handed to the parser, and the answer. `SelfContained awg r` says when the received
bytes `r` settle it, handler by handler, each with the offsets it reads.

Two things decide:

* a field that has arrived in part may still be enough. What matters is whether all its completions
  are treated alike, and of the fields that are read that is so for the program and the procedure
  only;
* the request has to stay inside the buffers. The handlers check no bounds: `create_link()` and
  `write()` index the read buffer with a length from the wire, and with a length that is too large
  they go on with what stands behind the buffer, which is no part of the record. The model stops
  there (`Fault.index`), and two runs that stop at an index say nothing about what the program
  does, so such a request does not count as settled.

Here is the direction from the received bytes to the effect (`SelfContained.effect_eq`): the effect
is a function of the received bytes, and no index leaves a buffer. That every other record can be
told apart is shown in the next module, and which buffers runs leave behind in the one after it.
-/

namespace EspBode

open Buffer VxiRequest Answer

/-! ### The effect of a request -/

/-- The text that `handle_packet()` hands to the parser, if it gets there. -/
def handedOver (b : Buffer vxiReadSize) : Option (Except Fault (List UInt8)) :=
  if program b = Rpc.Program.vxi11Core.code ∧ procedure b = Rpc.Procedure.vxi11DevWrite.code then
    some do
      let (_, request) ← VxiServer.terminateData b
      request.cString (prefixSize + WriteRequestPacket.data)
  else none

/-- What a request brings about. -/
structure Effect where
  text : Option (Except Fault (List UInt8))
  answer : Except Fault Answer

/-- The effect of the request in the read buffer. -/
def effect (awg : AwgServer) (b : Buffer vxiReadSize) (uninit : ℕ → Double) : Effect :=
  ⟨handedOver b, answer awg b uninit⟩

/-- The effect of a write of the given data. -/
def writeEffect (xid size : UInt32) (data : List UInt8) (uninit : ℕ → Double) : Effect :=
  if size.toNat ≤ 192 ∧ (withoutNewlines data).length < 192 then
    let text := (withoutNewlines data).takeWhile (· != 0)
    ⟨some (.ok text), do
      let (_, _, calls) ← Scpi.lineText text uninit
      return ⟨false, calls, replyRecord xid (writeBody size)⟩⟩
  else
    ⟨some (.error .index), .error .index⟩

section Effects

variable {awg : AwgServer} {b : Buffer vxiReadSize} {uninit : ℕ → Double}

/-- Another procedure hands nothing to the parser. -/
theorem handedOver_eq_none {procedure : UInt32} (h : VxiRequest.procedure b = procedure)
    (hne : procedure ≠ Rpc.Procedure.vxi11DevWrite.code) : handedOver b = none :=
  if_neg fun hb ↦ hne (h.symm.trans hb.2)

theorem effect_of_program_ne (h : program b ≠ Rpc.Program.vxi11Core.code) :
    effect awg b uninit =
      ⟨none, .ok ⟨false, [], replyRecord (xid b) (beBytes Rpc.RpcStatus.progUnavail.code)⟩⟩ := by
  rw [effect, handedOver, answer_of_program_ne h, if_neg fun hb ↦ h hb.1]

theorem effect_of_not_handled (hcore : program b = Rpc.Program.vxi11Core.code)
    (h : procedure b ∉ handledProcedures) :
    effect awg b uninit =
      ⟨none, .ok ⟨false, [], replyRecord (xid b) (beBytes Rpc.RpcStatus.procUnavail.code)⟩⟩ := by
  have hwrite : procedure b ≠ Rpc.Procedure.vxi11DevWrite.code := fun hw ↦
    h (hw ▸ by decide)
  rw [effect, handedOver_eq_none rfl hwrite, answer_of_not_handled hcore h]

theorem effect_of_createLink (hcore : program b = Rpc.Program.vxi11Core.code)
    (h : procedure b = Rpc.Procedure.vxi11CreateLink.code) :
    effect awg b uninit =
      ⟨none, if CreateFits b then .ok ⟨false, [], replyRecord (xid b) createBody⟩
        else .error .index⟩ := by
  rw [effect, handedOver_eq_none h (by decide), answer_of_createLink hcore h]

theorem effect_of_devRead (hcore : program b = Rpc.Program.vxi11Core.code)
    (h : procedure b = Rpc.Procedure.vxi11DevRead.code) :
    effect awg b uninit =
      ⟨none, if awg.id.length < 216 then .ok ⟨false, [], replyRecord (xid b) (readBody awg)⟩
        else .error .index⟩ := by
  rw [effect, handedOver_eq_none h (by decide), answer_of_devRead hcore h]

theorem effect_of_destroyLink (hcore : program b = Rpc.Program.vxi11Core.code)
    (h : procedure b = Rpc.Procedure.vxi11DestroyLink.code) :
    effect awg b uninit = ⟨none, .ok ⟨true, [], replyRecord (xid b) noError⟩⟩ := by
  rw [effect, handedOver_eq_none h (by decide), answer_of_destroyLink hcore h]

theorem effect_of_devWrite (hcore : program b = Rpc.Program.vxi11Core.code)
    (h : procedure b = Rpc.Procedure.vxi11DevWrite.code) :
    effect awg b uninit =
      writeEffect (xid b) (writeDataSize b) (b.slice 64 (writeDataLen b)) uninit := by
  have htext : handedOver b =
      some (if WriteFits b then .ok (writtenText b) else .error .index) := by
    rw [handedOver, if_pos ⟨hcore, h⟩]
    by_cases hfits : WriteFits b
    · obtain ⟨hterm, hstring⟩ := terminateData_eq hfits
      rw [hterm, ok_bind, if_pos hfits]
      exact congrArg some hstring.cString_eq
    · rw [terminateData_eq_error hfits, if_neg hfits]
      rfl
  rw [effect, answer_of_devWrite hcore h, htext]
  show _ = if WriteFits b then _ else _
  split_ifs <;> rfl

end Effects

/-! ### Received bytes that settle the effect -/

/-- The data of a write request, as far as it has been received. -/
def arrivedData (r : List UInt8) : List UInt8 :=
  r.drop WriteRequestPacket.data

/-- **The received bytes settle the effect of the request**, whatever stands behind them. -/
inductive SelfContained (awg : AwgServer) (r : List UInt8) : Prop
  /-- The program is another one, whatever completes the field. -/
  | progUnavail (xid : RpcRequestPacket.xid + 4 ≤ r.length)
      (program : ∀ w, Completes (arrived r RpcRequestPacket.program) w →
        w ≠ Rpc.Program.vxi11Core.code)
  /-- The procedure is none of those that are handled, whatever completes the field. -/
  | procUnavail (header : RpcRequestPacket.program + 4 ≤ r.length)
      (program : wordAt r RpcRequestPacket.program = Rpc.Program.vxi11Core.code)
      (procedure : ∀ w, Completes (arrived r RpcRequestPacket.procedure) w →
        w ∉ handledProcedures)
  /-- Destroying the link looks at the header only, -/
  | destroyLink (header : RpcRequestPacket.procedure + 4 ≤ r.length)
      (program : wordAt r RpcRequestPacket.program = Rpc.Program.vxi11Core.code)
      (procedure : wordAt r RpcRequestPacket.procedure = Rpc.Procedure.vxi11DestroyLink.code)
  /-- and so does a read, whose reply has room for the identification. -/
  | read (header : RpcRequestPacket.procedure + 4 ≤ r.length)
      (program : wordAt r RpcRequestPacket.program = Rpc.Program.vxi11Core.code)
      (procedure : wordAt r RpcRequestPacket.procedure = Rpc.Procedure.vxi11DevRead.code)
      (id : awg.id.length < 216)
  /-- Creating a link looks at the length of its data, for which there is room. -/
  | createLink (fields : CreateRequestPacket.dataLen + 4 ≤ r.length)
      (program : wordAt r RpcRequestPacket.program = Rpc.Program.vxi11Core.code)
      (procedure : wordAt r RpcRequestPacket.procedure = Rpc.Procedure.vxi11CreateLink.code)
      (dataLen : (wordAt r CreateRequestPacket.dataLen).toNat < 196)
  /-- A write of at most 191 bytes fits. They have been received, or at least a NUL among them. -/
  | write (fields : WriteRequestPacket.dataLen + 4 ≤ r.length)
      (program : wordAt r RpcRequestPacket.program = Rpc.Program.vxi11Core.code)
      (procedure : wordAt r RpcRequestPacket.procedure = Rpc.Procedure.vxi11DevWrite.code)
      (dataLen : (wordAt r WriteRequestPacket.dataLen).toNat ≤ 191)
      (data : (wordAt r WriteRequestPacket.dataLen).toNat ≤ (arrivedData r).length ∨
        0 ∈ arrivedData r)
  /-- A write of 192 bytes fits if they have been received and end with a newline. -/
  | writeNewline (program : wordAt r RpcRequestPacket.program = Rpc.Program.vxi11Core.code)
      (procedure : wordAt r RpcRequestPacket.procedure = Rpc.Procedure.vxi11DevWrite.code)
      (dataLen : (wordAt r WriteRequestPacket.dataLen).toNat = 192)
      (data : (arrivedData r).length = 192)
      (newline : (arrivedData r).getLast? = some (chr '\n'))

/-! ### Fields of a buffer that holds the received bytes -/

section Fields

variable {b : Buffer vxiReadSize} {r : List UInt8}

/-- A field that has been received in full. -/
theorem word_of_received (hb : r <+: b.bytes.drop prefixSize) {i : ℕ} (h : i + 4 ≤ r.length) :
    b.word (prefixSize + i) = wordAt r i := by
  obtain ⟨e, he⟩ := hb
  rw [word_eq_wordAt, ← he, wordAt_append_left h]

/-- The header, if the fields up to the procedure have been received. -/
theorem header_of_received (hb : r <+: b.bytes.drop prefixSize) (h : 24 ≤ r.length) :
    xid b = wordAt r 0 ∧ program b = wordAt r 12 ∧ procedure b = wordAt r 20 :=
  ⟨word_of_received (i := 0) hb (by omega), word_of_received (i := 12) hb (by omega),
    word_of_received (i := 20) hb h⟩

/-- Any field is a completion of what has been received of it. -/
theorem completes_word (hb : r <+: b.bytes.drop prefixSize) {i : ℕ} (h : i + 4 ≤ 252) :
    Completes (arrived r i) (b.word (prefixSize + i)) := by
  have hlen : (b.bytes.drop prefixSize).length = 252 := by
    rw [List.length_drop, b.length_bytes]
    rfl
  obtain ⟨e, he⟩ := hb
  rw [word_eq_wordAt, ← he]
  exact completes_wordAt_append (by rw [he, hlen]; exact h)

/-- The data of a write request starts with what has been received of it. -/
theorem slice_data (hb : r <+: b.bytes.drop prefixSize) (h : 60 ≤ r.length) {k : ℕ} :
    ∃ e, b.slice 64 k = (arrivedData r ++ e).take k := by
  obtain ⟨e, he⟩ := hb
  refine ⟨e, ?_⟩
  rw [slice, show 64 = prefixSize + 60 from rfl, ← List.drop_drop, ← he,
    List.drop_append_of_le_length h]
  rfl

/-- The effect of a write request whose fields have been received: that of its data, some of which
may stand behind the received bytes. -/
theorem exists_effect_of_devWrite (hb : r <+: b.bytes.drop prefixSize)
    (hfields : WriteRequestPacket.dataLen + 4 ≤ r.length)
    (hprogram : wordAt r RpcRequestPacket.program = Rpc.Program.vxi11Core.code)
    (hprocedure : wordAt r RpcRequestPacket.procedure = Rpc.Procedure.vxi11DevWrite.code)
    (awg : AwgServer) (uninit : ℕ → Double) :
    ∃ e, effect awg b uninit = writeEffect (wordAt r 0) (wordAt r 56)
      ((arrivedData r ++ e).take (wordAt r 56).toNat) uninit := by
  have h60 : 60 ≤ r.length := hfields
  obtain ⟨hxid, hcore, hwrite⟩ := header_of_received hb (by omega)
  have hsize : writeDataSize b = wordAt r 56 := word_of_received (i := 56) hb hfields
  obtain ⟨e, he⟩ := slice_data hb hfields (k := (wordAt r 56).toNat)
  refine ⟨e, ?_⟩
  rw [effect_of_devWrite (hcore.trans hprogram) (hwrite.trans hprocedure), writeDataLen, hsize,
    hxid, he]

end Fields

/-! ### Data with a NUL -/

/-- Newlines are stripped from the end only as far as a byte that is none. -/
theorem withoutNewlines_append_cons {x : UInt8} (hx : x ≠ chr '\n') (xs ys : List UInt8) :
    withoutNewlines (xs ++ x :: ys) = xs ++ x :: withoutNewlines ys := by
  induction ys using List.reverseRecOn with
  | nil => exact List.rdropWhile_concat_neg _ _ _ (by simpa using hx)
  | append_singleton ys y ih =>
    have happ : xs ++ x :: (ys ++ [y]) = xs ++ x :: ys ++ [y] := by simp
    rw [happ, withoutNewlines, withoutNewlines]
    rcases eq_or_ne y (chr '\n') with hy | hy
    · rw [List.rdropWhile_concat_pos _ _ _ (by simpa using hy),
        List.rdropWhile_concat_pos _ _ _ (by simpa using hy)]
      exact ih
    · rw [List.rdropWhile_concat_neg _ _ _ (by simpa using hy),
        List.rdropWhile_concat_neg _ _ _ (by simpa using hy), happ]

/-- Newlines at the end do not count. -/
theorem withoutNewlines_append_newlines (xs : List UInt8) (n : ℕ) :
    withoutNewlines (xs ++ List.replicate n (chr '\n')) = withoutNewlines xs := by
  induction n with
  | zero => rw [List.replicate_zero, List.append_nil]
  | succ n ih =>
    rw [List.replicate_succ', ← List.append_assoc, withoutNewlines,
      List.rdropWhile_concat_pos _ _ _ (by decide)]
    exact ih

/-- The text of data that contains a NUL is settled there. -/
theorem text_of_nul {data : List UInt8} (h : 0 ∈ data) (e : List UInt8) :
    (withoutNewlines (data ++ e)).takeWhile (· != 0) = data.takeWhile (· != 0) := by
  obtain ⟨xs, ys, rfl, hxs⟩ := List.eq_append_cons_of_mem h
  rw [List.append_assoc, List.cons_append, withoutNewlines_append_cons (by decide),
    takeWhile_append_cons hxs, takeWhile_append_cons hxs]

/-- Data that is short enough fits. -/
theorem fits_take {size : UInt32} (hshort : size.toNat ≤ 191) (data : List UInt8) :
    size.toNat ≤ 192 ∧ (withoutNewlines (data.take size.toNat)).length < 192 := by
  have hle := (List.rdropWhile_prefix (· == chr '\n') (data.take size.toNat)).length_le
  rw [List.length_take] at hle
  exact ⟨by omega, lt_of_le_of_lt hle (by omega)⟩

/-! ### The received bytes are enough -/

/-- A write leaves no buffer exactly if its data fits. -/
theorem answer_writeEffect_ne_index_iff {xid size : UInt32} {data : List UInt8}
    {uninit : ℕ → Double} : (writeEffect xid size data uninit).answer ≠ .error .index ↔
      size.toNat ≤ 192 ∧ (withoutNewlines data).length < 192 := by
  by_cases hfits : size.toNat ≤ 192 ∧ (withoutNewlines data).length < 192
  · rw [writeEffect, if_pos hfits]
    exact iff_of_true (lineText_reply_ne_index _ _ uninit) hfits
  · rw [writeEffect, if_neg hfits]
    exact iff_of_false (fun hne ↦ hne rfl) hfits

/-- What stands behind a NUL is not part of the text of a write that is short enough. -/
theorem writeEffect_of_nul {xid size : UInt32} {d : List UInt8} (hshort : size.toNat ≤ 191)
    (hnul : 0 ∈ d) (e : List UInt8) (uninit : ℕ → Double) :
    writeEffect xid size ((d ++ e).take size.toNat) uninit =
      writeEffect xid size (d.take size.toNat) uninit := by
  rcases Nat.le_total size.toNat d.length with hall | hlong
  · rw [List.take_append_of_le_length hall]
  · -- too short to leave the buffer, and the same up to the NUL
    have htext : ∀ e, (withoutNewlines ((d ++ e).take size.toNat)).takeWhile (· != 0) =
        d.takeWhile (· != 0) := fun e ↦ by
      rw [List.take_append, List.take_of_length_le hlong, text_of_nul hnul]
    have hnone := htext []
    rw [List.append_nil] at hnone
    rw [writeEffect, writeEffect, if_pos (fits_take hshort _), if_pos (fits_take hshort _), htext,
      hnone]

/-- **On received bytes that settle the effect, it is the same whatever stands behind them**, and no
index leaves a buffer. -/
theorem SelfContained.effect_eq {awg : AwgServer} {r : List UInt8} (h : SelfContained awg r)
    (uninit : ℕ → Double) :
    ∃ E : Effect, E.answer ≠ .error .index ∧
      ∀ b : Buffer vxiReadSize, r <+: b.bytes.drop prefixSize → effect awg b uninit = E := by
  cases h with
  | progUnavail hxid hprogram =>
    refine ⟨⟨none, .ok ⟨false, [], replyRecord (wordAt r 0)
      (beBytes Rpc.RpcStatus.progUnavail.code)⟩⟩, by simp, fun b hb ↦ ?_⟩
    rw [effect_of_program_ne (hprogram _ (completes_word hb (by decide))), xid,
      word_of_received (i := 0) hb hxid]
  | procUnavail hheader hprogram hprocedure =>
    have h16 : 16 ≤ r.length := hheader
    refine ⟨⟨none, .ok ⟨false, [], replyRecord (wordAt r 0)
      (beBytes Rpc.RpcStatus.procUnavail.code)⟩⟩, by simp, fun b hb ↦ ?_⟩
    rw [effect_of_not_handled ((word_of_received hb hheader).trans hprogram)
      (hprocedure _ (completes_word hb (by decide))), xid,
      word_of_received (i := 0) hb (by omega)]
  | destroyLink hheader hprogram hprocedure =>
    refine ⟨⟨none, .ok ⟨true, [], replyRecord (wordAt r 0) noError⟩⟩, by simp,
      fun b hb ↦ ?_⟩
    obtain ⟨hxid, hcore, hproc⟩ := header_of_received hb hheader
    rw [effect_of_destroyLink (hcore.trans hprogram) (hproc.trans hprocedure), hxid]
  | read hheader hprogram hprocedure hid =>
    refine ⟨⟨none, .ok ⟨false, [], replyRecord (wordAt r 0) (readBody awg)⟩⟩, by simp,
      fun b hb ↦ ?_⟩
    obtain ⟨hxid, hcore, hproc⟩ := header_of_received hb hheader
    rw [effect_of_devRead (hcore.trans hprogram) (hproc.trans hprocedure), if_pos hid, hxid]
  | createLink hfields hprogram hprocedure hlen =>
    have h56 : 56 ≤ r.length := hfields
    refine ⟨⟨none, .ok ⟨false, [], replyRecord (wordAt r 0) createBody⟩⟩, by simp,
      fun b hb ↦ ?_⟩
    have hfits : CreateFits b := by
      rw [CreateFits, createDataLen, show 56 = prefixSize + CreateRequestPacket.dataLen from rfl,
        word_of_received hb hfields]
      exact hlen
    obtain ⟨hxid, hcore, hproc⟩ := header_of_received hb (by omega)
    rw [effect_of_createLink (hcore.trans hprogram) (hproc.trans hprocedure), if_pos hfits, hxid]
  | write hfields hprogram hprocedure hlen hdata =>
    refine ⟨writeEffect (wordAt r 0) (wordAt r 56) ((arrivedData r).take (wordAt r 56).toNat)
      uninit, answer_writeEffect_ne_index_iff.2 (fits_take hlen _), fun b hb ↦ ?_⟩
    obtain ⟨e, he⟩ := exists_effect_of_devWrite hb hfields hprogram hprocedure awg uninit
    rcases hdata with hall | hnul
    · rw [he, List.take_append_of_le_length hall]
    · rw [he, writeEffect_of_nul hlen hnul]
  | writeNewline hprogram hprocedure hlen hdata hnewline =>
    have hfields : 60 ≤ r.length := by
      rw [arrivedData, List.length_drop] at hdata
      omega
    have hfits : (withoutNewlines ((arrivedData r).take (wordAt r 56).toNat)).length < 192 := by
      rw [List.take_of_length_le (hdata.trans hlen.symm).le]
      exact (length_withoutNewlines_lt_iff hdata.le).2 (.inr ⟨hdata, hnewline⟩)
    refine ⟨writeEffect (wordAt r 0) (wordAt r 56) ((arrivedData r).take (wordAt r 56).toNat)
      uninit, answer_writeEffect_ne_index_iff.2 ⟨hlen.le, hfits⟩, fun b hb ↦ ?_⟩
    obtain ⟨e, he⟩ := exists_effect_of_devWrite hb hfields hprogram hprocedure awg uninit
    rw [he, List.take_append_of_le_length (hlen.trans hdata.symm).le]

end EspBode
