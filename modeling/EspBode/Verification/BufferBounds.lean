import EspBode.Firmware.System
import EspBode.Verification.RequestRecords

/-!
# The bounds of the read buffer

The receive function cuts a record to the size of the buffer, but the handlers index the buffer with
a length from the wire, and put a terminator behind the data. Which requests stay inside is settled
by two numbers: the data of a request to create a link starts at index 60 and has room for 195 bytes
and the terminator, that of a write request starts at index 64 and has room for 191. A write of 192
bytes whose last byte is a newline still fits, because the terminator takes the place of the
newline.

`loop_index_iff` is exact for every record laid over whatever the buffer held. The lengths are read
from the buffer, so for a short record they may be those of an earlier request; that is part of the
statement and not excluded from it. It rests on the refinement of the handlers, which carries the
faults: no index is left exactly if the answer does not fail at one, and the answer says where it
does (`answer_eq_index_iff`).

The same two limits decide which writes are honoured. The server advertises 252 bytes of data for a
write, and takes in at most 192 behind the header and the arguments.

* **Consumed**: a write of more than 192 bytes is cut off, and what is left of it stays in the
  stream as if it were the next record (`Writes.rx_receive_iff`).
* **Handed over**: of those that are consumed, one of 192 bytes has no room for its terminator
  unless it ends with a newline (`Writes.fits_iff`).
-/

namespace EspBode

open Buffer VxiRequest

/-! ### Indices in range -/

/-- The request leaves no handler room to leave the read buffer. -/
def StaysInside (b : Buffer vxiReadSize) : Prop :=
  program b = Rpc.Program.vxi11Core.code →
    (procedure b = Rpc.Procedure.vxi11CreateLink.code → createDataLen b ≤ 195) ∧
    (procedure b = Rpc.Procedure.vxi11DevWrite.code →
      writeDataLen b ≤ 191 ∨ writeDataLen b = 192 ∧ b.slice 255 1 = [chr '\n'])

/-- The stripped data of a write of 192 bytes is shorter exactly if the last byte is a newline. -/
theorem writeFits_iff (b : Buffer vxiReadSize) :
    WriteFits b ↔ writeDataLen b ≤ 191 ∨ writeDataLen b = 192 ∧ b.slice 255 1 = [chr '\n'] := by
  have hle := length_strippedData_le b
  have hlast : writeDataLen b = 192 →
      ((strippedData b).length < 192 ↔ b.slice 255 1 = [chr '\n']) := by
    intro hlen
    obtain ⟨c, -, hc⟩ := get_eq_ok b (show 255 < vxiReadSize by decide)
    have h192 : (b.slice 64 192).length = 192 := length_slice b (by decide)
    rw [strippedData, hlen, length_withoutNewlines_lt_iff h192.le, h192, slice_add b 64 191 1, hc,
      List.getLast?_concat]
    simp
  constructor
  · rintro ⟨h192, hlt⟩
    rcases Nat.lt_or_eq_of_le h192 with h | h
    · exact .inl (by omega)
    · exact .inr ⟨h, (hlast h).1 hlt⟩
  · rintro (h | ⟨h, hn⟩)
    · exact ⟨by omega, by omega⟩
    · exact ⟨h.le, (hlast h).2 hn⟩

/-- The answer fails at an index exactly on the requests that do not stay inside. -/
theorem answer_eq_index_iff (b : Buffer vxiReadSize) (uninit : ℕ → Double) :
    answer .base b uninit = .error .index ↔ ¬ StaysInside b := by
  -- a request for neither of the two procedures stays inside, and is answered
  have hother : ∀ {procedure}, VxiRequest.procedure b = procedure →
      procedure ≠ Rpc.Procedure.vxi11CreateLink.code →
        procedure ≠ Rpc.Procedure.vxi11DevWrite.code → StaysInside b := fun hb hc hw _ ↦
    ⟨fun h ↦ absurd (hb.symm.trans h) hc, fun h ↦ absurd (hb.symm.trans h) hw⟩
  cases requestCase (program b) (procedure b) with
  | otherProgram h =>
    rw [answer_of_program_ne h]
    exact iff_of_false (by simp) (not_not.2 fun hcore ↦ absurd hcore h)
  | createLink hcore h =>
    have hstays : StaysInside b ↔ CreateFits b :=
      ⟨fun hall ↦ Nat.lt_succ_of_le ((hall hcore).1 h), fun hfits _ ↦
        ⟨fun _ ↦ Nat.le_of_lt_succ hfits, fun hw ↦ absurd (h.symm.trans hw) (by decide)⟩⟩
    rw [answer_of_createLink hcore h, hstays]
    split_ifs with hfits <;> simp [hfits]
  | devRead hcore h =>
    rw [answer_of_devRead hcore h, if_pos (by decide)]
    exact iff_of_false (by simp) (not_not.2 (hother h (by decide) (by decide)))
  | devWrite hcore h =>
    have hstays : StaysInside b ↔ WriteFits b := by
      rw [writeFits_iff]
      exact ⟨fun hall ↦ (hall hcore).2 h, fun hfits _ ↦
        ⟨fun hc ↦ absurd (h.symm.trans hc) (by decide), fun _ ↦ hfits⟩⟩
    rw [answer_of_devWrite hcore h, hstays]
    by_cases hfits : WriteFits b
    · rw [if_pos hfits]
      exact iff_of_false (lineText_reply_ne_index _ _ uninit) (not_not.2 hfits)
    · rw [if_neg hfits]
      exact iff_of_true rfl hfits
  | destroyLink hcore h =>
    rw [answer_of_destroyLink hcore h]
    exact iff_of_false (by simp) (not_not.2 (hother h (by decide) (by decide)))
  | otherProcedure hcore h =>
    rw [answer_of_not_handled hcore h]
    exact iff_of_false (by simp) (not_not.2 (hother rfl (fun hc ↦ h (hc ▸ by decide))
      fun hw ↦ h (hw ▸ by decide)))

/-- **No index leaves the read buffer exactly when the request stays inside**, where the request is
the record laid over what the buffer held before. -/
theorem loop_index_iff {s : VxiServer} {c : NetClient} (hc : s.client = some c)
    (input : VxiServer.LoopInput) :
    s.loop .base input ≠ .error .index ↔
      (receive vxiReadSize c).len = 0 ∨ StaysInside (requestIn s.vxiReadBuffer c) := by
  rw [ne_eq, (VxiServer.loop_simulates .base hc input).eq_error_iff, serve]
  by_cases hlen : (receive vxiReadSize c).len > 0
  · have hmap : ∀ x : Except Fault Answer, some <$> x = .error .index ↔ x = .error .index := by
      intro x
      rcases x with e | a <;> simp
    rw [if_pos hlen, hmap, answer_eq_index_iff, not_not]
    simp [hlen.ne']
  · rw [if_neg hlen]
    simp [Nat.eq_zero_of_not_pos hlen]

/-- A prompt connection that brings one request. -/
def clientOf (body : List UInt8) (h : body.length < 2 ^ 31) : NetClient :=
  .ofStream (Record.lastFragment body h).bytes

/-- The servers after `setup()`, with the given connection accepted. -/
def accepted (c : NetClient) : System :=
  { System.setup.1 with vxi := { System.setup.1.vxi with client := some c } }

theorem reachable_accepted (c : NetClient) :
    Machine.Reachable (System.step .base) System.setup.1 (accepted c) := by
  have hstep : System.step .base System.setup.1 (.vxiLoop { offered := some c }) =
      .ok (accepted c, [.vxi (.server (.available 9010))]) := rfl
  exact (Machine.Reachable.refl _).next hstep

/-- The request to create a link that announces data of 196 bytes. -/
theorem loop_leaves_buffer :
    ¬ ∀ s, Machine.Reachable (System.step .base) System.setup.1 s →
      ∀ input, s.vxi.loop .base input ≠ .error .index := by
  intro h
  have hindex : (accepted (clientOf (createRequest 7 196 (ascii "scope")) (by decide))).vxi.loop
      .base {} = .error .index :=
    (VxiServer.loop_simulates .base rfl {}).eq_error_iff.2 (by decide +kernel)
  exact h _ (reachable_accepted _) _ hindex

theorem loop_index_iff_outp :
    let c := clientOf (writeRequest 7 (ascii "C1:OUTP ON")) (by decide)
    (accepted c).vxi.loop .base {} ≠ .error .index ↔
      (receive vxiReadSize c).len = 0 ∨ StaysInside (requestIn (accepted c).vxi.vxiReadBuffer c) :=
  loop_index_iff rfl {}

/-! ### Honouring the advertised limit -/

/-- A well-formed write of the given data: 60 bytes of header and arguments, then the data, filled
up to a multiple of 4. -/
structure Writes (r : Record) (data : List UInt8) : Prop where
  calls : r.Calls .vxi11DevWrite
  dataLen : r.writeDataLen = data.length
  body : ∃ head, head.length = 60 ∧ r.body = head ++ data ++ padding data.length

/-- The write is honoured: the record is consumed up to what follows it, and `parse_scpi` is given
the data without the newlines at its end. -/
def Honoured (b : Buffer vxiReadSize) (c : NetClient) (data rest : List UInt8) : Prop :=
  ∃ len request c', getVxiPacket b c = .ok (len, request, c') ∧ c'.rx = rest ∧
    ∃ wlen request', VxiServer.terminateData request = .ok (wlen, request') ∧
      request'.cString (prefixSize + WriteRequestPacket.data) = .ok (withoutNewlines data)

theorem Writes.length_body {r : Record} {data : List UInt8} (h : Writes r data) :
    r.body.length = 60 + data.length + (4 - data.length % 4) % 4 := by
  obtain ⟨head, hhead, hbody⟩ := h.body
  rw [hbody, List.length_append, List.length_append, hhead, length_padding]

/-- A write that is taken in full stands in the buffer: its length and its data. -/
theorem Writes.requestIn_fields {b : Buffer vxiReadSize} {c : NetClient} {r : Record}
    {data rest : List UInt8} (h : Writes r data) (hc : c.Prompt) (hrx : c.rx = r.bytes ++ rest)
    (hlen : data.length ≤ 192) :
    writeDataLen (requestIn b c) = data.length ∧
      (requestIn b c).slice 64 data.length = data := by
  have htaken : taken vxiReadSize r.body.length = r.body.length :=
    taken_eq_iff.2 (.inr ⟨by rw [h.length_body]; omega,
      by rw [h.length_body]; show _ ≤ 252; omega⟩)
  have hfield : (requestIn b c).word 60 = r.field 56 :=
    word_requestIn hc hrx (i := 56) (by rw [htaken, h.length_body]; omega)
  have hdata : (requestIn b c).slice 64 data.length = (r.body.drop 60).take data.length :=
    slice_requestIn hc hrx (i := 60) (by rw [htaken, h.length_body]; omega)
  obtain ⟨head, hhead, hbody⟩ := h.body
  refine ⟨by rw [writeDataLen, writeDataSize, hfield]; exact h.dataLen, ?_⟩
  rw [hdata, hbody, List.append_assoc, List.drop_left' hhead, List.take_left' rfl]

/-- Such a write stays inside the buffer exactly with room for the terminator. -/
theorem Writes.fits_iff {b : Buffer vxiReadSize} {c : NetClient} {r : Record}
    {data rest : List UInt8} (h : Writes r data) (hc : c.Prompt) (hrx : c.rx = r.bytes ++ rest)
    (hlen : data.length ≤ 192) :
    WriteFits (requestIn b c) ↔
      data.length ≤ 191 ∨ data.length = 192 ∧ data.getLast? = some (chr '\n') := by
  obtain ⟨hdataLen, hdata⟩ := h.requestIn_fields (b := b) hc hrx hlen
  rw [writeFits_iff, hdataLen]
  refine or_congr_right (and_congr_right fun h192 ↦ ?_)
  -- the last byte of the data stands at index 255
  obtain ⟨x, -, hx⟩ := get_eq_ok (requestIn b c) (show 255 < vxiReadSize by decide)
  rw [h192, slice_add _ 64 191 1, hx] at hdata
  rw [hx, ← hdata, List.getLast?_concat, Option.some.injEq, List.singleton_inj]

/-- Without NUL bytes the text of such a write is its stripped data. -/
theorem Writes.writtenText_eq {b : Buffer vxiReadSize} {c : NetClient} {r : Record}
    {data rest : List UInt8} (h : Writes r data) (h0 : 0 ∉ data) (hc : c.Prompt)
    (hrx : c.rx = r.bytes ++ rest) (hlen : data.length ≤ 192) :
    writtenText (requestIn b c) = withoutNewlines data := by
  obtain ⟨hdataLen, hdata⟩ := h.requestIn_fields (b := b) hc hrx hlen
  have hnul : 0 ∉ withoutNewlines data := fun hmem ↦ h0 ((List.rdropWhile_prefix _ _).subset hmem)
  rw [writtenText, strippedData, hdataLen, hdata]
  exact List.takeWhile_eq_self_iff.2 (bne_of_not_mem hnul)

/-- What a receive call leaves of the stream behind the start of a record. -/
theorem rx_receive {c : NetClient} {r : Record} {rest : List UInt8} (hc : c.Prompt)
    (hrx : c.rx = r.bytes ++ rest) : (receive vxiReadSize c).client.rx =
      r.body.drop (taken vxiReadSize r.body.length) ++ rest := by
  rw [receive_of_record vxiReadSize hc hrx]

/-- A write is consumed exactly when its data has at most 192 bytes. -/
theorem Writes.rx_receive_iff {c : NetClient} {r : Record} {data rest : List UInt8}
    (h : Writes r data) (hc : c.Prompt) (hrx : c.rx = r.bytes ++ rest) :
    (receive vxiReadSize c).client.rx = rest ↔ data.length ≤ 192 := by
  have hbody := h.length_body
  have htaken : taken vxiReadSize r.body.length = r.body.length ↔ data.length ≤ 192 := by
    rw [taken_eq_iff, hbody]
    show _ ∨ _ ∧ _ ≤ 252 ↔ _
    omega
  rw [rx_receive hc hrx, ← htaken]
  constructor
  · intro hrest
    have hle := taken_le vxiReadSize r.body.length
    have hlens := congrArg List.length hrest
    rw [List.length_append, List.length_drop] at hlens
    omega
  · intro hall
    rw [hall, List.drop_length, List.nil_append]

/-- **A write is honoured exactly when its data has at most 191 bytes**, or 192 with a newline at
the end. Longer data is not taken in full, although up to 252 bytes are advertised. -/
theorem honoured_iff {b : Buffer vxiReadSize} {c : NetClient} {r : Record}
    {data rest : List UInt8} (h : Writes r data) (h0 : 0 ∉ data) (hc : c.Prompt)
    (hrx : c.rx = r.bytes ++ rest) :
    Honoured b c data rest ↔
      data.length ≤ 191 ∨ data.length = 192 ∧ data.getLast? = some (chr '\n') := by
  have hget : getVxiPacket b c = .ok ((receive vxiReadSize c).len, requestIn b c,
      (receive vxiReadSize c).client) := getPacket_eq (by decide) b c
  constructor
  · rintro ⟨len, request, c', hget', hrx', wlen, request', hterm, -⟩
    obtain ⟨rfl, rfl, rfl⟩ : _ ∧ _ ∧ _ := by
      simpa only [Except.ok.injEq, Prod.mk.injEq] using hget.symm.trans hget'
    have hlen := (h.rx_receive_iff hc hrx).1 hrx'
    rw [← h.fits_iff (b := b) hc hrx hlen]
    by_contra hnot
    rw [terminateData_eq_error hnot] at hterm
    exact absurd hterm (by simp)
  · intro hroom
    have hlen : data.length ≤ 192 := by omega
    obtain ⟨hterm, hstring⟩ := terminateData_eq ((h.fits_iff (b := b) hc hrx hlen).2 hroom)
    refine ⟨_, _, _, hget, (h.rx_receive_iff hc hrx).2 hlen, _, _, hterm, ?_⟩
    rw [← h.writtenText_eq (b := b) h0 hc hrx hlen]
    exact hstring.cString_eq

/-- A write of 192 bytes without a newline, which is within the advertised limit. -/
theorem not_honoured :
    ¬ ∀ (b : Buffer vxiReadSize) (r : Record) (data rest : List UInt8), Writes r data → 0 ∉ data →
      data.length ≤ vxiReadSize - 4 → Honoured b (.ofStream (r.bytes ++ rest)) data rest := by
  intro h
  have hwrites : Writes
      (.lastFragment (writeRequest 7 (List.replicate 192 (chr 'A'))) (by decide +kernel))
      (List.replicate 192 (chr 'A')) :=
    ⟨by decide +kernel, by decide +kernel,
      (writeRequest 7 (List.replicate 192 (chr 'A'))).take 60, by decide +kernel,
      by decide +kernel⟩
  obtain ⟨len, request, c', hget, -, wlen, request', hterm, -⟩ :=
    h (.zero _) _ _ [] hwrites (by decide +kernel) (by decide +kernel)
  have hfault : (getVxiPacket (.zero _) (.ofStream (Record.bytes (.lastFragment
      (writeRequest 7 (List.replicate 192 (chr 'A'))) (by decide +kernel)) ++ [])) >>=
        fun r ↦ VxiServer.terminateData r.2.1) = .error .index := by
    decide +kernel
  rw [hget, ok_bind] at hfault
  exact absurd (hterm.symm.trans hfault) (by simp)

theorem honoured_iff_outp :
    Honoured (.zero _) (.ofStream ((Record.lastFragment
        (writeRequest 7 (ascii "C1:OUTP ON\n")) (by decide)).bytes ++ []))
        (ascii "C1:OUTP ON\n") [] ↔
      (ascii "C1:OUTP ON\n").length ≤ 191 ∨ (ascii "C1:OUTP ON\n").length = 192 ∧
        (ascii "C1:OUTP ON\n").getLast? = some (chr '\n') :=
  honoured_iff ⟨by decide +kernel, by decide +kernel,
      (writeRequest 7 (ascii "C1:OUTP ON\n")).take 60, by decide +kernel, by decide +kernel⟩
    (by decide) rfl rfl

end EspBode
