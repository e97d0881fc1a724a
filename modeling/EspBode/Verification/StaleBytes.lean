import EspBode.Verification.OwnBytes

/-!
# Bytes of earlier requests

A request that is refused leaves the read buffer as it was received, so a client can leave any bytes
there, and then send a record that is too short for its fields. `SelfContained` is therefore not
only enough for a request to act on its own bytes, but necessary (`SettledEffect.selfContained`):
where it fails, two histories that leave different bytes behind are told apart by what the same
record brings about, or one of them makes an index leave a buffer.

`SettledEffect` asks for the least that the argument needs: the same effect, and no index that
leaves a buffer, behind any two refused requests. The theorem goes through the fields in the order
in which they are read, and each of its lemmas gets one more of them from two completions that are
treated differently:

* `filled` completes the first field that has not arrived in full with one word or another, and puts
  zeros behind it, so that the other request is a harmless one;
* a length that has not arrived in full can be completed by a word that is too large
  (`exists_completes_ge`), and that is enough, because nothing may leave the buffer;
* data that goes on behind the received bytes is completed by newlines in one run and by letters in
  the other, which differ in the text, whatever was received.
-/

namespace EspBode

open Buffer VxiRequest Answer

/-! ### Ways to go on -/

/-- The bytes behind the received ones that make the field at index `i` the given word; behind the
field they are zero. -/
def filled (r : List UInt8) (i : ℕ) (w : UInt32) : List UInt8 :=
  fillUp r i w ++ List.replicate (252 - (i + 4)) 0

/-- A request with this body is refused. -/
def Refused (body : List UInt8) : Prop :=
  wordAt body RpcRequestPacket.program ≠ Rpc.Program.vxi11Core.code ∨
    wordAt body RpcRequestPacket.procedure ∉ handledProcedures

section Filled

variable {r : List UInt8} {i : ℕ} {w : UInt32}

theorem length_append_filled (hr : r.length ≤ i + 4) (hi : i + 4 ≤ 252) :
    r.length + (filled r i w).length = 252 := by
  rw [filled, List.length_append, length_fillUp hr, List.length_replicate]
  omega

theorem wordAt_append_filled (hr : r.length ≤ i + 4) (hw : Completes (arrived r i) w) :
    wordAt (r ++ filled r i w) i = w := by
  have hlen : (r ++ fillUp r i w).length = i + 4 := by
    rw [List.length_append, length_fillUp hr]
    omega
  rw [filled, ← List.append_assoc, wordAt_append_left hlen.ge, wordAt_fillUp hw hr]

/-- Behind the field there are zeros, whatever stands in front of it. -/
theorem wordAt_append_filled_of_le {s : List UInt8} (hs : s.length = r.length)
    (hr : r.length ≤ i + 4) {j : ℕ} (hj : i + 4 ≤ j) : wordAt (s ++ filled r i w) j = 0 := by
  have hlen : (s ++ fillUp r i w).length = i + 4 := by
    rw [List.length_append, length_fillUp hr, hs]
    omega
  rw [filled, ← List.append_assoc, wordAt_append_right (by rw [hlen]; exact hj),
    wordAt_replicate_zero]

/-- A body that starts with enough zeros is refused for its program, -/
theorem refused_of_le {n : ℕ} (h : 16 ≤ n) (e : List UInt8) :
    Refused (List.replicate n 0 ++ e) := by
  refine .inl ?_
  rw [wordAt_append_left (by rw [List.length_replicate]; exact h), wordAt_replicate_zero]
  decide

/-- and one with zeros behind the header field at index `i` for its procedure. -/
theorem refused_filled (hr : r.length ≤ i + 4) (hi : i ≤ 16) :
    Refused (List.replicate r.length 0 ++ filled r i w) := by
  refine .inr ?_
  rw [wordAt_append_filled_of_le List.length_replicate hr (by show i + 4 ≤ 20; omega)]
  decide

end Filled

/-! ### The received bytes are needed -/

/-- The request has the same effect, and no index leaves a buffer, for any two refused requests in
whose place it came. -/
def SettledEffect (awg : AwgServer) (uninit : ℕ → Double) (r : List UInt8) : Prop :=
  ∀ e e', r.length + e.length = 252 → r.length + e'.length = 252 →
    Refused (List.replicate r.length 0 ++ e) → Refused (List.replicate r.length 0 ++ e') →
      ∃ b b' : Buffer vxiReadSize, b.bytes.drop prefixSize = r ++ e ∧
        b'.bytes.drop prefixSize = r ++ e' ∧ effect awg b uninit = effect awg b' uninit ∧
          (effect awg b uninit).answer ≠ .error .index

theorem word_of_drop_eq {b : Buffer vxiReadSize} {q : List UInt8} (hb : b.bytes.drop prefixSize = q)
    (i : ℕ) : b.word (prefixSize + i) = wordAt q i := by
  rw [word_eq_wordAt, hb]

section Needed

variable {awg : AwgServer} {uninit : ℕ → Double} {r : List UInt8}

/-- Two completions of a field that has not arrived in full have the same effect. -/
theorem SettledEffect.filled (h : SettledEffect awg uninit r) {i : ℕ} (hi : i + 4 ≤ 252)
    (hr : r.length < i + 4) (hrefused : 16 ≤ r.length ∨ i ≤ 16) (v w : UInt32) :
    ∃ b b' : Buffer vxiReadSize, b.bytes.drop prefixSize = r ++ filled r i v ∧
      b'.bytes.drop prefixSize = r ++ filled r i w ∧
        effect awg b uninit = effect awg b' uninit ∧
          (effect awg b uninit).answer ≠ .error .index := by
  have hrefused' : ∀ w, Refused (List.replicate r.length 0 ++ EspBode.filled r i w) := fun w ↦
    hrefused.elim (fun h16 ↦ refused_of_le h16 _) (refused_filled hr.le)
  exact h _ _ (length_append_filled hr.le hi) (length_append_filled hr.le hi) (hrefused' v)
    (hrefused' w)

/-- The transaction id goes into the reply. -/
theorem SettledEffect.four_le (h : SettledEffect awg uninit r) : 4 ≤ r.length := by
  by_contra hr
  have hfield : (arrived r 0).length < 4 := by
    rw [length_arrived]
    omega
  obtain ⟨v, hv, -⟩ := exists_completes_ne hfield 0
  obtain ⟨w, hw, hne⟩ := exists_completes_ne hfield v
  obtain ⟨b, b', hb, hb', heq, -⟩ := h.filled (i := 0) (by decide) (by omega) (.inr (by decide)) v w
  -- both requests are for program 0
  have hprogram : ∀ {b : Buffer vxiReadSize} {u : UInt32},
      b.bytes.drop prefixSize = r ++ EspBode.filled r 0 u →
        program b ≠ Rpc.Program.vxi11Core.code := by
    intro b u hb
    rw [program, word_of_drop_eq hb 12, wordAt_append_filled_of_le rfl (by omega) (by decide)]
    decide
  rw [effect_of_program_ne (hprogram hb), effect_of_program_ne (hprogram hb')] at heq
  simp only [Effect.mk.injEq, Except.ok.injEq, Answer.mk.injEq, true_and] at heq
  have hxid := (replyRecord_inj rfl heq).1
  rw [xid, xid, word_of_drop_eq hb 0, word_of_drop_eq hb' 0, wordAt_append_filled (by omega) hv,
    wordAt_append_filled (by omega) hw] at hxid
  exact hne hxid.symm

/-- The program decides between two refusals. -/
theorem SettledEffect.sixteen_le (h : SettledEffect awg uninit r)
    (hcore : Completes (arrived r 12) Rpc.Program.vxi11Core.code) : 16 ≤ r.length := by
  by_contra hr
  have hfield : (arrived r 12).length < 4 := by
    rw [length_arrived]
    omega
  obtain ⟨w, hw, hne⟩ := exists_completes_ne hfield Rpc.Program.vxi11Core.code
  obtain ⟨b, b', hb, hb', heq, -⟩ := h.filled (i := 12) (by decide) (by omega)
    (.inr (by decide)) Rpc.Program.vxi11Core.code w
  have hprogram : program b = Rpc.Program.vxi11Core.code := by
    rw [program, word_of_drop_eq hb 12, wordAt_append_filled (by omega) hcore]
  have hprogram' : program b' ≠ Rpc.Program.vxi11Core.code := by
    rw [program, word_of_drop_eq hb' 12, wordAt_append_filled (by omega) hw]
    exact hne
  have hprocedure : procedure b ∉ handledProcedures := by
    rw [procedure, word_of_drop_eq hb 20, wordAt_append_filled_of_le rfl (by omega) (by decide)]
    decide
  rw [effect_of_not_handled hprogram hprocedure, effect_of_program_ne hprogram'] at heq
  simp only [Effect.mk.injEq, Except.ok.injEq, Answer.mk.injEq, true_and] at heq
  have hbody := (replyRecord_inj (by rw [length_beBytes, length_beBytes]) heq).2
  exact absurd hbody (by decide)

/-- The program, once it has been received. -/
theorem program_of_drop_eq {b : Buffer vxiReadSize} {e : List UInt8} (h16 : 16 ≤ r.length)
    (hprogram : wordAt r 12 = Rpc.Program.vxi11Core.code)
    (hb : b.bytes.drop prefixSize = r ++ e) : program b = Rpc.Program.vxi11Core.code := by
  rw [program, word_of_drop_eq hb 12, wordAt_append_left h16, hprogram]

/-- The procedure decides between refusing and closing the link. -/
theorem SettledEffect.twentyFour_le (h : SettledEffect awg uninit r) (h16 : 16 ≤ r.length)
    (hprogram : wordAt r 12 = Rpc.Program.vxi11Core.code) {w : UInt32}
    (hw : Completes (arrived r 20) w) (hhandled : w ∈ handledProcedures) : 24 ≤ r.length := by
  by_contra hr
  have hsmall : w.toNat < 256 := by
    simp only [handledProcedures, List.mem_cons, List.not_mem_nil, or_false] at hhandled
    rcases hhandled with rfl | rfl | rfl | rfl <;> decide
  have hfield : (arrived r 20).length < 4 := by
    rw [length_arrived]
    omega
  have hzero : Completes (arrived r 20) 0 := hw.of_lt hfield hsmall (by decide)
  have hdestroy : Completes (arrived r 20) Rpc.Procedure.vxi11DestroyLink.code :=
    hw.of_lt hfield hsmall (by decide)
  obtain ⟨b, b', hb, hb', heq, -⟩ := h.filled (i := 20) (by decide) (by omega) (.inl h16)
    0 Rpc.Procedure.vxi11DestroyLink.code
  have hprocedure : procedure b ∉ handledProcedures := by
    rw [procedure, word_of_drop_eq hb 20, wordAt_append_filled (by omega) hzero]
    decide
  have hprocedure' : procedure b' = Rpc.Procedure.vxi11DestroyLink.code := by
    rw [procedure, word_of_drop_eq hb' 20, wordAt_append_filled (by omega) hdestroy]
  rw [effect_of_not_handled (program_of_drop_eq h16 hprogram hb) hprocedure,
    effect_of_destroyLink (program_of_drop_eq h16 hprogram hb') hprocedure'] at heq
  simp only [Effect.mk.injEq, Except.ok.injEq, Answer.mk.injEq] at heq
  exact absurd heq.2.1 (by decide)

/-- Behind the header there may be anything. -/
theorem SettledEffect.exists_drop_eq (h : SettledEffect awg uninit r) (h16 : 16 ≤ r.length)
    {e : List UInt8} (he : r.length + e.length = 252) : ∃ b : Buffer vxiReadSize,
      b.bytes.drop prefixSize = r ++ e ∧ (effect awg b uninit).answer ≠ .error .index := by
  obtain ⟨b, -, hb, -, -, hindex⟩ := h e e he he (refused_of_le h16 e) (refused_of_le h16 e)
  exact ⟨b, hb, hindex⟩

/-- **A length behind the header is received in full** if one that is too large makes an index leave
the buffer, and then it is not too large. -/
theorem SettledEffect.length_lt (h : SettledEffect awg uninit r) (hr : r.length ≤ 252)
    (h16 : 16 ≤ r.length) {i n : ℕ} (hi : i + 4 ≤ 252) (hn : n ≤ 255)
    (hlarge : ∀ {b : Buffer vxiReadSize} {e : List UInt8}, b.bytes.drop prefixSize = r ++ e →
      n ≤ (wordAt (r ++ e) i).toNat → (effect awg b uninit).answer = .error .index) :
    i + 4 ≤ r.length ∧ (wordAt r i).toNat < n := by
  have hreceived : i + 4 ≤ r.length := by
    by_contra hnot
    have hfield : (arrived r i).length < 4 := by
      rw [length_arrived]
      omega
    obtain ⟨w, hw, hge⟩ := exists_completes_ge hfield
    obtain ⟨b, hb, hindex⟩ := h.exists_drop_eq h16
      (length_append_filled (i := i) (w := w) (by omega) hi)
    refine hindex (hlarge hb ?_)
    rw [wordAt_append_filled (by omega) hw]
    omega
  refine ⟨hreceived, ?_⟩
  obtain ⟨b, hb, hindex⟩ := h.exists_drop_eq h16 (e := List.replicate (252 - r.length) 0)
    (by rw [List.length_replicate]; omega)
  by_contra hge
  refine hindex (hlarge hb ?_)
  rw [wordAt_append_left hreceived]
  omega

/-- The length of the data of a request to create a link decides whether it fits. -/
theorem SettledEffect.dataLen_of_create (h : SettledEffect awg uninit r) (hr : r.length ≤ 252)
    (h24 : 24 ≤ r.length) (hprogram : wordAt r 12 = Rpc.Program.vxi11Core.code)
    (hprocedure : wordAt r 20 = Rpc.Procedure.vxi11CreateLink.code) :
    56 ≤ r.length ∧ (wordAt r 52).toNat < 196 := by
  refine h.length_lt hr (by omega) (by decide) (by decide) fun {b e} hb hlarge ↦ ?_
  have hcreate : procedure b = Rpc.Procedure.vxi11CreateLink.code := by
    rw [procedure, word_of_drop_eq hb 20, wordAt_append_left h24, hprocedure]
  have hfits : ¬ CreateFits b := by
    show ¬ (b.word (prefixSize + 52)).toNat < 196
    rw [word_of_drop_eq hb]
    omega
  rw [effect_of_createLink (program_of_drop_eq (by omega) hprogram hb) hcreate, if_neg hfits]

/-- The effect of a write whose header has been received. -/
theorem effect_of_drop_eq (h24 : 24 ≤ r.length)
    (hprogram : wordAt r 12 = Rpc.Program.vxi11Core.code)
    (hprocedure : wordAt r 20 = Rpc.Procedure.vxi11DevWrite.code) {b : Buffer vxiReadSize}
    {e : List UInt8} (hb : b.bytes.drop prefixSize = r ++ e) :
    effect awg b uninit = writeEffect (xid b) (wordAt (r ++ e) 56)
      (((r ++ e).drop 60).take (wordAt (r ++ e) 56).toNat) uninit := by
  have hwrite : procedure b = Rpc.Procedure.vxi11DevWrite.code := by
    rw [procedure, word_of_drop_eq hb 20, wordAt_append_left h24, hprocedure]
  have hsize : writeDataSize b = wordAt (r ++ e) 56 := word_of_drop_eq hb 56
  rw [effect_of_devWrite (program_of_drop_eq (by omega) hprogram hb) hwrite, writeDataLen, hsize,
    slice, show 64 = prefixSize + 60 from rfl, ← List.drop_drop, hb]

/-- The length of the data of a write decides whether it fits. -/
theorem SettledEffect.dataLen_of_write (h : SettledEffect awg uninit r) (hr : r.length ≤ 252)
    (h24 : 24 ≤ r.length) (hprogram : wordAt r 12 = Rpc.Program.vxi11Core.code)
    (hprocedure : wordAt r 20 = Rpc.Procedure.vxi11DevWrite.code) :
    60 ≤ r.length ∧ (wordAt r 56).toNat < 193 := by
  refine h.length_lt hr (by omega) (by decide) (by decide) fun {b e} hb hlarge ↦ ?_
  rw [effect_of_drop_eq h24 hprogram hprocedure hb]
  by_contra hindex
  have hfits := answer_writeEffect_ne_index_iff.1 hindex
  omega

/-- The text of a write whose data fits. -/
theorem text_writeEffect {xid size : UInt32} {data : List UInt8}
    (h : (writeEffect xid size data uninit).answer ≠ .error .index) :
    (writeEffect xid size data uninit).text =
      some (.ok ((withoutNewlines data).takeWhile (· != 0))) := by
  rw [writeEffect, if_pos (answer_writeEffect_ne_index_iff.1 h)]

/-- Data that goes on behind the received bytes, where one byte is repeated. -/
theorem data_append_replicate (h60 : 60 ≤ r.length) {n : ℕ} (hn : n ≤ 192)
    (hlong : (arrivedData r).length ≤ n) (x : UInt8) :
    ((r ++ List.replicate (252 - r.length) x).drop 60).take n =
      arrivedData r ++ List.replicate (n - (arrivedData r).length) x := by
  have hlen : (arrivedData r).length = r.length - 60 := List.length_drop
  rw [List.drop_append_of_le_length h60, List.take_append]
  show (arrivedData r).take n ++ (List.replicate _ x).take (n - (arrivedData r).length) = _
  rw [List.take_of_length_le hlong, List.take_replicate]
  congr 2
  omega

/-- Letters at the end are not stripped. -/
theorem withoutNewlines_append_letters (xs : List UInt8) {n : ℕ} (hn : n ≠ 0) :
    withoutNewlines (xs ++ List.replicate n (chr 'A')) = xs ++ List.replicate n (chr 'A') := by
  obtain ⟨k, rfl⟩ := Nat.exists_eq_succ_of_ne_zero hn
  rw [List.replicate_succ', ← List.append_assoc]
  exact List.rdropWhile_concat_neg _ _ _ (by decide)

/-- The effect of a write whose length has been received, with one byte repeated behind the received
bytes. -/
theorem effect_of_replicate (h60 : 60 ≤ r.length)
    (hprogram : wordAt r 12 = Rpc.Program.vxi11Core.code)
    (hprocedure : wordAt r 20 = Rpc.Procedure.vxi11DevWrite.code)
    (hfits : (wordAt r 56).toNat < 193) (hlong : (arrivedData r).length ≤ (wordAt r 56).toNat)
    {b : Buffer vxiReadSize} {x : UInt8}
    (hb : b.bytes.drop prefixSize = r ++ List.replicate (252 - r.length) x) :
    effect awg b uninit = writeEffect (xid b) (wordAt r 56)
      (arrivedData r ++ List.replicate ((wordAt r 56).toNat - (arrivedData r).length) x)
      uninit := by
  rw [effect_of_drop_eq (by omega) hprogram hprocedure hb, wordAt_append_left h60,
    data_append_replicate h60 (by omega) hlong]

/-- Data that goes on behind the received bytes leaves room for a terminator. -/
theorem SettledEffect.dataLen_le (h : SettledEffect awg uninit r) (h60 : 60 ≤ r.length)
    (hr : r.length ≤ 252) (hprogram : wordAt r 12 = Rpc.Program.vxi11Core.code)
    (hprocedure : wordAt r 20 = Rpc.Procedure.vxi11DevWrite.code)
    (hfits : (wordAt r 56).toNat < 193) (hlong : (arrivedData r).length < (wordAt r 56).toNat) :
    (wordAt r 56).toNat ≤ 191 := by
  obtain ⟨b, hb, hindex⟩ := h.exists_drop_eq (by omega)
    (e := List.replicate (252 - r.length) (chr 'A')) (by rw [List.length_replicate]; omega)
  rw [effect_of_replicate h60 hprogram hprocedure hfits hlong.le hb,
    answer_writeEffect_ne_index_iff, withoutNewlines_append_letters _ (by omega),
    List.length_append, List.length_replicate] at hindex
  omega

/-- The data of a write goes into its text, up to the first NUL. -/
theorem SettledEffect.data_received (h : SettledEffect awg uninit r) (h60 : 60 ≤ r.length)
    (hr : r.length ≤ 252) (hprogram : wordAt r 12 = Rpc.Program.vxi11Core.code)
    (hprocedure : wordAt r 20 = Rpc.Procedure.vxi11DevWrite.code)
    (hfits : (wordAt r 56).toNat < 193) :
    (wordAt r 56).toNat ≤ (arrivedData r).length ∨ 0 ∈ arrivedData r := by
  by_contra hnot
  obtain ⟨hlong, hnul⟩ : (arrivedData r).length < (wordAt r 56).toNat ∧ 0 ∉ arrivedData r := by
    simpa only [not_or, not_le] using hnot
  -- behind the received data stand newlines in one run, and letters in the other
  obtain ⟨b, b', hb, hb', heq, hindex⟩ := h (List.replicate (252 - r.length) (chr '\n'))
    (List.replicate (252 - r.length) (chr 'A')) (by rw [List.length_replicate]; omega)
    (by rw [List.length_replicate]; omega) (refused_of_le (by omega) _) (refused_of_le (by omega) _)
  have hindex' := heq ▸ hindex
  rw [effect_of_replicate h60 hprogram hprocedure hfits hlong.le hb] at hindex heq
  rw [effect_of_replicate h60 hprogram hprocedure hfits hlong.le hb'] at hindex' heq
  have htext := congrArg Effect.text heq
  rw [text_writeEffect hindex, text_writeEffect hindex', withoutNewlines_append_newlines,
    withoutNewlines_append_letters _ (by omega)] at htext
  have hletters : ∀ x ∈ arrivedData r ++
      List.replicate ((wordAt r 56).toNat - (arrivedData r).length) (chr 'A'), (x != 0) = true := by
    refine bne_of_not_mem fun hmem ↦ ?_
    rcases List.mem_append.1 hmem with hmem | hmem
    · exact hnul hmem
    · exact absurd (List.eq_of_mem_replicate hmem) (by decide)
  rw [List.takeWhile_eq_self_iff.2 hletters] at htext
  -- the text is shorter in the first run
  have hlens := congrArg List.length (Except.ok.inj (Option.some.inj htext))
  rw [List.length_append, List.length_replicate] at hlens
  have htake := (List.takeWhile_prefix (p := (· != 0))
    (l := withoutNewlines (arrivedData r))).length_le
  have hstrip : (withoutNewlines (arrivedData r)).length ≤ (arrivedData r).length :=
    (List.rdropWhile_prefix _ _).length_le
  omega

/-- Data of 192 bytes ends with a newline. -/
theorem SettledEffect.newline_of_write (h : SettledEffect awg uninit r) (hr : r.length ≤ 252)
    (h60 : 60 ≤ r.length) (hprogram : wordAt r 12 = Rpc.Program.vxi11Core.code)
    (hprocedure : wordAt r 20 = Rpc.Procedure.vxi11DevWrite.code)
    (hdataLen : (wordAt r 56).toNat = 192) (hdata : (arrivedData r).length = 192) :
    (arrivedData r).getLast? = some (chr '\n') := by
  obtain ⟨b, hb, hindex⟩ := h.exists_drop_eq (by omega)
    (e := List.replicate (252 - r.length) 0) (by rw [List.length_replicate]; omega)
  rw [effect_of_replicate h60 hprogram hprocedure (by omega) (hdata.trans hdataLen.symm).le hb,
    answer_writeEffect_ne_index_iff, hdataLen, hdata, Nat.sub_self, List.replicate_zero,
    List.append_nil, length_withoutNewlines_lt_iff hdata.le] at hindex
  exact (hindex.2.resolve_left (by omega)).2

/-- A read leaves room for the identification. -/
theorem SettledEffect.id_of_read (h : SettledEffect awg uninit r) (hr : r.length ≤ 252)
    (h24 : 24 ≤ r.length) (hprogram : wordAt r 12 = Rpc.Program.vxi11Core.code)
    (hprocedure : wordAt r 20 = Rpc.Procedure.vxi11DevRead.code) : awg.id.length < 216 := by
  obtain ⟨b, hb, hindex⟩ := h.exists_drop_eq (by omega)
    (e := List.replicate (252 - r.length) 0) (by rw [List.length_replicate]; omega)
  have hread : procedure b = Rpc.Procedure.vxi11DevRead.code := by
    rw [procedure, word_of_drop_eq hb 20, wordAt_append_left h24, hprocedure]
  rw [effect_of_devRead (program_of_drop_eq (by omega) hprogram hb) hread] at hindex
  by_contra hid
  exact hindex (if_neg hid)

/-- **Received bytes that do not settle the effect leave room for two effects**, or for an index
that leaves a buffer. -/
theorem SettledEffect.selfContained (h : SettledEffect awg uninit r) (hr : r.length ≤ 252) :
    SelfContained awg r := by
  by_cases hother : ∀ w, Completes (arrived r 12) w → w ≠ Rpc.Program.vxi11Core.code
  · exact .progUnavail h.four_le hother
  obtain ⟨w, hcore, rfl⟩ : ∃ w, Completes (arrived r 12) w ∧ w = Rpc.Program.vxi11Core.code := by
    simpa only [not_forall, not_not, exists_prop] using hother
  have h16 := h.sixteen_le hcore
  have hprogram : wordAt r 12 = Rpc.Program.vxi11Core.code :=
    ((completes_arrived_iff h16).1 hcore).symm
  by_cases hunhandled : ∀ w, Completes (arrived r 20) w → w ∉ handledProcedures
  · exact .procUnavail h16 hprogram hunhandled
  obtain ⟨w, hw, hhandled⟩ : ∃ w, Completes (arrived r 20) w ∧ w ∈ handledProcedures := by
    simpa only [not_forall, not_not, exists_prop] using hunhandled
  have h24 := h.twentyFour_le h16 hprogram hw hhandled
  rw [(completes_arrived_iff h24).1 hw, handledProcedures] at hhandled
  simp only [List.mem_cons, List.not_mem_nil, or_false] at hhandled
  rcases hhandled with hcreate | hread | hwrite | hdestroy
  · obtain ⟨h56, hlen⟩ := h.dataLen_of_create hr h24 hprogram hcreate
    exact .createLink h56 hprogram hcreate hlen
  · exact .read h24 hprogram hread (h.id_of_read hr h24 hprogram hread)
  · obtain ⟨h60, hlen⟩ := h.dataLen_of_write hr h24 hprogram hwrite
    have hdata := h.data_received h60 hr hprogram hwrite hlen
    have hopen := h.dataLen_le h60 hr hprogram hwrite hlen
    rcases Nat.lt_or_ge 191 (wordAt r 56).toNat with h192 | h191
    · have harrived : (arrivedData r).length = r.length - 60 := List.length_drop
      have hfull : (arrivedData r).length = 192 := by omega
      exact .writeNewline hprogram hwrite (by show (wordAt r 56).toNat = 192; omega) hfull
        (h.newline_of_write hr h60 hprogram hwrite (by omega) hfull)
    · exact .write h60 hprogram hwrite h191 hdata
  · exact .destroyLink h24 hprogram hdestroy

end Needed

end EspBode
