import Mathlib.Algebra.Order.Group.Nat
import EspBode.Firmware.RpcPackets
import EspBode.Foundations.RecordStream

/-!
# What is received and what is sent

The specifications of the functions that move packets. `receive size c` is what a receive call takes
off a connection, whatever the buffer holds: a length, and the bytes that are put at the start of
the buffer (`getPacket_eq`). All that the buffer contributes is what stays behind these bytes.

`replyRecord xid body` is a reply as it is sent: a record that starts with the fixed header of an
accepted reply and is filled up with zeros to a multiple of 4. A send function sends it, with the
transaction id of the request and the body that stands behind the header in the send buffer
(`sendPacket_eq`); nothing else in the send buffer matters.

Both specifications are equations for all contents of the buffers, and they have no case for a
fault: what is received is cut to the size of the buffer before it is read, and a reply is sent
under the condition that it fits, with its zeros.

* **A receive call may come back short.** The connection decides how many bytes each read gets. The
  bytes of the prefix that did not arrive are zero (`prefixField`), because the word is cleared
  before it is read; the bytes of the body that did not arrive are those of the buffer.
* **From a prompt connection at the start of a record** the prefix is the word in front of it, and
  the rest is a matter of the length of its body (`receive_of_record`). This is the form in which
  results about streams of records use it.
-/

namespace EspBode

open Buffer

/-! ### Receiving -/

/-- What a receive call takes off a connection. -/
structure Received where
  /-- The length that is returned. -/
  len : ℕ
  /-- What is put at the start of the buffer. -/
  bytes : List UInt8
  /-- The connection afterwards. -/
  client : NetClient

/-- The prefix field after a read: bytes of it that did not arrive are zero. -/
def prefixField (c : NetClient) : List UInt8 :=
  (c.readBytes prefixSize).1 ++ List.replicate (prefixSize - (c.readBytes prefixSize).1.length) 0

/-- What a receive call with a buffer of the given size takes off the connection. -/
def receive (size : ℕ) (c : NetClient) : Received :=
  let len := (beWord (prefixField c)).toNat % 2 ^ 31
  let c' := (c.readBytes prefixSize).2
  if len > 4 then
    let len := min len (size - 4)
    ⟨len, prefixField c ++ (c'.readBytes len).1, (c'.readBytes len).2⟩
  else
    ⟨len, prefixField c, c'⟩

theorem length_prefixField (c : NetClient) : (prefixField c).length = 4 := by
  have : (c.readBytes prefixSize).1.length ≤ 4 := c.length_readBytes_le prefixSize
  rw [prefixField, List.length_append, List.length_replicate]
  show _ + (4 - _) = 4
  omega

/-- What is received fits. -/
theorem length_receive_le {size : ℕ} (hsize : 4 ≤ size) (c : NetClient) :
    (receive size c).bytes.length ≤ size := by
  have hpre := length_prefixField c
  rw [receive]
  dsimp only
  split_ifs
  · have := (c.readBytes prefixSize).2.length_readBytes_le
      (min ((beWord (prefixField c)).toNat % 2 ^ 31) (size - 4))
    rw [List.length_append]
    omega
  · rwa [hpre]

theorem four_le_length_receive (size : ℕ) (c : NetClient) :
    4 ≤ (receive size c).bytes.length := by
  have hpre := length_prefixField c
  rw [receive]
  dsimp only
  split_ifs
  · rw [List.length_append]
    omega
  · rw [hpre]

/-- Masking out the top bit. -/
theorem toNat_and_mask (w : UInt32) : (w &&& 0x7fffffff).toNat = w.toNat % 2 ^ 31 := by
  rw [UInt32.toNat_and, ← Nat.and_two_pow_sub_one_eq_mod]
  rfl

/-- **A receive call does to the buffer what it took off the connection**, and returns its length.
-/
theorem getPacket_eq {size : ℕ} (hsize : 4 ≤ size) (b : Buffer size) (c : NetClient) :
    getPacket b c = .ok ((receive size c).len, b.patch 0 (receive size c).bytes,
      (receive size c).client) := by
  have hread : (c.readBytes prefixSize).1.length ≤ 4 := c.length_readBytes_le prefixSize
  have hpre := length_prefixField c
  -- the zero length, and what arrived of the prefix over it
  have hfield : (b.patch 0 (beBytes 0)).patch 0 (c.readBytes prefixSize).1 =
      b.patch 0 (prefixField c) := by
    rw [patch_patch_self b (by rw [length_beBytes]; omega) hread, prefixField,
      show beBytes 0 = List.replicate prefixSize 0 from rfl, List.drop_replicate]
  have hword : (b.patch 0 (prefixField c)).word 0 = beWord (prefixField c) := by
    rw [word, ← hpre, slice_patch_self b (by omega)]
  rw [getPacket, storeField_eq_ok b (by omega), ok_bind]
  dsimp only
  rw [store_eq_ok _ (by omega), ok_bind, hfield, loadField_eq_ok _ (by omega), ok_bind, hword,
    toNat_and_mask, receive]
  dsimp only
  by_cases hlen : (beWord (prefixField c)).toNat % 2 ^ 31 > 4
  · have hbody := (c.readBytes prefixSize).2.length_readBytes_le
      (min ((beWord (prefixField c)).toNat % 2 ^ 31) (size - 4))
    rw [if_pos hlen, if_pos hlen, store_eq_ok _ (by show 4 + _ ≤ _; omega), ok_bind,
      patch_patch b (by rw [hpre, Nat.zero_add]) (by show 4 + _ ≤ _; omega),
      load_eq_ok _ (by omega), ok_bind, pure_eq_ok]
  · rw [if_neg hlen, if_neg hlen, pure_eq_ok]

/-! ### Receiving from a stream of records -/

/-- How many bytes of a body of `n` bytes a receive call takes. -/
def taken (size n : ℕ) : ℕ :=
  if n > 4 then min n (size - 4) else 0

theorem taken_le (size n : ℕ) : taken size n ≤ n := by
  unfold taken
  split_ifs <;> omega

/-- A body is taken in full exactly when it is empty or has more than 4 bytes and fits. -/
theorem taken_eq_iff {size n : ℕ} : taken size n = n ↔ n = 0 ∨ 5 ≤ n ∧ n ≤ size - 4 := by
  unfold taken
  split_ifs <;> omega

/-- From a prompt connection whose stream has ended nothing is received. -/
theorem receive_of_rx_eq_nil (size : ℕ) {c : NetClient} (hc : c.Prompt) (hrx : c.rx = []) :
    receive size c = ⟨0, beBytes 0, c⟩ := by
  obtain ⟨rx, waits, closed⟩ := c
  obtain rfl : rx = [] := hrx
  obtain rfl : waits = [] := hc
  rfl

/-- **From a prompt connection at the start of a record**: the word in front and, of a body of more
than 4 bytes, as much as the buffer holds. -/
theorem receive_of_record (size : ℕ) {c : NetClient} (hc : c.Prompt) {r : Record}
    {rest : List UInt8} (hrx : c.rx = r.bytes ++ rest) :
    receive size c =
      ⟨if r.body.length > 4 then min r.body.length (size - 4) else r.body.length,
        beBytes r.lead ++ r.body.take (taken size r.body.length),
        { c with rx := r.body.drop (taken size r.body.length) ++ rest }⟩ := by
  have hread : c.readBytes prefixSize = (beBytes r.lead, { c with rx := r.body ++ rest }) := by
    rw [NetClient.readBytes_of_prompt hc, hrx, Record.bytes, List.append_assoc,
      List.take_left' (length_beBytes _), List.drop_left' (length_beBytes _)]
  have hfield : prefixField c = beBytes r.lead := by
    rw [prefixField, hread]
    exact List.append_nil _
  rw [receive, hfield, beWord_beBytes, r.declared, hread]
  dsimp only
  by_cases hlen : r.body.length > 4
  · have hle : min r.body.length (size - 4) ≤ r.body.length := Nat.min_le_left _ _
    rw [if_pos hlen, if_pos hlen, taken, if_pos hlen,
      NetClient.readBytes_of_prompt (c := { c with rx := r.body ++ rest }) hc,
      List.take_append_of_le_length hle, List.drop_append_of_le_length hle]
  · rw [if_neg hlen, if_neg hlen, taken, if_neg hlen, List.take_zero, List.append_nil,
      List.drop_zero]

/-! ### Sending -/

/-- The header of a call: transaction id, call, RPC version 2, program, program version 1,
procedure, and no credentials. -/
def callHeader (xid program procedure : UInt32) : List UInt8 :=
  beBytes xid ++ beBytes Rpc.MsgType.call.code ++ beBytes 2 ++ beBytes program ++ beBytes 1 ++
    beBytes procedure ++ List.replicate 16 0

/-- The header of an accepted reply. -/
def replyHeader (xid : UInt32) : List UInt8 :=
  beBytes xid ++ beBytes Rpc.MsgType.reply.code ++ beBytes Rpc.ReplyState.msgAccepted.code ++
    beBytes 0 ++ beBytes 0

/-- The zeros that fill `len` bytes up to a multiple of 4. -/
def padding (len : ℕ) : List UInt8 :=
  List.replicate ((4 - len % 4) % 4) 0

/-- The payload of a reply record. -/
def replyPayload (xid : UInt32) (body : List UInt8) : List UInt8 :=
  replyHeader xid ++ body ++ padding (20 + body.length)

/-- A reply as it is sent over TCP. -/
def replyRecord (xid : UInt32) (body : List UInt8) : List UInt8 :=
  beBytes (0x80000000 ||| UInt32.ofNat (replyPayload xid body).length) ++ replyPayload xid body

@[simp]
theorem length_replyHeader (xid : UInt32) : (replyHeader xid).length = 20 :=
  rfl

theorem length_padding (len : ℕ) : (padding len).length = (4 - len % 4) % 4 :=
  List.length_replicate

theorem length_replyPayload (xid : UInt32) (body : List UInt8) :
    (replyPayload xid body).length = 20 + body.length + (4 - (20 + body.length) % 4) % 4 := by
  rw [replyPayload, List.length_append, List.length_append, length_replyHeader, length_padding]

/-- The header that is filled in. -/
theorem fillResponseHeader_eq {size : ℕ} (b : Buffer size) {base : ℕ} (h : base + 20 ≤ size)
    (xid : UInt32) : fillResponseHeader b base xid = .ok (b.patch base (replyHeader xid)) := by
  have hfit : ∀ k < 5, base + member k + 4 ≤ size := fun k hk ↦ by
    show base + 4 * k + 4 ≤ size
    omega
  -- the five fields stand one behind the other
  rw [fillResponseHeader, storeField_eq_ok _ (hfit 0 (by decide)), ok_bind,
    storeField_patch b (by rfl) (hfit 1 (by decide)), ok_bind,
    storeField_patch b (by rfl) (hfit 2 (by decide)), ok_bind,
    storeField_patch b (by rfl) (hfit 3 (by decide)), ok_bind,
    storeField_patch b (by rfl) (hfit 4 (by decide))]
  rfl

/-- The zeros that are appended; `k` of them are still missing. -/
theorem padPacket_eq {size : ℕ} : ∀ {k fuel : ℕ} {b : Buffer size} {len : ℕ}, k < 4 → k < fuel →
    (len + k) % 4 = 0 → 4 + len + k ≤ size →
      padPacket fuel b len = .ok (b.patch (4 + len) (List.replicate k 0), len + k)
  | _, 0, _, _, _, hf, _, _ => absurd hf (Nat.not_lt_zero _)
  | 0, fuel + 1, b, len, _, _, hmod, _ => by
    have hmask : len &&& 3 = len % 4 := Nat.and_two_pow_sub_one_eq_mod len 2
    rw [padPacket, hmask, if_neg (by omega), List.replicate_zero, patch_nil]
    rfl
  | k + 1, fuel + 1, b, len, hk, hf, hmod, hfit => by
    have hmask : len &&& 3 = len % 4 := Nat.and_two_pow_sub_one_eq_mod len 2
    rw [padPacket, hmask, if_pos (by omega), store_eq_ok _ (by show 4 + _ + 1 ≤ _; omega), ok_bind,
      padPacket_eq (k := k) (by omega) (by omega) (by omega) (by omega),
      patch_patch b (by show _ = 4 + len + 1; omega)
        (by rw [List.length_replicate]; omega)]
    rw [show len + 1 + k = len + (k + 1) by omega]
    rfl

/-- **A send function sends the reply record**: it echoes the transaction id of the request, and of
the send buffer only the body behind the header counts. -/
theorem sendPacket_eq {readSize sendSize : ℕ} (request : Buffer readSize)
    (response : Buffer sendSize) (len : ℕ) (hr : 8 ≤ readSize) (hlen : 20 ≤ len)
    (hfit : 4 + len + (4 - len % 4) % 4 ≤ sendSize) :
    ∃ response', sendPacket request response len =
      .ok (response', replyRecord (request.word 4) (response.slice 24 (len - 20))) := by
  set k := (4 - len % 4) % 4 with hk
  set header := replyHeader (request.word 4) with hheader
  have hhl : header.length = 20 := rfl
  have hzl : (List.replicate k (0 : UInt8)).length = k := List.length_replicate
  set b₁ := response.patch 4 header with hb₁
  set b₂ := b₁.patch (4 + len) (List.replicate k 0) with hb₂
  set b₃ := b₂.patch 0 (beBytes (0x80000000 ||| UInt32.ofNat (len + k))) with hb₃
  have hbody : (response.slice 24 (len - 20)).length = len - 20 := length_slice _ (by omega)
  have hpay : (replyPayload (request.word 4) (response.slice 24 (len - 20))).length = len + k := by
    rw [length_replyPayload, hbody, show 20 + (len - 20) = len by omega]
  -- the bytes sent, part by part: the word in front, the header, the body, the zeros
  have hsent : b₃.slice 0 (len + k + 4) =
      replyRecord (request.word 4) (response.slice 24 (len - 20)) := by
    have h₁ : b₃.slice 0 4 = beBytes (0x80000000 ||| UInt32.ofNat (len + k)) :=
      slice_patch_self b₂ (w := beBytes _) (by rw [length_beBytes]; omega)
    have h₂ : b₃.slice 4 20 = header := by
      rw [hb₃, slice_patch_of_ge _ (by rw [length_beBytes]; omega) (by rw [length_beBytes]), hb₂,
        slice_patch_of_le _ (by omega) (by omega), hb₁, ← hhl, slice_patch_self _ (by omega)]
    have h₃ : b₃.slice 24 (len - 20) = response.slice 24 (len - 20) := by
      rw [hb₃, slice_patch_of_ge _ (by rw [length_beBytes]; omega) (by rw [length_beBytes]; omega),
        hb₂, slice_patch_of_le _ (by omega) (by omega), hb₁,
        slice_patch_of_ge _ (by omega) (by omega)]
    have h₄ : b₃.slice (4 + len) k = List.replicate k 0 := by
      have hself := slice_patch_self b₁ (i := 4 + len) (w := List.replicate k 0) (by omega)
      rw [hzl] at hself
      rw [hb₃, slice_patch_of_ge _ (by rw [length_beBytes]; omega) (by rw [length_beBytes]; omega),
        hb₂, hself]
    have hsplit : len + k + 4 = 4 + (20 + (len - 20 + k)) := by omega
    rw [hsplit, slice_add, slice_add, slice_add, Nat.zero_add, h₁, h₂,
      show 4 + 20 = 24 by rfl, h₃, show 24 + (len - 20) = 4 + len by omega, h₄, replyRecord, hpay,
      replyPayload, hbody, show 20 + (len - 20) = len by omega, padding, ← hk, List.append_assoc]
  refine ⟨b₃, ?_⟩
  rw [sendPacket, loadField_eq_ok _ (by show 4 + 0 + 4 ≤ _; omega), ok_bind,
    fillResponseHeader_eq _ (by show 4 + 20 ≤ _; omega), ok_bind]
  dsimp only
  rw [padPacket_eq (k := k) (by omega) (by omega) (by omega) (by omega), ok_bind]
  dsimp only
  rw [storeField_eq_ok _ (by omega), ok_bind, load_eq_ok _ (by omega), ok_bind, pure_eq_ok]
  exact congrArg (fun bs ↦ Except.ok (b₃, bs)) hsent

/-- A reply as it is sent over UDP: the header and the body. -/
theorem sendBindPacketUdp_eq (request : Buffer udpReadSize) (response : Buffer udpSendSize)
    (len : ℕ) (hlen : 20 ≤ len) (hfit : len ≤ udpSendSize) :
    ∃ response', sendBindPacketUdp request response len =
      .ok (response', replyHeader (request.word 0) ++ response.slice 20 (len - 20)) := by
  have hfit' : len ≤ 32 := hfit
  have hhl : (replyHeader (request.word 0)).length = 20 := rfl
  set b₁ := response.patch 0 (replyHeader (request.word 0)) with hb₁
  have hsent : b₁.slice 0 len = replyHeader (request.word 0) ++ response.slice 20 (len - 20) := by
    obtain ⟨d, rfl⟩ := Nat.exists_eq_add_of_le hlen
    have hself := slice_patch_self response (i := 0) (w := replyHeader (request.word 0)) (by omega)
    rw [slice_add, hb₁, ← hhl, hself, slice_patch_of_ge _ (by omega) (by omega), hhl,
      Nat.add_sub_cancel_left, Nat.zero_add]
  refine ⟨b₁, ?_⟩
  rw [sendBindPacketUdp, loadField_eq_ok _ (by decide), ok_bind,
    fillResponseHeader_eq _ (by decide), ok_bind, load_eq_ok _ (by show 0 + _ ≤ 32; omega), ok_bind,
    pure_eq_ok]
  exact congrArg (fun bs ↦ Except.ok (b₁, bs)) hsent

/-- Replies whose bodies have one length are told apart by their transactions and bodies. -/
theorem replyRecord_inj {xid xid' : UInt32} {body body' : List UInt8}
    (hlen : body.length = body'.length) (h : replyRecord xid body = replyRecord xid' body') :
    xid = xid' ∧ body = body' := by
  have hpayload := (List.append_inj h rfl).2
  rw [replyPayload, replyPayload, hlen, List.append_assoc, List.append_assoc] at hpayload
  obtain ⟨hheader, hbody⟩ := List.append_inj hpayload rfl
  have hxid : beBytes xid = beBytes xid' := congrArg (List.take 4) hheader
  exact ⟨beBytes_injective hxid, List.append_cancel_right hbody⟩

/-- The word in front of a reply declares its payload, which is a multiple of 4 bytes long. -/
theorem replyRecord_framed (xid : UInt32) (body : List UInt8) (h : body.length < 2 ^ 30) :
    ∃ n, replyRecord xid body = beBytes (0x80000000 ||| UInt32.ofNat n) ++ replyPayload xid body ∧
      (replyPayload xid body).length = n ∧ n % 4 = 0 ∧ n < 2 ^ 31 := by
  have hlen := length_replyPayload xid body
  exact ⟨_, rfl, rfl, by omega, by omega⟩

end EspBode
