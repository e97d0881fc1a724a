import EspBode.Verification.Packets

/-!
# Staying in step with the records

One receive call after another on one connection. The stream position is all that matters, and a
call moves it past the prefix and past as much of the body as it takes (`consume_of_record`), so the
general law of record streams applies: the reader is at the start of a record after every call
exactly when every body is taken in full. Bodies of 1 to 4 bytes are not taken at all, and bodies
that do not fit the buffer are cut off.

The two readers are one function at two buffer sizes, so the law is stated once, for a buffer of any
size (`forall_standsAt_iff`), and `receive_inStep_iff` is its two instances: with 256 and 64 bytes
the longest body has 252 and 60.

* **Enough**: bodies that are taken in full, or that are empty, leave the position at the next
  record, one after the other.
* **Necessary**: the first record whose body is not taken in full leaves the position too early, and
  that is seen right after the call that has read it. No later call is looked at; what it makes of
  the bytes in the middle of a record is another matter.

What the buffer held before plays no part. The first word of it is overwritten before the length is
read from there, and the position depends on the stream alone (`receiveTimes_eq`).
-/

namespace EspBode

/-- Receive `k` times from one connection into one buffer. -/
def receiveTimes {size : ℕ}
    (get : Buffer size → NetClient → Except Fault (ℕ × Buffer size × NetClient)) :
    ℕ → Buffer size → NetClient → Except Fault (Buffer size × NetClient)
  | 0, b, c => .ok (b, c)
  | k + 1, b, c => do
    let (_, b, c) ← get b c
    receiveTimes get k b c

/-- After `k` calls on a prompt connection with the stream `rx`, the stream stands at `rx'`. -/
def StandsAt {size : ℕ}
    (get : Buffer size → NetClient → Except Fault (ℕ × Buffer size × NetClient)) (k : ℕ)
    (b : Buffer size) (rx rx' : List UInt8) : Prop :=
  ∃ b', receiveTimes get k b (.ofStream rx) = .ok (b', .ofStream rx')

/-! ### The stream position -/

/-- What a receive call leaves of a stream. -/
def consume (size : ℕ) (rx : List UInt8) : List UInt8 :=
  (receive size (.ofStream rx)).client.rx

/-- A receive call changes nothing of a prompt connection but its stream. -/
theorem client_receive_ofStream (size : ℕ) (rx : List UInt8) :
    (receive size (.ofStream rx)).client = .ofStream (consume size rx) := by
  rw [consume, receive]
  dsimp only
  split_ifs
  · rfl
  · rfl

theorem consume_of_record (size : ℕ) (r : Record) (rest : List UInt8) :
    consume size (r.bytes ++ rest) = r.body.drop (taken size r.body.length) ++ rest := by
  rw [consume, receive_of_record size (NetClient.prompt_ofStream _) rfl]

/-- The stream position after `k` calls is a matter of the stream alone. -/
theorem receiveTimes_eq {size : ℕ} (hsize : 4 ≤ size) (k : ℕ) : ∀ (b : Buffer size) rx,
    ∃ b', receiveTimes getPacket k b (.ofStream rx) =
      .ok (b', .ofStream ((consume size)^[k] rx)) := by
  induction k with
  | zero => exact fun b rx ↦ ⟨b, rfl⟩
  | succ k ih =>
    intro b rx
    obtain ⟨b', h⟩ := ih (b.patch 0 (receive size (.ofStream rx)).bytes) (consume size rx)
    refine ⟨b', ?_⟩
    rw [receiveTimes, getPacket_eq hsize, ok_bind]
    dsimp only
    rw [client_receive_ofStream, h, Function.iterate_succ_apply]

theorem standsAt_iff {size : ℕ} (hsize : 4 ≤ size) {k : ℕ} {b : Buffer size} {rx rx' : List UInt8} :
    StandsAt getPacket k b rx rx' ↔ (consume size)^[k] rx = rx' := by
  obtain ⟨b', h⟩ := receiveTimes_eq hsize k b rx
  rw [StandsAt, h]
  constructor
  · rintro ⟨b'', heq⟩
    rw [Except.ok.injEq, Prod.mk.injEq] at heq
    exact congrArg NetClient.rx heq.2
  · rintro rfl
    exact ⟨b', rfl⟩

/-- The law of record streams for a receive function with a buffer of any size. -/
theorem forall_standsAt_iff {size : ℕ} (hsize : 4 ≤ size) (b : Buffer size) (rs : List Record) :
    (∀ k ≤ rs.length, StandsAt getPacket k b (Record.stream rs) (Record.stream (rs.drop k))) ↔
      ∀ r ∈ rs, r.body.length = 0 ∨ 5 ≤ r.body.length ∧ r.body.length ≤ size - 4 := by
  simp only [standsAt_iff hsize]
  rw [Record.inStep_iff (consume_of_record size) (taken_le size)]
  simp only [taken_eq_iff]

/-! ### The two receive functions -/

/-- **The VXI reader is in step on exactly the streams of records that are empty or have 5 to 252
bytes, and the bind reader on those that are empty or have 5 to 60.** -/
theorem receive_inStep_iff (b : Buffer vxiReadSize) (b' : Buffer tcpReadSize) (rs : List Record) :
    ((∀ k ≤ rs.length, StandsAt getVxiPacket k b (Record.stream rs) (Record.stream (rs.drop k))) ↔
      ∀ r ∈ rs, r.body.length = 0 ∨ 5 ≤ r.body.length ∧ r.body.length ≤ 252) ∧
    ((∀ k ≤ rs.length,
        StandsAt getBindPacketTcp k b' (Record.stream rs) (Record.stream (rs.drop k))) ↔
      ∀ r ∈ rs, r.body.length = 0 ∨ 5 ≤ r.body.length ∧ r.body.length ≤ 60) :=
  ⟨forall_standsAt_iff (by decide) b rs, forall_standsAt_iff (by decide) b' rs⟩

/-- A record of three bytes, whose body is read as the next prefix. -/
theorem receive_out_of_step :
    ¬ ∀ (rs : List Record) (k : ℕ), k ≤ rs.length →
      StandsAt getVxiPacket k (.zero _) (Record.stream rs) (Record.stream (rs.drop k)) := by
  intro h
  obtain ⟨b', hb'⟩ := h [.lastFragment [1, 2, 3] (by decide)] 1 le_rfl
  have hleft : (receiveTimes getVxiPacket 1 (.zero _) (.ofStream
      (Record.stream [.lastFragment [1, 2, 3] (by decide)]))).map (·.2.rx) = .ok [1, 2, 3] := by
    decide +kernel
  rw [hb'] at hleft
  exact absurd (Except.ok.inj hleft) (show ¬ ([] : List UInt8) = [1, 2, 3] by decide)

end EspBode
