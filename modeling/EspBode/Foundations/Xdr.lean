import EspBode.Foundations.Word

/-!
# Reading XDR data

Decoders for data in the external representation. They are the reader that a client has, written
without a look at how the program lays out its packets, so that a packet which a decoder
understands is one that a client understands.

A decoder takes its value off the front of a byte string, and fails if the string is too short. It
is a state monad over an option, and so decoders are combined by `do`. The primitives are

* a number of bytes, and a big-endian word;
* the fragment of a record: a word whose low 31 bits count the bytes of the fragment behind it;
* data of variable length, which is filled up to a multiple of 4 bytes (`fill`).

`Reads d bs a` says that the decoder `d` reads the bytes `bs` as the value `a` and leaves everything
behind them, whatever it is. What stands behind is quantified over in the predicate, and that makes
it compose: decoders that are run one after the other read the bytes that stand one behind the other
(`Reads.bind`). There is one lemma for each primitive, and a packet is then read by following the
`do` block of its decoder.

A message is what fills a fragment exactly (`message`), so a decoder for a message also says that no
byte of the fragment is left over.
-/

namespace EspBode.Xdr

/-- A decoder takes a value off the front of a byte string. -/
abbrev Decoder (α : Type) : Type :=
  StateT (List UInt8) Option α

variable {α β : Type}

/-- The next `n` bytes. -/
def bytes (n : ℕ) : Decoder (List UInt8) := fun bs ↦
  if n ≤ bs.length then some (bs.take n, bs.drop n) else none

/-- The next big-endian word. -/
def word : Decoder UInt32 := do
  return beWord (← bytes 4)

/-- The number of bytes that fill data up to a multiple of 4. -/
def fill (len : ℕ) : ℕ :=
  (4 - len % 4) % 4

/-- The fragment behind its word. -/
def fragment : Decoder (List UInt8) := do
  let lead ← word
  bytes (lead &&& 0x7fffffff).toNat

/-! ### What is read -/

/-- The decoder reads the bytes as the value, and leaves what stands behind them. -/
def Reads (d : Decoder α) (bs : List UInt8) (a : α) : Prop :=
  ∀ rest, d (bs ++ rest) = some (a, rest)

theorem reads_pure (a : α) : Reads (pure a) [] a :=
  fun _ ↦ rfl

/-- **Decoders one after the other** read bytes one behind the other. -/
theorem Reads.bind {d : Decoder α} {f : α → Decoder β} {bs cs : List UInt8} {a : α} {b : β}
    (h : Reads d bs a) (hf : Reads (f a) cs b) : Reads (d >>= f) (bs ++ cs) b := fun rest ↦ by
  show (d (bs ++ cs ++ rest) >>= fun r ↦ f r.1 r.2) = some (b, rest)
  rw [List.append_assoc, h]
  exact hf rest

theorem reads_bytes {bs : List UInt8} {n : ℕ} (h : bs.length = n) : Reads (bytes n) bs bs :=
  fun rest ↦ by
    rw [bytes, if_pos (by rw [List.length_append]; omega), List.take_left' h, List.drop_left' h]

theorem reads_word (w : UInt32) : Reads word (beBytes w) w := by
  have h : Reads word (beBytes w ++ []) (beWord (beBytes w)) :=
    (reads_bytes (length_beBytes w)).bind (f := fun bs ↦ pure (beWord bs)) (reads_pure _)
  rwa [List.append_nil, beWord_beBytes] at h

/-- A fragment is read whole if its word counts its bytes. -/
theorem reads_fragment {lead : UInt32} {payload : List UInt8}
    (h : (lead &&& 0x7fffffff).toNat = payload.length) :
    Reads fragment (beBytes lead ++ payload) payload :=
  (reads_word lead).bind (reads_bytes h.symm)

/-! ### Messages -/

/-- A message that fills a fragment. -/
def message (d : Decoder α) : Decoder α := do
  let payload ← fragment
  match d payload with
  | some (a, []) => pure a
  | _ => fun _ ↦ none

theorem Reads.message {d : Decoder α} {lead : UInt32} {payload : List UInt8} {a : α}
    (hlead : (lead &&& 0x7fffffff).toNat = payload.length) (h : Reads d payload a) :
    Reads (message d) (beBytes lead ++ payload) a := by
  have hpayload := h []
  rw [List.append_nil] at hpayload
  have hread : Reads (α := α) (match d payload with
      | some (a, []) => pure a
      | _ => fun _ ↦ none) [] a := by
    rw [hpayload]
    exact reads_pure a
  rw [← List.append_nil (beBytes lead ++ payload)]
  exact (reads_fragment hlead).bind hread

end EspBode.Xdr
