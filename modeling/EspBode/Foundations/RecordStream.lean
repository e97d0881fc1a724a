import Mathlib.Logic.Function.Iterate
import EspBode.Foundations.Word

/-!
# Record streams

A stream of records: each is a 32-bit word followed by as many bytes as its low 31 bits say; the top
bit marks the last fragment of a message and is not looked at. `Record` carries the agreement of the
word and the body as a field, so a stream of records is well framed by construction, and no
hypothesis about framing is needed where records are spoken of.

A reader that takes one record's word and then some of its body off the stream stays **in step**
when it stands at the start of a record after every call. How much of a body it takes is an
arbitrary function of the declared length: readers of this kind cut a record to the size of their
buffer, or leave a short one alone, and both are such functions.

`inStep_iff` is the whole story: a reader stays in step exactly when it takes every body in full.
One direction is clear. For the other one, consider the first body of which something is left
behind. The reader then stands in front of that part, and from there it can only go on to later
places of the stream that are never the start of a record that it ought to be at: after `k` calls at
least that part more is still to be read than the remaining records have, and no later call makes
up for it, because no call takes more than a record.

The statement is about any number of calls up to the number of records, and about what is left of
the stream after each. What stands in the buffers of the reader is not part of it.
-/

namespace EspBode

/-- A record: the word in front, and the body whose length it declares. -/
structure Record where
  /-- The word in front of the body. -/
  lead : UInt32
  /-- The bytes behind it. -/
  body : List UInt8
  /-- The low 31 bits are the length of the body. -/
  declared : lead.toNat % 2 ^ 31 = body.length

namespace Record

/-- The record as it is sent. -/
def bytes (r : Record) : List UInt8 :=
  beBytes r.lead ++ r.body

/-- The stream of a list of records. -/
def stream (rs : List Record) : List UInt8 :=
  rs.flatMap bytes

@[simp]
theorem stream_nil : stream [] = [] :=
  rfl

@[simp]
theorem stream_cons (r : Record) (rs : List Record) : stream (r :: rs) = r.bytes ++ stream rs :=
  rfl

/-- The last (or only) fragment of a message with the given body. -/
def lastFragment (body : List UInt8) (h : body.length < 2 ^ 31) : Record where
  lead := UInt32.ofNat (2 ^ 31 + body.length)
  body
  declared := by
    rw [UInt32.toNat_ofNat']
    omega

/-! ### Staying in step -/

section InStep

variable {consume : List UInt8 → List UInt8} {used : ℕ → ℕ}

/-- **A reader stays in step exactly when it takes every body in full.** One that leaves part of a
body behind stands in front of that part, further from the end of the stream than any start of a
later record. -/
theorem inStep_iff
    (hconsume : ∀ (r : Record) rest,
      consume (r.bytes ++ rest) = r.body.drop (used r.body.length) ++ rest)
    (hused : ∀ n, used n ≤ n) {rs : List Record} :
    (∀ k ≤ rs.length, consume^[k] (stream rs) = stream (rs.drop k)) ↔
      ∀ r ∈ rs, used r.body.length = r.body.length := by
  induction rs with
  | nil => simp
  | cons r rs ih =>
    have hfirst : consume (stream (r :: rs)) = stream rs ↔ used r.body.length = r.body.length := by
      rw [stream_cons, hconsume]
      constructor
      · intro h
        have hlen := congrArg List.length h
        rw [List.length_append, List.length_drop] at hlen
        have := hused r.body.length
        omega
      · intro h
        rw [h, List.drop_length, List.nil_append]
    rw [List.forall_mem_cons, ← ih, ← hfirst]
    constructor
    · intro h
      have h1 : consume (stream (r :: rs)) = stream rs := h 1 (by simp)
      refine ⟨h1, fun k hk ↦ ?_⟩
      have hk' := h (k + 1) (by simpa using hk)
      rwa [Function.iterate_succ_apply, h1, List.drop_succ_cons] at hk'
    · rintro ⟨h1, h⟩ (_ | k) hk
      · rfl
      · rw [Function.iterate_succ_apply, h1, List.drop_succ_cons]
        exact h k (by simpa using hk)

end InStep

end Record

end EspBode
