import Mathlib.Data.List.Basic
import Mathlib.Order.Nat
import Mathlib.Tactic.Common
import EspBode.Foundations.Fallible

/-!
# Byte buffers of a fixed size, with checked access

A `Buffer n` is a block of `n` bytes whose size is part of its type, so no operation can change it.
Every access is **checked**: reading or writing a range that is not inside the block is the fault
`Fault.index`, so "no index leaves the buffer" is the statement that this fault does not occur.

Underneath stand total operations, `slice` (read a range) and `patch` (overwrite a range); `load`
and `store` are these behind the bounds check (`load_eq_ok`, `store_eq_ok`). The checked operations
are for programs, the total ones for statements about them: a proof discharges the bounds once, and
then works with `slice` and `patch` alone.

The algebra of the two is small, and says

* that a range that was just written reads back (`slice_patch_self`), or a part of it;
* that a disjoint range is untouched (`slice_patch_of_disjoint`);
* that two ranges written one behind the other are one range (`patch_patch`), which is how a packet
  that is written field by field becomes one list of bytes (`store_patch`);
* that a range splits at any point (`slice_add`).

`AgreeOutside lo hi b b'` is the frame of a function that writes only between two indices. It is
transitive and monotone in the range, and what is read outside the range is the same
(`AgreeOutside.slice_eq`).

`overlay` is the same operation on lists. There it drops what would fall off the end, so that the
length is kept without a hypothesis, and `patch` needs none either.
-/

namespace EspBode

/-! ### Overwriting part of a list -/

/-- Overwrite `l` from index `i` on by `w`; what would fall off the end is dropped. -/
def overlay {α : Type*} (l : List α) (i : ℕ) (w : List α) : List α :=
  l.take i ++ w.take (l.length - i) ++ l.drop (i + w.length)

@[simp]
theorem length_overlay {α : Type*} (l : List α) (i : ℕ) (w : List α) :
    (overlay l i w).length = l.length := by
  simp only [overlay, List.length_append, List.length_take, List.length_drop]
  omega

/-- In range, nothing is dropped. -/
theorem overlay_of_le {α : Type*} {l : List α} {i : ℕ} {w : List α}
    (h : i + w.length ≤ l.length) :
    overlay l i w = l.take i ++ w ++ l.drop (i + w.length) := by
  rw [overlay, List.take_of_length_le (by omega : w.length ≤ l.length - i)]

/-- A block of `n` bytes. -/
@[ext]
structure Buffer (n : ℕ) where
  /-- The contents. -/
  bytes : List UInt8
  /-- The block has its declared size. -/
  length_bytes : bytes.length = n
  deriving DecidableEq, Repr

namespace Buffer

variable {n : ℕ}

/-- The block of zero bytes, as static storage starts out. -/
def zero (n : ℕ) : Buffer n :=
  ⟨List.replicate n 0, List.length_replicate⟩

/-- The range of `len` bytes from index `i`; it is shorter if it would leave the block. -/
def slice (b : Buffer n) (i len : ℕ) : List UInt8 :=
  (b.bytes.drop i).take len

/-- Overwrite the range from index `i` on. -/
def patch (b : Buffer n) (i : ℕ) (w : List UInt8) : Buffer n :=
  ⟨overlay b.bytes i w, by rw [length_overlay, b.length_bytes]⟩

/-- Checked read of a range. -/
def load (b : Buffer n) (i len : ℕ) : Except Fault (List UInt8) :=
  if i + len ≤ n then .ok (b.slice i len) else .error .index

/-- Checked write of a range. -/
def store (b : Buffer n) (i : ℕ) (w : List UInt8) : Except Fault (Buffer n) :=
  if i + w.length ≤ n then .ok (b.patch i w) else .error .index

/-! ### The bounds check -/

theorem load_eq_ok (b : Buffer n) {i len : ℕ} (h : i + len ≤ n) :
    b.load i len = .ok (b.slice i len) :=
  if_pos h

theorem store_eq_ok (b : Buffer n) {i : ℕ} {w : List UInt8} (h : i + w.length ≤ n) :
    b.store i w = .ok (b.patch i w) :=
  if_pos h

theorem store_eq_error (b : Buffer n) {i : ℕ} {w : List UInt8} (h : ¬ i + w.length ≤ n) :
    b.store i w = .error .index :=
  if_neg h

/-! ### Reading ranges -/

theorem length_slice (b : Buffer n) {i len : ℕ} (h : i + len ≤ n) :
    (b.slice i len).length = len := by
  rw [slice, List.length_take, List.length_drop, b.length_bytes]
  omega

/-- A range splits at any point. -/
theorem slice_add (b : Buffer n) (i k m : ℕ) :
    b.slice i (k + m) = b.slice i k ++ b.slice (i + k) m := by
  rw [slice, slice, slice, List.take_add, List.drop_drop]

/-- The start and the end of a range are ranges. -/
theorem take_slice (b : Buffer n) (i len k : ℕ) : (b.slice i len).take k = b.slice i (min k len) :=
  List.take_take

theorem drop_slice (b : Buffer n) (i len k : ℕ) :
    (b.slice i len).drop k = b.slice (i + k) (len - k) := by
  rw [slice, slice, List.drop_take, List.drop_drop]

/-- The bytes from index `i` on, read as a range. -/
theorem drop_bytes (b : Buffer n) (i : ℕ) : b.bytes.drop i = b.slice i (n - i) := by
  have hlen : (b.bytes.drop i).length = n - i := by rw [List.length_drop, b.length_bytes]
  rw [slice, List.take_of_length_le hlen.le]

/-! ### Writing ranges -/

theorem bytes_patch (b : Buffer n) {i : ℕ} {w : List UInt8} (h : i + w.length ≤ n) :
    (b.patch i w).bytes = b.bytes.take i ++ w ++ b.bytes.drop (i + w.length) :=
  overlay_of_le (by rw [b.length_bytes]; exact h)

theorem take_patch (b : Buffer n) {i : ℕ} {w : List UInt8} (h : i + w.length ≤ n) :
    (b.patch i w).bytes.take i = b.bytes.take i := by
  rw [bytes_patch b h, List.append_assoc, List.take_left' (by
    rw [List.length_take, b.length_bytes]; omega)]

theorem drop_patch (b : Buffer n) {i : ℕ} {w : List UInt8} (h : i + w.length ≤ n) :
    (b.patch i w).bytes.drop (i + w.length) = b.bytes.drop (i + w.length) := by
  rw [bytes_patch b h, List.drop_left' (by
    rw [List.length_append, List.length_take, b.length_bytes]; omega)]

/-- From the start of a written range on: the written bytes, then what stood behind them. -/
theorem drop_patch_self (b : Buffer n) {i : ℕ} {w : List UInt8} (h : i + w.length ≤ n) :
    (b.patch i w).bytes.drop i = w ++ b.bytes.drop (i + w.length) := by
  rw [bytes_patch b h, List.append_assoc, List.drop_left' (by
    rw [List.length_take, b.length_bytes]; omega)]

@[simp]
theorem patch_nil (b : Buffer n) (i : ℕ) : b.patch i [] = b := by
  apply Buffer.ext
  show overlay b.bytes i [] = b.bytes
  rw [overlay, List.take_nil, List.append_nil, List.length_nil, Nat.add_zero, List.take_append_drop]

/-- Two ranges written one behind the other are one range. -/
theorem patch_patch (b : Buffer n) {i j : ℕ} {xs ys : List UInt8} (hj : j = i + xs.length)
    (h : j + ys.length ≤ n) : (b.patch i xs).patch j ys = b.patch i (xs ++ ys) := by
  subst hj
  have hlen : i + (xs ++ ys).length ≤ n := by
    rw [List.length_append]
    omega
  apply Buffer.ext
  rw [bytes_patch _ h, bytes_patch _ hlen, ← List.drop_drop, drop_patch b (by omega),
    bytes_patch b (by omega), List.take_left' (by
      simp only [List.length_append, List.length_take, b.length_bytes]; omega), List.drop_drop]
  simp only [List.append_assoc, List.length_append, Nat.add_assoc]

/-- A range written over the start of another one leaves the end of that. -/
theorem patch_patch_self (b : Buffer n) {i : ℕ} {xs ys : List UInt8} (h : i + xs.length ≤ n)
    (hle : ys.length ≤ xs.length) :
    (b.patch i xs).patch i ys = b.patch i (ys ++ xs.drop ys.length) := by
  have hlen : (ys ++ xs.drop ys.length).length = xs.length := by
    rw [List.length_append, List.length_drop]
    omega
  apply Buffer.ext
  rw [bytes_patch (b.patch i xs) (by omega), take_patch b h, ← List.drop_drop,
    drop_patch_self b h, List.drop_append_of_le_length hle, bytes_patch b (by omega), hlen]
  simp only [List.append_assoc]

/-- What was just written reads back. -/
theorem slice_patch_self (b : Buffer n) {i : ℕ} {w : List UInt8} (h : i + w.length ≤ n) :
    (b.patch i w).slice i w.length = w := by
  rw [slice, drop_patch_self b h, List.take_left' rfl]

/-- The start of what was just written reads back. -/
theorem slice_patch_append (b : Buffer n) {i : ℕ} {xs ys : List UInt8}
    (h : i + (xs ++ ys).length ≤ n) : (b.patch i (xs ++ ys)).slice i xs.length = xs := by
  rw [slice, drop_patch_self b h, List.append_assoc, List.take_left' rfl]

/-- Part of what was just written reads back. -/
theorem slice_patch_within (b : Buffer n) {i k m : ℕ} {w : List UInt8} (h : i + w.length ≤ n)
    (hk : k + m ≤ w.length) : (b.patch i w).slice (i + k) m = (w.drop k).take m := by
  rw [slice, ← List.drop_drop, drop_patch_self b h, List.drop_append_of_le_length (by omega),
    List.take_append_of_le_length (by rw [List.length_drop]; omega)]

/-- A range that ends before the written one is untouched. -/
theorem slice_patch_of_le (b : Buffer n) {i j len : ℕ} {w : List UInt8}
    (h : i + w.length ≤ n) (hle : j + len ≤ i) : (b.patch i w).slice j len = b.slice j len := by
  have hsplit : ∀ l : List UInt8, (l.drop j).take len = ((l.take i).drop j).take len := by
    intro l
    rw [List.drop_take, List.take_take, Nat.min_eq_left (by omega)]
  rw [slice, slice, hsplit, take_patch b h, ← hsplit]

/-- A range that starts behind the written one is untouched. -/
theorem slice_patch_of_ge (b : Buffer n) {i j len : ℕ} {w : List UInt8}
    (h : i + w.length ≤ n) (hge : i + w.length ≤ j) :
    (b.patch i w).slice j len = b.slice j len := by
  obtain ⟨d, rfl⟩ := Nat.exists_eq_add_of_le hge
  rw [slice, slice, ← List.drop_drop, drop_patch b h, List.drop_drop]

/-- A range disjoint from the written one is untouched. -/
theorem slice_patch_of_disjoint (b : Buffer n) {i j len : ℕ} {w : List UInt8}
    (h : i + w.length ≤ n) (hd : j + len ≤ i ∨ i + w.length ≤ j) :
    (b.patch i w).slice j len = b.slice j len := by
  rcases hd with hd | hd
  · exact slice_patch_of_le b h hd
  · exact slice_patch_of_ge b h hd

/-- A byte that is written behind a range extends the range. -/
theorem slice_patch_concat (b : Buffer n) {i j : ℕ} (h : i + j < n) (x : UInt8) :
    (b.patch (i + j) [x]).slice i (j + 1) = b.slice i j ++ [x] := by
  have hfit : i + j + [x].length ≤ n := h
  rw [slice_add, slice_patch_of_le b hfit (Nat.le_refl _)]
  exact congrArg (b.slice i j ++ ·) (slice_patch_self b hfit)

/-- A checked write behind a range that was just written extends that range. -/
theorem store_patch (b : Buffer n) {i j : ℕ} {xs ys : List UInt8} (hj : j = i + xs.length)
    (h : j + ys.length ≤ n) : (b.patch i xs).store j ys = .ok (b.patch i (xs ++ ys)) := by
  rw [store_eq_ok _ h, patch_patch b hj h]

/-! ### Agreement outside a range -/

/-- The two blocks agree outside the range from `lo` up to `hi`: the frame of a function that
writes only there. -/
def AgreeOutside (lo hi : ℕ) (b c : Buffer n) : Prop :=
  b.bytes.take lo = c.bytes.take lo ∧ b.bytes.drop hi = c.bytes.drop hi

theorem AgreeOutside.refl (lo hi : ℕ) (b : Buffer n) : AgreeOutside lo hi b b :=
  ⟨rfl, rfl⟩

theorem AgreeOutside.trans {lo hi : ℕ} {b c d : Buffer n} (h₁ : AgreeOutside lo hi b c)
    (h₂ : AgreeOutside lo hi c d) : AgreeOutside lo hi b d :=
  ⟨h₁.1.trans h₂.1, h₁.2.trans h₂.2⟩

/-- A smaller range of change is a stronger statement. -/
theorem AgreeOutside.mono {lo hi lo' hi' : ℕ} {b c : Buffer n} (h : AgreeOutside lo hi b c)
    (hlo : lo' ≤ lo) (hhi : hi ≤ hi') : AgreeOutside lo' hi' b c := by
  constructor
  · have := congrArg (List.take lo') h.1
    rwa [List.take_take, List.take_take, Nat.min_eq_left hlo] at this
  · obtain ⟨d, rfl⟩ := Nat.exists_eq_add_of_le hhi
    have := congrArg (List.drop d) h.2
    rwa [List.drop_drop, List.drop_drop] at this

theorem AgreeOutside.slice_eq {lo hi : ℕ} {b c : Buffer n} (h : AgreeOutside lo hi b c)
    {i len : ℕ} (hi' : i + len ≤ lo) : b.slice i len = c.slice i len := by
  have hsmall : AgreeOutside (i + len) hi b c := h.mono hi' (Nat.le_refl hi)
  have := congrArg (List.drop i) hsmall.1
  rwa [List.drop_take, List.drop_take, Nat.add_sub_cancel_left] at this

theorem agreeOutside_patch (b : Buffer n) {i : ℕ} {w : List UInt8} (h : i + w.length ≤ n) :
    AgreeOutside i (i + w.length) (b.patch i w) b :=
  ⟨take_patch b h, drop_patch b h⟩

end Buffer

end EspBode
