import Mathlib.Tactic.Common
import EspBode.Foundations.ByteBuffer
import EspBode.Foundations.Runs

/-!
# NUL-terminated strings in a buffer, and the in-place tokenizer

A C string is a position in a buffer from which a NUL byte can be reached: `b.IsString p t` says
that the text `t` stands at position `p`, followed by its NUL. The scanning functions of the C
library read byte by byte until something stops them, and leave the buffer (`Fault.index`) when
nothing does; so that a position is a string is what makes them safe, and gives their result
(`scanWhile_of_drop_eq`, `IsString.startsWith_eq`).

`strtokR` is the re-entrant tokenizer. It works **in place**: the delimiter that ends a token is
overwritten by a NUL, and the context is the position to go on from. A null context is never stored
by it, but a null token is returned when there is nothing but delimiters.

Its specification (`strtokR_of_nextRun`) reads the buffer as a text: one call takes the first run
off the text, leaves the run and the remainder as two strings, and changes nothing outside the text.
It rests on two facts:

* **terminating a range makes it a string** (`IsString.of_patch`): what it holds up to its first
  NUL, which for a run is all of it, because a text has no NUL;
* **a string is untouched by a change before it or behind it** (`IsString.of_agreeOutside`). That is
  what lets two tokenizers work on one buffer: a nested one stays inside its own token, which ends
  where the remainder of the outer one has not begun yet.

What stands behind the terminator of the text is never looked at, so a specification in these terms
holds of a buffer that is used again and again.
-/

namespace EspBode.Buffer

variable {n : ℕ}

/-! ### Scanning -/

/-- Checked read of one byte. -/
def get (b : Buffer n) (i : ℕ) : Except Fault UInt8 :=
  if h : i < n then .ok (b.bytes.get ⟨i, by rw [b.length_bytes]; exact h⟩) else .error .index

/-- The first position from `p` on whose byte fails the test. -/
def scanWhile (b : Buffer n) (p : ℕ) (test : UInt8 → Bool) : Except Fault ℕ :=
  let e := p + ((b.bytes.drop p).takeWhile test).length
  if e < n then .ok e else .error .index

/-- The text of the C string at position `p`. -/
def cString (b : Buffer n) (p : ℕ) : Except Fault (List UInt8) := do
  let e ← b.scanWhile p (· != 0)
  b.load p (e - p)

/-- `strncmp(s, literal, strlen(literal)) == 0` for a string in memory: byte by byte, up to the
first difference. -/
def startsWith (b : Buffer n) (p : ℕ) : List UInt8 → Except Fault Bool
  | [] => .ok true
  | l :: ls => do
    if (← b.get p) = l then b.startsWith (p + 1) ls else return false

/-- `strtok_r` with one delimiter: skip delimiters from `s`, end the token at the next one, and
return the token, the context and the buffer. -/
def strtokR (b : Buffer n) (s : ℕ) (delim : UInt8) : Except Fault (Option ℕ × ℕ × Buffer n) := do
  let s ← b.scanWhile s (· == delim)
  if (← b.get s) = 0 then
    return (none, s, b)
  let e ← b.scanWhile s fun c ↦ c != 0 && c != delim
  if (← b.get e) = 0 then
    return (some s, e, b)
  return (some s, e + 1, ← b.store e [0])

theorem lt_of_drop_eq {b : Buffer n} {p : ℕ} {u : List UInt8} {c : UInt8} {r : List UInt8}
    (h : b.bytes.drop p = u ++ c :: r) : p + u.length < n := by
  have := congrArg List.length h
  simp only [List.length_drop, b.length_bytes, List.length_append, List.length_cons] at this
  omega

theorem drop_add_of_drop_eq {b : Buffer n} {p : ℕ} {u v : List UInt8}
    (h : b.bytes.drop p = u ++ v) : b.bytes.drop (p + u.length) = v := by
  rw [← List.drop_drop, h, List.drop_left]

theorem get_of_drop_eq {b : Buffer n} {p : ℕ} {c : UInt8} {r : List UInt8}
    (h : b.bytes.drop p = c :: r) : b.get p = .ok c := by
  have hlt : p < n := by simpa using lt_of_drop_eq (u := []) h
  have hget := congrArg List.head? h
  rw [List.head?_drop, List.head?_cons,
    List.getElem?_eq_getElem (by rw [b.length_bytes]; exact hlt)] at hget
  rw [get, dif_pos hlt]
  exact congrArg Except.ok (Option.some.inj hget)

theorem get_eq_ok (b : Buffer n) {i : ℕ} (h : i < n) :
    ∃ c, b.get i = .ok c ∧ b.slice i 1 = [c] := by
  obtain ⟨c, r, hr⟩ : ∃ c r, b.bytes.drop i = c :: r := by
    rcases hd : b.bytes.drop i with _ | ⟨c, r⟩
    · have := congrArg List.length hd
      rw [List.length_drop, b.length_bytes, List.length_nil] at this
      omega
    · exact ⟨c, r, rfl⟩
  exact ⟨c, get_of_drop_eq hr, by rw [slice, hr]; rfl⟩

/-- The bytes of a range, one by one. -/
theorem exists_get_of_slice (b : Buffer n) {i len k : ℕ} (h : i + len ≤ n) (hk : k < len) :
    ∃ c, b.get (i + k) = .ok c ∧ (b.slice i len)[k]? = some c := by
  obtain ⟨c, hget, hslice⟩ := b.get_eq_ok (i := i + k) (by omega)
  have hbyte : ((b.slice i len).drop k).take 1 = [c] := by
    rw [drop_slice, take_slice, Nat.min_eq_left (by omega), hslice]
  rw [List.take_one, List.head?_drop] at hbyte
  refine ⟨c, hget, ?_⟩
  rcases hopt : (b.slice i len)[k]? with _ | x
  · rw [hopt] at hbyte
    exact absurd hbyte (by simp)
  · rw [hopt] at hbyte
    exact congrArg some (List.cons.inj hbyte).1

theorem get_eq_error (b : Buffer n) {i : ℕ} (h : n ≤ i) : b.get i = .error .index :=
  dif_neg (Nat.not_lt.2 h)

/-- A scan stops at the first byte that fails the test. -/
theorem scanWhile_of_drop_eq {b : Buffer n} {p : ℕ} {test : UInt8 → Bool} {u : List UInt8}
    {c : UInt8} {r : List UInt8} (h : b.bytes.drop p = u ++ c :: r)
    (hu : ∀ x ∈ u, test x = true) (hc : test c = false) :
    b.scanWhile p test = .ok (p + u.length) := by
  have hw : (u ++ c :: r).takeWhile test = u := by
    rw [List.takeWhile_append_of_pos hu, List.takeWhile_cons_of_neg (by simp [hc]), List.append_nil]
  rw [scanWhile, h, hw]
  exact if_pos (lt_of_drop_eq h)

/-- Overwriting the byte behind a known stretch of memory. -/
theorem drop_patch_byte {b : Buffer n} {p : ℕ} {u : List UInt8} {x : UInt8} {v : List UInt8}
    (h : b.bytes.drop p = u ++ x :: v) (y : UInt8) :
    (b.patch (p + u.length) [y]).bytes.drop p = u ++ y :: v := by
  have hlt := lt_of_drop_eq h
  have hv : b.bytes.drop (p + u.length + 1) = v := by
    rw [← List.drop_drop, drop_add_of_drop_eq h, List.drop_one, List.tail_cons]
  have hu : (b.bytes.take (p + u.length)).drop p = u := by
    rw [List.drop_take, Nat.add_sub_cancel_left, h, List.take_left]
  rw [bytes_patch b (by rw [List.length_singleton]; omega), List.length_singleton, hv,
    List.append_assoc,
    List.drop_append_of_le_length (by rw [List.length_take, b.length_bytes]; omega), hu,
    List.singleton_append]

/-! ### Strings -/

/-- The text `t` stands at position `p`, followed by its NUL. -/
structure IsString (b : Buffer n) (p : ℕ) (t : List UInt8) : Prop where
  /-- A text does not contain the terminator. -/
  nulFree : 0 ∉ t
  /-- The text and its terminator are in the buffer. -/
  stands : t ++ [0] <+: b.bytes.drop p

namespace IsString

variable {b : Buffer n} {p : ℕ} {t : List UInt8}

theorem exists_drop_eq (h : b.IsString p t) : ∃ r, b.bytes.drop p = t ++ 0 :: r := by
  obtain ⟨r, hr⟩ := h.stands
  exact ⟨r, by rw [← hr, List.append_assoc, List.singleton_append]⟩

theorem of_drop_eq {r : List UInt8} (h0 : 0 ∉ t) (h : b.bytes.drop p = t ++ 0 :: r) :
    b.IsString p t :=
  ⟨h0, r, by rw [h, List.append_assoc, List.singleton_append]⟩

/-- The terminator is inside the buffer. -/
theorem lt (h : b.IsString p t) : p + t.length < n := by
  obtain ⟨r, hr⟩ := h.exists_drop_eq
  exact lt_of_drop_eq hr

/-- The end of a string is a string. -/
theorem suffix {u : List UInt8} (h : b.IsString p (u ++ t)) : b.IsString (p + u.length) t := by
  obtain ⟨r, hr⟩ := h.exists_drop_eq
  rw [List.append_assoc] at hr
  exact of_drop_eq (fun hm ↦ h.nulFree (List.mem_append_right _ hm)) (drop_add_of_drop_eq hr)

/-- Whatever precedes a NUL byte contains a string: its bytes up to the first NUL. -/
theorem takeWhile_of_drop_eq {u r : List UInt8} (h : b.bytes.drop p = u ++ 0 :: r) :
    b.IsString p (u.takeWhile (· != 0)) := by
  have h0 : (0 : UInt8) ∉ u.takeWhile (· != 0) := (takeWhile_dropWhile_ne 0 u).1
  rcases hd : u.dropWhile (· != 0) with _ | ⟨c, v⟩
  · have hu := List.takeWhile_append_dropWhile (p := (· != 0)) (l := u)
    rw [hd, List.append_nil] at hu
    exact of_drop_eq (r := r) h0 (by rw [hu]; exact h)
  · have hc : c = 0 := by
      have := List.head?_dropWhile_not (· != 0) u
      rw [hd] at this
      simpa using this
    subst hc
    refine of_drop_eq (r := v ++ 0 :: r) h0 ?_
    rw [h, ← List.cons_append, ← List.append_assoc, ← hd, List.takeWhile_append_dropWhile]

/-- **Terminating a range makes it a string**: what it holds up to its first NUL. -/
theorem of_patch (b : Buffer n) {p k : ℕ} (h : p + k < n) :
    (b.patch (p + k) [0]).IsString p ((b.slice p k).takeWhile (· != 0)) := by
  have hfit : p + k + [(0 : UInt8)].length ≤ n := h
  have hlen : n - p = k + (n - (p + k)) := by omega
  refine takeWhile_of_drop_eq (r := b.bytes.drop (p + k + 1)) ?_
  rw [drop_bytes, hlen, slice_add, slice_patch_of_le b hfit le_rfl, ← drop_bytes,
    drop_patch_self b hfit]
  rfl

theorem cString_eq (h : b.IsString p t) : b.cString p = .ok t := by
  obtain ⟨r, hr⟩ := h.exists_drop_eq
  have hscan : b.scanWhile p (· != 0) = .ok (p + t.length) :=
    scanWhile_of_drop_eq hr (bne_of_not_mem h.nulFree) (by simp)
  have hle : p + t.length ≤ n := Nat.le_of_lt h.lt
  rw [cString, hscan, ok_bind, Nat.add_sub_cancel_left, load_eq_ok b hle, slice, hr, List.take_left]

/-- A string is untouched by a change before it or behind it. -/
theorem of_agreeOutside {c : Buffer n} {lo hi : ℕ} (h : b.IsString p t)
    (ha : AgreeOutside lo hi c b) (hd : p + t.length < lo ∨ hi ≤ p) : c.IsString p t := by
  refine ⟨h.nulFree, ?_⟩
  rcases hd with hd | hd
  · have hlen := h.lt
    have hb : t ++ [0] = b.slice p (t.length + 1) := by
      obtain ⟨r, hr⟩ := h.exists_drop_eq
      rw [slice, hr, List.append_cons t 0 r, List.take_left' (by simp)]
    rw [hb, ← ha.slice_eq (by omega : p + (t.length + 1) ≤ lo)]
    exact List.take_prefix _ _
  · obtain ⟨d, rfl⟩ := Nat.exists_eq_add_of_le hd
    have := congrArg (List.drop d) ha.2
    rw [List.drop_drop, List.drop_drop] at this
    rw [this]
    exact h.stands

/-- Comparing with a literal asks whether the text begins with it. -/
theorem startsWith_eq : ∀ {t : List UInt8} {p : ℕ} {ls : List UInt8}, b.IsString p t → 0 ∉ ls →
    b.startsWith p ls = .ok (decide (ls <+: t))
  | _, _, [], _, _ => by simp [startsWith]
  | [], p, l :: ls, h, hl => by
    obtain ⟨r, hr⟩ := h.exists_drop_eq
    have hne : (0 : UInt8) ≠ l := fun h0 ↦ hl (h0 ▸ List.mem_cons_self)
    rw [startsWith, get_of_drop_eq hr, ok_bind, if_neg hne]
    simp
  | c :: t, p, l :: ls, h, hl => by
    obtain ⟨r, hr⟩ := h.exists_drop_eq
    rw [startsWith, get_of_drop_eq hr, ok_bind]
    rcases eq_or_ne c l with hc | hc
    · have htail : b.IsString (p + 1) t := h.suffix (u := [c])
      rw [if_pos hc, startsWith_eq htail fun h0 ↦ hl (List.mem_cons_of_mem _ h0)]
      simp [List.cons_prefix_cons, hc]
    · rw [if_neg hc]
      simp [List.cons_prefix_cons, Ne.symm hc]

end IsString

/-! ### The tokenizer -/

variable {b : Buffer n} {s : ℕ} {t : List UInt8} {delim : UInt8}

theorem strtokR_of_nextRun_eq_none (hs : b.IsString s t) (hd : delim ≠ 0)
    (h : nextRun delim t = none) : b.strtokR s delim = .ok (none, s + t.length, b) := by
  obtain ⟨r, hr⟩ := hs.exists_drop_eq
  have hall : ∀ x ∈ t, (x == delim) = true := by
    intro x hx
    rw [nextRun_eq_none h] at hx
    simpa using List.eq_of_mem_replicate hx
  rw [strtokR, scanWhile_of_drop_eq hr hall (by simpa using hd.symm), ok_bind,
    get_of_drop_eq (drop_add_of_drop_eq hr), ok_bind, if_pos rfl, pure_eq_ok]

/-- **One call of the tokenizer takes the first run off the text.** The run stands as a string of
its own, the context is at the remainder, whose end is where the text ended, and nothing outside the
text has changed. -/
theorem strtokR_of_nextRun {w t' : List UInt8} (hs : b.IsString s t) (hd : delim ≠ 0)
    (h : nextRun delim t = some (w, t')) :
    ∃ p ctx b', b.strtokR s delim = .ok (some p, ctx, b') ∧ s ≤ p ∧ p + w.length ≤ ctx ∧
      ctx + t'.length = s + t.length ∧ b'.IsString p w ∧ b'.IsString ctx t' ∧
      AgreeOutside s (s + t.length) b' b := by
  obtain ⟨hne, hmem, k, hk⟩ := nextRun_shape h
  obtain ⟨r, hr⟩ := hs.exists_drop_eq
  obtain ⟨c, w, rfl⟩ := List.exists_cons_of_ne_nil hne
  have hcd : c ≠ delim := fun hc ↦ hmem (hc ▸ List.mem_cons_self)
  have hskip : ∀ x ∈ List.replicate k delim, (x == delim) = true := fun x hx ↦ by
    simpa using List.eq_of_mem_replicate hx
  have hw0 : (0 : UInt8) ∉ c :: w := fun h0 ↦ hs.nulFree (mem_of_mem_nextRun_fst h h0)
  have ht0 : (0 : UInt8) ∉ t' := fun h0 ↦ hs.nulFree (mem_of_mem_nextRun_snd h h0)
  have hrun : ∀ x ∈ c :: w, (x != 0 && x != delim) = true := by
    intro x hx
    have h0 : x ≠ 0 := fun h0 ↦ hw0 (h0 ▸ hx)
    have h1 : x ≠ delim := fun h1 ↦ hmem (h1 ▸ hx)
    simp [h0, h1]
  -- the skipped delimiters and the run, in memory: `v` is what follows the run
  have hstart : ∀ v, b.bytes.drop s = List.replicate k delim ++ (c :: w ++ v) →
      b.scanWhile s (· == delim) = .ok (s + k) ∧ b.get (s + k) = .ok c ∧
        b.bytes.drop (s + k) = c :: w ++ v := by
    intro v hv
    have hdrop := drop_add_of_drop_eq hv
    have hscan : b.scanWhile s (· == delim) = .ok (s + (List.replicate k delim).length) :=
      scanWhile_of_drop_eq hv hskip (by simpa using hcd)
    rw [List.length_replicate] at hdrop hscan
    exact ⟨hscan, get_of_drop_eq hdrop, hdrop⟩
  have hc0 : c ≠ 0 := fun h0 ↦ hw0 (h0 ▸ List.mem_cons_self)
  rcases hk with ⟨rfl, rfl⟩ | rfl
  · -- the run ends with the text
    rw [List.append_assoc] at hr
    obtain ⟨hscan, hget, hdrop⟩ := hstart _ hr
    refine ⟨s + k, s + k + (c :: w).length, b, ?_, by omega, le_rfl, ?_, .of_drop_eq hw0 hdrop,
      .of_drop_eq ht0 (drop_add_of_drop_eq hdrop), .refl _ _ _⟩
    · rw [strtokR, hscan, ok_bind, hget, ok_bind, if_neg hc0,
        scanWhile_of_drop_eq hdrop hrun (by simp), ok_bind,
        get_of_drop_eq (drop_add_of_drop_eq hdrop), ok_bind, if_pos rfl, pure_eq_ok]
    · simp only [List.length_append, List.length_replicate, List.length_nil]
      omega
  · -- the run ends at a delimiter, which becomes its NUL
    have hd0 : delim ≠ 0 := hd
    obtain ⟨hscan, hget, hdrop⟩ := hstart (delim :: (t' ++ 0 :: r)) (by rw [hr]; simp)
    have hlt := lt_of_drop_eq hdrop
    have hfit : s + k + (c :: w).length + [(0 : UInt8)].length ≤ n := by
      rw [List.length_singleton]
      omega
    have hafter := drop_patch_byte hdrop 0
    have hrest := drop_add_of_drop_eq (u := c :: w ++ [0]) (v := t' ++ 0 :: r) (by
      rw [hafter, List.append_assoc, List.singleton_append])
    refine ⟨s + k, s + k + (c :: w).length + 1, b.patch (s + k + (c :: w).length) [0], ?_, by omega,
      by omega, ?_, .of_drop_eq hw0 hafter, .of_drop_eq ht0 (by simpa [Nat.add_assoc] using hrest),
      (agreeOutside_patch b hfit).mono (by omega) ?_⟩
    · rw [strtokR, hscan, ok_bind, hget, ok_bind, if_neg hc0,
        scanWhile_of_drop_eq hdrop hrun (by simp), ok_bind,
        get_of_drop_eq (drop_add_of_drop_eq hdrop), ok_bind, if_neg hd0, store_eq_ok b hfit,
        ok_bind,
        pure_eq_ok]
    · simp only [List.length_append, List.length_replicate, List.length_cons]
      omega
    · simp only [List.length_append, List.length_replicate, List.length_cons, List.length_nil]
      omega

end EspBode.Buffer
