import Mathlib.Data.List.Basic
import Mathlib.Tactic.NormNum

/-!
# Big-endian words as byte lists

The wire image of a 32-bit word: `beBytes w` is its four bytes, most significant first, and
`beWord` reads four bytes back. Both are stated through `Nat`, so that `omega` decides everything
about them; the two round trips are `beWord_beBytes` and `beBytes_beWord`. `wordAt bs i` is the word
at index `i` of a byte list, and there are lemmas for a word on either side of an append.

The second half is about fields that have not arrived in full. What is known of such a field is a
**prefix** of some word's image, and `Completes` collects the words that it may still become:

* a field of four bytes leaves no choice (`completes_iff`);
* a shorter one is open, it may become a word other than any given one (`exists_completes_ne`) and a
  word that is not small (`exists_completes_ge`);
* and if it may become one small word it may become any (`Completes.of_lt`), because small words
  differ in their last byte only, and that one has not arrived.

`arrived bs i` is what has arrived of the field at index `i` of a byte list, and whatever comes
behind the list makes one of the completions of it (`completes_wordAt_append`). Conversely `fillUp`
gives bytes that make a given one (`wordAt_fillUp`). So a condition on all completions of a field is
a condition on everything that may stand behind the bytes that have arrived, and the other way
round, with no buffer in it.
-/

namespace EspBode

/-! ### The wire image -/

/-- The four bytes of a word, most significant first. -/
def beBytes (w : UInt32) : List UInt8 :=
  [UInt8.ofNat (w.toNat / 2 ^ 24), UInt8.ofNat (w.toNat / 2 ^ 16), UInt8.ofNat (w.toNat / 2 ^ 8),
    UInt8.ofNat w.toNat]

/-- The natural number that a byte list spells, most significant byte first. -/
def beNat (bs : List UInt8) : ℕ :=
  bs.foldl (fun acc b ↦ 256 * acc + b.toNat) 0

/-- The word that a byte list spells, most significant byte first. -/
def beWord (bs : List UInt8) : UInt32 :=
  UInt32.ofNat (beNat bs)

/-- The word at index `i` of a byte list. -/
def wordAt (bs : List UInt8) (i : ℕ) : UInt32 :=
  beWord ((bs.drop i).take 4)

@[simp]
theorem length_beBytes (w : UInt32) : (beBytes w).length = 4 :=
  rfl

theorem beNat_quad (a b c d : UInt8) :
    beNat [a, b, c, d] =
      a.toNat * 2 ^ 24 + b.toNat * 2 ^ 16 + c.toNat * 2 ^ 8 + d.toNat := by
  simp only [beNat, List.foldl_cons, List.foldl_nil]
  omega

/-- Four bytes spell a number below `2 ^ 32`, so the word holds it exactly. -/
theorem toNat_beWord_quad (a b c d : UInt8) :
    (beWord [a, b, c, d]).toNat =
      a.toNat * 2 ^ 24 + b.toNat * 2 ^ 16 + c.toNat * 2 ^ 8 + d.toNat := by
  have ha := a.toNat_lt
  have hb := b.toNat_lt
  have hc := c.toNat_lt
  have hd := d.toNat_lt
  rw [beWord, beNat_quad, UInt32.toNat_ofNat']
  omega

/-- Reading back what was written. -/
@[simp]
theorem beWord_beBytes (w : UInt32) : beWord (beBytes w) = w := by
  have hw := w.toNat_lt
  apply UInt32.toNat_inj.1
  rw [beBytes, toNat_beWord_quad]
  simp only [UInt8.toNat_ofNat']
  omega

/-- Writing back what was read. -/
theorem beBytes_beWord_quad (a b c d : UInt8) : beBytes (beWord [a, b, c, d]) = [a, b, c, d] := by
  have ha := a.toNat_lt
  have hb := b.toNat_lt
  have hc := c.toNat_lt
  have hd := d.toNat_lt
  have hbyte : ∀ (n : ℕ) (x : UInt8), n % 2 ^ 8 = x.toNat → UInt8.ofNat n = x := by
    intro n x h
    apply UInt8.toNat_inj.1
    rw [UInt8.toNat_ofNat', h]
  simp only [beBytes, toNat_beWord_quad, List.cons.injEq, and_true]
  exact ⟨hbyte _ _ (by omega), hbyte _ _ (by omega), hbyte _ _ (by omega), hbyte _ _ (by omega)⟩

theorem beBytes_beWord {bs : List UInt8} (h : bs.length = 4) : beBytes (beWord bs) = bs := by
  match bs, h with
  | [a, b, c, d], _ => exact beBytes_beWord_quad a b c d

theorem beBytes_injective : Function.Injective beBytes := fun v w h ↦ by
  rw [← beWord_beBytes v, h, beWord_beBytes]

theorem beBytes_inj {v w : UInt32} : beBytes v = beBytes w ↔ v = w :=
  beBytes_injective.eq_iff

/-! ### Words within bytes -/

/-- A word within the first part. -/
theorem wordAt_append_left {bs cs : List UInt8} {i : ℕ} (h : i + 4 ≤ bs.length) :
    wordAt (bs ++ cs) i = wordAt bs i := by
  rw [wordAt, wordAt, List.drop_append_of_le_length (by omega),
    List.take_append_of_le_length (by rw [List.length_drop]; omega)]

/-- A word behind the first part. -/
theorem wordAt_append_right {bs cs : List UInt8} {i : ℕ} (h : bs.length ≤ i) :
    wordAt (bs ++ cs) i = wordAt cs (i - bs.length) := by
  rw [wordAt, wordAt, List.drop_append, List.drop_of_length_le h, List.nil_append]

/-- There is no word but zero among zeros. -/
theorem wordAt_replicate_zero (n i : ℕ) : wordAt (List.replicate n 0) i = 0 := by
  have hzero : ∀ k, beNat (List.replicate k 0) = 0 := by
    intro k
    induction k with
    | zero => rfl
    | succ k ih => exact ih
  rw [wordAt, List.drop_replicate, List.take_replicate, beWord, hzero]
  rfl

/-! ### Words that a partial field may still become -/

/-- The words whose image begins with the bytes of the field that have arrived. -/
def Completes (field : List UInt8) (w : UInt32) : Prop :=
  field <+: beBytes w

/-- A field that has arrived in full leaves no choice. -/
theorem completes_iff {field : List UInt8} (h : field.length = 4) {w : UInt32} :
    Completes field w ↔ w = beWord field := by
  constructor
  · intro hp
    rw [hp.eq_of_length (by rw [h, length_beBytes]), beWord_beBytes]
  · rintro rfl
    exact ⟨[], by rw [List.append_nil, beBytes_beWord h]⟩

/-- Words that differ in the last byte only complete the same fields, the whole field apart. -/
theorem Completes.of_div_eq {field : List UInt8} {v w : UInt32} (h : Completes field v)
    (hlen : field.length < 4) (hvw : v.toNat / 2 ^ 8 = w.toNat / 2 ^ 8) : Completes field w := by
  have hquot : ∀ {k : ℕ}, v.toNat / 2 ^ (8 + k) = w.toNat / 2 ^ (8 + k) := by
    intro k
    rw [Nat.pow_add, ← Nat.div_div_eq_div_mul, hvw, Nat.div_div_eq_div_mul]
  have hv : (beBytes v).take 3 <+: beBytes v := List.take_prefix _ _
  have hfield : field <+: (beBytes v).take 3 :=
    List.prefix_of_prefix_length_le h hv (by rw [List.length_take, length_beBytes]; omega)
  have htake : (beBytes v).take 3 = (beBytes w).take 3 := by
    simp only [beBytes, List.take_succ_cons, List.take_zero]
    rw [hquot (k := 16), hquot (k := 8), hvw]
  rw [htake] at hfield
  exact hfield.trans (List.take_prefix _ _)

/-- A field that has not arrived in full and may become a small word may become any small word. -/
theorem Completes.of_lt {field : List UInt8} {v w : UInt32} (h : Completes field v)
    (hlen : field.length < 4) (hv : v.toNat < 256) (hw : w.toNat < 256) : Completes field w :=
  h.of_div_eq hlen ((Nat.div_eq_of_lt hv).trans (Nat.div_eq_of_lt hw).symm)

/-- A field that has not arrived in full is left open. -/
theorem exists_completes_ne {field : List UInt8} (h : field.length < 4) (w : UInt32) :
    ∃ v, Completes field v ∧ v ≠ w := by
  have hcompletes : ∀ x : UInt8,
      beBytes (beWord (field ++ List.replicate (4 - field.length) x)) =
        field ++ List.replicate (4 - field.length) x := by
    intro x
    refine beBytes_beWord ?_
    rw [List.length_append, List.length_replicate]
    omega
  -- two ways to go on, one of which does not lead to the word
  rcases eq_or_ne (beWord (field ++ List.replicate (4 - field.length) 0)) w with h0 | h0
  · refine ⟨beWord (field ++ List.replicate (4 - field.length) 1), ?_, fun h1 ↦ ?_⟩
    · rw [Completes, hcompletes]
      exact List.prefix_append _ _
    · have heq := congrArg beBytes (h0.trans h1.symm)
      rw [hcompletes, hcompletes] at heq
      have htail := List.append_cancel_left heq
      obtain ⟨k, hk⟩ := Nat.exists_eq_add_of_lt h
      rw [hk, Nat.add_assoc, Nat.add_sub_cancel_left, List.replicate_succ] at htail
      exact absurd (List.cons.inj htail).1 (by decide)
  · refine ⟨_, ?_, h0⟩
    rw [Completes, hcompletes]
    exact List.prefix_append _ _

/-- A field that has not arrived in full may become a word that is not small. -/
theorem exists_completes_ge {field : List UInt8} (h : field.length < 4) :
    ∃ w, Completes field w ∧ 255 ≤ w.toNat := by
  obtain ⟨v, hv, -⟩ := exists_completes_ne h 0
  rcases Nat.lt_or_ge v.toNat 256 with hsmall | hlarge
  · exact ⟨255, hv.of_lt h hsmall (by decide), by decide⟩
  · exact ⟨v, hv, by omega⟩

/-- The bytes of the field at index `i` that have arrived. -/
def arrived (bs : List UInt8) (i : ℕ) : List UInt8 :=
  (bs.drop i).take 4

theorem length_arrived (bs : List UInt8) (i : ℕ) :
    (arrived bs i).length = min 4 (bs.length - i) := by
  rw [arrived, List.length_take, List.length_drop]

/-- A field that has arrived in full is completed by its word only. -/
theorem completes_arrived_iff {bs : List UInt8} {i : ℕ} (h : i + 4 ≤ bs.length) {w : UInt32} :
    Completes (arrived bs i) w ↔ w = wordAt bs i :=
  completes_iff (by rw [length_arrived]; omega)

/-- Whatever comes behind the bytes that have arrived makes one of the completions. -/
theorem completes_wordAt_append {bs cs : List UInt8} {i : ℕ} (h : i + 4 ≤ (bs ++ cs).length) :
    Completes (arrived bs i) (wordAt (bs ++ cs) i) := by
  have hlen : (((bs ++ cs).drop i).take 4).length = 4 := by
    rw [List.length_take, List.length_drop]
    omega
  rw [Completes, wordAt, beBytes_beWord hlen, arrived, List.drop_append, List.take_append]
  exact List.prefix_append _ _

/-- The bytes that make the field at index `i` the given word; in front of the field they are zero.
-/
def fillUp (bs : List UInt8) (i : ℕ) (w : UInt32) : List UInt8 :=
  List.replicate (i - bs.length) 0 ++ (beBytes w).drop (bs.length - i)

theorem length_fillUp {bs : List UInt8} {i : ℕ} (h : bs.length ≤ i + 4) (w : UInt32) :
    (fillUp bs i w).length = i + 4 - bs.length := by
  rw [fillUp, List.length_append, List.length_replicate, List.length_drop, length_beBytes]
  omega

/-- Every completion is reached. -/
theorem wordAt_fillUp {bs : List UInt8} {i : ℕ} {w : UInt32} (h : Completes (arrived bs i) w)
    (hlen : bs.length ≤ i + 4) : wordAt (bs ++ fillUp bs i w) i = w := by
  have hfield : (bs ++ fillUp bs i w).drop i = beBytes w := by
    rcases Nat.le_total bs.length i with hle | hle
    · rw [fillUp, Nat.sub_eq_zero_of_le hle, List.drop_zero, ← List.append_assoc,
        List.drop_left' (by rw [List.length_append, List.length_replicate]; omega)]
    · obtain ⟨rest, hrest⟩ := h
      have harrived : arrived bs i = bs.drop i :=
        List.take_of_length_le (by rw [List.length_drop]; omega)
      rw [harrived] at hrest
      rw [fillUp, Nat.sub_eq_zero_of_le hle, List.replicate_zero, List.nil_append,
        List.drop_append_of_le_length hle, ← hrest, List.drop_left' (by rw [List.length_drop])]
  rw [wordAt, hfield, List.take_of_length_le (by rw [length_beBytes]), beWord_beBytes]

end EspBode
