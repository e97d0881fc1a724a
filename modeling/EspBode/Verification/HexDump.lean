import EspBode.Firmware.Debug

/-!
# The hex dump is faithful

What the dump prints, read back. A line has a hex part and a text part; the hex part is laid out in
cells of 3 characters, the fields of the bytes and blanks behind the last one, with one more blank
behind each four (`hexPart`). The runs between blanks are the fields (`addsRuns_hexPart`), and a
field reads back as its byte (`readHexByte_hexByte`). So a reader does not have to know the columns
of the fields, and the last line, which is short, is no exception.

The loops are stepped through with `AtCell`, which says where the pointers are after so many cells
of a line, what stands in `ascii_buffer`, and what has been printed. The terminator of a line is put
where the text of the line will end, so it is still there when the text has been written.

* **A cell** is one step of the inner loop, with a byte in it or behind the last one; four cells are
  a group, and four groups a line (`dumpLine_eq`).
* **A line** starts with the pointers at its bytes and `ascii_buffer` in any state with a NUL at its
  end. What an earlier line has left there is overwritten, or stands behind the terminator.
* **All lines**, by induction on the fuel, which is more than there are bytes (`dumpLines_eq`).

`dump_faithful` then says what was read and what was printed: each byte once and in order, a line
for each 16 bytes that are begun, and in each line the bytes in both of its parts. Both buffers are
accessed within their bounds, since the dump returns.
-/

namespace EspBode

namespace Debug

/-! ### Fields -/

/-- The value of a hexadecimal digit. -/
def hexDigitValue (c : UInt8) : Option ℕ :=
  if chr '0' ≤ c ∧ c ≤ chr '9' then some (c.toNat - (chr '0').toNat)
  else if chr 'a' ≤ c ∧ c ≤ chr 'f' then some (c.toNat - (chr 'a').toNat + 10)
  else none

/-- The byte of a field of two digits. -/
def readHexByte : List UInt8 → Option UInt8
  | [high, low] => do return UInt8.ofNat (16 * (← hexDigitValue high) + (← hexDigitValue low))
  | _ => none

theorem hexDigitValue_hexDigit : ∀ n < 16, hexDigitValue (hexDigit n) = some n := by
  decide

/-- **A field reads back.** -/
theorem readHexByte_hexByte (c : UInt8) : readHexByte (hexByte c) = some c := by
  have hc := c.toNat_lt
  have hhalves : 16 * (c.toNat / 16) + c.toNat % 16 = c.toNat := Nat.div_add_mod _ _
  rw [hexByte, readHexByte, hexDigitValue_hexDigit _ (by omega),
    hexDigitValue_hexDigit _ (by omega)]
  show some (UInt8.ofNat (16 * (c.toNat / 16) + c.toNat % 16)) = some c
  rw [hhalves, UInt8.ofNat_toNat]

/-- There are only digits in a field. -/
theorem not_mem_hexByte {x : UInt8} (hx : ∀ n < 16, x ≠ hexDigit n) (c : UInt8) :
    x ∉ hexByte c := by
  have hc := c.toNat_lt
  rw [hexByte, List.mem_cons, List.mem_singleton, not_or]
  exact ⟨hx _ (by omega), hx _ (by omega)⟩

/-! ### Layout -/

/-- A list cut into so many blocks of so many elements. -/
def blocks {α : Type} (size count : ℕ) (l : List α) : List (List α) :=
  (List.range count).map fun k ↦ (l.drop (size * k)).take size

theorem flatten_blocks {α : Type} (size count : ℕ) (l : List α) :
    (blocks size count l).flatten = l.take (size * count) := by
  induction count with
  | zero => rfl
  | succ count ih =>
    rw [blocks] at ih ⊢
    rw [List.range_succ, List.map_append, List.flatten_append, ih, List.map_singleton,
      List.flatten_singleton, Nat.mul_succ, List.take_add]

/-- What is made of the blocks, one after the other, is made of the list. -/
theorem flatMap_blocks {α β : Type} (f : α → β) (size count : ℕ) (l : List α) :
    ((List.range count).flatMap fun k ↦ ((l.drop (size * k)).take size).map f) =
      (l.take (size * count)).map f := by
  rw [← flatten_blocks, List.map_flatten, blocks, List.map_map]
  rfl

/-- A place for a byte of a line: its field, or blanks if there is none. -/
def cell (row : List UInt8) (t : ℕ) : List UInt8 :=
  match row[t]? with
  | some c => hexByte c ++ ascii " "
  | none => ascii "   "

/-- Four cells from a place on, and a blank. -/
def group (row : List UInt8) (i : ℕ) : List UInt8 :=
  ((List.range 4).flatMap fun j ↦ cell row (i + j)) ++ ascii " "

/-- The hex part of a line. -/
def hexPart (row : List UInt8) : List UInt8 :=
  (List.range 4).flatMap fun g ↦ group row (4 * g)

theorem length_cell (row : List UInt8) (t : ℕ) : (cell row t).length = 3 := by
  rw [cell]
  split <;> rfl

/-- All hex parts have one width. -/
theorem length_hexPart (row : List UInt8) : (hexPart row).length = 52 := by
  simp [hexPart, group, length_cell, List.range_succ, ascii]

theorem addsRuns_cell (row : List UInt8) (t : ℕ) :
    AddsRuns (chr ' ') (cell row t) (((row.drop t).take 1).map hexByte) := by
  have hrow : (row.drop t).take 1 = row[t]?.toList := by rw [List.take_one, List.head?_drop]
  rw [hrow, cell]
  rcases row[t]? with _ | c
  · exact AddsRuns.replicate (chr ' ') 3
  · exact AddsRuns.run (List.cons_ne_nil _ _) (not_mem_hexByte (by decide) c)

theorem addsRuns_group (row : List UInt8) (i : ℕ) :
    AddsRuns (chr ' ') (group row i) (((row.drop i).take 4).map hexByte) := by
  have hcells := (AddsRuns.flatMap (fun j ↦ addsRuns_cell row (i + j)) (List.range 4)).append
    (AddsRuns.replicate (chr ' ') 1)
  have hwords := flatMap_blocks hexByte 1 4 (row.drop i)
  simp only [Nat.one_mul, List.drop_drop] at hwords
  rw [hwords, List.append_nil] at hcells
  exact hcells

/-- **The fields of a line** are its bytes. -/
theorem addsRuns_hexPart {row : List UInt8} (h : row.length ≤ 16) :
    AddsRuns (chr ' ') (hexPart row) (row.map hexByte) := by
  have hgroups := AddsRuns.flatMap (fun g ↦ addsRuns_group row (4 * g)) (List.range 4)
  rw [flatMap_blocks, List.take_of_length_le h] at hgroups
  exact hgroups

theorem newline_not_mem_hexPart (row : List UInt8) : chr '\n' ∉ hexPart row := by
  have hblank : chr '\n' ∉ ascii " " := by decide
  have hcell : ∀ t, chr '\n' ∉ cell row t := fun t ↦ by
    rw [cell]
    rcases row[t]? with _ | c
    · show chr '\n' ∉ ascii "   "
      decide
    · show chr '\n' ∉ hexByte c ++ ascii " "
      rw [List.mem_append, not_or]
      exact ⟨not_mem_hexByte (by decide) c, hblank⟩
  simp [hexPart, group, hcell, hblank]

/-! ### Lines -/

/-- The line that is printed for some bytes. -/
def lineOf (row : List UInt8) : List UInt8 :=
  hexPart row ++ row.map printable ++ ascii "\r\n"

example : lineOf [0x42, 0x6f, 0x0d] =
    ascii "42 6f 0d                                            Bo.\r\n" := by
  decide

/-- The bytes of the lines of a dump. -/
def rows (bs : List UInt8) : List (List UInt8) :=
  blocks 16 ((bs.length + 15) / 16) bs

theorem length_rows (bs : List UInt8) : (rows bs).length = (bs.length + 15) / 16 := by
  rw [rows, blocks, List.length_map, List.length_range]

theorem flatten_rows (bs : List UInt8) : (rows bs).flatten = bs := by
  rw [rows, flatten_blocks, List.take_of_length_le (by omega)]

theorem rows_eq_cons {bs : List UInt8} (h : bs ≠ []) :
    rows bs = bs.take 16 :: rows (bs.drop 16) := by
  have hpos := List.length_pos_iff.2 h
  have hcount : (bs.length + 15) / 16 = ((bs.drop 16).length + 15) / 16 + 1 := by
    rw [List.length_drop]
    omega
  rw [rows, hcount, rows, blocks, List.range_succ_eq_map, List.map_cons, List.map_map]
  refine congrArg₂ List.cons rfl (List.map_congr_left fun k _ ↦ ?_)
  show (bs.drop (16 * (k + 1))).take 16 = ((bs.drop 16).drop (16 * k)).take 16
  rw [List.drop_drop, show 16 * (k + 1) = 16 + 16 * k by omega]

/-- The rows of a range: the first one, and those of the rest. -/
theorem rows_slice {m : ℕ} (source : Buffer m) {p len : ℕ} (hp : p + len ≤ m) (hpos : 0 < len) :
    rows (source.slice p len) =
      source.slice p (min 16 len) :: rows (source.slice (p + 16) (len - 16)) := by
  have hne : source.slice p len ≠ [] := by
    rw [← List.length_pos_iff, source.length_slice hp]
    exact hpos
  rw [rows_eq_cons hne, Buffer.take_slice, Buffer.drop_slice]

/-! ### What is read and what is printed -/

/-- The indexes of the bytes that are read. -/
def loads (past : List DumpAction) : List ℕ :=
  past.filterMap fun
    | .load i => some i
    | .print _ => none

/-- The bytes that are printed. -/
def prints (past : List DumpAction) : List UInt8 :=
  past.flatMap fun
    | .load _ => []
    | .print bytes => bytes

theorem loads_append (past out : List DumpAction) : loads (past ++ out) = loads past ++ loads out :=
  List.filterMap_append

theorem prints_append (past out : List DumpAction) :
    prints (past ++ out) = prints past ++ prints out :=
  List.flatMap_append

/-! ### The cells of a line -/

/-- After `t` cells of a line whose bytes stand at index `p`: where the pointers are, what stands in
`ascii_buffer`, which bytes have been read, and the text that has been printed. -/
structure AtCell (row : List UInt8) (p t : ℕ) (text : List UInt8) (s : DumpState)
    (past : List DumpAction) : Prop where
  ab_eq : s.ab = min t row.length
  buffer_eq : s.buffer = p + min t row.length
  chars_eq : s.asciiBuffer.slice 0 (min t row.length) = (row.take t).map printable
  /-- The text of the line will end here. -/
  terminator_eq : s.asciiBuffer.slice row.length 1 = [0]
  /-- The terminator of a full line. -/
  last_eq : s.asciiBuffer.slice 16 1 = [0]
  loads_eq : loads past = List.range' p (min t row.length)
  prints_eq : prints past = text

theorem AtCell.print {row text : List UInt8} {p t : ℕ} {s : DumpState} {past : List DumpAction}
    (h : AtCell row p t text s past) (bytes : List UInt8) :
    AtCell row p t (text ++ bytes) s (past ++ [.print bytes]) where
  ab_eq := h.ab_eq
  buffer_eq := h.buffer_eq
  chars_eq := h.chars_eq
  terminator_eq := h.terminator_eq
  last_eq := h.last_eq
  loads_eq := by
    rw [loads_append, ← h.loads_eq]
    exact List.append_nil _
  prints_eq := by
    rw [prints_append, h.prints_eq]
    exact congrArg (text ++ ·) (List.append_nil bytes)

section Line

variable {m : ℕ} {source : Buffer m} {len : ℤ} {row : List UInt8} {p : ℕ}

/-- A cell with a byte in it. -/
theorem AtCell.dumpByte_of_lt {i j : ℕ} {text : List UInt8} {s : DumpState}
    {past : List DumpAction} (hrow : source.slice p row.length = row) (hp : p + row.length ≤ m)
    (hlen : row.length = min 16 len.toNat) (h : AtCell row p (i + j) text s past)
    (hlt : i + j < row.length) :
    ∃ s' out, dumpByte source len i s j = .ok (s', out) ∧
      AtCell row p (i + j + 1) (text ++ cell row (i + j)) s' (past ++ out) := by
  set t := i + j with ht
  have hguard : (i : ℤ) + j < len := by omega
  have hmin : min t row.length = t := min_eq_left hlt.le
  have hmin' : min (t + 1) row.length = t + 1 := min_eq_left hlt
  obtain ⟨hab, hbuffer, hchars, hterminator, hlast, hloads, hprints⟩ := h
  rw [hmin] at hab hbuffer hchars hloads
  obtain ⟨c, hget, hc⟩ := source.exists_get_of_slice hp hlt
  rw [hrow] at hc
  have hfit : t + [printable c].length ≤ 17 := by
    rw [List.length_singleton]
    omega
  refine ⟨⟨s.asciiBuffer.patch t [printable c], t + 1, p + t + 1⟩,
    [.load (p + t), .print (hexByte c ++ ascii " ")], ?_, ?_⟩
  · rw [dumpByte, if_pos hguard, hbuffer, hget, ok_bind, hab, Buffer.store_eq_ok _ hfit]
    rfl
  · have hconcat := s.asciiBuffer.slice_patch_concat (i := 0) (j := t) (by omega) (printable c)
    rw [Nat.zero_add] at hconcat
    refine ⟨hmin'.symm, by rw [hmin']; rfl, ?_, ?_, ?_, ?_, ?_⟩
    · rw [hmin', hconcat, hchars, List.take_add_one, hc, List.map_append]
      rfl
    · rw [Buffer.slice_patch_of_ge _ hfit (by exact hlt), hterminator]
    · rw [Buffer.slice_patch_of_ge _ hfit (by show t + 1 ≤ 16; omega), hlast]
    · rw [hmin', loads_append, hloads, List.range'_concat, Nat.one_mul]
      rfl
    · rw [prints_append, hprints, cell, hc]
      exact congrArg (text ++ ·) (List.append_nil _)

/-- A cell behind the last byte. -/
theorem AtCell.dumpByte_of_le {i j : ℕ} {text : List UInt8} {s : DumpState}
    {past : List DumpAction} (hlen : row.length = min 16 len.toNat)
    (h : AtCell row p (i + j) text s past) (hij : i + j < 16) (hle : row.length ≤ i + j) :
    ∃ s' out, dumpByte source len i s j = .ok (s', out) ∧
      AtCell row p (i + j + 1) (text ++ cell row (i + j)) s' (past ++ out) := by
  have hguard : ¬ (i : ℤ) + j < len := by omega
  have hmin : min (i + j + 1) row.length = min (i + j) row.length := by omega
  have htake : row.take (i + j + 1) = row.take (i + j) := by
    rw [List.take_of_length_le hle, List.take_of_length_le (by omega)]
  have hcell : cell row (i + j) = ascii "   " := by
    rw [cell, List.getElem?_eq_none hle]
  have hblank := h.print (ascii "   ")
  refine ⟨s, _, by rw [dumpByte, if_neg hguard]; rfl, ?_⟩
  rw [hcell]
  exact ⟨hmin ▸ hblank.ab_eq, hmin ▸ hblank.buffer_eq, by rw [hmin, htake]; exact hblank.chars_eq,
    hblank.terminator_eq, hblank.last_eq, by rw [hmin]; exact hblank.loads_eq, hblank.prints_eq⟩

/-- **One cell.** -/
theorem AtCell.dumpByte {i j : ℕ} {text : List UInt8} {s : DumpState} {past : List DumpAction}
    (hrow : source.slice p row.length = row) (hp : p + row.length ≤ m)
    (hlen : row.length = min 16 len.toNat) (h : AtCell row p (i + j) text s past)
    (hij : i + j < 16) :
    ∃ s' out, dumpByte source len i s j = .ok (s', out) ∧
      AtCell row p (i + j + 1) (text ++ cell row (i + j)) s' (past ++ out) := by
  rcases lt_or_ge (i + j) row.length with hlt | hge
  · exact h.dumpByte_of_lt hrow hp hlen hlt
  · exact h.dumpByte_of_le hlen hij hge

/-- **Four cells**, and the blank behind them. -/
theorem AtCell.dumpGroup {i : ℕ} {text : List UInt8} {s : DumpState} {past : List DumpAction}
    (hrow : source.slice p row.length = row) (hp : p + row.length ≤ m)
    (hlen : row.length = min 16 len.toNat) (h : AtCell row p i text s past) (hi : i + 4 ≤ 16) :
    ∃ s' out, dumpGroup source len s i = .ok (s', out) ∧
      AtCell row p (i + 4) (text ++ group row i) s' (past ++ out) := by
  have hstart : AtCell row p (i + 0) (text ++ (List.range 0).flatMap fun j ↦ cell row (i + j)) s
      past := by
    rw [List.range_zero, List.flatMap_nil, List.append_nil]
    exact h
  obtain ⟨s', out, hrun, hend⟩ := Machine.exists_runFrom_range (Debug.dumpByte source len i)
    (f := id) (n := 4) (P := fun j s past ↦
      AtCell row p (i + j) (text ++ (List.range j).flatMap fun j ↦ cell row (i + j)) s past)
    (fun j hj s past hcell ↦ by
      rw [List.range_succ, List.flatMap_append, List.flatMap_singleton, ← List.append_assoc]
      exact hcell.dumpByte hrow hp hlen (by show i + j < 16; omega))
    past hstart
  have hblank := hend.print (ascii " ")
  rw [List.append_assoc, List.append_assoc] at hblank
  refine ⟨s', out ++ [DumpAction.print (ascii " ")], ?_, hblank⟩
  show (Machine.runFrom (Debug.dumpByte source len i) s ((List.range 4).map id) >>= _) = _
  rw [hrun]
  rfl

/-- The text of a line has no control characters in it. -/
theorem not_mem_map_printable {x : UInt8} (hx : x < 0x20) (row : List UInt8) :
    x ∉ row.map printable := by
  rw [List.mem_map]
  rintro ⟨c, -, rfl⟩
  rw [printable] at hx
  split_ifs at hx with hlow hhigh
  · exact absurd hx (by decide)
  · exact absurd hx (by decide)
  · exact hlow hx

/-- What stands in `ascii_buffer` at the end of a line is the text of the line. -/
theorem AtCell.isString {text : List UInt8} {s : DumpState} {past : List DumpAction}
    (h : AtCell row p 16 text s past) (hrow : row.length ≤ 16) :
    s.asciiBuffer.IsString 0 (row.map printable) := by
  have hchars := h.chars_eq
  rw [min_eq_right hrow, List.take_of_length_le hrow] at hchars
  have hsplit : s.asciiBuffer.slice 0 (row.length + 1) = row.map printable ++ [0] := by
    rw [Buffer.slice_add, Nat.zero_add, hchars, h.terminator_eq]
  refine ⟨not_mem_map_printable (by decide) row, ?_⟩
  rw [← hsplit]
  exact List.take_prefix _ _

/-- The terminator of a line is put where its text will end. -/
theorem exists_terminate {asciiBuffer : Buffer 17} (hlast : asciiBuffer.slice 16 1 = [0]) {k : ℕ}
    (hpos : 0 < len) (hk : k = min 16 len.toNat) :
    ∃ b, terminate len asciiBuffer = .ok b ∧ b.slice k 1 = [0] ∧ b.slice 16 1 = [0] := by
  rw [terminate]
  split_ifs with hshort
  · obtain rfl : k = len.toNat := by omega
    have hfit : len.toNat + [(0 : UInt8)].length ≤ 17 := by
      rw [List.length_singleton]
      omega
    refine ⟨_, Buffer.store_eq_ok _ hfit, Buffer.slice_patch_self _ hfit, ?_⟩
    rw [Buffer.slice_patch_of_ge _ hfit (by show len.toNat + 1 ≤ 16; omega), hlast]
  · obtain rfl : k = 16 := by omega
    exact ⟨asciiBuffer, rfl, hlast, hlast⟩

/-- **One line.** -/
theorem dumpLine_eq (hrow : source.slice p row.length = row) (hp : p + row.length ≤ m)
    (hpos : 0 < len) (hlen : row.length = min 16 len.toNat) {s : DumpState} (hs : s.buffer = p)
    (hlast : s.asciiBuffer.slice 16 1 = [0]) :
    ∃ s' out, dumpLine source len s = .ok (s', out) ∧ s'.buffer = p + row.length ∧
      s'.asciiBuffer.slice 16 1 = [0] ∧ loads out = List.range' p row.length ∧
      prints out = lineOf row := by
  obtain ⟨b, hb, hterminator, hlast'⟩ := exists_terminate hlast hpos hlen
  have hstart : AtCell row p (4 * 0) ((List.range 0).flatMap fun g ↦ group row (4 * g))
      { s with asciiBuffer := b, ab := 0 } [] := by
    refine ⟨?_, ?_, ?_, hterminator, hlast', ?_, rfl⟩ <;> rw [Nat.mul_zero, Nat.zero_min]
    · exact hs
    · rfl
    · rfl
  obtain ⟨s', out, hrun, hend⟩ := Machine.exists_runFrom_range (dumpGroup source len) (f := (4 * ·))
    (n := 4) (P := fun g s past ↦
      AtCell row p (4 * g) ((List.range g).flatMap fun g ↦ group row (4 * g)) s past)
    (fun g hg s past hcell ↦ by
      rw [List.range_succ, List.flatMap_append, List.flatMap_singleton]
      exact hcell.dumpGroup hrow hp hlen (by omega))
    [] hstart
  have hmin : min (4 * 4) row.length = row.length := by omega
  have htext := (hend.isString (by omega)).cString_eq
  have hline := hend.print (row.map printable ++ ascii "\r\n")
  refine ⟨s', _, ?_, hmin ▸ hend.buffer_eq, hend.last_eq, hmin ▸ hline.loads_eq,
    hline.prints_eq.trans (List.append_assoc _ _ _).symm⟩
  rw [dumpLine, hb, ok_bind]
  show (Machine.runFrom (Debug.dumpGroup source len) _ ((List.range 4).map (4 * ·)) >>= _) = _
  rw [hrun, ok_bind]
  dsimp only
  rw [htext]
  rfl

end Line

/-! ### All lines -/

/-- **The loop over the lines**: `len` bytes are left, from index `p` on. -/
theorem dumpLines_eq {m : ℕ} (source : Buffer m) {fuel : ℕ} {len : ℤ} {s : DumpState} {p : ℕ}
    (hfuel : len.toNat < fuel) (hp : p + len.toNat ≤ m) (hs : s.buffer = p)
    (hlast : s.asciiBuffer.slice 16 1 = [0]) :
    ∃ s' out, dumpLines source fuel len s = .ok (s', out) ∧
      loads out = List.range' p len.toNat ∧
      prints out = ((rows (source.slice p len.toNat)).map lineOf).flatten := by
  induction fuel generalizing len s p with
  | zero => exact absurd hfuel (Nat.not_lt_zero _)
  | succ fuel ih =>
    rw [dumpLines]
    split_ifs with hpos
    · set row := source.slice p (min 16 len.toNat) with hrow
      have hlen : row.length = min 16 len.toNat := source.length_slice (by omega)
      have hself : source.slice p row.length = row := by rw [hlen]
      have hless : (len - 16).toNat < fuel := by omega
      obtain ⟨s₁, out₁, h₁, hs₁, hlast₁, hloads₁, hprints₁⟩ :=
        dumpLine_eq hself (by omega) hpos hlen hs hlast
      obtain ⟨s₂, out₂, h₂, hloads₂, hprints₂⟩ := ih hless (by omega) hs₁ hlast₁
      have hrest : source.slice (p + 16) (len.toNat - 16) =
          source.slice (p + row.length) (len - 16).toNat := by
        rcases le_or_gt 16 len with hle | hlt
        · rw [show row.length = 16 by omega, show len.toNat - 16 = (len - 16).toNat by omega]
        · rw [show len.toNat - 16 = 0 by omega, show (len - 16).toNat = 0 by omega]
          rfl
      refine ⟨s₂, out₁ ++ out₂, ?_, ?_, ?_⟩
      · rw [h₁, ok_bind]
        show (dumpLines source fuel (len - 16) s₁ >>= _) = _
        rw [h₂]
        rfl
      · rw [loads_append, hloads₁, hloads₂, List.range'_append_1,
          show row.length + (len - 16).toNat = len.toNat by omega]
      · rw [prints_append, hprints₁, hprints₂, rows_slice source hp (by omega), hrest]
        rfl
    · have hzero : len.toNat = 0 := by omega
      have hnil : source.slice p 0 = [] := List.take_zero
      refine ⟨s, [], rfl, ?_, ?_⟩
      · rw [hzero]
        rfl
      · rw [hzero, hnil]
        rfl

/-! ### Reading the dump -/

/-- A line of a dump. -/
structure DumpLine where
  hex : List UInt8
  text : List UInt8
  deriving DecidableEq, Repr

/-- The line as it is printed. -/
def DumpLine.bytes (l : DumpLine) : List UInt8 :=
  l.hex ++ l.text ++ ascii "\r\n"

/-- The fields of the line, from left to right, as the bytes that they spell. -/
def DumpLine.fields (l : DumpLine) : List (Option UInt8) :=
  (runs (chr ' ') l.hex).map readHexByte

/-- The line shows the bytes. -/
structure DumpLine.Shows (l : DumpLine) (row : List UInt8) : Prop where
  length_hex : l.hex.length = 52
  fields_eq : l.fields = row.map some
  text_eq : l.text = row.map fun c ↦ if c < 0x20 ∨ c > 0x7f then chr '.' else c
  /-- It is one line. -/
  newline_not_mem : chr '\n' ∉ l.hex ++ l.text

theorem printable_eq (c : UInt8) :
    printable c = if c < 0x20 ∨ c > 0x7f then chr '.' else c := by
  rw [printable, ite_or]

/-- The line that is printed for some bytes shows them. -/
theorem shows_lineOf {row : List UInt8} (h : row.length ≤ 16) :
    (DumpLine.mk (hexPart row) (row.map printable)).Shows row where
  length_hex := length_hexPart row
  fields_eq := by
    show (runs (chr ' ') (hexPart row)).map readHexByte = _
    rw [(addsRuns_hexPart h).runs_eq, List.map_map]
    exact List.map_congr_left fun c _ ↦ readHexByte_hexByte c
  text_eq := List.map_congr_left fun c _ ↦ printable_eq c
  newline_not_mem := by
    rw [List.mem_append, not_or]
    exact ⟨newline_not_mem_hexPart row, not_mem_map_printable (by decide) row⟩

theorem length_le_of_mem_rows {bs row : List UInt8} (h : row ∈ rows bs) : row.length ≤ 16 := by
  obtain ⟨k, -, rfl⟩ := List.mem_map.1 h
  exact List.length_take_le _ _

/-- **The hex dump is faithful.** The dump of `n` bytes reads each of them once, in order, and does
not leave its buffers; it prints a line for each 16 bytes that are begun, and the fields of all
lines spell the bytes. -/
theorem dump_faithful {m n : ℕ} (source : Buffer m) (h : n ≤ m) (asciiBuffer : Buffer 17) :
    ∃ out lines, dump source n asciiBuffer = .ok out ∧ loads out = List.range n ∧
      prints out = lines.flatMap DumpLine.bytes ∧ lines.length = (n + 15) / 16 ∧
      List.Forall₂ DumpLine.Shows lines (rows (source.slice 0 n)) ∧
      lines.flatMap DumpLine.fields = (source.slice 0 n).map some := by
  set bs := source.slice 0 n with hbs
  have hlen : bs.length = n := source.length_slice (by omega)
  have hfit : 16 + [(0 : UInt8)].length ≤ 17 := le_rfl
  have hfuel : (n : ℤ).toNat < n + 1 := Nat.lt_succ_self n
  obtain ⟨s, out, hrun, hloads, hprints⟩ := dumpLines_eq source
    (s := ⟨asciiBuffer.patch 16 [0], 0, 0⟩) (p := 0) hfuel (by omega) rfl
    (Buffer.slice_patch_self asciiBuffer hfit)
  have hshows : ∀ row ∈ rows bs, (DumpLine.mk (hexPart row) (row.map printable)).Shows row :=
    fun row hrow ↦ shows_lineOf (length_le_of_mem_rows hrow)
  refine ⟨out, (rows bs).map fun row ↦ ⟨hexPart row, row.map printable⟩, ?_, ?_, ?_, ?_, ?_, ?_⟩
  · rw [dump, Buffer.store_eq_ok _ hfit, ok_bind, Int.toNat_natCast, hrun]
    rfl
  · rw [hloads, Int.toNat_natCast, List.range_eq_range']
  · rw [hprints, Int.toNat_natCast, ← hbs, List.flatMap_map]
    rfl
  · rw [List.length_map, length_rows, hlen]
  · rw [List.forall₂_map_left_iff, List.forall₂_same]
    exact hshows
  · -- the fields of the lines are the bytes of the rows
    have hfields : (rows bs).map (fun row ↦
        (DumpLine.mk (hexPart row) (row.map printable)).fields) = (rows bs).map (·.map some) :=
      List.map_congr_left fun row hrow ↦ (hshows row hrow).fields_eq
    conv_rhs => rw [← flatten_rows bs]
    rw [List.flatMap_map, List.flatMap, hfields, List.map_flatten]

/-- A full line and a short one. -/
theorem dump_faithful_twenty :
    ∃ out lines, dump (Buffer.mk ((List.range 20).map UInt8.ofNat) rfl) (20 : ℕ) (.zero 17) =
        .ok out ∧ loads out = List.range 20 ∧
      prints out = lines.flatMap DumpLine.bytes ∧ lines.length = 2 ∧
      List.Forall₂ DumpLine.Shows lines (rows ((List.range 20).map UInt8.ofNat)) ∧
      lines.flatMap DumpLine.fields = ((List.range 20).map UInt8.ofNat).map some :=
  dump_faithful (Buffer.mk ((List.range 20).map UInt8.ofNat) rfl) le_rfl (.zero 17)

end Debug

end EspBode
