import EspBode.Firmware.Debug

/-!
# The debug buffer loses and repeats nothing

`Keeps d past` is the invariant of the object with everything it has put out: the chunks that were
handed over, and behind them what stands in the buffer, are the bytes that `write` has accepted. No
newline is pending, since one ends a chunk, and there is always room for the next byte. `runs_keep`
is the result, for any calls on a new object in any order.

**Why the room is there.** The source stores a byte without looking whether there is room for it.
What makes that safe is the other end of `write`: it flushes when the last place has been filled, so
the index is below the size of the buffer whenever a call begins. The invariant says so, and a
checked store then does not fail.

What the two methods do that touch the buffer is said by one lemma for `flush` (`flush_eq`) and two
for `write`, for a byte that the filter includes and for one that it does not; the other methods are
one case of the induction (`Keeps.set`). What `write` does with a byte it accepts is taken apart
into storing it (`Keeps.accept`) and handing over what stands in the buffer (`Keeps.hand`), so the
two ways in which a chunk ends are not treated twice.

A chunk goes to the channel that is current when it is handed over, which may be another one than
that at the time its first byte was accepted.
-/

namespace EspBode

namespace Debug

/-- The chunks that were handed over. -/
def chunks (past : List DebugAction) : List (List UInt8) :=
  past.filterMap fun
    | .hand _ chunk => some chunk
    | .wrote _ _ => none

/-- The bytes for which `write` returned 1. -/
def accepted (past : List DebugAction) : List UInt8 :=
  past.filterMap fun
    | .hand _ _ => none
    | .wrote byte result => if result = 1 then some byte else none

/-- The bytes that stand in the buffer. -/
def pending (d : Debug) : List UInt8 :=
  d.buffer.slice 0 d.index

/-- The current output type and the current filter have a bit in common. -/
def Includes (d : Debug) : Prop :=
  ∃ i, d.mOutputType.toNat.testBit i ∧ d.mFilter.toNat.testBit i

/-- What is handed over at once: some bytes, as many as the buffer holds, and no newline but at the
end. -/
structure IsChunk (chunk : List UInt8) : Prop where
  ne_nil : chunk ≠ []
  length_le : chunk.length ≤ debugBufferSize
  newline_not_mem : chr '\n' ∉ chunk.dropLast

/-- The invariant of the object, with everything it has put out. -/
structure Keeps (d : Debug) (past : List DebugAction) : Prop where
  index_lt : d.index < debugBufferSize
  newline_not_mem : chr '\n' ∉ d.pending
  isChunk : ∀ chunk ∈ chunks past, IsChunk chunk
  bytes_eq : (chunks past).flatten ++ d.pending = accepted past

/-! ### What the methods do -/

theorem chunks_append (past out : List DebugAction) :
    chunks (past ++ out) = chunks past ++ chunks out :=
  List.filterMap_append

theorem accepted_append (past out : List DebugAction) :
    accepted (past ++ out) = accepted past ++ accepted out :=
  List.filterMap_append

theorem and_ne_zero_iff {v w : UInt32} :
    v &&& w ≠ 0 ↔ ∃ i, v.toNat.testBit i ∧ w.toNat.testBit i := by
  have hnat : v &&& w ≠ 0 ↔ v.toNat &&& w.toNat ≠ 0 := by
    rw [← UInt32.toNat_and]
    exact not_congr UInt32.toNat_inj.symm
  rw [hnat]
  constructor
  · intro h
    obtain ⟨i, hi⟩ := Nat.exists_testBit_of_ne_zero h
    rw [Nat.testBit_and, Bool.and_eq_true] at hi
    exact ⟨i, hi⟩
  · rintro ⟨i, hv, hw⟩ h
    have hi : (v.toNat &&& w.toNat).testBit i := by rw [Nat.testBit_and, hv, hw]; rfl
    rw [h, Nat.zero_testBit] at hi
    exact Bool.false_ne_true hi

/-- **What `flush` does**: it hands over what stands in the buffer, if anything does. -/
theorem flush_eq {d : Debug} (h : d.index ≤ debugBufferSize) :
    d.flush = .ok ({ d with index := 0 },
      if d.index > 0 then [.hand d.mChannel d.pending] else []) := by
  rw [flush]
  split_ifs with hindex
  · rw [Buffer.load_eq_ok _ (by omega)]
    rfl
  · have hzero : d.index = 0 := by omega
    rw [← hzero]
    rfl

/-- The object when it has stored a byte. -/
def stored (d : Debug) (byte : UInt8) : Debug :=
  { d with buffer := d.buffer.patch d.index [byte], index := d.index + 1 }

theorem pending_stored {d : Debug} (h : d.index < debugBufferSize) (byte : UInt8) :
    (d.stored byte).pending = d.pending ++ [byte] := by
  have hconcat := d.buffer.slice_patch_concat (i := 0) (j := d.index) (by omega) byte
  rwa [Nat.zero_add] at hconcat

/-- **What `write` does** with a byte that the filter does not include. -/
theorem write_of_not_includes {d : Debug} (h : ¬ d.Includes) (byte : UInt8) :
    d.write byte = .ok (d, [.wrote byte 0]) := by
  rw [write, if_pos (not_not.1 fun hne ↦ h (and_ne_zero_iff.1 hne))]
  rfl

/-- **What `write` does** with a byte that the filter includes: the byte is stored, and a newline or
the last place in the buffer makes a chunk. -/
theorem write_of_includes {d : Debug} (h : d.Includes) (hindex : d.index < debugBufferSize)
    (byte : UInt8) : d.write byte =
      if byte = chr '\n' ∨ d.index + 1 ≥ debugBufferSize then
        .ok ({ d.stored byte with index := 0 },
          [.hand d.mChannel (d.pending ++ [byte]), .wrote byte 1])
      else .ok (d.stored byte, [.wrote byte 1]) := by
  rw [write, if_neg (and_ne_zero_iff.2 h), Buffer.store_eq_ok _ hindex, ok_bind]
  show (if byte = chr '\n' ∨ d.index + 1 ≥ debugBufferSize then
    ((d.stored byte).flush >>= _) else _) = _
  have hpos : (d.stored byte).index > 0 := Nat.succ_pos _
  split_ifs
  · rw [flush_eq (d := d.stored byte) hindex, if_pos hpos, pending_stored hindex]
    rfl
  · rfl

/-! ### The invariant -/

theorem length_pending {d : Debug} (h : d.index ≤ debugBufferSize) : d.pending.length = d.index :=
  d.buffer.length_slice (by omega)

/-- The bytes that are accepted without a chunk are those that come to stand in the buffer. -/
theorem Keeps.accept {d d' : Debug} {past out : List DebugAction} {bytes : List UInt8}
    (h : Keeps d past) (hindex : d'.index < debugBufferSize)
    (hpending : d'.pending = d.pending ++ bytes) (hnewline : chr '\n' ∉ bytes)
    (hchunks : chunks out = []) (haccepted : accepted out = bytes) : Keeps d' (past ++ out) := by
  refine ⟨hindex, ?_, ?_, ?_⟩
  · rw [hpending, List.mem_append, not_or]
    exact ⟨h.newline_not_mem, hnewline⟩
  · rw [chunks_append, hchunks, List.append_nil]
    exact h.isChunk
  · rw [chunks_append, accepted_append, hchunks, haccepted, hpending, ← h.bytes_eq,
      List.append_nil, List.append_assoc]

/-- What stands in the buffer may be handed over, with some bytes behind it or without. -/
theorem Keeps.hand {d : Debug} {past : List DebugAction} (h : Keeps d past) {d' : Debug}
    (hindex : d'.index = 0) (channel : DbChannel) {bytes : List UInt8} {out : List DebugAction}
    (hchunk : IsChunk (d.pending ++ bytes)) (hchunks : chunks out = [])
    (haccepted : accepted out = bytes) :
    Keeps d' (past ++ .hand channel (d.pending ++ bytes) :: out) := by
  have hpending : d'.pending = [] := by rw [pending, hindex]; rfl
  have hnew : chunks (.hand channel (d.pending ++ bytes) :: out) = [d.pending ++ bytes] :=
    congrArg ((d.pending ++ bytes) :: ·) hchunks
  refine ⟨by rw [hindex]; decide, by rw [hpending]; exact List.not_mem_nil, ?_, ?_⟩
  · rw [chunks_append, hnew]
    rintro chunk hmem
    rcases List.mem_append.1 hmem with hold | hlast
    · exact h.isChunk chunk hold
    · rw [List.mem_singleton.1 hlast]
      exact hchunk
  · have hsame : accepted (.hand channel (d.pending ++ bytes) :: out) = bytes := haccepted
    rw [chunks_append, accepted_append, hnew, hpending, hsame, ← h.bytes_eq]
    simp

theorem Keeps.flush {d : Debug} {past : List DebugAction} (h : Keeps d past) :
    ∃ d' out, d.flush = .ok (d', out) ∧ Keeps d' (past ++ out) := by
  refine ⟨_, _, flush_eq h.index_lt.le, ?_⟩
  have hlen := length_pending h.index_lt.le
  split_ifs with hindex
  · have hne : d.pending ≠ [] := by
      rw [← List.length_pos_iff, hlen]
      exact hindex
    have hnewline : chr '\n' ∉ d.pending.dropLast := fun hmem ↦
      h.newline_not_mem ((List.dropLast_sublist _).subset hmem)
    have hchunk : IsChunk (d.pending ++ []) := by
      rw [List.append_nil]
      exact ⟨hne, hlen.trans_le h.index_lt.le, hnewline⟩
    have hkeeps : Keeps { d with index := 0 } (past ++ [.hand d.mChannel (d.pending ++ [])]) :=
      h.hand rfl d.mChannel hchunk rfl rfl
    rwa [List.append_nil] at hkeeps
  · have hzero : d.index = 0 := by omega
    have hsame : pending { d with index := 0 } = d.pending ++ [] := by
      rw [pending, pending, hzero, List.append_nil]
    exact h.accept (by show 0 < _; decide) hsame List.not_mem_nil rfl rfl

theorem Keeps.write {d : Debug} {past : List DebugAction} (h : Keeps d past) (byte : UInt8) :
    ∃ d' out, d.write byte = .ok (d', out) ∧ Keeps d' (past ++ out) := by
  have hlen := length_pending h.index_lt.le
  by_cases hincludes : d.Includes
  · have hwrite := write_of_includes hincludes h.index_lt byte
    split_ifs at hwrite with hends
    · have hchunk : IsChunk (d.pending ++ [byte]) := by
        refine ⟨by simp, ?_, ?_⟩
        · rw [List.length_append, hlen]
          exact h.index_lt
        · rw [List.dropLast_concat]
          exact h.newline_not_mem
      exact ⟨_, _, hwrite, h.hand rfl d.mChannel hchunk rfl rfl⟩
    · obtain ⟨hnewline, hroom⟩ := not_or.1 hends
      have hmem : chr '\n' ∉ [byte] := fun hmem ↦ hnewline (List.mem_singleton.1 hmem).symm
      exact ⟨_, _, hwrite, h.accept (by show d.index + 1 < _; omega)
        (pending_stored h.index_lt byte) hmem rfl rfl⟩
  · exact ⟨d, _, write_of_not_includes hincludes byte,
      h.accept h.index_lt (List.append_nil _).symm List.not_mem_nil rfl rfl⟩

/-- The calls that set something leave the buffer alone. -/
theorem Keeps.set {d d' : Debug} {past : List DebugAction} (h : Keeps d past)
    (hbuffer : d'.buffer = d.buffer) (hindex : d'.index = d.index) : Keeps d' (past ++ []) := by
  refine h.accept (hindex ▸ h.index_lt) ?_ List.not_mem_nil rfl rfl
  rw [pending, pending, hbuffer, hindex, List.append_nil]

/-- Every call keeps the invariant, and none is stuck. -/
theorem Keeps.step {d : Debug} {past : List DebugAction} (h : Keeps d past) (call : Call) :
    ∃ d' out, d.step call = .ok (d', out) ∧ Keeps d' (past ++ out) := by
  cases call with
  | write byte => exact h.write byte
  | flush => exact h.flush
  | channel channel => exact ⟨_, [], rfl, h.set rfl rfl⟩
  | filter filter => exact ⟨_, [], rfl, h.set rfl rfl⟩
  | output type => exact ⟨_, [], rfl, h.set rfl rfl⟩
  | shortcut s => exact ⟨_, [], rfl, h.set (by cases s <;> rfl) (by cases s <;> rfl)⟩

theorem keeps_new (buffer : Buffer debugBufferSize) (channel : DbChannel) (filter : DbFilter) :
    Keeps (new buffer channel filter) [] where
  index_lt := by
    show 0 < _
    decide
  newline_not_mem := List.not_mem_nil
  isChunk := by simp [chunks]
  bytes_eq := rfl

/-- What `write` returns: 1 if the current filter includes the current type, and 0 otherwise. What
it hands over goes to the current channel. -/
theorem Keeps.exists_write {d : Debug} {past : List DebugAction} (h : Keeps d past)
    (byte : UInt8) : ∃ d' handed result,
      d.write byte = .ok (d', handed ++ [.wrote byte result]) ∧
        (∀ action ∈ handed, ∃ chunk, action = .hand d.mChannel chunk) ∧
        (result = 1 ↔ d.Includes) ∧ (result = 0 ↔ ¬ d.Includes) := by
  by_cases hincludes : d.Includes
  · have hwrite := write_of_includes hincludes h.index_lt byte
    split_ifs at hwrite with hends
    · exact ⟨_, [.hand d.mChannel (d.pending ++ [byte])], 1, hwrite,
        fun action haction ↦ ⟨_, List.mem_singleton.1 haction⟩, by simp [hincludes],
        by simp [hincludes]⟩
    · exact ⟨_, [], 1, hwrite, by simp, by simp [hincludes], by simp [hincludes]⟩
  · exact ⟨d, [], 0, write_of_not_includes hincludes byte, by simp, by simp [hincludes],
      by simp [hincludes]⟩

/-- **The debug buffer loses and repeats nothing.** Any calls on a new object: none leaves the
buffer, what they put out is what `write` has accepted, and `write` accepts what the filter
includes. -/
theorem runs_keep (buffer : Buffer debugBufferSize) (channel : DbChannel) (filter : DbFilter)
    (calls : List Call) :
    ∃ d past, Machine.runFrom step (new buffer channel filter) calls = .ok (d, past) ∧
      Keeps d past ∧ ∀ byte, ∃ d' handed result,
        d.write byte = .ok (d', handed ++ [.wrote byte result]) ∧
          (∀ action ∈ handed, ∃ chunk, action = .hand d.mChannel chunk) ∧
          (result = 1 ↔ d.Includes) ∧ (result = 0 ↔ ¬ d.Includes) := by
  obtain ⟨d, past, hrun, hkeeps⟩ := Machine.exists_runFrom (P := Keeps)
    (fun _ _ call h ↦ h.step call) [] (keeps_new buffer channel filter) calls
  exact ⟨d, past, hrun, hkeeps, hkeeps.exists_write⟩

end Debug

end EspBode
