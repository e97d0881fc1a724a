import Mathlib.Data.List.Basic
import Mathlib.Data.List.TakeWhile
import Mathlib.Tactic.Common

/-!
# Maximal runs between delimiters

Two ways to cut up a text at a delimiter, one for each kind of reader.

**Maximal runs.** `runs d s` is the list of the maximal non-empty runs of elements of `s` other than
the delimiter `d`: split at every `d`, and drop the empty pieces. A tokenizer produces them one at a
time; `nextRun d s` is one such step, the first run together with the text behind the one delimiter
that ended it. `runs` is the specification and `nextRun` what a recursion follows, and
`runs_eq_cons_of_nextRun` unrolls the one by the other. `nextRun_shape` says how the text is made up
of skipped delimiters, run, ending delimiter and remainder; a tokenizer that works in place is
specified by it. `firstRun` and `textAfter` name the two results without the recursion
(`nextRun_eq`). In the other direction, a text that is put together from parts that end in
delimiters has the runs of its parts (`AddsRuns`), and runs that are joined are found again
(`runs_intercalate`).

**Pieces.** `completed d s` are the pieces that a delimiter has ended, the empty ones included, and
`unfinished d s` is the open end. This is what a reader of lines sees, which has to keep the open
end. A text that comes in parts is cut up the same way (`completed_append`): the pieces of the first
part, and then those of its open end followed by the second part. How a stream is chunked plays no
part therefore.

Both rest on the split of a text at its first delimiter (`takeWhile_dropWhile_ne`), which there is
only one of (`eq_of_append_cons_eq`).
-/

namespace EspBode

variable {α : Type*} [DecidableEq α]

/-- The maximal non-empty runs of elements other than `d`. -/
def runs (d : α) (s : List α) : List (List α) :=
  (s.splitOn d).filter (· ≠ [])

/-- The first run, and the text behind the delimiter that ended it. -/
def nextRun (d : α) : List α → Option (List α × List α)
  | [] => none
  | c :: cs =>
    if c = d then nextRun d cs
    else some ((c :: cs).takeWhile (· != d), ((c :: cs).dropWhile (· != d)).tail)

/-! ### How a text is made up -/

/-- A text without a run consists of delimiters. -/
theorem nextRun_eq_none {d : α} : ∀ {s : List α}, nextRun d s = none →
    s = List.replicate s.length d
  | [], _ => rfl
  | c :: cs, h => by
    rcases eq_or_ne c d with hc | hc
    · rw [nextRun, if_pos hc] at h
      rw [List.length_cons, List.replicate_succ, ← nextRun_eq_none h, hc]
    · rw [nextRun, if_neg hc] at h
      exact absurd h (by simp)

/-- The split of a text at its first delimiter. -/
theorem takeWhile_dropWhile_ne (d : α) (s : List α) :
    d ∉ s.takeWhile (· != d) ∧
      ((s = s.takeWhile (· != d) ∧ s.dropWhile (· != d) = []) ∨
        s = s.takeWhile (· != d) ++ d :: (s.dropWhile (· != d)).tail) := by
  induction s with
  | nil => simp
  | cons c cs ih =>
    rcases eq_or_ne c d with hc | hc
    · subst hc
      simp
    · have hp : (c != d) = true := by simpa using hc
      rw [List.takeWhile_cons, if_pos hp, List.dropWhile_cons, if_pos hp]
      obtain ⟨hmem, hcase⟩ := ih
      refine ⟨by simp [hmem, Ne.symm hc], hcase.imp ?_ ?_⟩
      · exact fun ⟨h, h'⟩ ↦ ⟨congrArg (c :: ·) h, h'⟩
      · exact congrArg (c :: ·)

theorem bne_of_not_mem {d : α} {w : List α} (hd : d ∉ w) : ∀ x ∈ w, (x != d) = true :=
  fun x hx ↦ by simpa using fun h : x = d ↦ hd (h ▸ hx)

/-- The text before the first delimiter. -/
theorem takeWhile_append_cons {d : α} {w : List α} (hd : d ∉ w) (t : List α) :
    (w ++ d :: t).takeWhile (· != d) = w := by
  rw [List.takeWhile_append_of_pos (bne_of_not_mem hd), List.takeWhile_cons_of_neg (by simp),
    List.append_nil]

/-- The text before the first delimiter is the given one if that is the whole text, or stands in
front of a delimiter. -/
theorem takeWhile_eq_iff {d : α} {w s : List α} (hd : d ∉ w) :
    s.takeWhile (· != d) = w ↔ s = w ∨ w ++ [d] <+: s := by
  constructor
  · rintro rfl
    obtain ⟨-, ⟨h, -⟩ | h⟩ := takeWhile_dropWhile_ne d s
    · exact .inl h
    · exact .inr ⟨_, (List.append_assoc _ _ _).trans h.symm⟩
  · rintro (rfl | ⟨t, rfl⟩)
    · exact List.takeWhile_eq_self_iff.2 (bne_of_not_mem hd)
    · rw [List.append_assoc]
      exact takeWhile_append_cons hd t

/-- The text from the first delimiter on. -/
theorem dropWhile_append_cons {d : α} {w : List α} (hd : d ∉ w) (t : List α) :
    (w ++ d :: t).dropWhile (· != d) = d :: t := by
  rw [List.dropWhile_append_of_pos (bne_of_not_mem hd), List.dropWhile_cons_of_neg (by simp)]

/-- A text has one split at its first delimiter. -/
theorem eq_of_append_cons_eq {d : α} {w v s t : List α} (hw : d ∉ w) (hv : d ∉ v)
    (h : w ++ d :: s = v ++ d :: t) : w = v ∧ s = t := by
  have hwv : w = v := by
    have htake := congrArg (List.takeWhile (· != d)) h
    rwa [takeWhile_append_cons hw, takeWhile_append_cons hv] at htake
  subst hwv
  exact ⟨rfl, (List.cons.inj (List.append_cancel_left h)).2⟩

/-- **How a text with a run is made up**: skipped delimiters, the run, and either the end of the
text or the ending delimiter and the remainder. -/
theorem nextRun_shape {d : α} {w t : List α} : ∀ {s : List α}, nextRun d s = some (w, t) →
    w ≠ [] ∧ d ∉ w ∧ ∃ k, (s = List.replicate k d ++ w ∧ t = []) ∨
      s = List.replicate k d ++ (w ++ d :: t)
  | [], h => by simp [nextRun] at h
  | c :: cs, h => by
    rcases eq_or_ne c d with hc | hc
    · rw [nextRun, if_pos hc] at h
      obtain ⟨hne, hmem, k, hk⟩ := nextRun_shape h
      refine ⟨hne, hmem, k + 1, ?_⟩
      rw [List.replicate_succ, List.cons_append, List.cons_append, hc]
      exact hk.imp (fun ⟨h, ht⟩ ↦ ⟨congrArg (d :: ·) h, ht⟩) (congrArg (d :: ·))
    · rw [nextRun, if_neg hc, Option.some.injEq, Prod.mk.injEq] at h
      obtain ⟨rfl, rfl⟩ := h
      obtain ⟨hmem, hcase⟩ := takeWhile_dropWhile_ne d (c :: cs)
      refine ⟨by simp [hc], hmem, 0, hcase.imp ?_ ?_⟩
      · exact fun ⟨h, h'⟩ ↦ ⟨h, by rw [h', List.tail_nil]⟩
      · exact id

/-- The remainder behind a run is shorter than the text. -/
theorem length_lt_of_nextRun {d : α} {s w t : List α} (h : nextRun d s = some (w, t)) :
    t.length < s.length := by
  obtain ⟨hne, -, k, ⟨rfl, rfl⟩ | rfl⟩ := nextRun_shape h
  · have := List.length_pos_iff.2 hne
    simp only [List.length_append, List.length_nil]
    omega
  · simp only [List.length_append, List.length_cons]
    omega

theorem mem_of_mem_nextRun_fst {d : α} {s w t : List α} (h : nextRun d s = some (w, t)) {c : α}
    (hc : c ∈ w) : c ∈ s := by
  obtain ⟨-, -, k, ⟨rfl, -⟩ | rfl⟩ := nextRun_shape h <;> simp [hc]

theorem mem_of_mem_nextRun_snd {d : α} {s w t : List α} (h : nextRun d s = some (w, t)) {c : α}
    (hc : c ∈ t) : c ∈ s := by
  obtain ⟨-, -, k, ⟨-, rfl⟩ | rfl⟩ := nextRun_shape h
  · exact absurd hc List.not_mem_nil
  · simp [hc]

/-! ### Unrolling by first runs -/

@[simp]
theorem runs_nil (d : α) : runs d [] = [] := by
  simp [runs]

/-- A leading delimiter makes no run. -/
theorem runs_cons_self (d : α) (s : List α) : runs d (d :: s) = runs d s := by
  rw [runs, runs, List.splitOn_cons_eq_if_modifyHead, if_pos (beq_self_eq_true d)]
  simp

/-- A text without the delimiter is one run. -/
theorem runs_of_not_mem {d : α} {w : List α} (hne : w ≠ []) (hd : d ∉ w) : runs d w = [w] := by
  rw [runs, List.splitOn_eq_singleton hd]
  simp [hne]

/-- A run up to a delimiter, and then the runs of the remainder. -/
theorem runs_append_cons {d : α} {w : List α} (hne : w ≠ []) (hd : d ∉ w) (t : List α) :
    runs d (w ++ d :: t) = w :: runs d t := by
  rw [runs, List.splitOn_append_cons_self_of_not_mem hd]
  simp [hne, runs]

theorem runs_replicate_append (d : α) (k : ℕ) (s : List α) :
    runs d (List.replicate k d ++ s) = runs d s := by
  induction k with
  | zero => rfl
  | succ k ih => rw [List.replicate_succ, List.cons_append, runs_cons_self, ih]

theorem runs_eq_nil_of_nextRun {d : α} {s : List α} (h : nextRun d s = none) : runs d s = [] := by
  rw [nextRun_eq_none h, ← List.append_nil (List.replicate _ _), runs_replicate_append, runs_nil]

/-- **Unrolling**: the first run, then the runs of the remainder. -/
theorem runs_eq_cons_of_nextRun {d : α} {s w t : List α} (h : nextRun d s = some (w, t)) :
    runs d s = w :: runs d t := by
  obtain ⟨hne, hmem, k, ⟨rfl, rfl⟩ | rfl⟩ := nextRun_shape h
  · rw [runs_replicate_append, runs_of_not_mem hne hmem, runs_nil]
  · rw [runs_replicate_append, runs_append_cons hne hmem]

/-- The first run; empty if there is none. -/
def firstRun (d : α) (s : List α) : List α :=
  (runs d s).headD []

/-- The text behind the delimiter that ends the first run. -/
def textAfter (d : α) (s : List α) : List α :=
  ((s.dropWhile (· == d)).dropWhile (· != d)).tail

theorem textAfter_eq_of_nextRun {d : α} {w t : List α} : ∀ {s : List α},
    nextRun d s = some (w, t) → textAfter d s = t
  | [], h => by simp [nextRun] at h
  | c :: cs, h => by
    rcases eq_or_ne c d with hc | hc
    · rw [nextRun, if_pos hc] at h
      rw [textAfter, List.dropWhile_cons, if_pos (by simpa using hc)]
      exact textAfter_eq_of_nextRun h
    · rw [nextRun, if_neg hc, Option.some.injEq, Prod.mk.injEq] at h
      rw [textAfter, List.dropWhile_cons, if_neg (by simpa using hc), h.2]

/-- A text with a run gives its first one, and what stands behind it. -/
theorem nextRun_eq {d : α} {s : List α} (h : runs d s ≠ []) :
    nextRun d s = some (firstRun d s, textAfter d s) := by
  rcases hn : nextRun d s with _ | ⟨w, t⟩
  · exact absurd (runs_eq_nil_of_nextRun hn) h
  · rw [firstRun, runs_eq_cons_of_nextRun hn, textAfter_eq_of_nextRun hn, List.headD_cons]

/-- A run is made of something other than delimiters. -/
theorem exists_ne_of_nextRun {d : α} {s w t : List α} (h : nextRun d s = some (w, t)) :
    ∃ c ∈ s, c ≠ d := by
  obtain ⟨hne, hmem, -⟩ := nextRun_shape h
  obtain ⟨c, w, rfl⟩ := List.exists_cons_of_ne_nil hne
  exact ⟨c, mem_of_mem_nextRun_fst h List.mem_cons_self, fun hc ↦ hmem (hc ▸ List.mem_cons_self)⟩

theorem not_exists_ne_of_nextRun {d : α} {s : List α} (h : nextRun d s = none) :
    ¬ ∃ c ∈ s, c ≠ d := by
  rintro ⟨c, hc, hne⟩
  rw [nextRun_eq_none h] at hc
  exact hne (List.eq_of_mem_replicate hc)

/-- Anything but the delimiter is in a run. -/
theorem runs_ne_nil {d : α} {s : List α} (h : ∃ c ∈ s, c ≠ d) : runs d s ≠ [] := by
  rcases hn : nextRun d s with _ | ⟨w, t⟩
  · exact absurd h (not_exists_ne_of_nextRun hn)
  · rw [runs_eq_cons_of_nextRun hn]
    exact List.cons_ne_nil _ _

/-- A text that starts with a run. -/
theorem nextRun_append_cons {d : α} {w : List α} (hne : w ≠ []) (hd : d ∉ w) (t : List α) :
    nextRun d (w ++ d :: t) = some (w, t) := by
  obtain ⟨c, w, rfl⟩ := List.exists_cons_of_ne_nil hne
  have hc : c ≠ d := fun h ↦ hd (h ▸ List.mem_cons_self)
  rw [List.cons_append, nextRun, if_neg hc, ← List.cons_append, takeWhile_append_cons hd,
    dropWhile_append_cons hd, List.tail_cons]

/-- Runs that are joined by delimiters are found again. -/
theorem runs_intercalate {d : α} {ws : List (List α)} (h : ∀ w ∈ ws, w ≠ [] ∧ d ∉ w) :
    runs d ([d].intercalate ws) = ws := by
  rcases ws with _ | ⟨w, ws⟩
  · exact runs_nil d
  · rw [runs, List.splitOn_intercalate d (fun w hw ↦ (h w hw).2) (List.cons_ne_nil _ _)]
    exact List.filter_eq_self.2 fun w hw ↦ by simpa using (h w hw).1

/-! ### Texts that are put together -/

/-- The text contributes these runs, whatever stands behind it. -/
def AddsRuns (d : α) (s : List α) (ws : List (List α)) : Prop :=
  ∀ t, runs d (s ++ t) = ws ++ runs d t

namespace AddsRuns

variable {d : α}

/-- Delimiters contribute nothing. -/
theorem replicate (d : α) (k : ℕ) : AddsRuns d (List.replicate k d) [] :=
  runs_replicate_append d k

/-- A run with its delimiter. -/
theorem run {w : List α} (hne : w ≠ []) (hd : d ∉ w) : AddsRuns d (w ++ [d]) [w] := fun t ↦ by
  rw [List.append_assoc]
  exact runs_append_cons hne hd t

theorem append {s t : List α} {ws vs : List (List α)} (hs : AddsRuns d s ws)
    (ht : AddsRuns d t vs) : AddsRuns d (s ++ t) (ws ++ vs) := fun u ↦ by
  rw [List.append_assoc, hs, ht, List.append_assoc]

theorem flatMap {ι : Type*} {f : ι → List α} {g : ι → List (List α)}
    (h : ∀ i, AddsRuns d (f i) (g i)) (l : List ι) : AddsRuns d (l.flatMap f) (l.flatMap g) := by
  induction l with
  | nil => exact replicate d 0
  | cons i l ih =>
    rw [List.flatMap_cons, List.flatMap_cons]
    exact (h i).append ih

theorem runs_eq {s : List α} {ws : List (List α)} (h : AddsRuns d s ws) : runs d s = ws := by
  have hnil := h []
  rwa [List.append_nil, runs_nil, List.append_nil] at hnil

end AddsRuns

/-! ### The pieces that a delimiter has ended -/

/-- The pieces of a text that a delimiter ends, the empty ones included. -/
def completed (d : α) (s : List α) : List (List α) :=
  (s.splitOn d).dropLast

/-- The text behind the last delimiter. -/
def unfinished (d : α) (s : List α) : List α :=
  (s.splitOn d).getLastD []

theorem completed_of_not_mem {d : α} {w : List α} (hd : d ∉ w) : completed d w = [] := by
  rw [completed, List.splitOn_eq_singleton hd]
  rfl

theorem unfinished_of_not_mem {d : α} {w : List α} (hd : d ∉ w) : unfinished d w = w := by
  rw [unfinished, List.splitOn_eq_singleton hd]
  rfl

/-- A delimiter ends the piece before it. -/
theorem completed_append_cons {d : α} {w : List α} (hd : d ∉ w) (t : List α) :
    completed d (w ++ d :: t) = w :: completed d t := by
  rw [completed, List.splitOn_append_cons_self_of_not_mem hd,
    List.dropLast_cons_of_ne_nil (List.splitOn_ne_nil d t), completed]

theorem unfinished_append_cons {d : α} {w : List α} (hd : d ∉ w) (t : List α) :
    unfinished d (w ++ d :: t) = unfinished d t := by
  obtain ⟨x, xs, hx⟩ := List.exists_cons_of_ne_nil (List.splitOn_ne_nil d t)
  rw [unfinished, List.splitOn_append_cons_self_of_not_mem hd, unfinished, hx]
  rfl

/-- A text is one piece without the delimiter, or a piece that a delimiter ends and the rest. -/
theorem not_mem_or_eq_append_cons (d : α) (s : List α) :
    d ∉ s ∨ ∃ w t, d ∉ w ∧ s = w ++ d :: t := by
  obtain ⟨hmem, ⟨hs, -⟩ | hs⟩ := takeWhile_dropWhile_ne d s
  · exact .inl (hs ▸ hmem)
  · exact .inr ⟨_, _, hmem, hs⟩

theorem not_mem_unfinished (d : α) (s : List α) : d ∉ unfinished d s := by
  induction hn : s.length using Nat.strongRecOn generalizing s with
  | _ n ih =>
    obtain hs | ⟨w, t, hw, rfl⟩ := not_mem_or_eq_append_cons d s
    · rwa [unfinished_of_not_mem hs]
    · rw [unfinished_append_cons hw]
      refine ih t.length ?_ t rfl
      simp only [List.length_append, List.length_cons] at hn
      omega

/-- **Cutting a text**: the pieces of the first part, then those of its open end and the second
part. -/
theorem completed_append (d : α) (s t : List α) :
    completed d (s ++ t) = completed d s ++ completed d (unfinished d s ++ t) ∧
      unfinished d (s ++ t) = unfinished d (unfinished d s ++ t) := by
  induction hn : s.length using Nat.strongRecOn generalizing s with
  | _ n ih =>
    obtain hs | ⟨w, u, hw, rfl⟩ := not_mem_or_eq_append_cons d s
    · rw [completed_of_not_mem hs, unfinished_of_not_mem hs]
      exact ⟨rfl, rfl⟩
    · simp only [List.length_append, List.length_cons] at hn
      obtain ⟨hc, hu⟩ := ih u.length (by omega) u rfl
      rw [List.append_assoc, List.cons_append, completed_append_cons hw, completed_append_cons hw,
        unfinished_append_cons hw, unfinished_append_cons hw, hc, hu, List.cons_append]
      exact ⟨rfl, rfl⟩

end EspBode
