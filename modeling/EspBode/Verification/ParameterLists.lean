import EspBode.Verification.Readings

/-!
# Parameter lists

The lines a client writes to set a channel: commands that turn the output on or off, and commands
that set parameters by pairs of a name and a value. What such a line means is read off the pairs
(`wantedLines`), each setting with the place of its tokens.

The parser has no pairs. It takes every token that begins with an entry of its table for a name,
so a line is read as it is meant exactly if no other token begins with one (`Unambiguous`). That it
is read as meant says of each setting which tokens it was made from, and not only which value it
has: a value that comes from the wrong pair is wrong also when the numbers happen to agree.

`parameterLists_iff` is for any number of commands with any number of pairs. The equivalence is
proved level by level, and the direction that needs care is the same in each of them: a list that is
read wrongly must not look right by accident.

* **Pairs** (`readParameters_pairs_iff`), by induction. A token that is wrongly taken for a name
  makes a setting with a place where no setting is meant, and later tokens cannot make up for it,
  since the places only grow (`not_wantedPairs_of_head`).
* **Commands**: the tokens of a command are found again in its text, because valid pairs are plain.
* **Lines**: the settings carry the number of their command, so the settings of a line are equal
  exactly if they are command by command (`append_eq_append_iff_of_forall`).
-/

namespace EspBode

namespace Scpi

/-! ### Lines as they are written -/

/-- A name and its value. -/
abbrev Pair := List UInt8 × List UInt8

/-- A command of a channel line. -/
inductive ChannelCommand
  /-- The output on or off, and pairs that do not concern it. -/
  | outp (on : Bool) (pairs : List Pair)
  /-- Wave parameters. -/
  | bswv (pairs : List Pair)

/-- The tokens of the pairs. -/
def pairTokens (pairs : List Pair) : List (List UInt8) :=
  pairs.flatMap fun p ↦ [p.1, p.2]

/-- ON or OFF. -/
def outputState (on : Bool) : List UInt8 :=
  if on then ascii "ON" else ascii "OFF"

namespace ChannelCommand

/-- The pairs of a command. -/
def pairs : ChannelCommand → List Pair
  | outp _ pairs => pairs
  | bswv pairs => pairs

/-- The header of a command. -/
def header : ChannelCommand → List UInt8
  | outp _ _ => ascii "OUTP"
  | bswv _ => ascii "BSWV"

theorem header_eq (c : ChannelCommand) : c.header = ascii "OUTP" ∨ c.header = ascii "BSWV" := by
  cases c
  · exact .inl rfl
  · exact .inr rfl

/-- The tokens of the parameter list. -/
def tokens : ChannelCommand → List (List UInt8)
  | outp on pairs => outputState on :: pairTokens pairs
  | bswv pairs => pairTokens pairs

/-- A command as it is written. -/
def text (c : ChannelCommand) : List UInt8 :=
  c.header ++ preParametersDelimiter :: [parametersDelimiter].intercalate c.tokens

end ChannelCommand

/-- A line for one of the two channels. -/
def channelLine (second : Bool) (commands : List ChannelCommand) : List UInt8 :=
  (if second then ascii "C2" else ascii "C1") ++
    initiatorDelimiter :: [commandDelimiter].intercalate (commands.map ChannelCommand.text)

/-- A non-empty string without comma, semicolon or space. -/
def Plain (t : List UInt8) : Prop :=
  t ≠ [] ∧ parametersDelimiter ∉ t ∧ commandDelimiter ∉ t ∧ preParametersDelimiter ∉ t

instance (t : List UInt8) : Decidable (Plain t) :=
  inferInstanceAs (Decidable (_ ∧ _))

/-- The numeric parameter of exactly this name. -/
def numericName (t : List UInt8) : Option ℕ :=
  if t = ascii "FRQ" then some frequency
  else if t = ascii "AMP" then some amplitude
  else if t = ascii "OFST" then some offset
  else if t = ascii "PHSE" then some phase
  else none

/-- The pair is made of plain strings, with a number where the name asks for one. -/
structure ValidPair (p : Pair) : Prop where
  name : Plain p.1
  value : Plain p.2
  number : numericName p.1 ≠ none → sscanfLf p.2 ≠ none

/-! ### What lines mean -/

/-- The settings of the pairs from the token `i` on: one for each pair with a name of the table. -/
def wantedPairs (line : ℕ) : ℕ → List Pair → List Reading
  | _, [] => []
  | i, (name, value) :: pairs =>
    if name = ascii "WVTP" then
      ⟨line, i, wave, some value, .ofNat Siglent.sine⟩ :: wantedPairs line (i + 2) pairs
    else match numericName name with
      | some id =>
        ⟨line, i, id, some value, (sscanfLf value).getD .nan⟩ :: wantedPairs line (i + 2) pairs
      | none => wantedPairs line (i + 2) pairs

/-- The settings of a command. -/
def wanted (line : ℕ) : ChannelCommand → List Reading
  | .outp on _ =>
    [⟨line, 0, if on then outputOn else outputOff, none, .ofNat (if on then 1 else 0)⟩]
  | .bswv pairs => wantedPairs line 0 pairs

/-- The settings of the commands, in order; the first one stands on the line `k`. -/
def wantedLines : ℕ → List ChannelCommand → List Reading
  | _, [] => []
  | k, c :: cs => wanted k c ++ wantedLines (k + 1) cs

/-- The token begins with an entry of the table. -/
def LooksLikeName (t : List UInt8) : Prop :=
  ∃ id ∈ parameters, id <+: t

instance (t : List UInt8) : Decidable (LooksLikeName t) :=
  inferInstanceAs (Decidable (∃ id ∈ parameters, id <+: t))

/-- Only the tokens that are meant as names look like names. -/
def Unambiguous : ChannelCommand → Prop
  | .outp _ pairs => ∀ p ∈ pairs, ¬ LooksLikeName p.1 ∧ ¬ LooksLikeName p.2
  | .bswv pairs => ∀ p ∈ pairs,
      p.1 ∈ [ascii "WVTP", ascii "FRQ", ascii "AMP", ascii "OFST", ascii "PHSE"] ∨
        ¬ LooksLikeName p.1 ∧ ¬ LooksLikeName p.2

/-! ### What looks like a name -/

theorem looksLikeName_iff (t : List UInt8) : LooksLikeName t ↔ findId parameters t ≠ none := by
  rw [findId, Ne, List.findIdx?_eq_none_iff, LooksLikeName]
  simp

/-- A name of the table is found under its id. -/
theorem findId_of_numericName {t : List UInt8} {id : ℕ} (h : numericName t = some id) :
    findId parameters t = some id ∧ ¬ (id = outputOff ∨ id = outputOn) ∧ id ≠ wave := by
  unfold numericName at h
  split_ifs at h with h₁ h₂ h₃ h₄ <;> (cases h; subst_vars; decide)

/-- The five names of wave parameters. -/
theorem mem_waveNames_iff (t : List UInt8) :
    t ∈ [ascii "WVTP", ascii "FRQ", ascii "AMP", ascii "OFST", ascii "PHSE"] ↔
      t = ascii "WVTP" ∨ numericName t ≠ none := by
  simp only [List.mem_cons, List.not_mem_nil, or_false, numericName]
  split_ifs <;> simp_all

/-- **A token that looks like a name is read as one**, or the list ends at a null token. -/
theorem head_readParameters {line i : ℕ} {t : List UInt8} {ts : List (List UInt8)} {value : Double}
    (h : LooksLikeName t) :
    readParameters line i (t :: ts) value = .null ∨
      ∃ r rest, (readParameters line i (t :: ts) value).readings = r :: rest ∧ r.index = i := by
  obtain ⟨id, hid⟩ := Option.ne_none_iff_exists'.1 ((looksLikeName_iff t).1 h)
  rw [readParameters, hid]
  dsimp only
  by_cases hset : id = outputOff ∨ id = outputOn
  · rw [if_pos hset]
    exact .inr ⟨_, _, rfl, rfl⟩
  rw [if_neg hset]
  rcases ts with _ | ⟨v, ts⟩
  · dsimp only
    split_ifs
    · exact .inr ⟨_, _, rfl, rfl⟩
    · exact .inl rfl
  · exact .inr ⟨_, _, rfl, rfl⟩

/-- A token that does not is passed over. -/
theorem readParameters_of_not_looksLikeName {line i : ℕ} {t : List UInt8} {ts : List (List UInt8)}
    {value : Double} (h : ¬ LooksLikeName t) :
    readParameters line i (t :: ts) value = readParameters line (i + 1) ts value := by
  have hnone : findId parameters t = none := by simpa using (looksLikeName_iff t).not.1 h
  rw [readParameters, hnone]

/-- Nothing is read off a list exactly if nothing in it looks like a name. -/
theorem readParameters_eq_stop_iff (line : ℕ) {ts : List (List UInt8)} :
    ∀ {i : ℕ} {value : Double},
      readParameters line i ts value = .stop ↔ ∀ t ∈ ts, ¬ LooksLikeName t := by
  induction ts with
  | nil => simp [readParameters]
  | cons t ts ih =>
    intro i value
    rw [List.forall_mem_cons]
    by_cases ht : LooksLikeName t
    · refine iff_of_false (fun hstop ↦ ?_) fun h ↦ h.1 ht
      rcases @head_readParameters line i t ts value ht with h | h
      · exact absurd (h.symm.trans hstop) (by decide)
      · obtain ⟨r, rest, h, -⟩ := h
        rw [hstop] at h
        exact List.cons_ne_nil _ _ h.symm
    · rw [readParameters_of_not_looksLikeName ht, ih]
      exact ⟨fun h ↦ ⟨ht, h⟩, fun h ↦ h.2⟩

/-! ### Pairs -/

/-- The settings of pairs come from the pairs. -/
theorem of_mem_wantedPairs (line : ℕ) {pairs : List Pair} :
    ∀ {i : ℕ}, ∀ r ∈ wantedPairs line i pairs, r.line = line ∧ i ≤ r.index := by
  induction pairs with
  | nil => simp [wantedPairs]
  | cons p pairs ih =>
    intro i r hr
    have hrest : ∀ r ∈ wantedPairs line (i + 2) pairs, r.line = line ∧ i ≤ r.index := fun r hr ↦
      ⟨(ih r hr).1, Nat.le_trans (Nat.le_add_right i 2) (ih r hr).2⟩
    rw [wantedPairs] at hr
    split_ifs at hr
    · rcases List.mem_cons.1 hr with rfl | hr
      · exact ⟨rfl, le_rfl⟩
      · exact hrest r hr
    · split at hr
      · rcases List.mem_cons.1 hr with rfl | hr
        · exact ⟨rfl, le_rfl⟩
        · exact hrest r hr
      · exact hrest r hr

/-- A trace whose first setting comes from a token before `j` is not one of pairs from `j` on. -/
theorem not_wantedPairs_of_head {line i j : ℕ} {pairs : List Pair} {t : Trace} (hlt : i < j)
    (h : t = .null ∨ ∃ r rest, t.readings = r :: rest ∧ r.index = i) :
    t ≠ ⟨wantedPairs line j pairs, false⟩ := by
  rintro rfl
  rcases h with h | ⟨r, rest, h, hi⟩
  · exact Bool.false_ne_true (congrArg Trace.nullToken h)
  · have hmem : r ∈ wantedPairs line j pairs := by
      rw [show wantedPairs line j pairs = r :: rest from h]
      exact List.mem_cons_self
    have := (of_mem_wantedPairs line r hmem).2
    omega

/-- **Pairs are read as they are meant exactly if nothing else looks like a name.** The induction is
on the pairs; a token that is wrongly taken for a name is seen at its place. -/
theorem readParameters_pairs_iff (line : ℕ) {pairs : List Pair} :
    ∀ {i : ℕ} {value : Double}, (∀ p ∈ pairs, ValidPair p) →
      (readParameters line i (pairTokens pairs) value = ⟨wantedPairs line i pairs, false⟩ ↔
        Unambiguous (.bswv pairs)) := by
  induction pairs with
  | nil => exact fun _ ↦ iff_of_true rfl fun _ h ↦ absurd h List.not_mem_nil
  | cons p pairs ih =>
    obtain ⟨name, v⟩ := p
    intro i value hvalid
    have hrest : ∀ p ∈ pairs, ValidPair p := fun p hp ↦ hvalid p (List.mem_cons_of_mem _ hp)
    have hnumber := (hvalid _ List.mem_cons_self).number
    have htokens : pairTokens ((name, v) :: pairs) = name :: v :: pairTokens pairs := rfl
    have hcons : ∀ (r : Reading) (t : Trace) (rs : List Reading),
        Trace.cons r t = ⟨r :: rs, false⟩ ↔ t = ⟨rs, false⟩ := by
      rintro r ⟨readings, nullToken⟩ rs
      simp [Trace.cons]
    rw [Unambiguous, List.forall_mem_cons, ← Unambiguous, mem_waveNames_iff, htokens, wantedPairs]
    rcases eq_or_ne name (ascii "WVTP") with hwave | hwave
    · subst hwave
      rw [if_pos rfl, readParameters, show findId parameters (ascii "WVTP") = some wave by decide]
      dsimp only
      rw [if_neg (by decide), if_pos rfl, hcons, ih hrest]
      simp
    rw [if_neg hwave]
    rcases hname : numericName name with _ | id
    · by_cases hn : LooksLikeName name
      · refine iff_of_false (not_wantedPairs_of_head (Nat.lt_add_of_pos_right (by decide))
          (head_readParameters hn)) ?_
        simp [hwave, hn]
      · -- an unknown name is passed over, and then its value stands where a name would
        rw [readParameters_of_not_looksLikeName hn]
        by_cases hv : LooksLikeName v
        · refine iff_of_false (not_wantedPairs_of_head (Nat.lt_succ_self (i + 1))
            (head_readParameters hv)) ?_
          simp [hwave, hv]
        · rw [readParameters_of_not_looksLikeName hv, ih hrest]
          simp [hn, hv]
    · obtain ⟨hid, hset, hne⟩ := findId_of_numericName hname
      obtain ⟨x, hx⟩ := Option.ne_none_iff_exists'.1 (hnumber (by simp [hname]))
      rw [readParameters, hid]
      dsimp only
      rw [if_neg hset, if_neg hne, hx]
      dsimp only [Option.getD_some]
      rw [hcons, ih hrest]
      simp

/-! ### Commands -/

/-- The tokens of valid pairs are plain. -/
theorem plain_of_mem_pairTokens {pairs : List Pair} (h : ∀ p ∈ pairs, ValidPair p) :
    ∀ t ∈ pairTokens pairs, Plain t := by
  intro t ht
  obtain ⟨p, hp, ht⟩ := List.mem_flatMap.1 ht
  rcases List.mem_cons.1 ht with rfl | ht
  · exact (h p hp).name
  · exact List.mem_singleton.1 ht ▸ (h p hp).value

theorem ChannelCommand.plain_of_mem_tokens {c : ChannelCommand} (h : ∀ p ∈ c.pairs, ValidPair p) :
    ∀ t ∈ c.tokens, Plain t := by
  cases c with
  | outp on pairs =>
    refine List.forall_mem_cons.2 ⟨?_, plain_of_mem_pairTokens h⟩
    cases on <;> decide
  | bswv pairs => exact plain_of_mem_pairTokens h

/-- The parser finds the tokens of a command. -/
theorem readCommand_text (k : ℕ) {c : ChannelCommand} (h : ∀ p ∈ c.pairs, ValidPair p)
    (uninit : Double) : readCommand k c.text uninit = readParameters k 0 c.tokens uninit := by
  have hheader : c.header ≠ [] ∧ preParametersDelimiter ∉ c.header := by
    rcases c.header_eq with h | h <;> rw [h] <;> decide
  have hruns : runs parametersDelimiter ([parametersDelimiter].intercalate c.tokens) = c.tokens :=
    runs_intercalate fun t ht ↦
      ⟨(c.plain_of_mem_tokens h t ht).1, (c.plain_of_mem_tokens h t ht).2.1⟩
  rw [readCommand, ChannelCommand.text, nextRun_append_cons hheader.1 hheader.2]
  dsimp only
  rw [hruns]
  cases c with
  | outp on pairs =>
    have hid : findId commands (ascii "OUTP") = some setOutput := by decide
    rw [ChannelCommand.header, hid]
    rfl
  | bswv pairs =>
    have hid : findId commands (ascii "BSWV") = some setParameters := by decide
    rw [ChannelCommand.header, hid]
    rfl

/-- **A command is read as it is meant exactly if it is unambiguous.** -/
theorem readCommand_text_iff (k : ℕ) {c : ChannelCommand} (h : ∀ p ∈ c.pairs, ValidPair p)
    (uninit : Double) :
    readCommand k c.text uninit = ⟨wanted k c, false⟩ ↔ Unambiguous c := by
  rw [readCommand_text k h]
  cases c with
  | bswv pairs => exact readParameters_pairs_iff k h
  | outp on pairs =>
    have hfirst : readParameters k 0 (ChannelCommand.outp on pairs).tokens uninit =
        .cons ⟨k, 0, if on then outputOn else outputOff, none, .ofNat (if on then 1 else 0)⟩
          (readParameters k 1 (pairTokens pairs) (.ofNat (if on then 1 else 0))) := by
      rw [ChannelCommand.tokens, readParameters]
      cases on
      · rw [show findId parameters (outputState false) = some outputOff by decide]
        rfl
      · rw [show findId parameters (outputState true) = some outputOn by decide]
        rfl
    have hstop : ∀ (r : Reading) (t : Trace), Trace.cons r t = ⟨[r], false⟩ ↔ t = .stop := by
      rintro r ⟨readings, nullToken⟩
      simp [Trace.cons, Trace.stop]
    rw [hfirst, wanted, hstop, readParameters_eq_stop_iff]
    constructor
    · intro h p hp
      exact ⟨h _ (List.mem_flatMap.2 ⟨p, hp, by simp⟩), h _ (List.mem_flatMap.2 ⟨p, hp, by simp⟩)⟩
    · intro h t ht
      obtain ⟨p, hp, ht⟩ := List.mem_flatMap.1 ht
      rcases List.mem_cons.1 ht with rfl | ht
      · exact (h p hp).1
      · exact List.mem_singleton.1 ht ▸ (h p hp).2

/-! ### Lines -/

theorem line_of_mem_readParameters (line : ℕ) : ∀ (i : ℕ) (ts : List (List UInt8))
    (value : Double), ∀ r ∈ (readParameters line i ts value).readings, r.line = line
  | _, [], _ => by simp [readParameters, Trace.stop]
  | i, t :: ts, value => by
    have hcons : ∀ (r' : Reading) (t : Trace), r'.line = line → (∀ r ∈ t.readings, r.line = line) →
        ∀ r ∈ (Trace.cons r' t).readings, r.line = line := fun r' t h ht ↦
      List.forall_mem_cons.2 ⟨h, ht⟩
    rw [readParameters]
    rcases findId parameters t with _ | id
    · exact line_of_mem_readParameters line _ ts _
    dsimp only
    by_cases hset : id = outputOff ∨ id = outputOn
    · rw [if_pos hset]
      exact hcons _ _ rfl (line_of_mem_readParameters line _ ts _)
    rw [if_neg hset]
    rcases ts with _ | ⟨v, ts⟩
    · dsimp only
      split_ifs
      · exact hcons _ _ rfl fun r hr ↦ absurd hr List.not_mem_nil
      · exact fun r hr ↦ absurd hr List.not_mem_nil
    · exact hcons _ _ rfl (line_of_mem_readParameters line _ ts _)

theorem line_of_mem_wanted (k : ℕ) (c : ChannelCommand) : ∀ r ∈ wanted k c, r.line = k := by
  cases c with
  | outp on pairs => simp [wanted]
  | bswv pairs => exact fun r hr ↦ (of_mem_wantedPairs k r hr).1

theorem le_line_of_mem_wantedLines {cs : List ChannelCommand} :
    ∀ {k : ℕ}, ∀ r ∈ wantedLines k cs, k ≤ r.line := by
  induction cs with
  | nil => simp [wantedLines]
  | cons c cs ih =>
    intro k r hr
    rcases List.mem_append.1 hr with hr | hr
    · exact (line_of_mem_wanted k c r hr).ge
    · exact Nat.le_of_succ_le (ih r hr)

theorem le_line_of_mem_readCommands (uninit : ℕ → Double) {cs : List ChannelCommand} :
    ∀ {k : ℕ}, (∀ c ∈ cs, ∀ p ∈ c.pairs, ValidPair p) →
      ∀ r ∈ (readCommands uninit k (cs.map ChannelCommand.text)).readings, k ≤ r.line := by
  induction cs with
  | nil => simp [readCommands, Trace.stop]
  | cons c cs ih =>
    intro k h r hr
    have hfirst := line_of_mem_readParameters k 0 c.tokens (uninit k)
    rw [List.map_cons, readCommands, readCommand_text k (h c List.mem_cons_self),
      Trace.append] at hr
    split_ifs at hr
    · exact (hfirst r hr).ge
    · rcases List.mem_append.1 hr with hr | hr
      · exact (hfirst r hr).ge
      · exact Nat.le_of_succ_le (ih (fun c hc ↦ h c (List.mem_cons_of_mem _ hc)) r hr)

/-- Lists whose parts can be told apart are equal part by part. -/
theorem append_eq_append_iff_of_forall {α : Type*} {P : α → Prop} [DecidablePred P]
    {as bs as' bs' : List α} (ha : ∀ a ∈ as, P a) (ha' : ∀ a ∈ as', P a) (hb : ∀ b ∈ bs, ¬ P b)
    (hb' : ∀ b ∈ bs', ¬ P b) : as ++ bs = as' ++ bs' ↔ as = as' ∧ bs = bs' := by
  constructor
  · intro h
    have hfilter := congrArg (List.filter P) h
    rw [List.filter_append, List.filter_append, List.filter_eq_self.2 (by simpa using ha),
      List.filter_eq_nil_iff.2 (by simpa using hb), List.filter_eq_self.2 (by simpa using ha'),
      List.filter_eq_nil_iff.2 (by simpa using hb'), List.append_nil, List.append_nil] at hfilter
    subst hfilter
    exact ⟨rfl, List.append_cancel_left h⟩
  · rintro ⟨rfl, rfl⟩
    rfl

/-- **A line is read as it is meant exactly if its commands are unambiguous.** -/
theorem readCommands_text_iff (uninit : ℕ → Double) {cs : List ChannelCommand} :
    ∀ {k : ℕ}, (∀ c ∈ cs, ∀ p ∈ c.pairs, ValidPair p) →
      (readCommands uninit k (cs.map ChannelCommand.text) = ⟨wantedLines k cs, false⟩ ↔
        ∀ c ∈ cs, Unambiguous c) := by
  induction cs with
  | nil => exact fun _ ↦ iff_of_true rfl fun _ h ↦ absurd h List.not_mem_nil
  | cons c cs ih =>
    intro k h
    have hc := h c List.mem_cons_self
    have hcs := fun c hc ↦ h c (List.mem_cons_of_mem _ hc)
    have hreadings := line_of_mem_readParameters k 0 c.tokens (uninit k)
    have hlater := le_line_of_mem_readCommands uninit (k := k + 1) hcs
    rw [List.forall_mem_cons, ← readCommand_text_iff k hc (uninit k), ← ih (k := k + 1) hcs,
      List.map_cons, readCommands, wantedLines]
    rw [← readCommand_text k hc (uninit k)] at hreadings
    generalize readCommand k c.text (uninit k) = t at hreadings
    generalize readCommands uninit (k + 1) (cs.map ChannelCommand.text) = t' at hlater
    obtain ⟨readings, _ | _⟩ := t
    · obtain ⟨readings', nullToken⟩ := t'
      show Trace.mk (readings ++ readings') nullToken = _ ↔ _
      rw [Trace.mk.injEq, Trace.mk.injEq, Trace.mk.injEq,
        append_eq_append_iff_of_forall (P := fun r ↦ r.line = k) hreadings
          (line_of_mem_wanted k c) (fun r hr ↦ Nat.ne_of_gt (hlater r hr))
          fun r hr ↦ Nat.ne_of_gt (le_line_of_mem_wantedLines r hr)]
      simp [and_assoc]
    · simp [Trace.append]

/-! ### Channel lines -/

/-- A command is a command line. -/
theorem text_ne_nil_and_not_mem {c : ChannelCommand} (h : ∀ p ∈ c.pairs, ValidPair p) :
    c.text ≠ [] ∧ commandDelimiter ∉ c.text := by
  have hheader : c.header ≠ [] ∧ commandDelimiter ∉ c.header := by
    rcases c.header_eq with h | h <;> rw [h] <;> decide
  have hlist : commandDelimiter ∉ [parametersDelimiter].intercalate c.tokens := by
    have hplain := c.plain_of_mem_tokens h
    generalize c.tokens = ts at hplain
    induction ts with
    | nil => exact List.not_mem_nil
    | cons t ts ih =>
      obtain ⟨ht, hts⟩ := List.forall_mem_cons.1 hplain
      rcases ts with _ | ⟨t', ts⟩
      · rw [List.intercalate_singleton]
        exact ht.2.2.1
      · rw [List.intercalate_cons_cons]
        have hne : commandDelimiter ≠ parametersDelimiter := by decide
        simp [ht.2.2.1, hne, ih hts]
  have hne : commandDelimiter ≠ preParametersDelimiter := by decide
  refine ⟨by simp [ChannelCommand.text], ?_⟩
  simp [ChannelCommand.text, hheader.2, hlist, hne]

/-- The parser finds the channel and the commands of a channel line. -/
theorem lineTrace_channelLine (second : Bool) {cs : List ChannelCommand}
    (h : ∀ c ∈ cs, ∀ p ∈ c.pairs, ValidPair p) (uninit : ℕ → Double) :
    lineTrace (channelLine second cs) uninit =
      (if second then 2 else 1, readCommands uninit 0 (cs.map ChannelCommand.text)) := by
  have hruns : runs commandDelimiter
      ([commandDelimiter].intercalate (cs.map ChannelCommand.text)) =
        cs.map ChannelCommand.text := by
    refine runs_intercalate fun t ht ↦ ?_
    obtain ⟨c, hc, rfl⟩ := List.mem_map.1 ht
    exact text_ne_nil_and_not_mem (h c hc)
  have hinitiator : ∀ w ∈ [ascii "C1", ascii "C2"], w ≠ [] ∧ initiatorDelimiter ∉ w ∧
      findId initiators w = some channel := by decide
  have hmem : (if second then ascii "C2" else ascii "C1") ∈ [ascii "C1", ascii "C2"] := by
    cases second <;> decide
  have hchannel : channelOf (if second then ascii "C2" else ascii "C1") =
      if second then 2 else 1 := by
    cases second <;> decide
  obtain ⟨hne, hnot, hid⟩ := hinitiator _ hmem
  rw [lineTrace, channelLine, nextRun_append_cons hne hnot]
  dsimp only
  rw [hid]
  dsimp only
  rw [if_neg (by decide), hruns, hchannel]

end Scpi

open Scpi

/-- **Parameter lists mean what they say exactly if they are unambiguous.** That they do is that the
parser in place returns, and makes the settings that the line asks for, each from the tokens that
are meant. -/
theorem parameterLists_iff {n : ℕ} {b : Buffer n} {pos : ℕ} (second : Bool)
    {commands : List ChannelCommand} (hvalid : ∀ c ∈ commands, ∀ p ∈ c.pairs, ValidPair p)
    (hb : b.IsString pos (channelLine second commands)) (uninit : ℕ → Double) :
    ((∃ run, parseScpi b pos uninit = .ok run ∧ run.calls =
          (wantedLines 0 commands).map fun r ↦ ⟨if second then 2 else 1, r.id, r.value⟩) ∧
        (lineTrace (channelLine second commands) uninit).2.readings = wantedLines 0 commands) ↔
      ∀ c ∈ commands, Unambiguous c := by
  rw [← readCommands_text_iff uninit (k := 0) hvalid]
  have htrace := lineTrace_channelLine second hvalid uninit
  have hnull := parseScpi_eq_error_iff hb uninit
  rw [htrace] at hnull
  constructor
  · rintro ⟨⟨run, hrun, -⟩, hreadings⟩
    rw [htrace] at hreadings
    have hgood : ¬ (readCommands uninit 0 (commands.map ChannelCommand.text)).nullToken = true :=
      fun h ↦ by simp [hnull.2 h] at hrun
    generalize readCommands uninit 0 (commands.map ChannelCommand.text) = t at hreadings hgood
    obtain ⟨readings, _ | _⟩ := t
    · exact congrArg (Trace.mk · false) hreadings
    · exact absurd rfl hgood
  · intro hread
    rw [hread] at hnull htrace
    rcases hrun : parseScpi b pos uninit with e | run
    · have hfail := (parseScpi_simulates hb uninit).eq_error_iff.1 hrun
      obtain rfl := lineText_failsOnly _ _ e hfail
      exact absurd (hnull.1 hrun) Bool.false_ne_true
    · refine ⟨⟨run, rfl, ?_⟩, by rw [htrace]⟩
      rw [calls_eq_madeCalls hb hrun, madeCalls, htrace]
      rfl

/-- Two wave parameters, a name that is not in the table, and the output with a load. -/
def exampleCommands : List ChannelCommand :=
  [.bswv [(ascii "WVTP", ascii "SINE"), (ascii "STDEV", ascii "0.1"), (ascii "FRQ", ascii "1000")],
    .outp true [(ascii "LOAD", ascii "50")]]

theorem parameterLists_iff_exampleCommands :
    ∃ run, parseScpi ((Buffer.zero 128).patch 0 (channelLine true exampleCommands)) 0
        (fun _ ↦ .nan) = .ok run ∧
      run.calls = [⟨2, 2, .finite 0⟩, ⟨2, 3, .finite 1000⟩, ⟨2, 1, .finite 1⟩] := by
  have hvalid : ∀ c ∈ exampleCommands, ∀ p ∈ c.pairs, ValidPair p := by
    have hpairs : ∀ c ∈ exampleCommands, ∀ p ∈ c.pairs, Plain p.1 ∧ Plain p.2 ∧
        (numericName p.1 ≠ none → sscanfLf p.2 ≠ none) := by decide +kernel
    exact fun c hc p hp ↦ ⟨(hpairs c hc p hp).1, (hpairs c hc p hp).2.1, (hpairs c hc p hp).2.2⟩
  have hread : ∀ c ∈ exampleCommands, Unambiguous c := by
    refine List.forall_mem_cons.2 ⟨?_, List.forall_mem_singleton.2 ?_⟩ <;>
      · rw [Unambiguous]
        decide +kernel
  have hstands : ((Buffer.zero 128).patch 0 (channelLine true exampleCommands)).IsString 0
      (channelLine true exampleCommands) := ⟨by decide +kernel, by decide +kernel⟩
  obtain ⟨⟨run, hrun, hcalls⟩, -⟩ := (parameterLists_iff true hvalid hstands fun _ ↦ .nan).2 hread
  exact ⟨run, hrun, hcalls.trans (by decide +kernel)⟩

/-- **Names that extend a known one and values that look like a name are taken for names.** The line
asks for an amplitude of two volts; the parser sets it to half a volt after that, and turns the
output on. -/
theorem parameters_misread :
    (wantedLines 0 [.bswv [(ascii "AMP", ascii "2"), (ascii "AMPVRMS", ascii "0.5"),
        (ascii "STATE", ascii "ON")]]).map (fun r ↦ (r.id, r.value)) = [(4, .finite 2)] ∧
      ScpiRun.calls <$> parseScpi ((Buffer.zero 128).patch 0 (channelLine false
          [.bswv [(ascii "AMP", ascii "2"), (ascii "AMPVRMS", ascii "0.5"),
            (ascii "STATE", ascii "ON")]])) 0 (fun _ ↦ .nan) =
        .ok [⟨1, 4, .finite 2⟩, ⟨1, 4, .finite (1 / 2)⟩, ⟨1, 1, .finite 1⟩] := by
  constructor <;> decide +kernel

end EspBode
