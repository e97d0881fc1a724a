import EspBode.Verification.DriverRuns
import EspBode.Verification.ParameterLists

/-!
# The settings of channel lines

The lines by which the oscilloscope sets a channel, read by the semantics of the parser: a line of
valid and unambiguous commands is well-formed (`wellFormed_channelLine`), and it asks for exactly
the settings that its pairs mean (`settings_channelLine`), each number being read from the text that
stands behind its name.

A channel line is built from commands, and a command from pairs of a name and a value. What the
parser finds are tokens. So the proof goes through the text that a command is: the runs between
separators are found again, because no token of a valid command contains one
(`parameterList_text`), and the tokens are the names and values one behind the other.

**Unambiguous** is what keeps names and values apart. The parser takes a token in a place for names
for a name if it starts like one, and skips it otherwise; so a value behind an unknown name would be
taken for a name itself if it starts like one. The names of numbers and of the wave form take the
token behind them, whatever it is. With unambiguous pairs the walk over the tokens goes through the
pairs in step.

The channel is the number behind the letter, and a channel named by no number, or by 0, has the
letter of the first one on the panel (`channelLetter_eq_iff`). The last lemmas say where the number
in a setting comes from (`value_of_mem_wantedLines`), as the results about the panel need it.
-/

namespace EspBode

open Scpi

/-- The number of a channel. -/
def channelNumber (second : Bool) : UInt32 :=
  if second then 2 else 1

theorem channelNumber_le (second : Bool) : channelNumber second ≤ AwgFy.channels := by
  cases second <;> decide

/-- The letter on the panel tells the channel. A channel that is named by no number, or by 0, is the
first one. -/
theorem channelLetter_eq_iff {channel : UInt32} (h : channel ≤ AwgFy.channels) (second : Bool) :
    channelLetter channel = channelLetter (channelNumber second) ↔
      if second then channel = 2 else channel ≤ 1 := by
  have hchannels : ∀ c : UInt32, c = 0 ∨ c = 1 ∨ c = 2 →
      (channelLetter c = channelLetter (channelNumber second) ↔
        if second then c = 2 else c ≤ 1) := by
    rintro c (rfl | rfl | rfl) <;> cases second <;> decide
  refine hchannels channel ?_
  have hle := UInt32.le_iff_toNat_le.1 h
  have htwo : AwgFy.channels.toNat = 2 := rfl
  rw [← UInt32.toNat_inj, ← UInt32.toNat_inj, ← UInt32.toNat_inj]
  show channel.toNat = 0 ∨ channel.toNat = 1 ∨ channel.toNat = 2
  omega

section Lines

variable {second : Bool} {commands : List ChannelCommand} {pairs : List Pair}

/-- A token that looks like no name is none. -/
theorem not_name_of_not_looksLikeName {t : List UInt8} (h : ¬ LooksLikeName t) :
    ¬ ascii "OFF" <+: t ∧ ¬ ascii "ON" <+: t ∧ ¬ ascii "WVTP" <+: t ∧ numericId t = none := by
  have hnone : findId parameters t = none := not_not.1 ((looksLikeName_iff t).not.1 h)
  rw [findId_parameters] at hnone
  split_ifs at hnone with hoff hon hwave
  exact ⟨hoff, hon, hwave, hnone⟩

/-- Behind tokens of this kind no number is missing. -/
theorem numbersFollow_of_not_looksLikeName {ts : List (List UInt8)}
    (h : ∀ t ∈ ts, ¬ LooksLikeName t) : numbersFollow ts := by
  induction ts with
  | nil => rfl
  | cons t ts ih =>
    obtain ⟨ht, hts⟩ := List.forall_mem_cons.1 h
    obtain ⟨hoff, hon, hwave, hnumeric⟩ := not_name_of_not_looksLikeName ht
    rw [numbersFollow.eq_def]
    dsimp only
    rw [if_neg hoff, if_neg hon]
    rcases ts with _ | ⟨v, vs⟩
    · simp [hnumeric]
    · simpa [hwave, hnumeric] using ih hts

/-- In unambiguous pairs every name of a number is followed by one. -/
theorem numbersFollow_pairTokens (hvalid : ∀ p ∈ pairs, ValidPair p)
    (hclear : Unambiguous (.bswv pairs)) : numbersFollow (pairTokens pairs) := by
  induction pairs with
  | nil => rfl
  | cons p pairs ih =>
    obtain ⟨name, v⟩ := p
    obtain ⟨hpair, hpairs⟩ := List.forall_mem_cons.1 hvalid
    obtain ⟨hname, hnames⟩ := List.forall_mem_cons.1 hclear
    have hrest := ih hpairs hnames
    have hnumber : numericName name ≠ none → (sscanfLf v).isSome := fun h ↦
      Option.isSome_iff_ne_none.2 (hpair.number h)
    show numbersFollow (name :: v :: pairTokens pairs)
    rw [numbersFollow.eq_def]
    dsimp only
    rcases hname with hname | ⟨hname, hv⟩
    · simp only [List.mem_cons, List.not_mem_nil, or_false] at hname
      rcases hname with rfl | rfl | rfl | rfl | rfl
      · rw [if_neg (by decide), if_neg (by decide), if_pos (by decide)]
        exact hrest
      all_goals
        rw [if_neg (by decide), if_neg (by decide), if_neg (by decide), if_pos (by decide),
          hnumber (by decide)]
        exact hrest
    · obtain ⟨hoff, hon, hwave, hnumeric⟩ := not_name_of_not_looksLikeName hname
      obtain ⟨hoff', hon', hwave', hnumeric'⟩ := not_name_of_not_looksLikeName hv
      rw [if_neg hoff, if_neg hon, if_neg hwave, if_neg (by simp [hnumeric]),
        numbersFollow.eq_def]
      dsimp only
      rw [if_neg hoff', if_neg hon']
      generalize pairTokens pairs = ts at hrest
      rcases ts with _ | ⟨t, ts⟩
      · simp [hnumeric']
      · simpa [hwave', hnumeric'] using hrest

/-- The same for the tokens of a command. -/
theorem numbersFollow_tokens {c : ChannelCommand} (hvalid : ∀ p ∈ c.pairs, ValidPair p)
    (hclear : Unambiguous c) : numbersFollow c.tokens := by
  cases c with
  | bswv pairs => exact numbersFollow_pairTokens hvalid hclear
  | outp on pairs =>
    have hrest : numbersFollow (pairTokens pairs) := by
      refine numbersFollow_of_not_looksLikeName fun t ht ↦ ?_
      obtain ⟨p, hp, hmem⟩ := List.mem_flatMap.1 ht
      rcases List.mem_cons.1 hmem with rfl | hmem
      · exact (hclear p hp).1
      · exact List.mem_singleton.1 hmem ▸ (hclear p hp).2
    rw [ChannelCommand.tokens, numbersFollow.eq_def]
    cases on
    · exact hrest
    · exact hrest

/-- The tokens of a command are found again. -/
theorem parameterList_text {c : ChannelCommand} (hvalid : ∀ p ∈ c.pairs, ValidPair p) :
    parameterList c.text = c.tokens := by
  have hheader : c.header ≠ [] ∧ preParametersDelimiter ∉ c.header := by
    rcases c.header_eq with h | h <;> rw [h] <;> decide
  have hplain := c.plain_of_mem_tokens hvalid
  rw [parameterList, ChannelCommand.text,
    textAfter_eq_of_nextRun (nextRun_append_cons hheader.1 hheader.2 _),
    runs_intercalate fun t ht ↦ ⟨(hplain t ht).1, (hplain t ht).2.1⟩]

/-- **A line of valid and unambiguous commands is well-formed.** -/
theorem wellFormed_channelLine (hvalid : ∀ c ∈ commands, ∀ p ∈ c.pairs, ValidPair p)
    (hclear : ∀ c ∈ commands, Unambiguous c) (hnul : 0 ∉ channelLine second commands) :
    WellFormed (channelLine second commands) := by
  have hinitiator : (if second then ascii "C2" else ascii "C1") ≠ [] ∧
      initiatorDelimiter ∉ (if second then ascii "C2" else ascii "C1") := by
    cases second <;> decide
  have hnext := nextRun_append_cons hinitiator.1 hinitiator.2
    ([commandDelimiter].intercalate (commands.map ChannelCommand.text))
  have hlines : commandLines (channelLine second commands) =
      commands.map ChannelCommand.text := by
    rw [commandLines, channelLine, textAfter_eq_of_nextRun hnext]
    refine runs_intercalate fun t ht ↦ ?_
    obtain ⟨c, hc, rfl⟩ := List.mem_map.1 ht
    exact text_ne_nil_and_not_mem (hvalid c hc)
  refine ⟨hnul, ?_, ?_, ?_⟩
  · rw [channelLine, runs_eq_cons_of_nextRun hnext]
    exact List.cons_ne_nil _ _
  · rw [hlines, List.forall_mem_map]
    intro c _
    have hheader : ∃ x ∈ c.header, x ≠ preParametersDelimiter := by
      rcases c.header_eq with h | h <;> rw [h] <;> decide
    obtain ⟨x, hx, hne⟩ := hheader
    exact ⟨x, List.mem_append_left _ hx, hne⟩
  · rw [hlines, List.forall_mem_map]
    intro c hc _
    rw [parameterList_text (hvalid c hc)]
    exact numbersFollow_tokens (hvalid c hc) (hclear c hc)

/-- **Such a line asks for the settings that it means.** -/
theorem settings_channelLine (hvalid : ∀ c ∈ commands, ∀ p ∈ c.pairs, ValidPair p)
    (hclear : ∀ c ∈ commands, Unambiguous c) (hnul : 0 ∉ channelLine second commands) :
    settings (channelLine second commands) =
      (wantedLines 0 commands).map fun r ↦ ⟨channelNumber second, r.id, r.value⟩ := by
  obtain ⟨ch, readType, hline⟩ :=
    lineText_eq (wellFormed_channelLine hvalid hclear hnul) fun _ ↦ .nan
  have htrace := lineTrace_eq (channelLine second commands) fun _ ↦ .nan
  rw [lineTrace_channelLine second hvalid, (readCommands_text_iff _ hvalid).2 hclear, hline]
    at htrace
  exact (Except.ok.inj htrace).symm

/-- OFF, ON and the wave form are no numbers. -/
theorem not_frequency_le : ¬ frequency ≤ outputOff ∧ ¬ frequency ≤ outputOn ∧
    ¬ frequency ≤ wave := by
  decide

/-- A number that is set is read from the text behind its name. -/
theorem value_of_mem_wantedPairs (line : ℕ) : ∀ {i : ℕ}, ∀ r ∈ wantedPairs line i pairs,
    Scpi.frequency ≤ r.id → ∃ v, r.source = some v ∧ r.value = (sscanfLf v).getD .nan := by
  induction pairs with
  | nil => exact fun r hr ↦ absurd hr List.not_mem_nil
  | cons p pairs ih =>
    intro i
    rw [wantedPairs]
    split_ifs
    · exact List.forall_mem_cons.2 ⟨fun h ↦ absurd h not_frequency_le.2.2, ih⟩
    · rcases numericName p.1 with _ | id
      · exact ih
      · exact List.forall_mem_cons.2 ⟨fun _ ↦ ⟨p.2, rfl, rfl⟩, ih⟩

theorem value_of_mem_wantedLines : ∀ {line : ℕ}, ∀ r ∈ wantedLines line commands,
    Scpi.frequency ≤ r.id → ∃ v, r.source = some v ∧ r.value = (sscanfLf v).getD .nan := by
  induction commands with
  | nil => exact fun r hr ↦ absurd hr List.not_mem_nil
  | cons c commands ih =>
    intro line r hr
    rcases List.mem_append.1 hr with hr | hr
    · cases c with
      | bswv pairs => exact value_of_mem_wantedPairs line r hr
      | outp on pairs =>
        obtain rfl := List.mem_singleton.1 hr
        cases on
        · exact fun h ↦ absurd h not_frequency_le.1
        · exact fun h ↦ absurd h not_frequency_le.2.1
    · exact ih r hr

end Lines

end EspBode
