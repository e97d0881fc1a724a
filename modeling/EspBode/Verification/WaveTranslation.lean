import EspBode.Firmware.WaveTables
import EspBode.Foundations.Binary64
import EspBode.Verification.DriverRuns
import EspBode.Verification.ScpiText

/-!
# The full translation of wave forms, both ways

The table pairs wave forms of Siglent with wave forms of the FY series (`Equivalent`), each with at
most one. On the pairs the two directions of the full translation undo each other; any other wave
form becomes a sine wave, but for one: the word of the entry -1 is found in the table
(`translateWaveFull_spec`).

The specification is for all words in both directions. It rests on what the loop finds, the first
entry that is the wave form (`searchTable_spec`), and on two facts about the table that are checked
on its entries:

* no wave form of the FY series stands in it twice, so the first entry is the only one. The entry -1
  does, and there the first one counts;
* the conversion to 32 bits keeps the entries apart (`entryWord_injective`), so it makes no
  difference that words are compared and not the entries.

Because every access is at an index below the size of the table, neither direction leaves it.

**What the server asks for.** The value of a wave form is dropped by the parser, and a sine wave is
asked for in its place. So it makes no difference to the server which of the two translations is
compiled (`translations_agree`). That is a statement about all settings that the parser makes of a
line, and goes along the walk over its tokens.
-/

namespace EspBode

namespace AwgFy

/-- The wave form of Siglent has the given equivalent in the FY series. -/
def Equivalent (siglent fy : UInt32) : Prop :=
  ∃ e, waveTable[siglent.toNat]? = some e ∧ e ≠ -1 ∧ fy = entryWord e

/-- The word that an entry without an equivalent is converted to. -/
def noEquivalent : UInt32 :=
  entryWord (-1)

/-! ### The entries -/

theorem toNat_ofInt (x : ℤ) : (UInt32.ofInt x).toNat = (x % 2 ^ 32).toNat := by
  rw [UInt32.ofInt, UInt32.toNat_ofNat']
  omega

/-- The conversion keeps the entries apart. -/
theorem entryWord_injective : Function.Injective entryWord := by
  intro e e' h
  have hword := congrArg UInt32.toNat h
  have hlo := e.le_toInt
  have hhi := e.toInt_lt
  have hlo' := e'.le_toInt
  have hhi' := e'.toInt_lt
  rw [entryWord, entryWord, toNat_ofInt, toNat_ofInt] at hword
  apply Int8.toInt_inj.1
  omega

/-- No wave form of the FY series stands in the table twice. -/
theorem pairwise_waveTable : waveTable.Pairwise fun e e' ↦ e = e' → e = -1 := by
  decide

theorem toNat_entryWord_lt : ∀ e ∈ waveTable, e ≠ -1 → (entryWord e).toNat < Fy.waveCount := by
  decide +kernel

theorem Equivalent.lt {siglent fy : UInt32} (h : Equivalent siglent fy) :
    siglent.toNat < Siglent.waveCount ∧ fy.toNat < Fy.waveCount := by
  obtain ⟨e, he, hne, rfl⟩ := h
  obtain ⟨hlt, -⟩ := List.getElem?_eq_some_iff.1 he
  exact ⟨hlt, toNat_entryWord_lt e (List.mem_of_getElem? he) hne⟩

/-! ### The search -/

/-- **What the loop over the table finds**: the first entry that is the wave form. The induction is
on the number of entries that are left. -/
theorem searchTable_spec (wave : UInt32) : ∀ {left i : ℕ}, i + left = waveTable.length →
    ∃ found, searchTable wave left i = .ok found ∧
      (∀ k, found = some k → i ≤ k ∧ ∃ e, waveTable[k]? = some e ∧ entryWord e = wave) ∧
      ∀ k e, i ≤ k → (∀ l, found = some l → k < l) → waveTable[k]? = some e → entryWord e ≠ wave
  | 0, i, h => by
    refine ⟨none, rfl, fun k hk ↦ by simp at hk, fun k e hik _ he ↦ ?_⟩
    obtain ⟨hlt, -⟩ := List.getElem?_eq_some_iff.1 he
    omega
  | left + 1, i, h => by
    obtain ⟨e, he⟩ : ∃ e, waveTable[i]? = some e :=
      ⟨_, List.getElem?_eq_getElem (by omega)⟩
    rw [searchTable, entry_of_getElem? he, ok_bind]
    by_cases hword : entryWord e = wave
    · refine ⟨some i, by rw [if_pos hword]; rfl, ?_, ?_⟩
      · rintro k ⟨⟩
        exact ⟨Nat.le_refl i, e, he, hword⟩
      · intro k e' hik hlt _
        have := hlt i rfl
        omega
    · obtain ⟨found, hfound, hsome, hfirst⟩ := searchTable_spec wave
        (show i + 1 + left = waveTable.length by omega)
      refine ⟨found, by rw [if_neg hword]; exact hfound, fun k hk ↦ ?_, fun k e' hik hlt he' ↦ ?_⟩
      · obtain ⟨hle, hk⟩ := hsome k hk
        exact ⟨by omega, hk⟩
      · rcases eq_or_ne k i with rfl | hne
        · rwa [← Option.some.inj (he.symm.trans he')]
        · exact hfirst k e' (by omega) hlt he'

/-- An entry with an equivalent is found where it stands. -/
theorem searchTable_of_equivalent {siglent fy : UInt32} (h : Equivalent siglent fy) :
    searchTable fy Siglent.waveCount 0 = .ok (some siglent.toNat) := by
  obtain ⟨e, he, hne, rfl⟩ := h
  obtain ⟨found, hfound, hsome, hfirst⟩ := searchTable_spec (entryWord e)
    (show 0 + Siglent.waveCount = waveTable.length from rfl)
  rcases found with _ | k
  · exact absurd rfl (hfirst siglent.toNat e (Nat.zero_le _) (by simp) he)
  obtain ⟨-, e', he', hword⟩ := hsome k rfl
  obtain rfl := entryWord_injective hword
  obtain ⟨hk, hk'⟩ := List.getElem?_eq_some_iff.1 he'
  obtain ⟨hs, hs'⟩ := List.getElem?_eq_some_iff.1 he
  have hpair := List.pairwise_iff_getElem.1 pairwise_waveTable
  -- the entry stands in one place only
  rcases lt_trichotomy k siglent.toNat with hlt | heq | hgt
  · exact absurd (hk' ▸ hpair k siglent.toNat hk hs hlt (hk'.trans hs'.symm)) hne
  · rw [hfound, heq]
  · exact absurd (hs' ▸ hpair siglent.toNat k hs hk hgt (hs'.trans hk'.symm)) hne

/-- A word that is not the equivalent of any wave form is not found, unless it is that of -1. -/
theorem searchTable_of_not_equivalent {fy : UInt32} (h : ∀ siglent, ¬ Equivalent siglent fy)
    (hne : fy ≠ noEquivalent) : searchTable fy Siglent.waveCount 0 = .ok none := by
  obtain ⟨found, hfound, hsome, -⟩ := searchTable_spec fy
    (show 0 + Siglent.waveCount = waveTable.length from rfl)
  rcases found with _ | k
  · exact hfound
  obtain ⟨-, e, he, rfl⟩ := hsome k rfl
  obtain ⟨hk, -⟩ := List.getElem?_eq_some_iff.1 he
  have hk48 : k < 48 := hk
  refine absurd ⟨e, ?_, fun he ↦ hne (he ▸ rfl), rfl⟩ (h (UInt32.ofNat k))
  rwa [UInt32.toNat_ofNat_of_lt' (by show k < 4294967296; omega)]

/-! ### The two directions -/

theorem translateWaveFull_fromSig (wave : UInt32) :
    translateWaveFull wave Siglent.fromSig = match waveTable[wave.toNat]? with
      | some e => .ok (if e = -1 then UInt32.ofNat Fy.sine else entryWord e)
      | none => .ok (UInt32.ofNat Fy.sine) := by
  rw [translateWaveFull, if_pos rfl]
  rcases lt_or_ge wave.toNat Siglent.waveCount with hlt | hge
  · have he : waveTable[wave.toNat]? = some waveTable[wave.toNat] :=
      List.getElem?_eq_getElem (show wave.toNat < waveTable.length from hlt)
    rw [if_pos hlt, entry_of_getElem? he, he]
    rfl
  · have he : waveTable[wave.toNat]? = none := List.getElem?_eq_none hge
    rw [if_neg (Nat.not_lt.2 hge), he]
    rfl

theorem translateWaveFull_toSig {wave : UInt32} {found : Option ℕ}
    (h : searchTable wave Siglent.waveCount 0 = .ok found) :
    translateWaveFull wave (!Siglent.fromSig) =
      .ok (UInt32.ofNat (found.getD Siglent.sine)) := by
  rw [translateWaveFull, if_neg (by decide), h]
  cases found <;> rfl

/-- **The two directions of the full translation.** A wave form and its equivalent are translated
into each other. A wave form of Siglent without an equivalent becomes a sine wave; so does a word
that is no equivalent, except that the word of the entry -1 becomes the first wave form without an
equivalent. No index leaves the table, and what comes out is always an id of the other side. -/
theorem translateWaveFull_spec (siglent fy : UInt32) :
    (Equivalent siglent fy → translateWaveFull siglent Siglent.fromSig = .ok fy ∧
      translateWaveFull fy (!Siglent.fromSig) = .ok siglent) ∧
    ((∀ f, ¬ Equivalent siglent f) →
      translateWaveFull siglent Siglent.fromSig = .ok (UInt32.ofNat Fy.sine)) ∧
    ((∀ s, ¬ Equivalent s fy) → translateWaveFull fy (!Siglent.fromSig) =
      .ok (if fy = noEquivalent then 6 else UInt32.ofNat Siglent.sine)) ∧
    (∃ f, translateWaveFull siglent Siglent.fromSig = .ok f ∧ f.toNat < Fy.waveCount) ∧
    ∃ s, translateWaveFull fy (!Siglent.fromSig) = .ok s ∧ s.toNat < Siglent.waveCount := by
  have hpair : ∀ {s f}, Equivalent s f → translateWaveFull s Siglent.fromSig = .ok f ∧
      translateWaveFull f (!Siglent.fromSig) = .ok s := by
    intro s f h
    rw [translateWaveFull_toSig (searchTable_of_equivalent h), Option.getD_some, UInt32.ofNat_toNat]
    obtain ⟨e, he, hne, rfl⟩ := h
    rw [translateWaveFull_fromSig, he]
    exact ⟨congrArg Except.ok (if_neg hne), rfl⟩
  have hfrom : (∀ f, ¬ Equivalent siglent f) →
      translateWaveFull siglent Siglent.fromSig = .ok (UInt32.ofNat Fy.sine) := by
    intro h
    rw [translateWaveFull_fromSig]
    rcases he : waveTable[siglent.toNat]? with _ | e
    · rfl
    · have hnone : e = -1 := by
        by_contra hne
        exact h _ ⟨e, he, hne, rfl⟩
      exact congrArg Except.ok (if_pos hnone)
  have hto : (∀ s, ¬ Equivalent s fy) → translateWaveFull fy (!Siglent.fromSig) =
      .ok (if fy = noEquivalent then 6 else UInt32.ofNat Siglent.sine) := by
    intro h
    by_cases hne : fy = noEquivalent
    · -- the search ends at the first entry without an equivalent
      rw [if_pos hne, hne, translateWaveFull_toSig
        (show searchTable noEquivalent Siglent.waveCount 0 = .ok (some 6) by decide)]
      rfl
    · rw [if_neg hne, translateWaveFull_toSig (searchTable_of_not_equivalent h hne)]
      rfl
  refine ⟨hpair, hfrom, hto, ?_, ?_⟩
  · by_cases h : ∃ f, Equivalent siglent f
    · obtain ⟨f, hf⟩ := h
      exact ⟨f, (hpair hf).1, hf.lt.2⟩
    · exact ⟨_, hfrom (not_exists.1 h), by decide⟩
  · by_cases h : ∃ s, Equivalent s fy
    · obtain ⟨s, hs⟩ := h
      exact ⟨s, (hpair hs).2, hs.lt.1⟩
    · refine ⟨_, hto (not_exists.1 h), ?_⟩
      split_ifs <;> decide

end AwgFy

/-! ### What the server asks for -/

open Scpi

/-- The setting is not one of a wave form, or it asks for a sine wave. -/
def AsksSine (call : SetCall) : Prop :=
  call.parameter = wave → call.value = .ofNat Siglent.sine

/-- The wave form behind its name is dropped. The induction is on the tokens, one or two at a
time. -/
theorem asksSine_parametersText (ch : UInt32) : ∀ (ts : List (List UInt8)) (value : Double)
    {calls : List SetCall}, parametersText ch ts value = .ok calls → ∀ c ∈ calls, AsksSine c
  | [], _, calls, h => by
    obtain rfl := Except.ok.inj h
    simp
  | t :: ts, value, calls, h => by
    rw [parametersText] at h
    rcases hid : findId parameters t with _ | id <;> rw [hid] at h
    · exact asksSine_parametersText ch ts value h
    dsimp only at h
    rcases Decidable.em (id = outputOff ∨ id = outputOn) with hset | hset
    · rw [if_pos hset] at h
      obtain ⟨rest, hrest, rfl⟩ := exists_of_map_eq_ok h
      refine List.forall_mem_cons.2 ⟨fun hwave ↦ ?_, asksSine_parametersText ch ts _ hrest⟩
      obtain rfl : id = wave := hwave
      exact absurd hset (by decide)
    rw [if_neg hset] at h
    rcases ts with _ | ⟨v, ts⟩
    · dsimp only at h
      split_ifs at h
      obtain rfl := Except.ok.inj h
      exact List.forall_mem_singleton.2 fun _ ↦ rfl
    · obtain ⟨rest, hrest, rfl⟩ := exists_of_map_eq_ok h
      refine List.forall_mem_cons.2 ⟨fun hwave ↦ if_pos hwave, ?_⟩
      exact asksSine_parametersText ch ts _ hrest

theorem asksSine_commandText {ch : UInt32} {line : List UInt8} {readType : ReadType}
    {uninit : Double} {q : ReadType × List SetCall}
    (h : commandText ch line readType uninit = .ok q) : ∀ c ∈ q.2, AsksSine c := by
  rw [commandText] at h
  rcases hrun : nextRun preParametersDelimiter line with _ | ⟨command, rest⟩ <;> rw [hrun] at h
  · exact absurd h (by simp)
  dsimp only at h
  rcases hid : findId commands command with _ | id <;> rw [hid] at h
  · obtain rfl := Except.ok.inj h
    simp
  dsimp only at h
  split_ifs at h
  · obtain ⟨calls, hcalls, hq⟩ := bind_eq_ok.1 h
    obtain rfl := Except.ok.inj hq
    exact asksSine_parametersText ch _ _ hcalls
  · obtain rfl := Except.ok.inj h
    simp

theorem asksSine_commandsText {ch : UInt32} {uninit : ℕ → Double} {lines : List (List UInt8)} :
    ∀ {k : ℕ} {readType : ReadType} {q : ReadType × List SetCall},
      commandsText ch uninit k lines readType = .ok q → ∀ c ∈ q.2, AsksSine c := by
  induction lines with
  | nil =>
    intro k readType q h
    obtain rfl := Except.ok.inj h
    simp
  | cons line lines ih =>
    intro k readType q h
    obtain ⟨q₁, h₁, h⟩ := bind_eq_ok.1 h
    obtain ⟨q₂, h₂, hq⟩ := bind_eq_ok.1 h
    obtain rfl := Except.ok.inj hq
    intro c hc
    exact (List.mem_append.1 hc).elim (asksSine_commandText h₁ c) (ih h₂ c)

/-- **It makes no difference which translation is compiled**: whatever line the parser is given, and
whatever its uninitialized local holds, the simple and the full translation make the same of the
value of every setting of a wave form. -/
theorem translations_agree {n : ℕ} {b : Buffer n} {pos : ℕ} {s : List UInt8}
    (hb : b.IsString pos s) {uninit : ℕ → Double} {run : ScpiRun n}
    (hrun : parseScpi b pos uninit = .ok run) (pf : Platform) :
    ∀ c ∈ run.calls, c.parameter = wave →
      AwgFy.translateWaveFull (UInt32.ofNat (pf.toUnsigned 32 c.value)) Siglent.fromSig =
        .ok (UInt32.ofNat (AwgFy.translateWave (pf.toUnsigned 32 c.value) Siglent.fromSig)) := by
  obtain ⟨q, hq, -, hrel⟩ := (parseScpi_simulates hb uninit).exists_of_eq_ok hrun
  have hcalls : run.calls = q.2.2 := by rw [← hrel]
  have hsine : ∀ c ∈ q.2.2, AsksSine c := by
    rw [lineText] at hq
    rcases hinit : nextRun initiatorDelimiter s with _ | ⟨initiator, rest⟩ <;> rw [hinit] at hq
    · exact absurd hq (by simp)
    dsimp only at hq
    rcases hid : findId initiators initiator with _ | id <;> rw [hid] at hq
    · obtain rfl := Except.ok.inj hq
      simp
    dsimp only at hq
    split_ifs at hq
    · obtain rfl := Except.ok.inj hq
      simp
    · obtain ⟨q', hq', heq⟩ := bind_eq_ok.1 hq
      obtain rfl := Except.ok.inj heq
      exact asksSine_commandsText hq'
  intro c hc hwave
  rw [hcalls] at hc
  rw [hsine c hc hwave]
  rfl

/-- A line that asks for a square wave. -/
def squareLine : List UInt8 :=
  ascii "C1:BSWV WVTP,SQUARE"

theorem translations_agree_squareLine :
    let pf := referencePlatform .binary64
    ∃ run, parseScpi ((Buffer.zero 32).patch 0 squareLine) 0 (fun _ ↦ .nan) = .ok run ∧
      run.calls = [⟨1, wave, .finite 0⟩] ∧ ∀ c ∈ run.calls, c.parameter = wave →
        AwgFy.translateWaveFull (UInt32.ofNat (pf.toUnsigned 32 c.value)) Siglent.fromSig =
          .ok (UInt32.ofNat (AwgFy.translateWave (pf.toUnsigned 32 c.value) Siglent.fromSig)) := by
  obtain ⟨run, hrun, hcalls⟩ := exists_of_map_eq_ok (b := [(⟨1, wave, .finite 0⟩ : SetCall)])
    (f := fun run : ScpiRun 32 ↦ run.calls)
    (x := parseScpi ((Buffer.zero 32).patch 0 squareLine) 0 (fun _ ↦ .nan)) (by decide +kernel)
  exact ⟨run, hrun, hcalls,
    translations_agree (s := squareLine) ⟨by decide, by decide⟩ hrun (referencePlatform .binary64)⟩

end EspBode
