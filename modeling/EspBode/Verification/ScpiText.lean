import EspBode.Firmware.VxiServer

/-!
# The SCPI parser read on texts

What `parse_scpi` computes, without its buffer: tokens are runs of the text, a context is the text
that remains. `lineText` follows the parser step by step, with its faults: a line without an
initiator, a command line of spaces only and a number that is missing are null pointers here too.

`parseScpi_simulates` is the refinement. On the text `s` at a position of any buffer the parser in
place does exactly what `lineText s` says, whatever else is in memory, and changes nothing outside
the text. The nested tokenizer stays inside the command line that the outer one has cut off, so the
remainder the outer one goes on from is as it was (`IsString.of_agreeOutside`).

Every loop has its lemma, and they have one form: the text at the context is a string, the fuel
exceeds its length, and then the loop in place simulates the function on texts, with the buffer
behind it the same outside of a range that is given.

* **The range** is what makes the lemmas compose. A loop may write between its context and the end
  of its text, and nowhere else; so a string that stands before or behind is still one.
* **The fuel** goes down by one with each token, and each token takes at least a byte off the text.
  So it lasts, and the end of the fuel never has to be considered as a result.

`lineText` fails at null pointers only (`lineText_failsOnly`). With the refinement that is a result
about the parser in place: on a text it never leaves its buffer.
-/

namespace EspBode

namespace Scpi

/-- The index of the first entry that the text begins with. -/
def findId (ids : List (List UInt8)) (w : List UInt8) : Option ℕ :=
  ids.findIdx? fun id ↦ decide (id <+: w)

/-- `process_parameters` on the tokens of a parameter list. -/
def parametersText (rwChannel : UInt32) : List (List UInt8) → Double → Except Fault (List SetCall)
  | [], _ => .ok []
  | t :: ts, value =>
    match findId parameters t with
    | none => parametersText rwChannel ts value
    | some id =>
      if id = outputOff ∨ id = outputOn then
        (⟨rwChannel, id, .ofNat id⟩ :: ·) <$> parametersText rwChannel ts (.ofNat id)
      else
        match ts with
        | [] =>
          if id = wave then .ok [⟨rwChannel, id, .ofNat Siglent.sine⟩] else .error .nullPointer
        | v :: ts =>
          let value := if id = wave then .ofNat Siglent.sine else (sscanfLf v).getD value
          (⟨rwChannel, id, value⟩ :: ·) <$> parametersText rwChannel ts value

/-- One command line. -/
def commandText (rwChannel : UInt32) (line : List UInt8) (readType : ReadType) (uninit : Double) :
    Except Fault (ReadType × List SetCall) :=
  match nextRun preParametersDelimiter line with
  | none => .error .nullPointer
  | some (command, rest) =>
    match findId commands command with
    | none => .ok (readType, [])
    | some id =>
      if id = setOutput ∨ id = setParameters then do
        return (readType, ← parametersText rwChannel (runs parametersDelimiter rest) uninit)
      else .ok (.rtParameters, [])

/-- The command lines of a channel; `k` counts those already passed. -/
def commandsText (rwChannel : UInt32) (uninit : ℕ → Double) :
    ℕ → List (List UInt8) → ReadType → Except Fault (ReadType × List SetCall)
  | _, [], readType => .ok (readType, [])
  | k, line :: lines, readType => do
    let (readType, calls) ← commandText rwChannel line readType (uninit k)
    let (readType, rest) ← commandsText rwChannel uninit (k + 1) lines readType
    return (readType, calls ++ rest)

/-- `parse_scpi` on a text: the channel, the type of the next read, and the settings. -/
def lineText (s : List UInt8) (uninit : ℕ → Double) :
    Except Fault (UInt32 × ReadType × List SetCall) :=
  match nextRun initiatorDelimiter s with
  | none => .error .nullPointer
  | some (initiator, rest) =>
    match findId initiators initiator with
    | none => .ok (0, .rtNone, [])
    | some id =>
      if id = idRequest then .ok (0, .rtIdentification, [])
      else do
        let rwChannel := (sscanfD initiator.tail).getD 0
        return (rwChannel,
          ← commandsText rwChannel uninit 0 (runs commandDelimiter rest) .rtNone)

end Scpi

open Buffer Scpi

/-! ### The only fault of a text -/

/-- A parameter list fails for want of a number, and in no other way. -/
theorem parametersText_failsOnly (rwChannel : UInt32) : ∀ (ts : List (List UInt8)) (value : Double),
    FailsOnly (· = .nullPointer) (parametersText rwChannel ts value)
  | [], _ => .ok _
  | t :: ts, value => by
    rw [parametersText]
    rcases findId parameters t with _ | id
    · exact parametersText_failsOnly rwChannel ts value
    dsimp only
    by_cases hid : id = outputOff ∨ id = outputOn
    · rw [if_pos hid]
      exact (parametersText_failsOnly rwChannel ts _).map _
    rw [if_neg hid]
    rcases ts with _ | ⟨v, ts⟩
    · dsimp only
      split_ifs
      · exact .ok _
      · exact .error rfl
    · exact (parametersText_failsOnly rwChannel ts _).map _

theorem commandText_failsOnly (rwChannel : UInt32) (line : List UInt8) (readType : ReadType)
    (uninit : Double) :
    FailsOnly (· = .nullPointer) (commandText rwChannel line readType uninit) := by
  rw [commandText]
  rcases nextRun preParametersDelimiter line with _ | ⟨command, rest⟩
  · exact .error rfl
  dsimp only
  rcases findId commands command with _ | id
  · exact .ok _
  dsimp only
  split_ifs
  · exact (parametersText_failsOnly rwChannel _ uninit).bind fun _ ↦ .ok _
  · exact .ok _

theorem commandsText_failsOnly (rwChannel : UInt32) (uninit : ℕ → Double)
    (lines : List (List UInt8)) : ∀ (k : ℕ) (readType : ReadType),
      FailsOnly (· = .nullPointer) (commandsText rwChannel uninit k lines readType) := by
  induction lines with
  | nil => exact fun _ _ ↦ .ok _
  | cons line lines ih =>
    intro k readType
    rw [commandsText]
    exact (commandText_failsOnly rwChannel line readType (uninit k)).bind fun q ↦
      (ih (k + 1) q.1).bind fun _ ↦ .ok _

/-- **A text fails only at a null pointer.** -/
theorem lineText_failsOnly (s : List UInt8) (uninit : ℕ → Double) :
    FailsOnly (· = .nullPointer) (lineText s uninit) := by
  rw [lineText]
  rcases nextRun initiatorDelimiter s with _ | ⟨initiator, rest⟩
  · exact .error rfl
  dsimp only
  rcases findId initiators initiator with _ | id
  · exact .ok _
  dsimp only
  split_ifs
  · exact .ok _
  · exact (commandsText_failsOnly _ uninit _ 0 .rtNone).bind fun _ ↦ .ok _

variable {n : ℕ} {b : Buffer n}

/-! ### Identifying a token -/

/-- The tables hold no terminator. -/
theorem nulFree_tables : (∀ id ∈ initiators, (0 : UInt8) ∉ id) ∧
    (∀ id ∈ commands, (0 : UInt8) ∉ id) ∧ ∀ id ∈ parameters, (0 : UInt8) ∉ id := by
  decide

theorem getId_eq {p : ℕ} {w : List UInt8} (hw : b.IsString p w) :
    ∀ {ids : List (List UInt8)} (i : ℕ), (∀ id ∈ ids, (0 : UInt8) ∉ id) →
      getId b (some p) i ids = .ok ((findId ids w).map (· + i))
  | [], i, _ => rfl
  | id :: ids, i, h => by
    rw [getId, matchesId, hw.startsWith_eq (h id List.mem_cons_self), ok_bind, findId,
      List.findIdx?_cons]
    by_cases hid : id <+: w
    · simp [hid]
    · rw [decide_eq_false hid]
      simp only [Bool.false_eq_true, if_false]
      rw [getId_eq hw (i + 1) fun id' h' ↦ h id' (List.mem_cons_of_mem _ h'), findId,
        Option.map_map]
      congr 2
      funext k
      show k + (i + 1) = k + 1 + i
      omega

theorem getId_zero_eq {p : ℕ} {w : List UInt8} (hw : b.IsString p w) {ids : List (List UInt8)}
    (h : ∀ id ∈ ids, (0 : UInt8) ∉ id) : getId b (some p) 0 ids = .ok (findId ids w) := by
  rw [getId_eq hw 0 h]
  simp

/-! ### The parameter list -/

theorem delimiters_ne_zero : initiatorDelimiter ≠ 0 ∧ commandDelimiter ≠ 0 ∧
    preParametersDelimiter ≠ 0 ∧ parametersDelimiter ≠ 0 := by
  decide

/-- ON and OFF carry their value themselves. -/
theorem readValue_output {context id : ℕ} {value : Double} (hid : id = outputOff ∨ id = outputOn) :
    readValue b context id value = .ok (.ofNat id, context, b) := by
  rw [readValue, if_pos hid, pure_eq_ok]

/-- Without a further token the wave form is a sine all the same, and a number is missing. -/
theorem readValue_of_nextRun_eq_none {context id : ℕ} {t : List UInt8} {value : Double}
    (hb : b.IsString context t) (hid : ¬ (id = outputOff ∨ id = outputOn))
    (hn : nextRun parametersDelimiter t = none) :
    readValue b context id value =
      if id = wave then .ok (.ofNat Siglent.sine, context + t.length, b)
      else .error .nullPointer := by
  rw [readValue, if_neg hid, strtokR_of_nextRun_eq_none hb delimiters_ne_zero.2.2.2 hn, ok_bind]
  rfl

/-- The next token is taken for the value, and discarded for a wave form. -/
theorem readValue_of_nextRun {context id : ℕ} {t v t' : List UInt8} {value : Double}
    (hb : b.IsString context t) (hid : ¬ (id = outputOff ∨ id = outputOn))
    (hn : nextRun parametersDelimiter t = some (v, t')) :
    ∃ ctx b', readValue b context id value =
        .ok (if id = wave then .ofNat Siglent.sine else (sscanfLf v).getD value, ctx, b') ∧
      context ≤ ctx ∧ ctx + t'.length = context + t.length ∧ b'.IsString ctx t' ∧
      AgreeOutside context (context + t.length) b' b := by
  obtain ⟨p, ctx, b', hstr, hp, hpv, hctx, hv, ht', ha⟩ :=
    strtokR_of_nextRun hb delimiters_ne_zero.2.2.2 hn
  refine ⟨ctx, b', ?_, by omega, hctx, ht', ha⟩
  rw [readValue, if_neg hid, hstr, ok_bind]
  dsimp only
  rcases eq_or_ne id wave with hwave | hwave
  · rw [if_pos hwave, if_pos hwave, pure_eq_ok]
  · simp only [if_neg hwave, hv.cString_eq, ok_bind, pure_eq_ok]

/-- **The parameter loop in place does what its tokens say**, and stays inside its text. The
induction is on the fuel, which exceeds the length of the text still to be split. -/
theorem processParameters_simulates (rwChannel : UInt32) {fuel : ℕ} :
    ∀ {b : Buffer n} {context : ℕ} {t : List UInt8} {value : Double},
      b.IsString context t → t.length < fuel →
        Simulates
          (fun (r : Buffer n × List SetCall) calls ↦
            AgreeOutside context (context + t.length) r.1 b ∧ r.2 = calls)
          (processParameters rwChannel fuel b context value)
          (parametersText rwChannel (runs parametersDelimiter t) value) := by
  induction fuel with
  | zero => exact fun _ h ↦ absurd h (Nat.not_lt_zero _)
  | succ fuel ih =>
    intro b context t value hb hfuel
    rw [processParameters]
    rcases hn : nextRun parametersDelimiter t with _ | ⟨w, t'⟩
    · rw [runs_eq_nil_of_nextRun hn, strtokR_of_nextRun_eq_none hb delimiters_ne_zero.2.2.2 hn]
      exact .ok ⟨.refl _ _ _, rfl⟩
    obtain ⟨p, ctx, b₁, hstr, hp, hpw, hctx, hw, ht', ha₁⟩ :=
      strtokR_of_nextRun hb delimiters_ne_zero.2.2.2 hn
    have hlt := length_lt_of_nextRun hn
    -- the rest of the loop stays inside the remainder, hence inside the text
    have hrest : ∀ {b₂ : Buffer n} {ctx₂ : ℕ} {t₂ : List UInt8} (value₂ : Double),
        b₂.IsString ctx₂ t₂ → context ≤ ctx₂ → ctx₂ + t₂.length = context + t.length →
        t₂.length ≤ t'.length → AgreeOutside context (context + t.length) b₂ b →
        Simulates
          (fun (r : Buffer n × List SetCall) calls ↦
            AgreeOutside context (context + t.length) r.1 b ∧ r.2 = calls)
          (processParameters rwChannel fuel b₂ ctx₂ value₂)
          (parametersText rwChannel (runs parametersDelimiter t₂) value₂) := by
      intro b₂ ctx₂ t₂ value₂ hb₂ hle hend hlen ha₂
      refine (ih hb₂ (by omega)).mono fun r calls ⟨ha, hcalls⟩ ↦ ⟨?_, hcalls⟩
      exact (ha.mono hle (by omega)).trans ha₂
    rw [runs_eq_cons_of_nextRun hn, parametersText, hstr, ok_bind]
    dsimp only
    rw [getId_zero_eq hw nulFree_tables.2.2, ok_bind]
    rcases findId parameters w with _ | id
    · exact hrest value ht' (by omega) hctx le_rfl ha₁
    dsimp only
    by_cases hid : id = outputOff ∨ id = outputOn
    · rw [if_pos hid, readValue_output hid, ok_bind, map_eq_bind]
      exact (hrest _ ht' (by omega) hctx le_rfl ha₁).bind fun r calls ⟨ha, hcalls⟩ ↦
        .ok ⟨ha, congrArg _ hcalls⟩
    rw [if_neg hid]
    rcases hn' : nextRun parametersDelimiter t' with _ | ⟨v, t''⟩
    · rw [readValue_of_nextRun_eq_none ht' hid hn', runs_eq_nil_of_nextRun hn']
      dsimp only
      rcases eq_or_ne id wave with hwave | hwave
      · -- the loop finds no further token either
        have hend : b₁.IsString (ctx + t'.length) [] :=
          IsString.suffix (u := t') (by rwa [List.append_nil])
        rw [if_pos hwave, if_pos hwave, ok_bind]
        refine (hrest (.ofNat Siglent.sine) hend (by omega) (by simp; omega)
          (Nat.zero_le _) ha₁).bind (g := fun calls ↦ .ok (_ :: calls)) fun r calls h ↦ ?_
        exact .ok ⟨h.1, congrArg _ h.2⟩
      · rw [if_neg hwave, if_neg hwave]
        exact .error _
    · obtain ⟨ctx₂, b₂, hval, hle₂, hctx₂, ht'', ha₂⟩ := readValue_of_nextRun ht' hid hn'
      have hlt' := length_lt_of_nextRun hn'
      rw [hval, runs_eq_cons_of_nextRun hn', ok_bind]
      dsimp only
      rw [map_eq_bind]
      refine (hrest _ ht'' (by omega) (by omega) (by omega) ?_).bind fun r calls h ↦ ?_
      · exact (ha₂.mono (by omega) (by omega)).trans ha₁
      · exact .ok ⟨h.1, congrArg _ h.2⟩

/-! ### The command lines -/

/-- One command line in place does what its text says. -/
theorem parseCommand_simulates (rwChannel : UInt32) {line : ℕ} {t : List UInt8}
    {readType : ReadType} {uninit : Double} (hb : b.IsString line t) :
    Simulates
      (fun (r : Buffer n × ReadType × List SetCall) q ↦
        AgreeOutside line (line + t.length) r.1 b ∧ r.2 = q)
      (parseCommand rwChannel b line readType uninit)
      (commandText rwChannel t readType uninit) := by
  rw [parseCommand, commandText]
  rcases hn : nextRun preParametersDelimiter t with _ | ⟨w, t'⟩
  · -- a command line of spaces: the null token is compared with the command names
    rw [strtokR_of_nextRun_eq_none hb delimiters_ne_zero.2.2.1 hn]
    exact .error _
  obtain ⟨p, ctx, b₁, hstr, hp, hpw, hctx, hw, ht', ha₁⟩ :=
    strtokR_of_nextRun hb delimiters_ne_zero.2.2.1 hn
  rw [hstr, ok_bind]
  dsimp only
  rw [getId_zero_eq hw nulFree_tables.2.1, ok_bind]
  rcases findId commands w with _ | id
  · exact .ok ⟨ha₁, rfl⟩
  dsimp only
  by_cases hid : id = setOutput ∨ id = setParameters
  · rw [if_pos hid, if_pos hid]
    have hlt := ht'.lt
    refine (processParameters_simulates rwChannel ht' (by omega)).bind fun r calls h ↦ .ok ⟨?_, ?_⟩
    · exact (h.1.mono (by omega) (by omega)).trans ha₁
    · exact congrArg _ h.2
  · rw [if_neg hid, if_neg hid]
    exact .ok ⟨ha₁, rfl⟩

/-- **The loop over the command lines in place does what its lines say.** The remainder behind a
line is out of reach of the tokenizer that takes the line apart. -/
theorem parseCommands_simulates (rwChannel : UInt32) (uninit : ℕ → Double) {fuel : ℕ} :
    ∀ {k : ℕ} {b : Buffer n} {context : ℕ} {t : List UInt8} {readType : ReadType},
      b.IsString context t → t.length < fuel →
        Simulates
          (fun (r : Buffer n × ReadType × List SetCall) q ↦
            AgreeOutside context (context + t.length) r.1 b ∧ r.2 = q)
          (parseCommands rwChannel uninit fuel k b context readType)
          (commandsText rwChannel uninit k (runs commandDelimiter t) readType) := by
  induction fuel with
  | zero => exact fun _ h ↦ absurd h (Nat.not_lt_zero _)
  | succ fuel ih =>
    intro k b context t readType hb hfuel
    rw [parseCommands]
    rcases hn : nextRun commandDelimiter t with _ | ⟨w, t'⟩
    · rw [runs_eq_nil_of_nextRun hn, strtokR_of_nextRun_eq_none hb delimiters_ne_zero.2.1 hn]
      exact .ok ⟨.refl _ _ _, rfl⟩
    obtain ⟨p, ctx, b₁, hstr, hp, hpw, hctx, hw, ht', ha₁⟩ :=
      strtokR_of_nextRun hb delimiters_ne_zero.2.1 hn
    have hlt := length_lt_of_nextRun hn
    rw [runs_eq_cons_of_nextRun hn, commandsText, hstr, ok_bind]
    refine (parseCommand_simulates rwChannel hw).bind fun ⟨b₂, q⟩ _ ⟨ha₂, hq⟩ ↦ ?_
    subst hq
    -- the line ends before the remainder begins
    have ht'' : b₂.IsString ctx t' := ht'.of_agreeOutside ha₂ (.inr hpw)
    refine (ih ht'' (by omega)).bind fun ⟨b₃, q'⟩ _ ⟨ha₃, hq'⟩ ↦ ?_
    subst hq'
    refine .ok ⟨?_, rfl⟩
    exact ((ha₃.mono (by omega) (by omega)).trans (ha₂.mono hp (by omega))).trans ha₁

/-! ### The whole line -/

/-- The null token is compared with the initiators. -/
theorem parseScpi_of_nextRun_eq_none {pos : ℕ} {s : List UInt8} {uninit : ℕ → Double}
    (hb : b.IsString pos s) (hn : nextRun initiatorDelimiter s = none) :
    parseScpi b pos uninit = .error .nullPointer := by
  rw [parseScpi, strtokR_of_nextRun_eq_none hb delimiters_ne_zero.1 hn]
  rfl

/-- **The parser in place refines the parser on texts.** -/
theorem parseScpi_simulates {pos : ℕ} {s : List UInt8} (hb : b.IsString pos s)
    (uninit : ℕ → Double) :
    Simulates
      (fun (run : ScpiRun n) q ↦
        AgreeOutside pos (pos + s.length) run.buffer b ∧
          (run.rwChannel, run.readType, run.calls) = q)
      (parseScpi b pos uninit) (lineText s uninit) := by
  rw [lineText]
  rcases hn : nextRun initiatorDelimiter s with _ | ⟨w, t'⟩
  · rw [parseScpi_of_nextRun_eq_none hb hn]
    exact .error _
  obtain ⟨p, ctx, b₁, hstr, hp, hpw, hctx, hw, ht', ha₁⟩ :=
    strtokR_of_nextRun hb delimiters_ne_zero.1 hn
  rw [parseScpi, hstr, ok_bind]
  dsimp only
  rw [getId_zero_eq hw nulFree_tables.1, ok_bind]
  rcases findId initiators w with _ | id
  · exact .ok ⟨ha₁, rfl⟩
  dsimp only
  rcases eq_or_ne id idRequest with hid | hid
  · rw [if_pos hid, if_pos hid]
    exact .ok ⟨ha₁, rfl⟩
  rw [if_neg hid, if_neg hid]
  obtain ⟨c, w, rfl⟩ := List.exists_cons_of_ne_nil (nextRun_shape hn).1
  have hchannel : b₁.IsString (p + 1) w := IsString.suffix (u := [c]) hw
  rw [hchannel.cString_eq, ok_bind]
  have hlt := ht'.lt
  refine (parseCommands_simulates _ uninit ht' (by omega)).bind fun ⟨b₂, q⟩ _ ⟨ha₂, hq⟩ ↦ ?_
  subst hq
  refine .ok ⟨?_, rfl⟩
  exact (ha₂.mono (by omega) (by omega)).trans ha₁

end EspBode
