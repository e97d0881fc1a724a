import EspBode.Firmware.AwgFy
import EspBode.Foundations.Decimal

/-!
# Runs of the driver

What `set` and `get` write and return in a run against any peer. The bytes of a command and of a
query depend on the arguments only, so each pass of the loop of `set` writes the same, and a pass
agrees if the response that follows it is interpreted as the value. The specifications are
`converse_get`, and for `set` without and with validation `converse_set_unvalidated` and
`converse_set`.

**Past the test and the tables** the two methods are simple dialogues. `get_eq` and `set_eq` say so
for a channel and a parameter that are `Valid`, with the row of the table as a hypothesis, and they
are where a method is unfolded; what any other module proves of the driver starts from them. The
`let` of the source that prepares the loop is gone in them, and `command_prepare`, `value_prepare`
and `bValidate_prepare` read its three results.

* A pass is `converse_attempt`. It may change `set_value`, but the next pass prints the same
  (`effective_effective`), since a truth value is one already.
* The loop is a general one: with a pass that writes the same each time, its run is that of its
  first passes up to the one that agrees.

`referencePlatform` is a platform whose numbers are printed in full. It is there to be run.
-/

namespace EspBode

open Dialogue

/-! ### A platform -/

/-- A numeral, with a sign if the number is negative. -/
def signed (negative : Bool) (numeral : List UInt8) : List UInt8 :=
  if negative then chr '-' :: numeral else numeral

/-- A double with some digits behind the point. -/
def printedDouble (x : Double) (precision : ℕ) : List UInt8 :=
  match x with
  | .finite x => signed (x < 0) (fixed precision (roundHalfEven (|x| * 10 ^ precision)).toNat)
  | .infinite _ => ascii "inf"
  | .nan => ascii "nan"

/-- Printing numbers in full. -/
def printed : Insertion → List UInt8
  | .long n => signed (n < 0) (natNumeral n.natAbs)
  | .double x => printedDouble x 2
  | .float x precision => printedDouble x precision
  | .width value width =>
    List.replicate (width - (printed value).length) (chr '0') ++ printed value

theorem newline_not_mem_signed {t : List UInt8} {q : ℚ} (negative : Bool) (h : Spells t q) :
    chr '\n' ∉ signed negative t := by
  have ht : chr '\n' ∉ t := not_mem_of_spells h (by decide) (by decide)
  rcases negative with _ | _
  · exact ht
  · exact List.not_mem_cons_of_ne_of_not_mem (by decide) ht

theorem newline_not_mem_printedDouble (x : Double) (precision : ℕ) :
    chr '\n' ∉ printedDouble x precision := by
  rcases x with x | negative | _
  · exact newline_not_mem_signed _ (spells_fixed _ _)
  · show chr '\n' ∉ ascii "inf"
    decide
  · show chr '\n' ∉ ascii "nan"
    decide

theorem newline_not_mem_printed (i : Insertion) : chr '\n' ∉ printed i := by
  induction i with
  | long n => exact newline_not_mem_signed _ (spells_natNumeral _)
  | double x => exact newline_not_mem_printedDouble x 2
  | float x precision => exact newline_not_mem_printedDouble x precision
  | width value width ih =>
    rw [printed, List.mem_append, List.mem_replicate]
    rintro (⟨-, h⟩ | h)
    · exact absurd h (by decide)
    · exact ih h

/-- A platform on which numbers are printed in full. -/
def referencePlatform (arithmetic : Rounding) : Platform :=
  ⟨arithmetic, fun _ ↦ 0, printed, newline_not_mem_printed⟩

/-! ### Tables -/

theorem entry_of_getElem? {α : Type} {table : List α} {i : ℕ} {a : α} (h : table[i]? = some a) :
    entry table i = .ok a := by
  rw [entry, h]

theorem exists_entry {α : Type} (table : List α) {i : ℕ} (h : i < table.length) :
    ∃ a, entry table i = .ok a :=
  ⟨table[i], entry_of_getElem? (List.getElem?_eq_getElem h)⟩

theorem entry_eq_ok {α : Type} (table : List α) {i : ℕ} (h : i < table.length) (d : α) :
    entry table i = .ok (table.getD i d) := by
  refine entry_of_getElem? ?_
  rw [List.getD_eq_getElem?_getD, List.getElem?_eq_getElem h, Option.getD_some]

/-- The letter of a channel. -/
def channelLetter (channel : UInt32) : UInt8 :=
  fyChannels.getD channel.toNat 0

/-- The letter of a parameter. -/
def parameterLetter (paramId : ℕ) : UInt8 :=
  fyCodes.getD paramId 0

theorem entry_fyChannels {channel : UInt32} (h : channel ≤ AwgFy.channels) :
    entry fyChannels channel.toNat = .ok (channelLetter channel) :=
  entry_eq_ok fyChannels (Nat.lt_succ_of_le (UInt32.le_iff_toNat_le.1 h)) 0

theorem entry_fyCodes {paramId : ℕ} (h : paramId < Scpi.parameterCount) :
    entry fyCodes paramId = .ok (parameterLetter paramId) :=
  entry_eq_ok fyCodes h 0

namespace AwgFy

/-- A channel and a parameter that pass the validity test and have their entries in the tables. -/
structure Valid (channel : UInt32) (paramId : ℕ) : Prop where
  channel_le : channel ≤ channels
  paramId_lt : paramId < Scpi.parameterCount

theorem Valid.not_invalid {channel : UInt32} {paramId : ℕ} (h : Valid channel paramId) :
    ¬ Invalid channel paramId := by
  rintro (hchannel | hparam)
  · exact UInt32.not_lt.2 h.channel_le hchannel
  · exact absurd h.paramId_lt (by omega)

/-! ### The bytes -/

/-- The query for a parameter; an empty line follows it. -/
def query (channel : UInt32) (paramId : ℕ) : List UInt8 :=
  [chr 'R', channelLetter channel, parameterLetter paramId, chr '\n', chr '\n']

/-- The head of the command for a parameter. -/
def commandHead (channel : UInt32) (paramId : ℕ) : List UInt8 :=
  [chr 'W', channelLetter channel, parameterLetter paramId]

/-- Neither of them ends a line. -/
theorem newline_not_mem_letters (head : UInt8) (hhead : chr '\n' ≠ head) (channel : UInt32)
    (paramId : ℕ) :
    chr '\n' ∉ [head, channelLetter channel, parameterLetter paramId] := by
  have hletter : ∀ {table : List UInt8}, chr '\n' ∉ 0 :: table → ∀ i,
      chr '\n' ≠ table.getD i 0 := by
    intro table htable i heq
    rw [List.getD_eq_getElem?_getD] at heq
    rcases hi : table[i]? with _ | c
    · rw [hi] at heq
      exact htable (heq ▸ List.mem_cons_self)
    · rw [hi, Option.getD_some] at heq
      exact htable (List.mem_cons_of_mem 0 (heq ▸ List.mem_of_getElem? hi))
  have hchannel : chr '\n' ≠ channelLetter channel := hletter (by decide) _
  have hparam : chr '\n' ≠ parameterLetter paramId := hletter (by decide) _
  simp [hhead, hchannel, hparam]

variable (pf : Platform)

/-- The value of `set_value` that is printed. -/
def effective (l : Locals) (setValue : Double) : Double :=
  if l.setType = .bool then l.value.truth else setValue

/-- The line of a command. -/
def commandLine (l : Locals) (setValue : Double) : List UInt8 :=
  l.command ++ pf.print (insertion pf l.setType l.width l.precision (effective l setValue)) ++
    ascii "\n"

/-- The command that `set` sends for a value. -/
def commandFor (awg : AwgFy) (row : ParamTranslator) (channel : UInt32) (paramId : ℕ)
    (value : Double) : List UInt8 :=
  let p := prepare pf awg (commandHead channel paramId) row paramId value
  commandLine pf p.1 p.2

/-- The value that is compared with what is read back. -/
def comparedValue (row : ParamTranslator) (paramId : ℕ) (value : Double) : Double :=
  if paramId = Scpi.wave then value else limit pf row.setPrecision value

/-- The result of `get` when the response follows everything that is written. -/
def readBack (row : ParamTranslator) (peer : Peer) (sent : List UInt8) : Double :=
  interpret pf row (reading (chr '\n') awgResponseLength (peer sent))

/-! ### Behind the validity test -/

variable {awg : AwgFy} {channel : UInt32} {paramId : ℕ} {row : ParamTranslator} (peer : Peer)

/-- `get` past the test and the tables. -/
theorem get_eq (h : Valid channel paramId) (hrow : entry awg.pt paramId = .ok row) :
    get pf awg channel paramId = do
      Dialogue.say (query channel paramId)
      waitForSerial
      let response ← Dialogue.readBytesUntil (chr '\n') awgResponseLength
      return interpret pf row response := by
  rw [get, if_neg h.not_invalid, entry_fyChannels h.channel_le, entry_fyCodes h.paramId_lt, hrow]
  rfl

/-- `set` is its loop, past the test and the tables. -/
theorem set_eq (h : Valid channel paramId) (hrow : entry awg.pt paramId = .ok row)
    (value : Double) :
    set pf awg channel paramId value =
      let p := prepare pf awg (commandHead channel paramId) row paramId value
      attempts (attempt pf awg channel paramId p.1) awg.retries.toNat p.2 := by
  have hname : entry Scpi.parameters paramId = .ok (Scpi.parameters.getD paramId []) :=
    entry_eq_ok Scpi.parameters h.paramId_lt []
  rw [AwgFy.set, if_neg h.not_invalid, entry_fyChannels h.channel_le, entry_fyCodes h.paramId_lt,
    hrow, hname]
  set p := prepare pf awg (commandHead channel paramId) row paramId value
  set loop := attempts (attempt pf awg channel paramId p.1) awg.retries.toNat p.2
  -- what is left is to return the result of the loop
  refine Eq.trans (congrArg (loop >>= ·) (funext fun bOk ↦ ?_)) loop.bind_pure
  rcases bOk with _ | _ <;> rfl

/-! ### The runs -/

/-- **A run of `get`**: one query, and the response is interpreted. -/
theorem converse_get (h : Valid channel paramId) (hrow : entry awg.pt paramId = .ok row)
    (sent : List UInt8) :
    converse peer (get pf awg channel paramId) sent =
      (.ok (readBack pf row peer (sent ++ query channel paramId)),
        sent ++ query channel paramId) := by
  rw [get_eq pf h hrow]
  rfl

/-- A run of one pass. -/
theorem converse_attempt (h : Valid channel paramId) (hrow : entry awg.pt paramId = .ok row)
    (l : Locals) (setValue : Double) (sent : List UInt8) :
    converse peer (attempt pf awg channel paramId l setValue) sent =
      let sent := sent ++ commandLine pf l setValue
      if l.bValidate then
        (.ok (l.value.eq (readBack pf row peer (sent ++ query channel paramId)),
          effective l setValue), sent ++ query channel paramId)
      else (.ok (true, effective l setValue), sent) := by
  have hsent : sent ++ l.command ++
      pf.print (insertion pf l.setType l.width l.precision (effective l setValue)) ++ ascii "\n" =
        sent ++ commandLine pf l setValue := by
    simp only [commandLine, List.append_assoc]
  rw [attempt, converse_say_bind, converse_say_bind, converse_say_bind]
  show converse peer (if l.bValidate then _ else _) (sent ++ l.command ++
    pf.print (insertion pf l.setType l.width l.precision (effective l setValue)) ++ ascii "\n") = _
  rw [hsent]
  dsimp only
  rcases l.bValidate with _ | _
  · rfl
  · rw [if_pos rfl, if_pos rfl, converse_bind_of_eq peer (converse_get pf peer h hrow _)]
    rfl

/-- The next pass prints the same. -/
theorem effective_effective (l : Locals) (setValue : Double) :
    effective l (effective l setValue) = effective l setValue := by
  rw [effective, effective]
  split_ifs <;> rfl

theorem command_prepare (command : List UInt8) (value : Double) :
    (prepare pf awg command row paramId value).1.command = command := by
  rw [prepare]
  split_ifs <;> rfl

theorem value_prepare (command : List UInt8) (value : Double) :
    (prepare pf awg command row paramId value).1.value = comparedValue pf row paramId value := by
  rw [prepare, comparedValue]
  split_ifs <;> rfl

theorem bValidate_prepare (command : List UInt8) (value : Double) :
    (prepare pf awg command row paramId value).1.bValidate = decide (0 < awg.retries) := by
  rw [prepare]
  split_ifs <;> rfl

/-- **A run of `set` without validation**: one command. -/
theorem converse_set_unvalidated (h : Valid channel paramId)
    (hrow : entry awg.pt paramId = .ok row) (hretries : awg.retries ≤ 0) (value : Double)
    (sent : List UInt8) :
    converse peer (set pf awg channel paramId value) sent =
      (.ok true, sent ++ commandFor pf awg row channel paramId value) := by
  have hpass := converse_attempt pf peer h hrow
    (prepare pf awg (commandHead channel paramId) row paramId value).1
    (prepare pf awg (commandHead channel paramId) row paramId value).2 sent
  rw [bValidate_prepare, decide_eq_false (by omega)] at hpass
  rw [set_eq pf h hrow, Int.toNat_of_nonpos hretries]
  exact (converse_bind_of_eq peer hpass).trans rfl

/-- **A run of `set` with validation**: the same command and query in each pass, up to the first
pass in which the value is read back. -/
theorem converse_set (h : Valid channel paramId) (hrow : entry awg.pt paramId = .ok row)
    (hretries : 0 < awg.retries) (value : Double) (sent : List UInt8) :
    let round := commandFor pf awg row channel paramId value ++ query channel paramId
    let ok : ℕ → Bool := fun i ↦ (comparedValue pf row paramId value).eq
      (readBack pf row peer (sent ++ rounds round (i + 1)))
    converse peer (set pf awg channel paramId value) sent =
      (.ok (ok (lastPass ok awg.retries.toNat)),
        sent ++ rounds round (lastPass ok awg.retries.toNat + 1)) := by
  set p := prepare pf awg (commandHead channel paramId) row paramId value with hp
  set round := commandFor pf awg row channel paramId value ++ query channel paramId with hround
  let agrees : List UInt8 → Bool := fun sent ↦
    (comparedValue pf row paramId value).eq (readBack pf row peer sent)
  -- the passes print the same effective value
  have hpass : ∀ s, effective p.1 s = effective p.1 p.2 → ∀ sent, ∃ s',
      effective p.1 s' = effective p.1 p.2 ∧
      converse peer (attempt pf awg channel paramId p.1 s) sent =
        (.ok (agrees (sent ++ round), s'), sent ++ round) := by
    intro s hs sent
    have hline : commandLine pf p.1 s = commandFor pf awg row channel paramId value := by
      rw [commandLine, hs, commandFor, ← hp, commandLine]
    refine ⟨effective p.1 s, (effective_effective p.1 s).trans hs, ?_⟩
    rw [converse_attempt pf peer h hrow, hline, hp, bValidate_prepare, decide_eq_true hretries,
      value_prepare, hround, ← List.append_assoc]
    rfl
  rw [set_eq pf h hrow]
  exact converse_attempts peer hpass rfl _ sent

/-- If the value is read back after the first command, that is the only one. -/
theorem converse_set_verified (h : Valid channel paramId) (hrow : entry awg.pt paramId = .ok row)
    (hretries : 0 < awg.retries) {value : Double} {sent : List UInt8}
    (hread : (comparedValue pf row paramId value).eq (readBack pf row peer
      (sent ++ commandFor pf awg row channel paramId value ++ query channel paramId))) :
    converse peer (set pf awg channel paramId value) sent =
      (.ok true, sent ++ commandFor pf awg row channel paramId value ++ query channel paramId) := by
  have hrun := converse_set pf peer h hrow hretries value sent
  have hround : sent ++ rounds (commandFor pf awg row channel paramId value ++
      query channel paramId) 1 =
        sent ++ commandFor pf awg row channel paramId value ++ query channel paramId := by
    simp [rounds]
  dsimp only at hrun
  rwa [lastPass_eq_zero (by rw [zero_add, hround]; exact hread), zero_add, hround, hread] at hrun

/-- The bytes that `set` writes begin with its command. -/
theorem exists_converse_set (h : Valid channel paramId) (hrow : entry awg.pt paramId = .ok row)
    (value : Double) (sent : List UInt8) :
    ∃ ok rest, converse peer (set pf awg channel paramId value) sent =
      (.ok ok, sent ++ (commandFor pf awg row channel paramId value ++ rest)) := by
  rcases lt_or_ge 0 awg.retries with hpos | hle
  · rw [converse_set pf peer h hrow hpos value, rounds_succ, List.append_assoc]
    exact ⟨_, _, rfl⟩
  · rw [converse_set_unvalidated pf peer h hrow hle value]
    exact ⟨true, [], by rw [List.append_nil]⟩

theorem commandFor_ne_nil (value : Double) :
    commandFor pf awg row channel paramId value ≠ [] := by
  rw [commandFor, commandLine, prepare]
  split_ifs <;> exact List.cons_ne_nil _ _

end AwgFy

end EspBode
