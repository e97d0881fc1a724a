import EspBode.Foundations.Binary64
import EspBode.Verification.DriverRuns

/-!
# The validity test and the tables

`set` and `get` test the channel and the parameter before they use them as indexes. The channels
that pass have their letters, but the test lets one parameter pass that has no entry in any table,
the one whose number is the number of parameters. `guarded_iff` says that calls with this parameter
are the only ones that leave a table.

A call is `Guarded` if it returns at the test, having done nothing, or if its dialogue never fails,
whichever way the AWG answers. The second is a property of the dialogue as a tree (`NeverFails`), so
it is passed from part to part by a rule for each way in which dialogues are composed:

* a dialogue that says, waits or reads never fails by itself, and the loop of `set` does not fail if
  its body does not (`neverFails_attempts`);
* an access to a table is a part that fails or has a value, and an entry that is there has one; so
  `get_eq` and `set_eq` leave a dialogue without any access.

The other direction is one equation: for the parameter behind the last one `set` fails at the second
table it looks into, before anything is sent (`set_parameterCount`). It needs no peer.
-/

namespace EspBode

namespace AwgFy

open Dialogue

variable (pf : Platform)

/-- Each of the two operations returns at the validity test, having done nothing, or accesses no
table outside its entries, whatever the AWG sends. -/
structure Guarded (awg : AwgFy) (channel : UInt32) (paramId : ℕ) (value : Double) : Prop where
  set_guarded : Invalid channel paramId ∧ set pf awg channel paramId value = pure false ∨
    (set pf awg channel paramId value).NeverFails
  get_guarded : Invalid channel paramId ∧ get pf awg channel paramId = pure (.finite 0) ∨
    (get pf awg channel paramId).NeverFails

variable {pf} {awg : AwgFy} {channel : UInt32} {paramId : ℕ} {row : ParamTranslator}

/-- A call that does not pass the test does nothing. -/
theorem guarded_of_invalid (h : Invalid channel paramId) (value : Double) :
    Guarded pf awg channel paramId value :=
  ⟨.inl ⟨h, if_pos h⟩, .inl ⟨h, if_pos h⟩⟩

/-- A call that is guarded ends, whatever the AWG sends. -/
theorem Guarded.exists_converse {value : Double} (h : Guarded pf awg channel paramId value)
    (peer : Peer) (sent : List UInt8) :
    (∃ ok sent', converse peer (set pf awg channel paramId value) sent = (.ok ok, sent')) ∧
      ∃ result sent', converse peer (get pf awg channel paramId) sent = (.ok result, sent') := by
  constructor
  · rcases h.set_guarded with ⟨-, hset⟩ | hset
    · exact ⟨false, sent, by rw [hset]; rfl⟩
    · exact hset.exists_converse peer sent
  · rcases h.get_guarded with ⟨-, hget⟩ | hget
    · exact ⟨.finite 0, sent, by rw [hget]; rfl⟩
    · exact hget.exists_converse peer sent

/-! ### Parameters that have their entries -/

theorem neverFails_waitForSerial (bConsume : Bool) : (waitForSerial bConsume).NeverFails := by
  rcases bConsume with _ | _ <;> trivial

theorem neverFails_get (h : Valid channel paramId) (hrow : entry awg.pt paramId = .ok row) :
    (get pf awg channel paramId).NeverFails := by
  rw [get_eq pf h hrow]
  refine (neverFails_say _).bind fun _ ↦ ?_
  refine (neverFails_waitForSerial _).bind fun _ ↦ ?_
  exact (neverFails_readBytesUntil _ _).bind fun _ ↦ neverFails_pure _

theorem neverFails_attempt (h : Valid channel paramId) (hrow : entry awg.pt paramId = .ok row)
    (l : Locals) (setValue : Double) :
    (attempt pf awg channel paramId l setValue).NeverFails := by
  refine (neverFails_say _).bind fun _ ↦ ?_
  refine (neverFails_say _).bind fun _ ↦ ?_
  refine (neverFails_say _).bind fun _ ↦ ?_
  refine (neverFails_waitForSerial _).bind fun _ ↦ ?_
  rcases l.bValidate with _ | _
  · exact neverFails_pure _
  · exact (neverFails_get h hrow).bind fun _ ↦ neverFails_pure _

theorem neverFails_set (h : Valid channel paramId) (hrow : entry awg.pt paramId = .ok row)
    (value : Double) : (set pf awg channel paramId value).NeverFails := by
  rw [set_eq pf h hrow]
  exact neverFails_attempts (neverFails_attempt h hrow _) _ _

/-! ### The parameter behind the last one -/

/-- It passes the test. -/
theorem not_invalid_parameterCount (h : channel ≤ channels) :
    ¬ Invalid channel Scpi.parameterCount := by
  rintro (hchannel | hparam)
  · exact UInt32.not_lt.2 h hchannel
  · exact Nat.lt_irrefl _ hparam

/-- There is no letter for it. -/
theorem entry_fyCodes_parameterCount : entry fyCodes Scpi.parameterCount = .error .index := by
  decide

theorem set_parameterCount (h : channel ≤ channels) (value : Double) :
    set pf awg channel Scpi.parameterCount value = .fail .index := by
  rw [AwgFy.set, if_neg (not_invalid_parameterCount h), entry_fyChannels h,
    entry_fyCodes_parameterCount]
  rfl

theorem not_guarded_parameterCount (h : channel ≤ channels) (value : Double) :
    ¬ Guarded pf awg channel Scpi.parameterCount value := by
  rintro ⟨hset, -⟩
  rw [set_parameterCount h] at hset
  rcases hset with ⟨hinvalid, -⟩ | hset
  · exact not_invalid_parameterCount h hinvalid
  · exact hset

/-- **The validity test protects the tables of the FY6900 but for one parameter**: the one behind
the last one, on a channel that passes the test. -/
theorem guarded_iff (pf : Platform) (retries channel paramId : UInt32) (value : Double) :
    Guarded pf (awgFy6900 retries) channel paramId.toNat value ↔
      ¬ (channel ≤ channels ∧ paramId.toNat = Scpi.parameterCount) := by
  constructor
  · rintro hguarded ⟨hchannel, hparam⟩
    rw [hparam] at hguarded
    exact not_guarded_parameterCount hchannel value hguarded
  · intro h
    by_cases hinvalid : Invalid channel paramId.toNat
    · exact guarded_of_invalid hinvalid value
    · obtain ⟨hchannel, hparam⟩ := not_or.1 hinvalid
      have hle : channel ≤ channels := UInt32.not_lt.1 hchannel
      have hne : paramId.toNat ≠ Scpi.parameterCount := fun heq ↦ h ⟨hle, heq⟩
      have hvalid : Valid channel paramId.toNat := ⟨hle, by omega⟩
      obtain ⟨row, hrow⟩ := exists_entry (awgFy6900 retries).pt hvalid.paramId_lt
      exact ⟨.inr (neverFails_set hvalid hrow value), .inr (neverFails_get hvalid hrow)⟩

/-- Parameter 7 on channel 1. -/
theorem not_guarded_seven :
    ¬ Guarded (referencePlatform .binary64) (awgFy6900 0) 1 (7 : UInt32).toNat (.finite 0) := by
  rintro ⟨hset, -⟩
  rcases hset with ⟨hinvalid, -⟩ | hset
  · revert hinvalid
    decide
  · exact hset

end AwgFy

end EspBode
