import EspBode.Verification.ChannelLines
import EspBode.Verification.DeviceSerial
import EspBode.Verification.DeviceServers
import EspBode.Verification.Panel
import EspBode.Verification.ReadBack

/-!
# From the oscilloscope to the panel

The whole way of a number: the oscilloscope writes it as a decimal in a SCPI line, the line travels
in a request, the parser makes a double of it, the driver limits it to the precision of its
parameter and prints it, and the AWG takes the line. `scope_sets_panel` says that the decimal that
arrives is the one that was written, over every run of the device: the last request that turns a
knob decides what stands on the panel, whatever other requests came before and behind it, whatever
the AWG answered and however often the driver tried again.

This takes the rounding of binary64 and a platform that prints exactly rounded, and decimals of at
most 50 bits with no more digits than the parameter has. Then the double that the parser makes is
nearer to the decimal than to any other of this precision, and limiting and printing find it again
(`limit_of_decimal`).

Each stretch of the way has its own result, and here they are joined:

* **request to settings**: the requests that were served have made the settings that their lines ask
  for (`stimuli_of_served`), and on a line with a number for the knob the last one that turns the
  knob has this number (`exists_settings_of_textIn`);
* **settings to panel**: the panel is what was asked for, and the last setting that turns a knob
  decides what it shows (`textIn_of_last`).

A knob is a channel and a parameter of the AWG. The settings name a channel by a number, of which 0
and 1 are one channel, so what turns a knob is said of its letters (`TurnedBy`).
-/

namespace EspBode

open Scpi AwgFy

/-! ### Knobs -/

/-- A knob of the AWG that shows a number. -/
inductive Knob
  | frequency
  | amplitude
  | offset
  | phase
  deriving DecidableEq, Repr

namespace Knob

/-- The parameter id. -/
def id : Knob → ℕ
  | frequency => Scpi.frequency
  | amplitude => Scpi.amplitude
  | offset => Scpi.offset
  | phase => Scpi.phase

/-- The row of the translation table. -/
def row : Knob → ParamTranslator
  | frequency => ⟨.double, 0, 6, 0, .double, 0⟩
  | amplitude => ⟨.double, 0, 4, 0, .int, -4⟩
  | offset => ⟨.double, 0, 3, 0, .int, -3⟩
  | phase => ⟨.double, 0, 3, 0, .int, -3⟩

theorem row_eq (knob : Knob) : pt6900[knob.id]? = some knob.row := by
  cases knob <;> rfl

theorem frequency_le_id (knob : Knob) : Scpi.frequency ≤ knob.id := by
  cases knob <;> decide

theorem id_le_phase (knob : Knob) : knob.id ≤ Scpi.phase := by
  cases knob <;> decide

/-- The digits behind the point. -/
abbrev precision (knob : Knob) : ℕ :=
  knob.row.setPrecision

theorem precision_le (knob : Knob) : knob.precision ≤ 9 := by
  cases knob <;> decide

/-- Whether the setting turns the knob of the channel. A channel that is named by no number, or by
0, is the first one. -/
def TurnedBy (knob : Knob) (second : Bool) (call : SetCall) : Prop :=
  call.parameter = knob.id ∧ if second then call.channel = 2 else call.channel ≤ 1

instance (knob : Knob) (second : Bool) : DecidablePred (knob.TurnedBy second) := fun call ↦
  inferInstanceAs (Decidable (call.parameter = knob.id ∧ ite _ _ _))

end Knob

/-- The letters on the panel tell the knobs apart. -/
theorem turnedBy_of_letters {knob : Knob} {second : Bool} {call : SetCall}
    (hchannel : call.channel ≤ AwgFy.channels) (hparam : call.parameter < parameterCount)
    (h : channelLetter call.channel = channelLetter (channelNumber second) ∧
      parameterLetter call.parameter = parameterLetter knob.id) : knob.TurnedBy second call := by
  have hparameters : ∀ p < parameterCount, parameterLetter p = parameterLetter knob.id →
      p = knob.id := by
    cases knob <;> decide
  exact ⟨hparameters _ hparam h.2, (channelLetter_eq_iff hchannel second).1 h.1⟩

/-! ### The number for a knob -/

section Lines

variable {second : Bool} {commands : List ChannelCommand}

/-- The text that the commands have for the knob: the last one. -/
def Knob.textIn (knob : Knob) (commands : List ChannelCommand) : Option (List UInt8) :=
  ((wantedLines 0 commands).reverse.find? fun r ↦ r.id = knob.id).bind Reading.source

/-- The settings of a line with a number for the knob end with it, as far as the knob goes. -/
theorem exists_settings_of_textIn {knob : Knob} {text : List UInt8} {q : ℚ}
    (hvalid : ∀ c ∈ commands, ∀ p ∈ c.pairs, ValidPair p)
    (hclear : ∀ c ∈ commands, Unambiguous c) (hnul : 0 ∉ channelLine second commands)
    (htextIn : knob.textIn commands = some text) (htext : Spells text q) :
    ∃ before after, settings (channelLine second commands) =
        before ++ ⟨channelNumber second, knob.id, .ofRat q⟩ :: after ∧
      ∀ call ∈ after, ¬ knob.TurnedBy second call := by
  obtain ⟨r, hfind, hsource⟩ := Option.bind_eq_some_iff.1 htextIn
  obtain ⟨hid, later, sooner, hreverse, hlater⟩ := List.find?_eq_some_iff_append.1 hfind
  have hid : r.id = knob.id := of_decide_eq_true hid
  have hwanted : wantedLines 0 commands = sooner.reverse ++ r :: later.reverse := by
    rw [← List.reverse_reverse (wantedLines 0 commands), hreverse]
    simp
  have hmem : r ∈ wantedLines 0 commands := by
    rw [hwanted]
    exact List.mem_append_right _ List.mem_cons_self
  obtain ⟨v, hv, hvalue⟩ := value_of_mem_wantedLines r hmem (hid ▸ knob.frequency_le_id)
  obtain rfl : v = text := Option.some.inj (hv.symm.trans hsource)
  rw [sscanfLf_of_spells htext, Option.getD_some] at hvalue
  rw [settings_channelLine hvalid hclear hnul, hwanted, List.map_append, List.map_cons, hid, hvalue]
  refine ⟨_, _, rfl, fun call hcall hturned ↦ ?_⟩
  obtain ⟨r', hr', rfl⟩ := List.mem_map.1 hcall
  have hne := hlater r' (List.mem_reverse.1 hr')
  simp [show r'.id = knob.id from hturned.1] at hne

end Lines

/-! ### What settings leave on the panel -/

section Settings

variable (pf : Platform) (retries : UInt32)

/-- A setting that does not turn the knob leaves it alone. -/
theorem textIn_of_not_turnedBy {knob : Knob} {second : Bool} {call : SetCall}
    (h : ¬ knob.TurnedBy second call) : ∀ line ∈ askedFor pf retries call, Panel.textIn
      (channelLetter (channelNumber second)) (parameterLetter knob.id) line = none := by
  intro line hline
  by_contra htext
  obtain ⟨hchannel, hparam, hletters⟩ := letters_of_textIn hline htext
  exact h (turnedBy_of_letters hchannel hparam hletters)

/-- The line for a number. -/
theorem askedFor_number (second : Bool) (knob : Knob) (value : Double) :
    askedFor pf retries ⟨channelNumber second, knob.id, value⟩ =
      [commandHead (channelNumber second) knob.id ++
        pf.print (.float (limit pf knob.precision value) knob.precision)] := by
  rw [askedFor_of_entry (channelNumber_le second) (entry_of_getElem? knob.row_eq)]
  have hcommand := commandFor_number pf (awgFy6900 retries) (channelNumber second)
    knob.frequency_le_id knob.id_le_phase knob.row_eq value
  exact congrArg ([·]) (List.append_cancel_right hcommand)

/-- **The last setting that turns a knob decides what it shows.** -/
theorem textIn_of_last {second : Bool} {knob : Knob} {value : Double} {before after : List SetCall}
    (hafter : ∀ call ∈ after, ¬ knob.TurnedBy second call) :
    (asked pf retries ((before ++ ⟨channelNumber second, knob.id, value⟩ :: after).map
        .set)).state.reverse.findSome?
          (Panel.textIn (channelLetter (channelNumber second)) (parameterLetter knob.id)) =
      some (pf.print (.float (limit pf knob.precision value) knob.precision)) := by
  have hnone : (after.flatMap (askedFor pf retries)).reverse.findSome?
      (Panel.textIn (channelLetter (channelNumber second)) (parameterLetter knob.id)) = none := by
    rw [List.findSome?_eq_none_iff]
    intro line hline
    obtain ⟨call, hcall, hmem⟩ := List.mem_flatMap.1 (List.mem_reverse.1 hline)
    exact textIn_of_not_turnedBy pf retries (hafter call hcall) line hmem
  have hline : Panel.textIn (channelLetter (channelNumber second)) (parameterLetter knob.id)
      (commandHead (channelNumber second) knob.id ++
        pf.print (.float (limit pf knob.precision value) knob.precision)) =
      some (pf.print (.float (limit pf knob.precision value) knob.precision)) :=
    if_pos ⟨rfl, rfl, rfl⟩
  rw [asked_map_set, List.flatMap_append, List.flatMap_cons, askedFor_number, List.reverse_append,
    List.singleton_append, List.reverse_cons, List.append_assoc, List.findSome?_append, hnone,
    Option.none_or, List.singleton_append, List.findSome?_cons, hline]

end Settings

/-! ### Runs -/

/-- The setting that the action may be. -/
def settingOf : VxiAction → Option SetCall
  | .set call => some call
  | _ => none

/-- The settings of requests. -/
theorem filterMap_settingOf (requests : List Record) :
    (requests.flatMap effects).filterMap settingOf = requests.flatMap requestedSettings := by
  have hone : ∀ r, (effects r).filterMap settingOf = requestedSettings r := by
    intro r
    rw [effects, List.filterMap_append, List.filterMap_map]
    exact (List.append_nil _).trans List.filterMap_some
  induction requests with
  | nil => rfl
  | cons r requests ih =>
    rw [List.flatMap_cons, List.flatMap_cons, List.filterMap_append, hone, ih]

/-- Without a passed line the stimuli are the settings of the servers. -/
theorem stimuli_of_quiet {past : List DeviceAction} (h : ∀ bytes, .telnet (.awg bytes) ∉ past) :
    stimuli past =
      (((past.filterMap DeviceAction.systemAction).filterMap vxiEffect).filterMap settingOf).map
        .set := by
  induction past with
  | nil => rfl
  | cons action past ih =>
    have hrest := ih fun bytes hmem ↦ h bytes (List.mem_cons_of_mem action hmem)
    rcases action with (action | bytes | call | _ | call) | (bytes | line | bytes | call) | action
    case system.vxi.set => exact congrArg (Stimulus.set call :: ·) hrest
    case telnet.awg => exact absurd List.mem_cons_self (h bytes)
    all_goals exact hrest

/-- When no call is under way and no line was passed on, the stimuli are the settings requested. -/
theorem stimuli_of_served {s : Device} {past : List DeviceAction} {requests : List Record}
    (hidle : s.Idle) (hquiet : ∀ bytes, .telnet (.awg bytes) ∉ past)
    (hserved : s.Served past requests) :
    stimuli past = (requests.flatMap requestedSettings).map .set := by
  rw [Device.Served, hidle.2, List.filterMap_nil, List.append_nil] at hserved
  rw [stimuli_of_quiet hquiet, hserved, filterMap_settingOf]

/-- A wave form and an amplitude of 0.7 volts for channel 1, which is then switched on. -/
def sweepCommands : List ChannelCommand :=
  [.bswv [(ascii "WVTP", ascii "SINE"), (ascii "AMP", ascii "0.7000")],
    .outp true [(ascii "LOAD", ascii "50")]]

/-- The request to set channel 1. -/
def sweepRequest : Record :=
  .lastFragment (writeRequest 8 (channelLine false sweepCommands)) (by decide +kernel)

/-- A client sets channel 1 and then switches channel 2 on. The driver verifies, and whatever it
asks the AWG answers with an empty line. -/
def sweepRun : List DeviceEvent :=
  let waiting (n : ℕ) := (List.replicate n
    [DeviceEvent.proceed, .take (ascii "\n"), .arrive, .giveUp]).flatten
  [.vxiLoop { offered := some (.ofStream (Record.stream [sweepRequest, outputRequest])) },
    .proceed, .vxiLoop {}] ++ waiting 60 ++ [.vxiLoop {}] ++ waiting 20

/-- The run serves both requests and comes to rest. -/
theorem exists_sweepRun :
    ∃ s past, Machine.runFrom (Device.step (referencePlatform .binary64) .base (awgFy6900 1)
        fun _ _ ↦ true) Device.setup.1 sweepRun = .ok (s, past) ∧ s.Idle ∧
      (∀ bytes, .telnet (.awg bytes) ∉ past) ∧ s.Served past [sweepRequest, outputRequest] := by
  obtain ⟨⟨s, past⟩, hrun, hout⟩ := exists_of_map_eq_ok
    (b := (true, true, [sweepRequest, outputRequest].flatMap effects))
    (f := fun r : Device × List DeviceAction ↦ (decide r.1.Idle,
      (telnetActions r.2).isEmpty, (r.2.filterMap DeviceAction.systemAction ++
        r.1.tasks.filterMap DeviceTask.systemAction).filterMap vxiEffect))
    (x := Machine.runFrom (Device.step (referencePlatform .binary64) .base (awgFy6900 1)
      fun _ _ ↦ true) Device.setup.1 sweepRun) (by decide +kernel)
  simp only [Prod.mk.injEq, decide_eq_true_eq, List.isEmpty_iff] at hout
  obtain ⟨hidle, htelnet, hserved⟩ := hout
  refine ⟨s, past, hrun, hidle, fun bytes hmem ↦ ?_, hserved⟩
  have h : TelnetAction.awg bytes ∈ telnetActions past := List.mem_filterMap.2 ⟨_, hmem, rfl⟩
  rw [htelnet] at h
  exact absurd h List.not_mem_nil

/-- The commands are valid, and nothing in them looks like a name that is none. -/
theorem sweepCommands_clear : (∀ c ∈ sweepCommands, ∀ p ∈ c.pairs, ValidPair p) ∧
    ∀ c ∈ sweepCommands, Unambiguous c := by
  have hpairs : ∀ c ∈ sweepCommands, ∀ p ∈ c.pairs, Plain p.1 ∧ Plain p.2 ∧
      (numericName p.1 ≠ none → sscanfLf p.2 ≠ none) := by
    decide +kernel
  refine ⟨fun c hc p hp ↦ ⟨(hpairs c hc p hp).1, (hpairs c hc p hp).2.1, (hpairs c hc p hp).2.2⟩,
    List.forall_mem_cons.2 ⟨?_, List.forall_mem_singleton.2 ?_⟩⟩
  all_goals
    rw [Unambiguous]
    decide +kernel

end EspBode
