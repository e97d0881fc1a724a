import EspBode.Verification.Knobs

/-!
# The outputs

ON and OFF are two parameters of the driver, with one letter on the panel. What is passed to the
driver is truth, whatever the platform rounds, so over every run of the device the output of a
channel is what the last ON or OFF says that was served for it, on whichever line it stood, and is
left alone if there was none (`scope_switches_panel`).

A number on the panel is a decimal that has been limited, rounded and printed; an output is none of
that, and is exact on every platform:

* the parser gives an ON or OFF its own index for a value, whatever text follows
  (`hasSwitchValue_of_mem_walk`);
* limiting leaves a truth value as it is, since all its steps are calculations with small integers
  (`limit_ofNat`), and so does the conversion to an integer (`toLong_truth`);
* printed, it is the digit that switches the output (`textIn_askedFor`).

So what a list of settings leaves for an output is decided by the last setting that switches it
(`textIn_asked`), which is an induction on the list. The rest is what the panel shows at the end of
a run of the device that has served the requests and is at rest, with no line passed on: such a line
might switch an output as well, and then the requests alone do not decide it.
-/

namespace EspBode

open Scpi AwgFy

/-! ### Switching -/

/-- What the setting switches the output of the channel to. -/
def switchedTo (second : Bool) (call : SetCall) : Option Bool :=
  if if second then call.channel = 2 else call.channel ≤ 1 then
    if call.parameter = outputOn then some true
    else if call.parameter = outputOff then some false else none
  else none

theorem switchedTo_eq_some_iff {second on : Bool} {call : SetCall} :
    switchedTo second call = some on ↔ (if second then call.channel = 2 else call.channel ≤ 1) ∧
      call.parameter = if on then outputOn else outputOff := by
  have hne : outputOff ≠ outputOn := by decide
  rw [switchedTo]
  split_ifs <;> cases on <;> simp_all

/-- ON and OFF come with their own values. -/
def HasSwitchValue (call : SetCall) : Prop :=
  (call.parameter = outputOff → call.value = .ofNat 0) ∧
    (call.parameter = outputOn → call.value = .ofNat 1)

theorem hasSwitchValue_of_mem_walk {ch : UInt32} : ∀ {ts : List (List UInt8)},
    ∀ call ∈ walk ch ts, HasSwitchValue call
  | [] => fun call hcall ↦ absurd hcall List.not_mem_nil
  | t :: ts => by
    have hnumber : ∀ {id : ℕ} {value : Double}, ¬ (id = outputOff ∨ id = outputOn) →
        HasSwitchValue ⟨ch, id, value⟩ := fun h ↦
      ⟨fun hoff ↦ absurd (.inl hoff) h, fun hon ↦ absurd (.inr hon) h⟩
    rw [walk.eq_def]
    dsimp only
    cases nameCase t with
    | off hoff =>
      rw [if_pos hoff]
      exact List.forall_mem_cons.2 ⟨⟨fun _ ↦ rfl, fun h ↦ absurd h (show (0 : ℕ) ≠ 1 by decide)⟩,
        hasSwitchValue_of_mem_walk⟩
    | on hoff hon =>
      rw [if_neg hoff, if_pos hon]
      exact List.forall_mem_cons.2 ⟨⟨fun h ↦ absurd h (show (1 : ℕ) ≠ 0 by decide), fun _ ↦ rfl⟩,
        hasSwitchValue_of_mem_walk⟩
    | wave hoff hon hwave =>
      rw [if_neg hoff, if_neg hon]
      rcases ts with _ | ⟨v, vs⟩
      · rw [if_pos hwave]
        exact List.forall_mem_singleton.2 (hnumber (by decide))
      · dsimp only
        rw [if_pos hwave]
        exact List.forall_mem_cons.2 ⟨hnumber (by decide), hasSwitchValue_of_mem_walk⟩
    | other hoff hon hwave hnum =>
      rw [if_neg hoff, if_neg hon]
      rcases ts with _ | ⟨v, vs⟩
      · rw [if_neg hwave]
        exact fun call hcall ↦ absurd hcall List.not_mem_nil
      · dsimp only
        rw [if_neg hwave, hnum]
        exact hasSwitchValue_of_mem_walk
    | numeric hoff hon hwave hnum hset hne =>
      rw [if_neg hoff, if_neg hon]
      rcases ts with _ | ⟨v, vs⟩
      · rw [if_neg hwave]
        exact fun call hcall ↦ absurd hcall List.not_mem_nil
      · dsimp only
        rw [if_neg hwave, hnum]
        exact List.forall_mem_cons.2 ⟨hnumber hset, hasSwitchValue_of_mem_walk⟩

/-- So it is for whatever requests ask. -/
theorem hasSwitchValue_of_mem_requestedSettings {r : Record} :
    ∀ call ∈ requestedSettings r, HasSwitchValue call := by
  intro call hcall
  rw [requestedSettings, settings] at hcall
  split_ifs at hcall
  · exact absurd hcall List.not_mem_nil
  · obtain ⟨line, -, hline⟩ := List.mem_flatMap.1 hcall
    split_ifs at hline
    · exact hasSwitchValue_of_mem_walk call hline
    · exact absurd hline List.not_mem_nil
  · exact absurd hcall List.not_mem_nil

/-! ### What switching leaves on the panel -/

section Settings

variable (pf : Platform) (retries : UInt32)

/-- Truth is limited to itself. -/
theorem limit_ofNat {n : ℕ} (hn : n ≤ 1) : limit pf 0 (.ofNat n) = .finite n := by
  have hn' : n ≤ 2 ^ 50 := hn.trans (by norm_num)
  have hunits : units pf 0 (.finite n) = n := by
    refine units_of_near pf (Nat.zero_le 9) hn' ?_
    rw [pow_zero, mul_one, sub_self, abs_zero]
    norm_num
  have hround := pf.arithmetic.round_natCast (hn'.trans (by norm_num))
  show pf.arithmetic.div (pf.ofUnsigned (units pf 0 (.finite n))) (pf.pow10 (0 : ℕ)) = _
  rw [hunits, Platform.ofUnsigned, hround, pf.pow10_natCast (Nat.zero_le 9), pow_zero,
    pf.arithmetic.div_finite _ one_ne_zero, div_one, hround]

/-- The number of a truth value. -/
theorem toLong_truth (on : Bool) :
    pf.toLong (Double.truth (.finite (if on then 1 else 0 : ℕ))) = if on then 1 else 0 := by
  cases on <;> rfl

/-- What is asked for when an output is switched. -/
theorem askedFor_switch {channel : UInt32} (hchannel : channel ≤ channels) (on : Bool) :
    askedFor pf retries
        ⟨channel, if on then outputOn else outputOff, .ofNat (if on then 1 else 0)⟩ =
      [commandHead channel outputOn ++ pf.print (.long (if on then 1 else 0))] := by
  have hrow : pt6900[if on then outputOn else outputOff]? = some ⟨.bool, 0, 0, 0, .bool, 0⟩ := by
    cases on <;> rfl
  have hwave : (if on then outputOn else outputOff) ≠ wave := by
    cases on <;> decide
  have hhead : commandHead channel (if on then outputOn else outputOff) =
      commandHead channel outputOn := by
    cases on <;> rfl
  have hlimit : limit pf 0 (.ofNat (if on then 1 else 0)) = .finite (if on then 1 else 0 : ℕ) := by
    cases on
    · exact limit_ofNat pf (Nat.zero_le 1)
    · exact limit_ofNat pf le_rfl
  rw [askedFor_of_entry hchannel (entry_of_getElem? hrow), settingLine, prepare, if_neg hwave]
  dsimp only
  rw [effective, if_pos rfl, hhead]
  rw [hlimit, insertion]
  dsimp only
  rw [if_neg (not_not.2 rfl), toLong_truth]

variable {pf retries}

/-- **What a setting shows for an output** is what it switches the output to. -/
theorem textIn_askedFor {call : SetCall} (h : HasSwitchValue call) (second : Bool) :
    (askedFor pf retries call).findSome?
        (Panel.textIn (channelLetter (channelNumber second)) (chr 'N')) =
      (switchedTo second call).map fun on ↦ pf.print (.long (if on then 1 else 0)) := by
  rcases hswitch : switchedTo second call with _ | on
  · rw [Option.map_none, List.findSome?_eq_none_iff]
    intro line hline
    by_contra htext
    -- the letter N is that of ON and OFF only
    obtain ⟨hchannel, hparam, hc, hp⟩ := letters_of_textIn hline htext
    have hparameters : ∀ p < parameterCount, parameterLetter p = chr 'N' →
        p = outputOff ∨ p = outputOn := by
      decide
    have hchannel := (channelLetter_eq_iff hchannel second).1 hc
    rcases hparameters _ hparam hp with hoff | hon
    · have hsome := switchedTo_eq_some_iff.2 ⟨hchannel, show _ = if false then _ else _ from hoff⟩
      exact absurd (hswitch.symm.trans hsome) (by simp)
    · have hsome := switchedTo_eq_some_iff.2 ⟨hchannel, show _ = if true then _ else _ from hon⟩
      exact absurd (hswitch.symm.trans hsome) (by simp)
  · obtain ⟨hchannel, hparam⟩ := switchedTo_eq_some_iff.1 hswitch
    obtain ⟨channel, parameter, value⟩ := call
    obtain ⟨hle, hletter⟩ : channel ≤ channels ∧
        channelLetter channel = channelLetter (channelNumber second) := by
      have hle : channel ≤ channels := by
        cases second
        · exact UInt32.le_trans hchannel (by decide)
        · exact UInt32.le_of_eq (show channel = 2 from hchannel)
      exact ⟨hle, (channelLetter_eq_iff hle second).2 hchannel⟩
    have hvalue : value = .ofNat (if on then 1 else 0) := by
      cases on
      · exact h.1 hparam
      · exact h.2 hparam
    obtain rfl : parameter = if on then outputOn else outputOff := hparam
    rw [hvalue, askedFor_switch pf retries hle on, List.findSome?_singleton]
    exact if_pos ⟨rfl, hletter, rfl⟩

/-- The last setting that switches the output decides what it shows. -/
theorem textIn_asked {calls : List SetCall} (h : ∀ call ∈ calls, HasSwitchValue call)
    (second : Bool) :
    (asked pf retries (calls.map .set)).state.reverse.findSome?
        (Panel.textIn (channelLetter (channelNumber second)) (chr 'N')) =
      (calls.reverse.findSome? (switchedTo second)).map
        fun on ↦ pf.print (.long (if on then 1 else 0)) := by
  rw [asked_map_set]
  induction calls with
  | nil => rfl
  | cons call calls ih =>
    obtain ⟨hcall, hcalls⟩ := List.forall_mem_cons.1 h
    have hone : (askedFor pf retries call).reverse = askedFor pf retries call := by
      rw [askedFor]
      split_ifs
      · rcases pt6900[call.parameter]? with _ | row <;> rfl
      · rfl
    rw [List.flatMap_cons, List.reverse_append, List.findSome?_append, ih hcalls, hone,
      textIn_askedFor hcall, List.reverse_cons, List.findSome?_append, List.findSome?_singleton,
      Option.map_or]

end Settings

/-! ### Runs -/

/-- **The outputs are what was switched last.** Over every run of the device that serves the
requests and ends at rest, the output of a channel shows the last ON or OFF that a line had for it,
whatever else was set, and what it showed before if there was none. -/
theorem scope_switches_panel {pf : Platform} {retries : UInt32} {awg : AwgServer}
    {answers : List UInt8 → List UInt8 → Bool} {events : List DeviceEvent} {s : Device}
    {past : List DeviceAction}
    (hrun : Machine.runFrom (Device.step pf awg (awgFy6900 retries) answers) Device.setup.1 events =
      .ok (s, past)) (hidle : s.Idle) (hquiet : ∀ bytes, .telnet (.awg bytes) ∉ past)
    {requests : List Record} (hserved : s.Served past requests) (second : Bool) (panel : Panel) :
    (SerialLine.taken (serialActions past) ++ completed (chr '\n') s.line.outgoing).foldl
        Panel.take panel (channelLetter (channelNumber second)) (chr 'N') =
      ((requests.flatMap requestedSettings).reverse.findSome? (switchedTo second)).elim
        (panel (channelLetter (channelNumber second)) (chr 'N'))
        fun on ↦ pf.print (.long (if on then 1 else 0)) := by
  have hvalues : ∀ call ∈ requests.flatMap requestedSettings, HasSwitchValue call := by
    intro call hcall
    obtain ⟨r, -, hr⟩ := List.mem_flatMap.1 hcall
    exact hasSwitchValue_of_mem_requestedSettings call hr
  rw [foldl_of_idle hrun hidle, Panel.foldl_take, stimuli_of_served hidle hquiet hserved,
    textIn_asked hvalues]
  rcases (requests.flatMap requestedSettings).reverse.findSome? (switchedTo second) with _ | on
  · rfl
  · rfl

/-- Both outputs, which had been off. -/
theorem scope_switches_panel_sweepRun :
    ∃ s past, Machine.runFrom (Device.step (referencePlatform .binary64) .base (awgFy6900 1)
        fun _ _ ↦ true) Device.setup.1 sweepRun = .ok (s, past) ∧
      ∀ second, (SerialLine.taken (serialActions past) ++
        completed (chr '\n') s.line.outgoing).foldl Panel.take (fun _ _ ↦ ascii "0")
          (channelLetter (channelNumber second)) (chr 'N') = ascii "1" := by
  obtain ⟨s, past, hrun, hidle, hquiet, hserved⟩ := exists_sweepRun
  refine ⟨s, past, hrun, fun second ↦ ?_⟩
  rw [scope_switches_panel hrun hidle hquiet hserved second]
  cases second <;> decide +kernel

end EspBode
