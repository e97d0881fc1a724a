import EspBode.Verification.DeviceLines

/-!
# The panel of the AWG

What the AWG makes of the lines it takes: a line that starts with W sets what stands for its channel
and its parameter, and the last such line counts (`foldl_take`). Another line sets nothing.

The driver writes more lines than there are settings, since it asks back and tries again, and how
many they are depends on the answers. On the panel that makes no difference: a pass changes what its
command changes, and a second one nothing more (`iterate_passLines`). So over every run of the
device the panel is what the settings and the passed lines ask for, one line for each
(`device_panel`).

The panel is an **observer** of the lines that were transmitted, and no part of the AWG's protocol:
nothing is assumed about how the AWG answers, and it may answer as if it had not understood. What is
passed on from the telnet client counts like what the driver writes, also when it is not a whole
line yet; the next command is then written behind it, on the same line. `asked` therefore keeps what
is begun of the next line, and is folded over the settings and the passed bytes in the order in
which they came.

It rests on the result that the bytes on the line are those of the stimuli, each setting with a
number of passes, and on `write_of_written`: the number of passes does not enter the state of a
device that a second pass does not change.
-/

namespace EspBode

/-- What is set for a channel letter and a parameter letter, as it is written in the command. -/
abbrev Panel : Type :=
  UInt8 → UInt8 → List UInt8

namespace Panel

/-- What the line sets for the channel and the parameter. -/
def textIn (channel parameter : UInt8) : List UInt8 → Option (List UInt8)
  | w :: c :: p :: text => if w = chr 'W' ∧ c = channel ∧ p = parameter then some text else none
  | _ => none

/-- The AWG takes a line. -/
def take (panel : Panel) (line : List UInt8) : Panel := fun channel parameter ↦
  (textIn channel parameter line).getD (panel channel parameter)

/-- **The last line counts.** -/
theorem foldl_take (panel : Panel) (lines : List (List UInt8)) (channel parameter : UInt8) :
    lines.foldl take panel channel parameter =
      (lines.reverse.findSome? (textIn channel parameter)).getD (panel channel parameter) := by
  induction lines using List.reverseRecOn with
  | nil => rfl
  | append_singleton lines line ih =>
    rw [List.foldl_concat, List.reverse_concat, List.findSome?_cons, take]
    rcases textIn channel parameter line with _ | text
    · exact ih
    · rfl

/-- A line that does not start with W sets nothing. -/
theorem take_of_ne {panel : Panel} {line : List UInt8} (h : line.head? ≠ some (chr 'W')) :
    panel.take line = panel := by
  funext channel parameter
  rw [take]
  rcases line with _ | ⟨w, _ | ⟨c, _ | ⟨p, text⟩⟩⟩
  · rfl
  · rfl
  · rfl
  · have hw : w ≠ chr 'W' := fun heq ↦ h (congrArg some heq)
    rw [textIn, if_neg fun h ↦ hw h.1, Option.getD_none]

/-- Once more sets nothing more. -/
theorem take_take (panel : Panel) (line : List UInt8) :
    (panel.take line).take line = panel.take line := by
  funext channel parameter
  rw [take, take]
  rcases textIn channel parameter line with _ | text <;> rfl

/-- The AWG as a device that takes lines. -/
def device : LineDevice Panel :=
  ⟨chr '\n', take⟩

end Panel

open AwgFy

section Asked

variable (pf : Platform) (retries : UInt32)

/-- A pass sets what its command sets. -/
theorem foldl_passLines (panel : Panel) (row : ParamTranslator) (channel : UInt32) (paramId : ℕ)
    (value : Double) :
    (passLines pf (awgFy6900 retries) row channel paramId value).foldl Panel.take panel =
      panel.take (settingLine pf (awgFy6900 retries) row channel paramId value) := by
  rw [passLines, List.foldl_cons]
  split_ifs
  · rw [List.foldl_cons, List.foldl_cons, List.foldl_nil, Panel.take_of_ne (by simp),
      Panel.take_of_ne]
    show some (chr 'R') ≠ _
    decide
  · rfl

/-- So do several passes. -/
theorem iterate_passLines (panel : Panel) (row : ParamTranslator) (channel : UInt32) (paramId : ℕ)
    (value : Double) (n : ℕ) :
    (fun panel ↦ (passLines pf (awgFy6900 retries) row channel paramId value).foldl Panel.take
      panel)^[n + 1] panel =
        panel.take (settingLine pf (awgFy6900 retries) row channel paramId value) := by
  induction n with
  | zero => exact foldl_passLines pf retries panel row channel paramId value
  | succ n ih =>
    rw [Function.iterate_succ_apply', ih]
    exact (foldl_passLines pf retries _ row channel paramId value).trans (Panel.take_take _ _)

/-- The line that a setting asks for: one, if the channel is in range. -/
def askedFor (call : SetCall) : List (List UInt8) :=
  if call.channel ≤ channels then
    match pt6900[call.parameter]? with
    | some row =>
      [settingLine pf (awgFy6900 retries) row call.channel call.parameter call.value]
    | none => []
  else []

/-- The lines that the stimuli ask for, and what is begun of the next one. -/
def asked (past : List Stimulus) : Taken (List (List UInt8)) :=
  past.foldl (fun t stimulus ↦ match stimulus with
    | .set call => ⟨t.state ++ askedFor pf retries call, t.begun⟩
    | .typed bytes => transcript.write t bytes) ⟨[], []⟩

theorem asked_set (past : List Stimulus) (call : SetCall) :
    asked pf retries (past ++ [.set call]) =
      ⟨(asked pf retries past).state ++ askedFor pf retries call,
        (asked pf retries past).begun⟩ := by
  rw [asked, List.foldl_concat, ← asked]

theorem asked_typed (past : List Stimulus) (bytes : List UInt8) :
    asked pf retries (past ++ [.typed bytes]) = transcript.write (asked pf retries past) bytes := by
  rw [asked, List.foldl_concat, ← asked]

/-- Settings only, with no passed lines between them. -/
theorem asked_map_set (calls : List SetCall) :
    asked pf retries (calls.map .set) = ⟨calls.flatMap (askedFor pf retries), []⟩ := by
  induction calls using List.reverseRecOn with
  | nil => rfl
  | append_singleton calls call ih =>
    rw [List.map_append, List.map_singleton, asked_set, ih, List.flatMap_append,
      List.flatMap_singleton]

variable {pf retries}

theorem askedFor_of_entry {call : SetCall} {row : ParamTranslator}
    (hchannel : call.channel ≤ channels) (hrow : entry pt6900 call.parameter = .ok row) :
    askedFor pf retries call =
      [settingLine pf (awgFy6900 retries) row call.channel call.parameter call.value] := by
  rw [askedFor, if_pos hchannel]
  rw [entry] at hrow
  rcases h : pt6900[call.parameter]? with _ | row' <;> rw [h] at hrow
  · exact absurd hrow (by simp)
  · obtain rfl := Except.ok.inj hrow
    rfl

/-- What is asked for a setting stands under its letters. -/
theorem letters_of_textIn {call : SetCall} {line : List UInt8} {channel parameter : UInt8}
    (hline : line ∈ askedFor pf retries call) (h : Panel.textIn channel parameter line ≠ none) :
    call.channel ≤ channels ∧ call.parameter < Scpi.parameterCount ∧
      channelLetter call.channel = channel ∧ parameterLetter call.parameter = parameter := by
  rw [askedFor] at hline
  split_ifs at hline with hchannel
  · rcases hrow : pt6900[call.parameter]? with _ | row <;> rw [hrow] at hline
    · exact absurd hline List.not_mem_nil
    · obtain rfl := List.mem_singleton.1 hline
      obtain ⟨hparam, -⟩ := List.getElem?_eq_some_iff.1 hrow
      have hcommand : (prepare pf (awgFy6900 retries)
          (commandHead call.channel call.parameter) row call.parameter call.value).1.command =
            commandHead call.channel call.parameter := by
        rw [prepare]
        split_ifs <;> rfl
      rw [settingLine, hcommand] at h
      by_contra hletters
      exact h (if_neg fun heq ↦ hletters ⟨hchannel, hparam, heq.2⟩)
  · exact absurd hline List.not_mem_nil

/-- **The panel depends on the stimuli alone**, not on what was written for them. -/
theorem write_of_written {past : List Stimulus} {bytes : List UInt8}
    (h : Written pf retries past bytes) (panel : Panel) :
    Panel.device.write ⟨panel, []⟩ bytes =
      ⟨(asked pf retries past).state.foldl Panel.take panel, (asked pf retries past).begun⟩ := by
  induction h with
  | nil => exact Panel.device.write_nil List.not_mem_nil
  | @set past bytes call row n hvalid hrow _ hnew _ ih =>
    have hbegun : (Panel.device.write ⟨panel, []⟩ bytes).begun = [] := hnew
    rw [← Panel.device.write_write, Taken.eq_of_begun hbegun, write_passes pf rfl, asked_set,
      askedFor_of_entry hvalid.channel_le hrow, List.foldl_concat]
    rw [ih] at hbegun ⊢
    exact congrArg₂ Taken.mk (iterate_passLines pf retries _ row _ _ _ n) hbegun.symm
  | @refused past bytes call hchannel _ ih =>
    rw [ih, asked_set, askedFor, if_neg hchannel, List.append_nil]
  | @typed past bytes bytes' _ ih =>
    rw [← Panel.device.write_write, ih, asked_typed, LineDevice.write, LineDevice.write,
      foldl_transcript, List.foldl_append]
    rfl

end Asked

section Runs

variable {pf : Platform} {retries : UInt32} {awg : AwgServer}
variable {answers : List UInt8 → List UInt8 → Bool} {s : Device} {past : List DeviceAction}
variable {events : List DeviceEvent}

/-- The panel when no call is under way, once the AWG has taken what is written. -/
theorem foldl_of_idle
    (hrun : Machine.runFrom (Device.step pf awg (awgFy6900 retries) answers) Device.setup.1 events =
      .ok (s, past)) (hidle : s.Idle) (panel : Panel) :
    (SerialLine.taken (serialActions past) ++ completed (chr '\n') s.line.outgoing).foldl
        Panel.take panel =
      (asked pf retries (stimuli past)).state.foldl Panel.take panel := by
  have htold : Told Panel.device panel pf retries (stimuli past) _ := told_of_idle rfl hrun hidle
  obtain ⟨bytes, hwritten, hbytes⟩ := htold
  rw [write_of_written hwritten, SerialLine.ahead, LineDevice.write] at hbytes
  obtain ⟨hpanel, -⟩ := Taken.mk.inj hbytes
  rw [← hpanel, List.foldl_append, List.nil_append]
  rfl

/-- **The panel is what was asked for**, over every run of the whole device: when no call is under
way, what stands for a channel and a parameter, once the AWG has taken what is written, is what the
last line says that was asked for it, and what stood there before the run if there is none. -/
theorem device_panel
    (hrun : Machine.runFrom (Device.step pf awg (awgFy6900 retries) answers) Device.setup.1 events =
      .ok (s, past)) (hidle : s.Idle) (panel : Panel) (channel parameter : UInt8) :
    (SerialLine.taken (serialActions past) ++ completed (chr '\n') s.line.outgoing).foldl Panel.take
        panel channel parameter =
      ((asked pf retries (stimuli past)).state.reverse.findSome?
        (Panel.textIn channel parameter)).getD (panel channel parameter) := by
  rw [foldl_of_idle hrun hidle, Panel.foldl_take]

end Runs

/-- The output of channel 2, which had been off. -/
theorem device_panel_mixedRun :
    ∃ s past, Machine.runFrom (Device.step (referencePlatform .binary64) .base (awgFy6900 0)
        fun _ _ ↦ true) Device.setup.1 mixedRun = .ok (s, past) ∧
      (SerialLine.taken (serialActions past) ++ completed (chr '\n') s.line.outgoing).foldl
        Panel.take (fun _ _ ↦ ascii "0") (chr 'F') (chr 'N') = ascii "1" := by
  obtain ⟨⟨s, past⟩, hrun, hout⟩ := exists_of_map_eq_ok
    (b := (true, some (ascii "1")))
    (f := fun r : Device × List DeviceAction ↦ (decide r.1.Idle,
      (asked (referencePlatform .binary64) 0 (stimuli r.2)).state.reverse.findSome?
        (Panel.textIn (chr 'F') (chr 'N'))))
    (x := Machine.runFrom (Device.step (referencePlatform .binary64) .base (awgFy6900 0)
      fun _ _ ↦ true) Device.setup.1 mixedRun) (by decide +kernel)
  obtain ⟨hidle, hasked⟩ := Prod.mk.inj hout
  refine ⟨s, past, hrun, ?_⟩
  rw [device_panel hrun (of_decide_eq_true hidle), show _ = some (ascii "1") from hasked]
  rfl

end EspBode
