import EspBode.Foundations.Binary64
import EspBode.Foundations.LineTriples
import EspBode.Verification.DeviceSteps
import EspBode.Verification.RequestRecords

/-!
# What the AWG is told

Two things are written to the AWG: the commands and queries of the driver, and the lines that the
telnet client passes through. `Written` says what the settings and the passed lines amount to, one
behind the other, whatever the AWG answers: a setting is a number of passes, all the same, and
nothing if its channel is out of range; a passed line is itself.

`device_tells` is the result about runs of the whole device: what the AWG takes, line by line, is
the beginning of such a text, and all of it when no call is under way. Nothing that happens in
between, in whatever order, splices a line, loses one or doubles one.

**A device at the end of the line.** The invariant is not about the bytes that were written but
about a device that takes lines, of any kind, and its state when it has taken them: what has been
transmitted, what is still in the line, and what the dialogue under way is going to write, bring it
to a state that the stimuli amount to (`Told`). The transcript of the lines is one such device, and
the panel of the AWG is another.

* **The driver** is treated by triples for dialogues: from a state in which the device waits for a
  line, `set` leaves it in one that some number of passes leads to (`ensures_set`), on whatever
  answers.
* **The steps of the device** keep the invariant, by the list of its steps. A task that passes a
  line on writes it and its line feed without anything between them, as the tasks are `Ordered`.
-/

namespace EspBode

open Dialogue

/-! ### The driver on a device that takes lines -/

namespace AwgFy

variable {σ : Type} {dev : LineDevice σ} (pf : Platform) {awg : AwgFy} {channel : UInt32}
variable {paramId : ℕ} {row : ParamTranslator}

/-- What one pass of `set` writes. -/
def passFor (awg : AwgFy) (row : ParamTranslator) (channel : UInt32) (paramId : ℕ)
    (value : Double) : List UInt8 :=
  commandFor pf awg row channel paramId value ++
    if 0 < awg.retries then query channel paramId else []

/-- The line of a query. -/
def queryLine (channel : UInt32) (paramId : ℕ) : List UInt8 :=
  [chr 'R', channelLetter channel, parameterLetter paramId]

/-- The line of a command. -/
def settingLine (awg : AwgFy) (row : ParamTranslator) (channel : UInt32) (paramId : ℕ)
    (value : Double) : List UInt8 :=
  let p := prepare pf awg (commandHead channel paramId) row paramId value
  p.1.command ++ pf.print (insertion pf p.1.setType p.1.width p.1.precision (effective p.1 p.2))

/-- The lines of a pass. -/
def passLines (awg : AwgFy) (row : ParamTranslator) (channel : UInt32) (paramId : ℕ)
    (value : Double) : List (List UInt8) :=
  settingLine pf awg row channel paramId value ::
    if 0 < awg.retries then [queryLine channel paramId, []] else []

theorem newline_not_mem_settingLine (awg : AwgFy) (row : ParamTranslator) (channel : UInt32)
    (paramId : ℕ) (value : Double) :
    chr '\n' ∉ settingLine pf awg row channel paramId value := by
  rw [settingLine, command_prepare, List.mem_append]
  rintro (h | h)
  · exact newline_not_mem_letters (chr 'W') (by decide) channel paramId h
  · exact pf.print_line _ h

theorem newline_not_mem_passLines (awg : AwgFy) (row : ParamTranslator) (channel : UInt32)
    (paramId : ℕ) (value : Double) :
    ∀ line ∈ passLines pf awg row channel paramId value, chr '\n' ∉ line := by
  refine List.forall_mem_cons.2 ⟨newline_not_mem_settingLine pf awg row channel paramId value, ?_⟩
  split_ifs
  · refine List.forall_mem_cons.2 ⟨?_, List.forall_mem_singleton.2 List.not_mem_nil⟩
    exact newline_not_mem_letters (chr 'R') (by decide) channel paramId
  · exact fun _ h ↦ absurd h List.not_mem_nil

/-- A pass is its lines. -/
theorem passFor_eq (awg : AwgFy) (row : ParamTranslator) (channel : UInt32) (paramId : ℕ)
    (value : Double) :
    passFor pf awg row channel paramId value =
      (passLines pf awg row channel paramId value).flatMap (· ++ [chr '\n']) := by
  rw [passFor, passLines, List.flatMap_cons]
  refine congrArg₂ (· ++ ·) rfl ?_
  split_ifs <;> rfl

/-- **Passes on a device** that waits for a line. -/
theorem write_passes (hnewline : dev.newline = chr '\n') (awg : AwgFy) (row : ParamTranslator)
    (channel : UInt32) (paramId : ℕ) (value : Double) (n : ℕ) (s : σ) :
    dev.write ⟨s, []⟩ (rounds (passFor pf awg row channel paramId value) n) =
      ⟨(fun s ↦ (passLines pf awg row channel paramId value).foldl dev.take s)^[n] s, []⟩ := by
  have hpass : ∀ s, dev.write ⟨s, []⟩ (passFor pf awg row channel paramId value) =
      ⟨(passLines pf awg row channel paramId value).foldl dev.take s, []⟩ := by
    intro s
    rw [passFor_eq, ← hnewline]
    refine dev.write_lines ?_ s
    rw [hnewline]
    exact newline_not_mem_passLines pf awg row channel paramId value
  induction n generalizing s with
  | zero => exact dev.write_nil List.not_mem_nil
  | succ n ih =>
    rw [rounds_succ, ← dev.write_write, hpass, ih, Function.iterate_succ_apply]

/-- `get` writes its query. -/
theorem ensures_get (h : Valid channel paramId) (hrow : entry awg.pt paramId = .ok row)
    (t : Taken σ) :
    dev.Ensures (get pf awg channel paramId)
      (fun _ t' ↦ t' = dev.write t (query channel paramId)) t := by
  rw [get_eq pf h hrow]
  exact fun _ ↦ rfl

/-- A pass writes a command, and a query if the value is to be verified. -/
theorem ensures_attempt (h : Valid channel paramId) (hrow : entry awg.pt paramId = .ok row)
    (l : Locals) (setValue : Double) (t : Taken σ) :
    dev.Ensures (attempt pf awg channel paramId l setValue)
      (fun r t' ↦ r.2 = effective l setValue ∧ t' = dev.write t (commandLine pf l setValue ++
        if l.bValidate then query channel paramId else [])) t := by
  have hcommand : dev.write (dev.write (dev.write t l.command)
      (pf.print (insertion pf l.setType l.width l.precision (effective l setValue))))
        (ascii "\n") = dev.write t (commandLine pf l setValue) := by
    rw [dev.write_write, dev.write_write, commandLine, List.append_assoc]
  show dev.Ensures (if l.bValidate then _ else _) _ (dev.write (dev.write (dev.write t l.command)
    (pf.print (insertion pf l.setType l.width l.precision (effective l setValue)))) (ascii "\n"))
  rw [hcommand]
  rcases l.bValidate with _ | _
  · exact ⟨rfl, by rw [if_neg Bool.false_ne_true, List.append_nil]⟩
  · refine ((ensures_get pf h hrow _).mono fun x t' ht' ↦ ?_).bind
    refine ⟨rfl, ?_⟩
    rw [ht', dev.write_write, if_pos rfl]

/-- **`set` writes a number of passes**, all the same: one at least, and as many more as there are
retries at most. -/
theorem ensures_set (h : Valid channel paramId) (hrow : entry awg.pt paramId = .ok row)
    (value : Double) {t : Taken σ} (ht : dev.newline ∉ t.begun) :
    dev.Ensures (set pf awg channel paramId value)
      (fun _ t' ↦ ∃ n ≤ awg.retries.toNat,
        t' = dev.write t (rounds (passFor pf awg row channel paramId value) (n + 1))) t := by
  rw [set_eq pf h hrow]
  set p := prepare pf awg (commandHead channel paramId) row paramId value with hp
  set pass := passFor pf awg row channel paramId value with hpass
  -- what is printed is the same in each pass
  have hbody : ∀ n setValue t', (effective p.1 setValue = effective p.1 p.2 ∧
      t' = dev.write t (rounds pass n)) → dev.Ensures (attempt pf awg channel paramId p.1 setValue)
        (fun r t' ↦ effective p.1 r.2 = effective p.1 p.2 ∧
          t' = dev.write t (rounds pass (n + 1))) t' := by
    rintro n setValue t' ⟨hsame, rfl⟩
    refine (ensures_attempt pf h hrow p.1 setValue _).mono fun r t'' hpost ↦ ?_
    obtain ⟨hr, ht''⟩ := hpost
    refine ⟨?_, ?_⟩
    · rw [hr, effective_effective, hsame]
    · have hline : commandLine pf p.1 setValue = commandFor pf awg row channel paramId value := by
        rw [commandLine, hsame, commandFor, ← hp, commandLine]
      have hvalidate : p.1.bValidate = decide (0 < awg.retries) := bValidate_prepare pf _ _
      rw [ht'', dev.write_write, rounds_succ_right, hpass, passFor, hline, hvalidate]
      simp only [decide_eq_true_eq]
  have hloop := LineDevice.Ensures.attempts hbody awg.retries.toNat 0 p.2 t
    ⟨rfl, (dev.write_nil ht).symm⟩
  refine hloop.mono fun bOk t' hpost ↦ ?_
  obtain ⟨m, hm, x, -, ht'⟩ := hpost
  rw [Nat.zero_add] at ht'
  exact ⟨m, hm, ht'⟩

end AwgFy

/-! ### What settings and passed lines amount to -/

/-- What makes the device write to the AWG. -/
inductive Stimulus
  | set (call : SetCall)
  /-- A piece of a line that the telnet client has typed. -/
  | typed (bytes : List UInt8)
  deriving DecidableEq, Repr

/-- What a run has had written, in order. -/
def stimuli (past : List DeviceAction) : List Stimulus :=
  past.filterMap fun
    | .system (.vxi (.set call)) => some (.set call)
    | .telnet (.awg bytes) => some (.typed bytes)
    | _ => none

/-- What a run has done on the serial line. -/
def serialActions (past : List DeviceAction) : List SerialAction :=
  past.filterMap fun
    | .serial action => some action
    | _ => none

@[simp]
theorem stimuli_append (past out : List DeviceAction) :
    stimuli (past ++ out) = stimuli past ++ stimuli out :=
  List.filterMap_append

@[simp]
theorem serialActions_append (past out : List DeviceAction) :
    serialActions (past ++ out) = serialActions past ++ serialActions out :=
  List.filterMap_append

theorem stimuli_serial (out : List SerialAction) : stimuli (out.map .serial) = [] := by
  rw [stimuli, List.filterMap_map]
  exact List.filterMap_eq_nil_iff.2 fun _ _ ↦ rfl

theorem serialActions_serial (out : List SerialAction) : serialActions (out.map .serial) = out := by
  rw [serialActions, List.filterMap_map]
  exact List.filterMap_some

theorem Puts.stimuli_eq {task : DeviceTask} {action : DeviceAction} (h : Puts task action) :
    stimuli [action] = [] := by
  rcases h with @⟨action, hquiet⟩ | @⟨action, hquiet⟩
  · rcases action with action | (bytes | call | _ | call)
    case vxi.set => exact absurd rfl (hquiet call)
    all_goals rfl
  · rcases action with bytes | line | bytes | call
    case awg => exact absurd rfl (hquiet bytes)
    all_goals rfl

theorem Puts.serialActions_eq {task : DeviceTask} {action : DeviceAction} (h : Puts task action) :
    serialActions [action] = [] := by
  cases h <;> rfl

variable (pf : Platform) (retries : UInt32)

/-- The bytes that may be written for the stimuli. -/
inductive Written : List Stimulus → List UInt8 → Prop
  | nil : Written [] []
  /-- A setting takes some passes, and begins on a new line. -/
  | set {past : List Stimulus} {bytes : List UInt8} {call : SetCall} {row : ParamTranslator} {n : ℕ}
      (valid : AwgFy.Valid call.channel call.parameter)
      (row_eq : entry pt6900 call.parameter = .ok row)
      (passes : n ≤ (awgFy6900 retries).retries.toNat)
      (newLine : unfinished (chr '\n') bytes = []) (before : Written past bytes) :
      Written (past ++ [.set call]) (bytes ++
        rounds (AwgFy.passFor pf (awgFy6900 retries) row call.channel call.parameter call.value)
          (n + 1))
  /-- A setting for another channel is refused. -/
  | refused {past : List Stimulus} {bytes : List UInt8} {call : SetCall}
      (channel : ¬ call.channel ≤ AwgFy.channels) (before : Written past bytes) :
      Written (past ++ [.set call]) bytes
  | typed {past : List Stimulus} {bytes bytes' : List UInt8} (before : Written past bytes) :
      Written (past ++ [.typed bytes']) (bytes ++ bytes')

/-! ### Runs of the device -/

section Runs

variable {σ : Type} {dev : LineDevice σ} {init : σ} {pf retries} {awg : AwgServer}
variable {answers : List UInt8 → List UInt8 → Bool}

/-- The device at the end of the line has come to what the stimuli amount to. -/
def Told (dev : LineDevice σ) (init : σ) (pf : Platform) (retries : UInt32)
    (past : List Stimulus) (t : Taken σ) : Prop :=
  ∃ bytes, Written pf retries past bytes ∧ t = dev.write ⟨init, []⟩ bytes

/-- **A setting on a device** that is told everything before it. -/
theorem ensures_program {past : List Stimulus} {call : SetCall} {t : Taken σ}
    (hparam : call.parameter < Scpi.parameterCount) (h : Told dev init pf retries past t)
    (hbegun : t.begun = []) (hnewline : dev.newline = chr '\n') :
    dev.Ensures (Device.program pf (awgFy6900 retries) call)
      (fun _ t' ↦ t'.begun = [] ∧ Told dev init pf retries (past ++ [.set call]) t') t := by
  obtain ⟨bytes, hbytes, rfl⟩ := h
  refine LineDevice.Ensures.bind ?_
  by_cases hchannel : call.channel ≤ AwgFy.channels
  · obtain ⟨row, hrow⟩ := exists_entry (awgFy6900 retries).pt hparam
    refine (AwgFy.ensures_set pf ⟨hchannel, hparam⟩ hrow call.value
      (dev.newline_not_mem_write _ _)).mono ?_
    rintro _ _ ⟨n, hn, rfl⟩
    have hnewLine : unfinished (chr '\n') bytes = [] := hnewline ▸ hbegun
    refine ⟨?_, _, .set ⟨hchannel, hparam⟩ hrow hn hnewLine hbytes, dev.write_write _ _ _⟩
    rw [Taken.eq_of_begun hbegun, AwgFy.write_passes pf hnewline]
  · have hinvalid : AwgFy.Invalid call.channel call.parameter := .inl (UInt32.not_le.1 hchannel)
    have hset : AwgFy.set pf (awgFy6900 retries) call.channel call.parameter call.value =
        pure false := if_pos hinvalid
    rw [hset]
    exact ⟨hbegun, bytes, .refused hchannel hbytes, rfl⟩

/-- What holds after every run, if the device at the end of the line started as `init`. -/
def DeviceInvariant (dev : LineDevice σ) (init : σ) (pf : Platform) (retries : UInt32) (s : Device)
    (past : List DeviceAction) : Prop :=
  chr '\n' ∉ s.telnet.lineBuffer ∧
    s.line.Leads dev
      (fun t ↦ Ordered t.begun s.tasks ∧ Told dev init pf retries (stimuli past) t)
      ((SerialLine.taken (serialActions past)).foldl dev.take init)

/-- A step that changes neither the line nor what the AWG was told. -/
theorem DeviceInvariant.of_eq {s s' : Device} {past : List DeviceAction}
    (h : DeviceInvariant dev init pf retries s past) (hline : s'.line = s.line)
    (htasks : s'.tasks = s.tasks) (hbuffer : s'.telnet.lineBuffer = s.telnet.lineBuffer) :
    DeviceInvariant dev init pf retries s' (past ++ []) := by
  rw [List.append_nil, DeviceInvariant, hline, htasks, hbuffer]
  exact h

/-- A call that begins when no other one is under way. -/
theorem DeviceInvariant.begins {s s' : Device} {past : List DeviceAction} (hidle : s.Idle)
    (h : DeviceInvariant dev init pf retries s past) (hline : s'.line = s.line)
    (htasks : Ordered [] s'.tasks) (hbuffer : chr '\n' ∉ s'.telnet.lineBuffer) :
    DeviceInvariant dev init pf retries s' (past ++ []) := by
  obtain ⟨hordered, htold⟩ := (SerialLine.leads_none hidle.1).1 h.2
  rw [hidle.2] at hordered
  rw [List.append_nil]
  refine ⟨hbuffer, (SerialLine.leads_none (hline ▸ hidle.1)).2 ?_⟩
  rw [SerialLine.ahead, hline]
  exact ⟨hordered.symm ▸ htasks, htold⟩

/-- A step behind which no dialogue is running, and the device has been told what it is to be
told. -/
theorem DeviceInvariant.of_told {s s' : Device} {past out : List DeviceAction}
    (h : DeviceInvariant dev init pf retries s past) (hrunning : s'.line.running = none)
    (hbuffer : s'.telnet.lineBuffer = s.telnet.lineBuffer) (hserial : serialActions out = [])
    (hordered : Ordered (s'.line.ahead dev
      ((SerialLine.taken (serialActions past)).foldl dev.take init)).begun s'.tasks)
    (htold : Told dev init pf retries (stimuli past ++ stimuli out)
      (s'.line.ahead dev ((SerialLine.taken (serialActions past)).foldl dev.take init))) :
    DeviceInvariant dev init pf retries s' (past ++ out) := by
  refine ⟨hbuffer ▸ h.1, ?_⟩
  rw [stimuli_append, serialActions_append, hserial, List.append_nil]
  exact (SerialLine.leads_none hrunning).2 ⟨hordered, htold⟩

/-- **Every step keeps the invariant.** -/
theorem DeviceInvariant.step (hnewline : dev.newline = chr '\n') {s s' : Device}
    {past out : List DeviceAction} {event : DeviceEvent}
    (h : DeviceInvariant dev init pf retries s past)
    (hstep : Device.step pf awg (awgFy6900 retries) answers s event = .ok (s', out)) :
    DeviceInvariant dev init pf retries s' (past ++ out) := by
  cases deviceStep_of_step hstep with
  | nothing => exact h.of_eq rfl rfl rfl
  | telnetLoop hidle =>
    obtain ⟨hbuffer, htasks⟩ := ordered_telnetLoop h.1 _ _ _
    exact h.begins hidle rfl htasks hbuffer
  | bindLoop hidle hloop => exact h.begins hidle rfl (ordered_of_systemStep hloop) h.1
  | vxiLoop hidle hloop => exact h.begins hidle rfl (ordered_of_systemStep hloop) h.1
  | peerCloses _ => exact h.of_eq rfl rfl rfl
  | telnetPeerCloses => exact h.of_eq rfl rfl rfl
  | setting hrunning htasks =>
    obtain ⟨hordered, htold⟩ := (SerialLine.leads_none hrunning).1 h.2
    rw [htasks] at hordered
    obtain ⟨hbegun, hparam, hordered⟩ := hordered
    refine ⟨h.1, ?_⟩
    rw [stimuli_append, serialActions_append,
      show serialActions [.system (.vxi (.set _))] = [] from rfl, List.append_nil]
    refine (SerialLine.leads_some rfl).2
      ((ensures_program hparam htold hbegun hnewline).mono fun _ t ht ↦ ⟨?_, ht.2⟩)
    exact ht.1.symm ▸ hordered
  | passes hrunning htasks =>
    obtain ⟨hordered, htold⟩ := (SerialLine.leads_none hrunning).1 h.2
    rw [htasks] at hordered
    obtain ⟨text, hwritten, htext⟩ := htold
    refine h.of_told hrunning rfl rfl ?_ ⟨_, .typed hwritten, ?_⟩
    · rw [SerialLine.ahead, ← dev.write_write]
      show Ordered (unfinished dev.newline _) _
      rw [hnewline]
      exact hordered
    · rw [SerialLine.ahead, ← dev.write_write, ← dev.write_write, ← htext]
      rfl
  | puts hrunning htasks hputs =>
    obtain ⟨hordered, htold⟩ := (SerialLine.leads_none hrunning).1 h.2
    rw [htasks] at hordered
    refine h.of_told hrunning rfl hputs.serialActions_eq (hputs.ordered hordered) ?_
    rw [hputs.stimuli_eq, List.append_nil]
    exact htold
  | copied hrunning htasks hrx =>
    obtain ⟨hordered, htold⟩ := (SerialLine.leads_none hrunning).1 h.2
    rw [htasks] at hordered
    exact h.of_told hrunning rfl rfl hordered ((List.append_nil _).symm ▸ htold)
  | copies hrunning htasks hrx =>
    obtain ⟨hordered, htold⟩ := (SerialLine.leads_none hrunning).1 h.2
    exact h.of_told hrunning rfl rfl hordered ((List.append_nil _).symm ▸ htold)
  | serial hcall hline =>
    refine ⟨h.1, ?_⟩
    rw [stimuli_append, stimuli_serial, List.append_nil, serialActions_append,
      serialActions_serial, SerialLine.taken_append, List.foldl_append]
    rw [← hnewline] at hline
    exact h.2.step hcall hline

/-- **The invariant holds after every run.** -/
theorem DeviceInvariant.run (hnewline : dev.newline = chr '\n') {s : Device}
    {past : List DeviceAction} {events : List DeviceEvent}
    (hrun : Machine.runFrom (Device.step pf awg (awgFy6900 retries) answers) Device.setup.1 events =
      .ok (s, past)) : DeviceInvariant dev init pf retries s past := by
  have hsetup : DeviceInvariant dev init pf retries Device.setup.1 [] :=
    ⟨List.not_mem_nil, rfl, [], .nil, rfl⟩
  exact Machine.runFrom_trace_invariant (fun _ _ _ _ _ h hstep ↦ h.step hnewline hstep) [] hsetup
    hrun

/-- **What a device at the end of the line has become** when no call is under way. -/
theorem told_of_idle (hnewline : dev.newline = chr '\n') {s : Device}
    {past : List DeviceAction} {events : List DeviceEvent}
    (hrun : Machine.runFrom (Device.step pf awg (awgFy6900 retries) answers) Device.setup.1 events =
      .ok (s, past)) (hidle : s.Idle) :
    Told dev init pf retries (stimuli past)
      (s.line.ahead dev ((SerialLine.taken (serialActions past)).foldl dev.take init)) := by
  have h : DeviceInvariant dev init pf retries s past := .run hnewline hrun
  exact ((SerialLine.leads_none hidle.1).1 h.2).2

end Runs

/-! ### The lines -/

/-- The device that remembers the lines it has taken. -/
def transcript : LineDevice (List (List UInt8)) :=
  ⟨chr '\n', fun lines line ↦ lines ++ [line]⟩

theorem foldl_transcript (lines lines' : List (List UInt8)) :
    lines.foldl transcript.take lines' = lines' ++ lines := by
  induction lines generalizing lines' with
  | nil => exact (List.append_nil _).symm
  | cons line lines ih =>
    rw [List.foldl_cons, ih, transcript, List.append_assoc, List.singleton_append]

theorem write_transcript (bytes bytes' : List UInt8) (lines : List (List UInt8)) :
    transcript.write ⟨lines, bytes⟩ bytes' =
      ⟨lines ++ completed (chr '\n') (bytes ++ bytes'),
        unfinished (chr '\n') (bytes ++ bytes')⟩ := by
  rw [LineDevice.write, foldl_transcript]
  rfl

/-- **What the AWG is told, over every run of the whole device.** -/
theorem device_tells {pf : Platform} {retries : UInt32} {awg : AwgServer}
    {answers : List UInt8 → List UInt8 → Bool} {s : Device} {past : List DeviceAction}
    {events : List DeviceEvent}
    (hrun : Machine.runFrom (Device.step pf awg (awgFy6900 retries) answers) Device.setup.1 events =
      .ok (s, past)) :
    ∃ bytes, Written pf retries (stimuli past) bytes ∧
      SerialLine.taken (serialActions past) <+: completed (chr '\n') bytes ∧
      (s.Idle → unfinished (chr '\n') bytes = [] ∧ completed (chr '\n') bytes =
        SerialLine.taken (serialActions past) ++ completed (chr '\n') s.line.outgoing) := by
  have hinvariant : DeviceInvariant transcript [] pf retries s past := .run rfl hrun
  have hahead : s.line.ahead transcript
      ((SerialLine.taken (serialActions past)).foldl transcript.take []) =
        ⟨SerialLine.taken (serialActions past) ++ completed (chr '\n') s.line.outgoing,
          unfinished (chr '\n') s.line.outgoing⟩ := by
    rw [foldl_transcript, List.nil_append, SerialLine.ahead, write_transcript, List.nil_append]
  rcases hrunning : s.line.running with _ | d
  · -- what is written is what is taken and what waits to be taken
    obtain ⟨hordered, bytes, hwritten, hbytes⟩ := (SerialLine.leads_none hrunning).1 hinvariant.2
    rw [hahead] at hordered hbytes
    rw [write_transcript, List.nil_append, List.nil_append] at hbytes
    obtain ⟨hlines, hbegun⟩ := Taken.mk.inj hbytes
    refine ⟨bytes, hwritten, ⟨_, hlines⟩, fun hidle ↦ ⟨?_, hlines.symm⟩⟩
    rw [hidle.2] at hordered
    rw [← hbegun]
    exact hordered
  · -- the running call will have written more
    have hbegun : transcript.newline ∉ (s.line.ahead transcript
        ((SerialLine.taken (serialActions past)).foldl transcript.take [])).begun :=
      transcript.newline_not_mem_write _ _
    obtain ⟨-, more, -, bytes, hwritten, hbytes⟩ := LineDevice.Ensures.exists_end hbegun
      ((SerialLine.leads_some hrunning).1 hinvariant.2)
    rw [hahead, write_transcript, write_transcript, List.nil_append, List.nil_append,
      List.append_assoc] at hbytes
    refine ⟨bytes, hwritten, ⟨_, (Taken.mk.inj hbytes).1⟩, fun hidle ↦ ?_⟩
    exact absurd (hidle.1.symm.trans hrunning) (Option.some_ne_none d).symm

/-- The request to switch channel 2 on. -/
def outputRequest : Record :=
  .lastFragment (writeRequest 7 (ascii "C2:OUTP ON")) (by decide +kernel)

/-- A client of the VXI server switches channel 2 on, and then a telnet client turns the
pass-through on and passes a line. -/
def mixedRun : List DeviceEvent :=
  [.vxiLoop { offered := some (.ofStream outputRequest.bytes) }, .proceed, .vxiLoop {}] ++
    List.replicate 4 .proceed ++ [.take (ascii "\n"), .arrive] ++ List.replicate 5 .proceed ++
    [.telnetLoop (some (.ofStream (ascii "passthrough\nUMO\n"))) [] fun _ ↦ 1] ++
    List.replicate 14 .proceed ++ [.take []]

theorem device_tells_mixedRun :
    ∃ s past bytes, Machine.runFrom (Device.step (referencePlatform .binary64) .base (awgFy6900 0)
        fun _ _ ↦ true) Device.setup.1 mixedRun = .ok (s, past) ∧
      Written (referencePlatform .binary64) 0
        [.set ⟨2, Scpi.outputOn, .finite 1⟩, .typed (ascii "UMO"), .typed (ascii "\n")] bytes ∧
      completed (chr '\n') bytes = [ascii "WFN1", ascii "UMO"] := by
  obtain ⟨⟨s, past⟩, hrun, hout⟩ := exists_of_map_eq_ok
    (b := (true, [.set ⟨2, Scpi.outputOn, .finite 1⟩, .typed (ascii "UMO"), .typed (ascii "\n")],
      [ascii "WFN1", ascii "UMO"], []))
    (f := fun r : Device × List DeviceAction ↦ (decide r.1.Idle, stimuli r.2,
      SerialLine.taken (serialActions r.2), r.1.line.outgoing))
    (x := Machine.runFrom (Device.step (referencePlatform .binary64) .base (awgFy6900 0)
      fun _ _ ↦ true) Device.setup.1 mixedRun) (by decide +kernel)
  simp only [Prod.mk.injEq, decide_eq_true_eq] at hout
  obtain ⟨hidle, hstimuli, htaken, houtgoing⟩ := hout
  obtain ⟨bytes, hwritten, -, hall⟩ := device_tells hrun
  rw [hstimuli] at hwritten
  refine ⟨s, past, bytes, hrun, hwritten, ?_⟩
  rw [(hall hidle).2, htaken, houtgoing, completed_of_not_mem List.not_mem_nil, List.append_nil]

end EspBode
