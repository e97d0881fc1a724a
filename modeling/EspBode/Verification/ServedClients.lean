import EspBode.Verification.DeviceLiveness

/-!
# Every client is answered

In a fair run of the device in which `vxi_server.loop()` is called again and again, a client that is
accepted gets the answers to all its requests, up to the one that destroys its link, and the
settings are made that they ask for; nothing else is set or sent on the VXI port in the meantime
(`device_serves`).

* **Safety** is the refinement of the service (`Service.follows_service`): what a call decides are
  the effects of the next request. What has been put out and what is owed, one behind the other, are
  the effects of the requests served so far, and this holds at every point of an infinite run, since
  it holds after every finite one (`exists_stands`).
* **Liveness** is that the main loop comes back (`Device.leadsTo_idle`): the effects are put out,
  and the next call is made. A call that is tried while another one is under way is not made, so
  fairness alone would not be enough: the loop has to be called again and again when no call is
  under way, which `CallsVxiLoop` says.

The induction is on the requests that the client still brings. When a link is closed its client is
served, and the next one that is accepted is a case of the theorem of its own.

`callsVxiLoop_turns` gives a run in which all this is so: the steps come in turns, and the VXI loop
is the only call that is tried.
-/

namespace EspBode

open Service

namespace Device

variable {pf : Platform} {retries : UInt32} {answers : List UInt8 → List UInt8 → Bool}

/-! ### Steps and the service -/

/-- What is seen of the service in what was put out. -/
def seen (past : List DeviceAction) : List VxiAction :=
  (past.filterMap DeviceAction.systemAction).filterMap vxiEffect

/-- What is owed of the service. -/
def due (s : Device) : List VxiAction :=
  (s.tasks.filterMap DeviceTask.systemAction).filterMap vxiEffect

theorem seen_append (past out : List DeviceAction) :
    seen (past ++ out) = seen past ++ seen out := by
  rw [seen, List.filterMap_append, List.filterMap_append]
  rfl

theorem due_of_idle {s : Device} (h : s.Idle) : s.due = [] := by
  rw [due, h.2]
  rfl

/-- **A call of the VXI loop** is a step of the service. -/
theorem vxiLoop_serves {s s' : Device} {out : List DeviceAction} {t : Service}
    {offered : Option (List Record)} {uninit : ℕ → Double} (hidle : s.Idle)
    (hstands : Stands s.system t) (hoffered : (ServiceEvent.vxiLoop offered uninit).Brings)
    (hstep : Device.step pf .base (awgFy6900 retries) answers s (.vxiLoop
      { offered := offered.map fun rs ↦ .ofStream (Record.stream rs), uninit }) = .ok (s', out)) :
    Stands s'.system (Service.step t (.vxiLoop offered uninit)).1 ∧ out = [] ∧
      s'.due = (Service.step t (.vxiLoop offered uninit)).2.flatMap effects := by
  simp only [Device.step, if_pos hidle] at hstep
  obtain ⟨s₁, hloop, hr⟩ := exists_of_map_eq_ok hstep
  obtain ⟨rfl, rfl⟩ := Prod.mk.inj hr
  obtain ⟨⟨system, actions⟩, hsystem, hr⟩ := bind_eq_ok.1 hloop
  obtain rfl := Except.ok.inj hr
  obtain ⟨system', actions', hsystem', hstands', hactions⟩ := follows_service hstands hoffered
  obtain ⟨rfl, rfl⟩ := Prod.mk.inj (Except.ok.inj (hsystem'.symm.trans hsystem))
  refine ⟨hstands', rfl, ?_⟩
  rw [due]
  dsimp only
  rw [filterMap_systemAction, hactions]

/-- **Any other step** leaves the service as it is. -/
theorem stands_step {s s' : Device} {event : DeviceEvent} {out : List DeviceAction} {t : Service}
    (hother : ¬ (s.Idle ∧ ∃ input, event = .vxiLoop input)) (hbrings : event.Brings)
    (hstands : Stands s.system t)
    (hstep : Device.step pf .base (awgFy6900 retries) answers s event = .ok (s', out)) :
    Stands s'.system t ∧ seen out ++ s'.due = s.due := by
  rcases system_step hstep with ⟨hsame, howed⟩ | ⟨systemEvent, actions, hevent, hloop, howed, hwhy⟩
  · refine ⟨hsame.symm ▸ hstands, ?_⟩
    rw [seen, due, ← List.filterMap_append, howed]
    rfl
  obtain ⟨serviceEvent, rfl, hserviceEvent⟩ := hbrings systemEvent hevent
  obtain ⟨system, actions', hsystem, hstands', hactions⟩ := follows_service hstands hserviceEvent
  obtain ⟨rfl, rfl⟩ := Prod.mk.inj (Except.ok.inj (hsystem.symm.trans hloop))
  have hkept : Service.step t serviceEvent = (t, []) := by
    cases serviceEvent with
    | vxiLoop offered uninit =>
      rcases hwhy with hidle | hpeer
      · cases event <;> cases hevent
        exact absurd ⟨hidle, _, rfl⟩ hother
      · cases hpeer
    | bindLoop input => rcases t with _ | _ | _ <;> rfl
    | peerCloses => rcases t with _ | _ | _ <;> rfl
  rw [hkept] at hstands' hactions
  refine ⟨hstands', ?_⟩
  rw [seen, due, ← List.filterMap_append, howed, List.filterMap_append, hactions]
  exact List.append_nil _

/-! ### Runs -/

section Runs

variable {s : ℕ → Device} {event : ℕ → DeviceEvent}

/-- `vxi_server.loop()` is called again and again. -/
def CallsVxiLoop (s : ℕ → Device) (event : ℕ → DeviceEvent) : Prop :=
  ∀ i, ∃ j ≥ i, (s j).Idle ∧ ∃ input, event j = .vxiLoop input

/-- The servers always stand where the service does. -/
theorem exists_stands (hsetup : s 0 = Device.setup.1)
    (hrun : Machine.IsRun (Device.step pf .base (awgFy6900 retries) answers) s event)
    (hbrings : ∀ i, (event i).Brings) (i : ℕ) : ∃ t, Stands (s i).system t := by
  refine (hrun.exists_past (Q := fun s _ ↦ ∃ t, Stands s.system t)
    ⟨none, hsetup ▸ stands_setup⟩ (fun j past out h hstep ↦ ?_) i).elim fun _ h ↦ h
  obtain ⟨t, hstands⟩ := h
  rcases system_step hstep with ⟨hsame, -⟩ | ⟨systemEvent, actions, hj, hloop, -⟩
  · exact ⟨t, hsame.symm ▸ hstands⟩
  obtain ⟨serviceEvent, rfl, hserviceEvent⟩ := hbrings j systemEvent hj
  obtain ⟨system, actions', hsystem, hstands', -⟩ := follows_service hstands hserviceEvent
  obtain ⟨rfl, -⟩ := Prod.mk.inj (Except.ok.inj (hsystem.symm.trans hloop))
  exact ⟨_, hstands'⟩

/-- **The requests that a client still brings are served**, one after the other. -/
theorem serves_rest
    (hanswers : ∀ {line answer}, ExpectsAnswer line → answers line answer → answer ≠ [])
    (hsetup : s 0 = Device.setup.1)
    (hrun : Machine.IsRun (Device.step pf .base (awgFy6900 retries) answers) s event)
    (hfair : Fair answers s event) (hcalls : CallsVxiLoop s event)
    (hbrings : ∀ i, (event i).Brings) (rs : List Record) :
    ∀ {i : ℕ}, Stands (s i).system (some rs) →
      Machine.LeadsTo (Device.step pf .base (awgFy6900 retries) answers) s event i fun j out ↦
        (s j).Idle ∧ seen out = (s i).due ++ (answered rs).flatMap effects := by
  have hreturns : ∀ i, Machine.LeadsTo (Device.step pf .base (awgFy6900 retries) answers) s event i
      fun j out ↦ (s j).Idle ∧ seen out = (s i).due := fun i ↦
    (leadsTo_idle hanswers hsetup hrun hfair i).mono fun _ _ h ↦
      ⟨h.1, congrArg (List.filterMap vxiEffect) h.2⟩
  induction rs with
  | nil => exact fun {i} _ ↦ (hreturns i).mono fun _ _ h ↦ ⟨h.1, h.2.trans (List.append_nil _).symm⟩
  | cons r rs ih =>
    intro i hstands
    -- the next call of the VXI loop
    refine (hrun.leadsTo (R := fun j past ↦ Stands (s j).system (some (r :: rs)) ∧
      seen past ++ (s j).due = (s i).due) (hcalls i) ⟨hstands, rfl⟩
        fun j _ hother past out h hstep ↦ ?_).trans fun j past h ↦ ?_
    · obtain ⟨hstands', hdue⟩ := stands_step hother (hbrings j) h.1 hstep
      refine ⟨hstands', ?_⟩
      rw [seen_append, List.append_assoc, hdue]
      exact h.2
    obtain ⟨⟨hidle, input, hevent⟩, hstands, hpast⟩ := h
    rw [due_of_idle hidle, List.append_nil] at hpast
    -- the request is served
    refine (hrun.leadsTo_succ (R := fun k out ↦ k = j + 1 ∧ out = [] ∧
      Stands (s (j + 1)).system (if r.Calls .vxi11DestroyLink then none else some rs) ∧
        (s (j + 1)).due = effects r) fun out hstep ↦ ?_).trans ?_
    · obtain ⟨serviceEvent, hinput, hserviceEvent⟩ :=
        hbrings j (.vxiLoop input) (by rw [hevent]; rfl)
      obtain ⟨offered, uninit⟩ | _ | _ := serviceEvent <;> cases hinput
      rw [hevent] at hstep
      obtain ⟨hstands', hout, hdue⟩ := vxiLoop_serves hidle hstands hserviceEvent hstep
      refine ⟨rfl, hout, hstands', hdue.trans ?_⟩
      exact List.flatMap_singleton effects r
    rintro _ _ ⟨rfl, rfl, hstands', hdue⟩
    rw [answered]
    split_ifs at hstands' ⊢ with hdestroy
    · refine (hreturns (j + 1)).mono fun k out h ↦ ⟨h.1, ?_⟩
      rw [seen_append, hpast, List.nil_append, h.2, hdue, List.flatMap_singleton]
    · refine (ih hstands').mono fun k out h ↦ ⟨h.1, ?_⟩
      rw [seen_append, hpast, List.nil_append, h.2, hdue, List.flatMap_cons]

end Runs

/-! ### Turns -/

/-- When no call is under way, a step of the serial line begins none. -/
theorem idle_step {awg : AwgServer} {driver : AwgFy} {s s' : Device} {event : DeviceEvent}
    {serialEvent : SerialEvent SetCall} {out : List DeviceAction} (hidle : s.Idle)
    (hevent : event.serialEvent = some serialEvent)
    (hstep : Device.step pf awg driver answers s event = .ok (s', out)) : s'.Idle := by
  have hserial : ∀ {serialEvent}, (∀ call, serialEvent ≠ .call call) →
      s.serial pf driver answers serialEvent = .ok (s', out) → s'.Idle := by
    intro serialEvent hcall h
    obtain ⟨⟨line, lineOut⟩, hline, hr⟩ := bind_eq_ok.1 h
    obtain ⟨rfl, rfl⟩ := Prod.mk.inj (Except.ok.inj hr)
    refine ⟨?_, hidle.2⟩
    rcases SerialLine.step_shrinks hcall hline with rfl | hshrinks
    · exact hidle.1
    · obtain hrunning | ⟨hrunning, -⟩ := Prod.lex_def.1 hshrinks
      · rw [SerialLine.size, SerialLine.size, hidle.1] at hrunning
        exact hrunning.elim
      · exact hrunning.trans hidle.1
  cases event <;> cases hevent
  case proceed =>
    simp only [Device.step, if_pos hidle.1, Device.work, hidle.2] at hstep
    obtain ⟨rfl, rfl⟩ := Prod.mk.inj (Except.ok.inj hstep)
    exact hidle
  case giveUp => exact hserial (by simp) hstep
  case take => exact hserial (by simp) hstep
  case arrive => exact hserial (by simp) hstep

end Device

open Device

/-- The VXI loop is called again and again in such a run: no other call is made in between. -/
theorem callsVxiLoop_turns {s : ℕ → Device} (hsetup : s 0 = Device.setup.1)
    (hrun : Machine.IsRun (Device.step (referencePlatform .binary64) .base (awgFy6900 3)
      fun _ answer ↦ answer != []) s turns) : CallsVxiLoop s turns := by
  intro i
  obtain ⟨n, out, -, hidle, -⟩ :=
    leadsTo_idle (fun _ h ↦ by simpa using h) hsetup hrun (fair_turns s) i
  have hnext : ∀ d j, (j + d) % 5 = 0 → d < 5 → (s j).Idle →
      ∃ k ≥ j, (s k).Idle ∧ ∃ input, turns k = .vxiLoop input := by
    intro d
    induction d with
    | zero =>
      intro j hj _ hidle
      obtain ⟨input, hinput⟩ : ∃ input, turns j = .vxiLoop input := by
        rw [turns, show j % 5 = 0 from hj]
        exact ⟨_, rfl⟩
      exact ⟨j, Nat.le_refl j, hidle, input, hinput⟩
    | succ d ih =>
      intro j hj hd hidle
      obtain ⟨serialEvent, hevent⟩ : ∃ serialEvent, (turns j).serialEvent = some serialEvent := by
        rw [turns]
        split
        · omega
        all_goals exact ⟨_, rfl⟩
      obtain ⟨out, hstep⟩ := hrun j
      obtain ⟨k, hk, hresult⟩ := ih (j + 1) (by omega) (by omega) (idle_step hidle hevent hstep)
      exact ⟨k, Nat.le_of_succ_le hk, hresult⟩
  obtain ⟨k, hk, hresult⟩ := hnext ((5 - (i + n) % 5) % 5) (i + n) (by omega) (by omega) hidle
  exact ⟨k, by omega, hresult⟩

/-! ### Every client -/

/-- **Every client that is accepted is answered**: in every fair run of the device in which the VXI
loop is called again and again, what is set and sent from its connection on is, at some later point
at which no call is under way, exactly what its requests ask for, up to the one that destroys the
link. -/
theorem device_serves {pf : Platform} {retries : UInt32}
    {answers : List UInt8 → List UInt8 → Bool} {s : ℕ → Device} {event : ℕ → DeviceEvent}
    (hanswers : ∀ {line answer}, ExpectsAnswer line → answers line answer → answer ≠ [])
    (hsetup : s 0 = Device.setup.1)
    (hrun : Machine.IsRun (Device.step pf .base (awgFy6900 retries) answers) s event)
    (hfair : Fair answers s event) (hcalls : CallsVxiLoop s event)
    (hbrings : ∀ i, (event i).Brings) {i : ℕ} (hidle : (s i).Idle)
    (hnobody : (s i).system.vxi.client = none) {rs : List Record} {uninit : ℕ → Double}
    (hrs : ∀ r ∈ rs, IsRequest r)
    (hevent : event i = .vxiLoop { offered := some (.ofStream (Record.stream rs)), uninit }) :
    ∃ n out, Machine.runFrom (Device.step pf .base (awgFy6900 retries) answers) (s i)
        ((List.range' i n).map event) = .ok (s (i + n), out) ∧ (s (i + n)).Idle ∧
      seen out = (answered rs).flatMap effects := by
  obtain ⟨t, hstands⟩ := exists_stands hsetup hrun hbrings i
  obtain rfl : t = none := by
    rcases t with _ | rs
    · rfl
    · obtain ⟨c, hc, -⟩ := hstands.client
      exact absurd (hc.symm.trans hnobody) (Option.some_ne_none c)
  have hoffered : (ServiceEvent.vxiLoop (some rs) uninit).Brings := fun _ h ↦ by
    obtain rfl := Option.some.inj h
    exact hrs
  -- the client is accepted
  have haccepted : Machine.LeadsTo (Device.step pf .base (awgFy6900 retries) answers) s event i
      fun j out ↦ j = i + 1 ∧ out = [] ∧ Stands (s (i + 1)).system (some rs) ∧
        (s (i + 1)).due = [] := by
    refine hrun.leadsTo_succ fun out hstep ↦ ?_
    rw [hevent] at hstep
    obtain ⟨hstands', hout, hdue⟩ := vxiLoop_serves hidle hstands hoffered hstep
    exact ⟨rfl, hout, hstands', hdue⟩
  have hserves : Machine.LeadsTo (Device.step pf .base (awgFy6900 retries) answers) s event i
      fun j out ↦ (s j).Idle ∧ seen out = (answered rs).flatMap effects := by
    refine haccepted.trans ?_
    rintro _ _ ⟨rfl, rfl, hstands', hdue⟩
    refine (serves_rest hanswers hsetup hrun hfair hcalls hbrings rs hstands').mono
      fun j out h ↦ ⟨h.1, ?_⟩
    rw [List.nil_append, h.2, hdue, List.nil_append]
  exact hserves

theorem device_serves_turns :
    ∃ (s : ℕ → Device) (n : ℕ) (out : List DeviceAction),
      Machine.runFrom (Device.step (referencePlatform .binary64) .base (awgFy6900 3)
        fun _ answer ↦ answer != []) Device.setup.1 ((List.range' 0 n).map turns) =
          .ok (s n, out) ∧ (s n).Idle ∧
      seen out = [.set ⟨2, Scpi.outputOn, .finite 1⟩,
        .send (replyRecord 7 (Answer.writeBody 10))] := by
  obtain ⟨s, hsetup, hrun⟩ := exists_isRun_turns
  have hidle : (s 0).Idle := by
    rw [hsetup]
    exact ⟨rfl, rfl⟩
  have hnobody : (s 0).system.vxi.client = none := by
    rw [hsetup]
    rfl
  have hrequest : ∀ r ∈ [outputRequest], IsRequest r :=
    List.forall_mem_singleton.2 isRequest_outputRequest
  obtain ⟨n, out, hout, hn, hseen⟩ := device_serves (fun _ h ↦ by simpa using h) hsetup hrun
    (fair_turns s) (callsVxiLoop_turns hsetup hrun) brings_turns hidle hnobody hrequest rfl
  rw [hsetup, Nat.zero_add] at hout
  rw [Nat.zero_add] at hn
  refine ⟨s, n, out, hout, hn, hseen.trans ?_⟩
  decide +kernel

end EspBode
