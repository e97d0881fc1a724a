import Mathlib.Data.Prod.Lex
import Mathlib.Order.WellFounded
import EspBode.Foundations.SerialLine

/-!
# Serial lines do not go on for ever

A dialogue is a well-founded tree, so it goes on only finitely often (`wellFounded_goesOn`), a
reading that takes one byte more included. A line gets smaller by every step that changes it, if no
new call is made (`SerialLine.step_shrinks`). `size` is the measure, in the order of its weight: the
dialogue goes on, or else the peer takes a line, or else a byte arrives, or else one is thrown away.
It is lexicographic, since a dialogue that goes on may write much, and an answer may be long.

That alone would allow a line on which nothing can happen. Whether there is a step depends on the
waiting only, and there are two properties of dialogues about it, one for either outcome:

* `WaitsDue P d` says that the dialogue waits only when it has finished a line with the property `P`
  since it last read, whatever it reads. If the peer answers such lines by something, then some kind
  of step always makes the line smaller (`SerialLine.WaitsDue.exists_shrinks`): a byte is there, or
  on its way, or a line with the property is still to be taken. No more is assumed of the peer, its
  answers may be wrong or without an end;
* `NeedsByte d` says that the dialogue waits for a byte before it ends. If the peer answers nothing,
  it never comes to its end, and nothing is read (`SerialLine.Silent.step`).

Both are conditions on the tree, and compose along `bind` and `attempts`. The kinds of steps are
what fairness will be asked for: the call goes on, a reading ends for which nothing comes, the peer
takes a line with some answer that it may give, a byte arrives.
-/

namespace EspBode

variable {α β : Type}

namespace Dialogue

/-! ### Going on -/

/-- What a dialogue may go on as. -/
inductive GoesOn : Dialogue α → Dialogue α → Prop
  | write {bytes : List UInt8} {next : Dialogue α} : GoesOn next (.write bytes next)
  | awaitByte {next : Dialogue α} : GoesOn next (.awaitByte next)
  | discard {next : Dialogue α} : GoesOn next (.discard next)
  | read {r : List UInt8} {terminator : UInt8} {length : ℕ} {next : List UInt8 → Dialogue α}
      (r' : List UInt8) : GoesOn (next r') (.readUntil r terminator length next)
  /-- A reading takes one byte more. -/
  | more {r : List UInt8} {terminator b : UInt8} {length : ℕ} {next : List UInt8 → Dialogue α}
      (h : r.length < length) :
      GoesOn (.readUntil (r ++ [b]) terminator length next) (.readUntil r terminator length next)

/-- The dialogue waits for a byte. -/
def Waits : Dialogue α → Prop
  | .awaitByte _ => True
  | .readUntil r _ length _ => r.length < length
  | _ => False

theorem acc_goesOn : ∀ d : Dialogue α, Acc GoesOn d
  | .done _ => ⟨_, fun _ h ↦ by cases h⟩
  | .fail _ => ⟨_, fun _ h ↦ by cases h⟩
  | .write _ next => ⟨_, fun _ h ↦ by cases h; exact acc_goesOn next⟩
  | .awaitByte next => ⟨_, fun _ h ↦ by cases h; exact acc_goesOn next⟩
  | .discard next => ⟨_, fun _ h ↦ by cases h; exact acc_goesOn next⟩
  | .readUntil r terminator length next => by
    have hnext : ∀ r', Acc GoesOn (next r') := fun r' ↦ acc_goesOn (next r')
    induction hn : length - r.length generalizing r with
    | zero =>
      refine ⟨_, fun d h ↦ ?_⟩
      cases h with
      | read r' => exact hnext r'
      | more h => omega
    | succ n ih =>
      refine ⟨_, fun d h ↦ ?_⟩
      cases h with
      | read r' => exact hnext r'
      | more h =>
        refine ih _ ?_
        rw [List.length_append, List.length_singleton]
        omega

/-- **A dialogue goes on finitely often only.** -/
theorem wellFounded_goesOn : WellFounded (GoesOn (α := α)) :=
  ⟨acc_goesOn⟩

/-! ### Waiting for what is due -/

variable (newline : UInt8) (P : List UInt8 → Prop)

/-- Whatever is read, the dialogue waits only when a line with the property was finished since it
last read, and it ends behind a line; so much is begun of a line, and whether such a line was
finished, when it starts. -/
def WaitsDue : Dialogue α → List UInt8 → Prop → Prop
  | .done _, begun, _ => begun = []
  | .fail _, _, _ => False
  | .write bytes next, begun, due => WaitsDue next (unfinished newline (begun ++ bytes))
      (due ∨ ∃ line ∈ completed newline (begun ++ bytes), P line)
  | .awaitByte next, begun, due => due ∧ WaitsDue next begun due
  | .discard next, begun, _ => WaitsDue next begun False
  | .readUntil _ _ _ next, begun, _ => ∀ r, WaitsDue (next r) begun False

variable {newline P}

theorem WaitsDue.mono : ∀ {d : Dialogue α} {begun : List UInt8} {due due' : Prop},
    (due → due') → d.WaitsDue newline P begun due → d.WaitsDue newline P begun due'
  | .done _, _, _, _, _, h => h
  | .fail _, _, _, _, _, h => h
  | .write _ next, _, _, _, hdue, h => WaitsDue.mono (d := next) (Or.imp_left hdue) h
  | .awaitByte next, _, _, _, hdue, h => ⟨hdue h.1, WaitsDue.mono (d := next) hdue h.2⟩
  | .discard _, _, _, _, _, h => h
  | .readUntil _ _ _ _, _, _, _, _, h => h

/-- A piece of a line is written. -/
theorem WaitsDue.of_piece {next : Dialogue α} {begun bytes : List UInt8} {due : Prop}
    (hbytes : newline ∉ begun ++ bytes) (h : next.WaitsDue newline P (begun ++ bytes) due) :
    (Dialogue.write bytes next).WaitsDue newline P begun due := by
  rw [WaitsDue, unfinished_of_not_mem hbytes]
  exact h.mono .inl

/-- A line is ended that the dialogue may wait for, and empty ones may stand behind it. -/
theorem WaitsDue.of_line {next : Dialogue α} {begun : List UInt8} {due : Prop}
    (line bytes : List UInt8) (hline : newline ∉ begun ++ line) (hP : P (begun ++ line))
    (hbytes : unfinished newline bytes = []) (h : next.WaitsDue newline P [] True) :
    (Dialogue.write (line ++ newline :: bytes) next).WaitsDue newline P begun due := by
  rw [WaitsDue, ← List.append_assoc, unfinished_append_cons hline, hbytes,
    completed_append_cons hline]
  exact h.mono fun _ ↦ .inr ⟨_, List.mem_cons_self, hP⟩

/-- **Composition**: one dialogue, and then another one. -/
theorem WaitsDue.bind {f : α → Dialogue β} (hf : ∀ a, (f a).WaitsDue newline P [] False) :
    ∀ {d : Dialogue α} {begun : List UInt8} {due : Prop}, d.WaitsDue newline P begun due →
      (d >>= f).WaitsDue newline P begun due
  | .done a, begun, _, h => by
    obtain rfl : begun = [] := h
    exact (hf a).mono False.elim
  | .fail _, _, _, h => h
  | .write _ next, _, _, h => WaitsDue.bind hf (d := next) h
  | .awaitByte next, _, _, h => ⟨h.1, WaitsDue.bind hf (d := next) h.2⟩
  | .discard next, _, _, h => WaitsDue.bind hf (d := next) h
  | .readUntil _ _ _ next, _, _, h => fun r ↦ WaitsDue.bind hf (d := next r) (h r)

/-- **Attempts** wait for what is due if every pass does. -/
theorem WaitsDue.attempts {τ : Type} {body : τ → Dialogue (Bool × τ)}
    (hbody : ∀ x, (body x).WaitsDue newline P [] False) :
    ∀ (retries : ℕ) (x : τ), (Dialogue.attempts body retries x).WaitsDue newline P [] False
  | 0, x => by
    refine WaitsDue.bind (fun r ↦ ?_) (hbody x)
    obtain ⟨ok, x'⟩ := r
    exact rfl
  | retries + 1, x => by
    refine WaitsDue.bind (fun r ↦ ?_) (hbody x)
    obtain ⟨_ | _, x'⟩ := r
    · exact WaitsDue.attempts hbody retries x'
    · exact rfl

end Dialogue

/-! ### The size of a line -/

namespace SerialLine

/-- A call has ended, or gone on. -/
def CallShrinks : Option (Dialogue Unit) → Option (Dialogue Unit) → Prop
  | _, none => False
  | none, some _ => True
  | some d', some d => d'.GoesOn d

theorem wellFounded_callShrinks : WellFounded CallShrinks := by
  have hnone : Acc CallShrinks none := ⟨_, fun _ h ↦ h.elim⟩
  have hsome : ∀ d, Acc CallShrinks (some d) := by
    intro d
    induction d using Dialogue.wellFounded_goesOn.induction with
    | _ d ih =>
      refine ⟨_, fun running h ↦ ?_⟩
      rcases running with _ | d'
      · exact hnone
      · exact ih d' h
  refine ⟨fun running ↦ ?_⟩
  rcases running with _ | d
  · exact hnone
  · exact hsome d

/-- What steps make smaller, in the order of their weight. -/
def size (s : SerialLine) : Option (Dialogue Unit) × ℕ × ℕ × ℕ :=
  (s.running, s.outgoing.length, s.inFlight.length, s.rx.length)

/-- The one line is smaller than the other. -/
def Shrinks (s' s : SerialLine) : Prop :=
  Prod.Lex CallShrinks (Prod.Lex (· < ·) (Prod.Lex (· < ·) (· < ·))) s'.size s.size

theorem wellFounded_shrinks : WellFounded Shrinks :=
  InvImage.wf size (wellFounded_callShrinks.prod_lex
    (Nat.lt_wfRel.wf.prod_lex (Nat.lt_wfRel.wf.prod_lex Nat.lt_wfRel.wf)))

variable {s s' : SerialLine}

theorem Shrinks.of_running (h : CallShrinks s'.running s.running) : s'.Shrinks s :=
  .left _ _ h

theorem Shrinks.of_outgoing (hrunning : s'.running = s.running)
    (h : s'.outgoing.length < s.outgoing.length) : s'.Shrinks s := by
  rw [Shrinks, size, size, hrunning]
  exact .right _ (.left _ _ h)

theorem Shrinks.of_inFlight (hrunning : s'.running = s.running)
    (houtgoing : s'.outgoing = s.outgoing) (h : s'.inFlight.length < s.inFlight.length) :
    s'.Shrinks s := by
  rw [Shrinks, size, size, hrunning, houtgoing]
  exact .right _ (.right _ (.left _ _ h))

theorem Shrinks.of_rx (hrunning : s'.running = s.running) (houtgoing : s'.outgoing = s.outgoing)
    (hinFlight : s'.inFlight = s.inFlight) (h : s'.rx.length < s.rx.length) : s'.Shrinks s := by
  rw [Shrinks, size, size, hrunning, houtgoing, hinFlight]
  exact .right _ (.right _ (.right _ h))

/-- The running call goes on, or it waits for a byte. -/
theorem proceed_shrinks {d : Dialogue Unit} {out : List SerialAction} (hs : s.running = some d)
    (h : s.proceed d = .ok (s', out)) : s'.Shrinks s ∨ (s' = s ∧ s.rx = [] ∧ d.Waits) := by
  have hgoes : ∀ {s' : SerialLine} {d' : Dialogue Unit}, s'.running = some d' → d'.GoesOn d →
      s'.Shrinks s := fun {s' d'} hs' hd ↦ .of_running (by rw [hs', hs]; exact hd)
  rcases d with ⟨⟨⟩⟩ | e | ⟨bytes, next⟩ | next | next | ⟨r, terminator, length, next⟩
  · obtain ⟨rfl, rfl⟩ := Prod.mk.inj (Except.ok.inj h)
    exact .inl (.of_running (by rw [hs]; exact trivial))
  · exact absurd h (by simp [SerialLine.proceed])
  · obtain ⟨rfl, rfl⟩ := Prod.mk.inj (Except.ok.inj h)
    exact .inl (hgoes rfl .write)
  · obtain ⟨rfl, rfl⟩ := Prod.mk.inj (Except.ok.inj h)
    split_ifs with hrx
    · exact .inr ⟨rfl, hrx, trivial⟩
    · exact .inl (hgoes rfl .awaitByte)
  · rw [SerialLine.proceed] at h
    rcases hrx : s.rx with _ | ⟨b, rx⟩ <;> rw [hrx] at h <;>
      obtain ⟨rfl, rfl⟩ := Prod.mk.inj (Except.ok.inj h)
    · exact .inl (hgoes rfl .discard)
    · exact .inl (.of_rx rfl rfl rfl (by rw [hrx]; exact Nat.lt_succ_self _))
  · rw [SerialLine.proceed] at h
    split_ifs at h with hfull
    · obtain ⟨rfl, rfl⟩ := Prod.mk.inj (Except.ok.inj h)
      exact .inl (hgoes rfl (.read r))
    rcases hrx : s.rx with _ | ⟨b, rx⟩ <;> rw [hrx] at h
    · obtain ⟨rfl, rfl⟩ := Prod.mk.inj (Except.ok.inj h)
      exact .inr ⟨rfl, rfl, Nat.lt_of_not_le hfull⟩
    dsimp only at h
    split_ifs at h <;> obtain ⟨rfl, rfl⟩ := Prod.mk.inj (Except.ok.inj h)
    · exact .inl (hgoes rfl (.read r))
    · exact .inl (hgoes rfl (.more (Nat.lt_of_not_le hfull)))

theorem giveUp_shrinks {d : Dialogue Unit} (hs : s.running = some d) :
    (s.giveUp d).1 = s ∨ (s.giveUp d).1.Shrinks s := by
  rcases d with _ | _ | _ | _ | _ | ⟨r, terminator, length, next⟩
  iterate 5 exact .inl rfl
  rw [SerialLine.giveUp]
  split_ifs
  · refine .inr (.of_running ?_)
    rw [hs]
    exact Dialogue.GoesOn.read r
  · exact .inl rfl

variable {κ : Type} {newline : UInt8} {answers : List UInt8 → List UInt8 → Bool}
variable {program : κ → Dialogue Unit}

/-- **Every step of the line that changes it makes it smaller**, if it is not a call. -/
theorem step_shrinks {event : SerialEvent κ} {out : List SerialAction}
    (hevent : ∀ c, event ≠ .call c)
    (hstep : step newline answers program s event = .ok (s', out)) : s' = s ∨ s'.Shrinks s := by
  cases event with
  | call c => exact absurd rfl (hevent c)
  | proceed =>
    rcases hs : s.running with _ | d <;> simp only [step, hs] at hstep
    · obtain ⟨rfl, rfl⟩ := Prod.mk.inj (Except.ok.inj hstep)
      exact .inl rfl
    · exact (proceed_shrinks hs hstep).symm.imp_left And.left
  | giveUp =>
    rcases hs : s.running with _ | d <;> simp only [step, hs] at hstep <;>
      obtain ⟨rfl, rfl⟩ := Prod.mk.inj (Except.ok.inj hstep)
    · exact .inl rfl
    · exact giveUp_shrinks hs
  | take answer =>
    obtain rfl : (s.take newline answers answer).1 = s' := congrArg Prod.fst (Except.ok.inj hstep)
    obtain hnone | ⟨line, rest, hout, -, -, htake⟩ := s.take_cases newline answers answer
    · exact .inl (congrArg Prod.fst hnone)
    · rw [htake]
      refine .inr (.of_outgoing rfl ?_)
      rw [hout, List.length_append, List.length_cons]
      dsimp only
      omega
  | arrive =>
    obtain ⟨rfl, rfl⟩ := Prod.mk.inj (Except.ok.inj hstep)
    rw [SerialLine.arrive]
    rcases hin : s.inFlight with _ | ⟨b, inFlight⟩
    · exact .inl rfl
    · exact .inr (.of_inFlight rfl rfl (by rw [hin]; exact Nat.lt_succ_self _))

/-! ### Waiting for what is due -/

variable {P : List UInt8 → Prop}

variable (newline P) in
/-- A byte is there, or on its way, or a line is written with the property. -/
def Due (s : SerialLine) : Prop :=
  s.rx ≠ [] ∨ s.inFlight ≠ [] ∨ ∃ line ∈ completed newline s.outgoing, P line

variable (newline P) in
/-- The running call waits for what is due. -/
def WaitsDue (s : SerialLine) : Prop :=
  ∀ d, s.running = some d →
    d.WaitsDue newline P (unfinished newline s.outgoing) (s.Due newline P)

/-- A step that leaves the call as it is. -/
theorem WaitsDue.of_running_eq (h : s.WaitsDue newline P) (hrunning : s'.running = s.running)
    (hunfinished : unfinished newline s'.outgoing = unfinished newline s.outgoing)
    (hdue : s.Due newline P → s'.Due newline P) : s'.WaitsDue newline P := by
  intro d hd
  rw [hunfinished]
  exact (h d (hrunning ▸ hd)).mono hdue

/-- The call goes on. -/
theorem WaitsDue.of_next {next : Dialogue Unit} {due : Prop} (hrunning : s'.running = some next)
    (hdue : due → s'.Due newline P)
    (h : next.WaitsDue newline P (unfinished newline s'.outgoing) due) :
    s'.WaitsDue newline P := by
  intro d hd
  obtain rfl := Option.some.inj (hrunning.symm.trans hd)
  exact h.mono hdue

/-- The running call goes on. -/
theorem WaitsDue.proceed (h : s.WaitsDue newline P) {d : Dialogue Unit} {out : List SerialAction}
    (hs : s.running = some d) (hstep : s.proceed d = .ok (s', out)) : s'.WaitsDue newline P := by
  have hd := h d hs
  rcases d with ⟨⟨⟩⟩ | e | ⟨bytes, next⟩ | next | next | ⟨r, terminator, length, next⟩
  · obtain ⟨rfl, rfl⟩ := Prod.mk.inj (Except.ok.inj hstep)
    exact fun _ hnone ↦ absurd hnone (Option.some_ne_none _).symm
  · exact hd.elim
  · obtain ⟨rfl, rfl⟩ := Prod.mk.inj (Except.ok.inj hstep)
    obtain ⟨hcompleted, hunfinished⟩ := completed_append newline s.outgoing bytes
    rw [Dialogue.WaitsDue, ← hunfinished] at hd
    refine .of_next rfl ?_ hd
    rintro ((hrx | hin | ⟨line, hline, hP⟩) | ⟨line, hline, hP⟩)
    · exact .inl hrx
    · exact .inr (.inl hin)
    · exact .inr (.inr ⟨line, hcompleted ▸ List.mem_append_left _ hline, hP⟩)
    · exact .inr (.inr ⟨line, hcompleted ▸ List.mem_append_right _ hline, hP⟩)
  · obtain ⟨rfl, rfl⟩ := Prod.mk.inj (Except.ok.inj hstep)
    split_ifs
    · exact h
    · exact .of_next rfl id hd.2
  · rw [SerialLine.proceed] at hstep
    rcases hrx : s.rx with _ | ⟨b, rx⟩ <;> rw [hrx] at hstep <;>
      obtain ⟨rfl, rfl⟩ := Prod.mk.inj (Except.ok.inj hstep)
    · exact .of_next rfl False.elim hd
    · have hagain : (Dialogue.discard next).WaitsDue newline P _ False := hd
      exact .of_next hs False.elim hagain
  · have hnext : ∀ {r rx}, SerialLine.WaitsDue newline P
        { s with running := some (next r), rx } := .of_next rfl False.elim (hd _)
    rw [SerialLine.proceed] at hstep
    split_ifs at hstep
    · obtain ⟨rfl, rfl⟩ := Prod.mk.inj (Except.ok.inj hstep)
      exact hnext
    rcases hrx : s.rx with _ | ⟨b, rx⟩ <;> rw [hrx] at hstep
    · obtain ⟨rfl, rfl⟩ := Prod.mk.inj (Except.ok.inj hstep)
      exact h
    dsimp only at hstep
    split_ifs at hstep <;> obtain ⟨rfl, rfl⟩ := Prod.mk.inj (Except.ok.inj hstep)
    · exact hnext
    · have hmore : Dialogue.WaitsDue newline P (.readUntil (r ++ [b]) terminator length next) _
          False := hd
      exact .of_next rfl False.elim hmore

theorem WaitsDue.giveUp (h : s.WaitsDue newline P) {d : Dialogue Unit}
    (hs : s.running = some d) : (s.giveUp d).1.WaitsDue newline P := by
  have hd := h d hs
  rcases d with _ | _ | _ | _ | _ | ⟨r, terminator, length, next⟩
  iterate 5 exact h
  rw [SerialLine.giveUp]
  split_ifs
  · exact .of_next rfl False.elim (hd r)
  · exact h

/-- **Every step but a call keeps that the running call waits for what is due**, if the peer answers
the lines with the property by something. -/
theorem WaitsDue.step (hanswers : ∀ {line answer}, P line → answers line answer → answer ≠ [])
    (h : s.WaitsDue newline P) {event : SerialEvent κ} {out : List SerialAction}
    (hevent : ∀ c, event ≠ .call c)
    (hstep : SerialLine.step newline answers program s event = .ok (s', out)) :
    s'.WaitsDue newline P := by
  cases event with
  | call c => exact absurd rfl (hevent c)
  | proceed =>
    rcases hs : s.running with _ | d <;> simp only [SerialLine.step, hs] at hstep
    · obtain ⟨rfl, rfl⟩ := Prod.mk.inj (Except.ok.inj hstep)
      exact h
    · exact h.proceed hs hstep
  | giveUp =>
    rcases hs : s.running with _ | d <;> simp only [SerialLine.step, hs] at hstep <;>
      obtain ⟨rfl, rfl⟩ := Prod.mk.inj (Except.ok.inj hstep)
    · exact h
    · exact h.giveUp hs
  | take answer =>
    obtain rfl : (s.take newline answers answer).1 = s' := congrArg Prod.fst (Except.ok.inj hstep)
    obtain hnone | ⟨line, rest, hout, hline, hanswer, htake⟩ := s.take_cases newline answers answer
    · rw [hnone]
      exact h
    rw [htake]
    refine h.of_running_eq rfl (by rw [hout, unfinished_append_cons hline]) ?_
    rintro (hrx | hin | ⟨line', hmem, hP⟩)
    · exact .inl hrx
    · exact .inr (.inl (List.append_ne_nil_of_left_ne_nil hin _))
    rw [hout, completed_append_cons hline] at hmem
    rcases List.mem_cons.1 hmem with rfl | hmem
    · exact .inr (.inl (List.append_ne_nil_of_right_ne_nil _ (hanswers hP hanswer)))
    · exact .inr (.inr ⟨line', hmem, hP⟩)
  | arrive =>
    obtain ⟨rfl, rfl⟩ := Prod.mk.inj (Except.ok.inj hstep)
    rw [SerialLine.arrive]
    rcases hin : s.inFlight with _ | ⟨b, inFlight⟩
    · exact h
    · exact h.of_running_eq rfl rfl fun _ ↦ .inl (List.append_ne_nil_of_right_ne_nil _ (by simp))

/-! ### Kinds of steps -/

/-- A kind of steps. -/
inductive Kind
  | proceed | giveUp | take | arrive

variable (newline answers) in
/-- The event is of this kind, and the peer takes a line with an answer that it may give. -/
def Kind.Of (s : SerialLine) : Kind → SerialEvent κ → Prop
  | .proceed, event => event = .proceed
  | .giveUp, event => event = .giveUp
  | .take, event => ∃ answer, event = .take answer ∧ ∀ line rest,
      s.outgoing = line ++ newline :: rest → newline ∉ line → answers line answer
  | .arrive, event => event = .arrive

variable (answers program) in
/-- **A running call that waits for what is due is brought on** by every step of some kind. -/
theorem WaitsDue.exists_shrinks (h : s.WaitsDue newline P) {d : Dialogue Unit}
    (hs : s.running = some d) :
    ∃ kind : Kind, ∀ {event : SerialEvent κ} {s' : SerialLine} {out : List SerialAction},
      kind.Of newline answers s event →
        SerialLine.step newline answers program s event = .ok (s', out) → s'.Shrinks s := by
  have hd := h d hs
  by_cases hwaits : s.rx = [] ∧ d.Waits
  swap
  · -- the call need not wait
    refine ⟨.proceed, fun {event s' out} hkind hstep ↦ ?_⟩
    obtain rfl : event = .proceed := hkind
    simp only [SerialLine.step, hs] at hstep
    exact (proceed_shrinks hs hstep).resolve_right fun hsame ↦ hwaits hsame.2
  obtain ⟨hrx, hwaits⟩ := hwaits
  rcases hin : s.inFlight with _ | ⟨b, inFlight⟩
  swap
  · -- a byte is on its way
    refine ⟨.arrive, fun {event s' out} hkind hstep ↦ ?_⟩
    obtain rfl : event = .arrive := hkind
    obtain ⟨rfl, rfl⟩ := Prod.mk.inj (Except.ok.inj hstep)
    rw [SerialLine.arrive, hin]
    exact .of_inFlight rfl rfl (by rw [hin]; exact Nat.lt_succ_self _)
  rcases d with _ | _ | _ | next | _ | ⟨r, terminator, length, next⟩
  case awaitByte =>
    -- a line is written that the peer answers
    obtain hrx' | hin' | ⟨line, hline, -⟩ := hd.1
    · exact absurd hrx hrx'
    · exact absurd hin hin'
    obtain hout | ⟨line, rest, hline, hout⟩ := not_mem_or_eq_append_cons newline s.outgoing
    · rw [completed_of_not_mem hout] at hline
      exact absurd hline List.not_mem_nil
    refine ⟨.take, fun {event s' out} hkind hstep ↦ ?_⟩
    obtain ⟨answer, rfl, hanswer⟩ := hkind
    obtain rfl : (s.take newline answers answer).1 = s' := congrArg Prod.fst (Except.ok.inj hstep)
    rw [SerialLine.take, hout, takeWhile_append_cons hline, dropWhile_append_cons hline]
    dsimp only
    rw [if_pos (hanswer line rest hout hline)]
    refine .of_outgoing rfl ?_
    rw [hout, List.length_append, List.length_cons]
    dsimp only
    omega
  case readUntil =>
    -- nothing comes, and the reading ends
    refine ⟨.giveUp, fun {event s' out} hkind hstep ↦ ?_⟩
    obtain rfl : event = .giveUp := hkind
    simp only [SerialLine.step, hs] at hstep
    obtain rfl : (s.giveUp _).1 = s' := congrArg Prod.fst (Except.ok.inj hstep)
    rw [SerialLine.giveUp, if_pos ⟨hrx, hin⟩]
    refine .of_running ?_
    rw [hs]
    exact Dialogue.GoesOn.read r
  all_goals exact hwaits.elim

end SerialLine

/-! ### Waiting for ever -/

namespace Dialogue

/-- Whatever is read, the dialogue waits for a byte before it ends. -/
def NeedsByte : Dialogue α → Prop
  | .done _ => False
  | .fail _ => False
  | .write _ next => NeedsByte next
  | .awaitByte _ => True
  | .discard next => NeedsByte next
  | .readUntil _ _ _ next => ∀ r, NeedsByte (next r)

theorem NeedsByte.bind (f : α → Dialogue β) :
    ∀ {d : Dialogue α}, d.NeedsByte → (d >>= f).NeedsByte
  | .write _ next, h => NeedsByte.bind f (d := next) h
  | .awaitByte _, h => h
  | .discard next, h => NeedsByte.bind f (d := next) h
  | .readUntil _ _ _ next, h => fun r ↦ NeedsByte.bind f (d := next r) (h r)

theorem NeedsByte.attempts {τ : Type} {body : τ → Dialogue (Bool × τ)}
    (hbody : ∀ x, (body x).NeedsByte) (retries : ℕ) (x : τ) :
    (Dialogue.attempts body retries x).NeedsByte := by
  rcases retries with _ | retries
  · exact (hbody x).bind _
  · exact (hbody x).bind _

end Dialogue

namespace SerialLine

/-- Nothing comes over the line. -/
def Silent (s : SerialLine) : Prop :=
  s.rx = [] ∧ s.inFlight = []

variable {s s' : SerialLine} {κ : Type} {newline : UInt8}
variable {answers : List UInt8 → List UInt8 → Bool} {program : κ → Dialogue Unit}

/-- **A dialogue that needs a byte is kept from its end**, if the peer answers nothing. -/
theorem Silent.step (hanswers : ∀ {line answer}, answers line answer → answer = [])
    (h : s.Silent) {event : SerialEvent κ} {out : List SerialAction}
    (hevent : ∀ c, event ≠ .call c)
    (hstep : SerialLine.step newline answers program s event = .ok (s', out)) :
    s'.Silent ∧ ∀ d, s.running = some d → d.NeedsByte →
      ∃ d', s'.running = some d' ∧ d'.NeedsByte := by
  obtain ⟨hrx, hin⟩ := h
  have hsame : ∀ {s' : SerialLine}, s'.running = s.running → s'.rx = s.rx →
      s'.inFlight = s.inFlight → s'.Silent ∧ ∀ d, s.running = some d → d.NeedsByte →
        ∃ d', s'.running = some d' ∧ d'.NeedsByte := fun hrunning hrx' hin' ↦
    ⟨⟨hrx'.trans hrx, hin'.trans hin⟩, fun d hd hneeds ↦ ⟨d, hrunning.trans hd, hneeds⟩⟩
  cases event with
  | call c => exact absurd rfl (hevent c)
  | proceed =>
    rcases hs : s.running with _ | d <;> simp only [SerialLine.step, hs] at hstep
    · obtain ⟨rfl, rfl⟩ := Prod.mk.inj (Except.ok.inj hstep)
      exact hs ▸ hsame rfl rfl rfl
    rcases d with ⟨⟨⟩⟩ | e | ⟨bytes, next⟩ | next | next | ⟨r, terminator, length, next⟩
    · obtain ⟨rfl, rfl⟩ := Prod.mk.inj (Except.ok.inj hstep)
      exact ⟨⟨hrx, hin⟩, fun d hd hneeds ↦ by cases hd; exact hneeds.elim⟩
    · exact absurd hstep (by simp [SerialLine.proceed])
    · obtain ⟨rfl, rfl⟩ := Prod.mk.inj (Except.ok.inj hstep)
      exact ⟨⟨hrx, hin⟩, fun d hd hneeds ↦ by cases hd; exact ⟨next, rfl, hneeds⟩⟩
    · obtain ⟨rfl, rfl⟩ := Prod.mk.inj (Except.ok.inj hstep)
      rw [if_pos hrx]
      exact hs ▸ hsame rfl rfl rfl
    · rw [SerialLine.proceed, hrx] at hstep
      obtain ⟨rfl, rfl⟩ := Prod.mk.inj (Except.ok.inj hstep)
      exact ⟨⟨rfl, hin⟩, fun d hd hneeds ↦ by cases hd; exact ⟨next, rfl, hneeds⟩⟩
    · rw [SerialLine.proceed, hrx] at hstep
      split_ifs at hstep <;> obtain ⟨rfl, rfl⟩ := Prod.mk.inj (Except.ok.inj hstep)
      · exact ⟨⟨rfl, hin⟩, fun d hd hneeds ↦ by cases hd; exact ⟨next r, rfl, hneeds r⟩⟩
      · exact hs ▸ hsame rfl rfl rfl
  | giveUp =>
    rcases hs : s.running with _ | d <;> simp only [SerialLine.step, hs] at hstep
    · obtain ⟨rfl, rfl⟩ := Prod.mk.inj (Except.ok.inj hstep)
      exact hs ▸ hsame rfl rfl rfl
    obtain rfl : (s.giveUp d).1 = s' := congrArg Prod.fst (Except.ok.inj hstep)
    rcases d with _ | _ | _ | _ | _ | ⟨r, terminator, length, next⟩
    iterate 5 exact hs ▸ hsame rfl rfl rfl
    rw [SerialLine.giveUp, if_pos ⟨hrx, hin⟩]
    exact ⟨⟨hrx, hin⟩, fun d hd hneeds ↦ by cases hd; exact ⟨next r, rfl, hneeds r⟩⟩
  | take answer =>
    obtain rfl : (s.take newline answers answer).1 = s' := congrArg Prod.fst (Except.ok.inj hstep)
    obtain hnone | ⟨line, rest, -, -, hanswer, htake⟩ := s.take_cases newline answers answer
    · rw [hnone]
      exact hsame rfl rfl rfl
    · rw [htake]
      refine hsame rfl rfl ?_
      rw [hanswers hanswer]
      exact List.append_nil _
  | arrive =>
    obtain ⟨rfl, rfl⟩ := Prod.mk.inj (Except.ok.inj hstep)
    rw [SerialLine.arrive, hin]
    exact hsame rfl rfl rfl

end SerialLine

end EspBode
