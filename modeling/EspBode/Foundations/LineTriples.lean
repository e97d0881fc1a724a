import EspBode.Foundations.LineReplay

/-!
# What dialogues do to a device that takes lines

A device at the other end of a serial line that changes its state by the lines it takes
(`LineDevice`). Bytes are written to it in pieces, so between two writes a line may be unfinished
(`Taken`); what is written in two pieces is written at once (`write_write`), and whole lines are
taken one behind the other (`write_lines`).

`Ensures d Q t` says that whatever is read, the dialogue `d` ends without being stuck, and has then
brought the device from `t` to something of which `Q` holds. It is the weakest precondition of the
dialogue for `Q`, by recursion on its tree, and the rules of a program logic are lemmas about it:

* `Ensures.mono` is consequence, and `Ensures.bind` is composition;
* `Ensures.attempts` is the invariant rule of a loop of attempts, whose invariant knows the number
  of passes and what the next pass starts from.

Readings are quantified over in the recursion. So what a dialogue ensures does not depend on the
answers, and the device need not be the one that gives them.

On an asynchronous line the device lags behind: it has taken a part of the lines that were written.
`SerialLine.ahead` is what it will have become when it has taken the rest, and `Leads` is `Ensures`
of the running call, said of that. `Leads.step` carries it over every step of the line. A write
moves the device ahead by what it writes; the peer taking a line moves what has been seen and what
is still to be taken, and leaves their sum as it is; a byte that arrives changes neither. So the
scheduler has no influence on what the device will have become when a call has ended.
-/

namespace EspBode

universe u

/-- A device that takes lines. -/
structure LineDevice (σ : Type u) where
  newline : UInt8
  /-- What a line changes. -/
  take : σ → List UInt8 → σ

/-- A device as far as it was written to. -/
structure Taken (σ : Type u) where
  /-- The state behind the last line that is finished. -/
  state : σ
  /-- What is written of the next line. -/
  begun : List UInt8

theorem Taken.eq_of_begun {σ : Type u} {t : Taken σ} (h : t.begun = []) : t = ⟨t.state, []⟩ := by
  obtain ⟨state, begun⟩ := t
  obtain rfl : begun = [] := h
  rfl

namespace LineDevice

variable {σ : Type u} (dev : LineDevice σ)

/-- Bytes are written. -/
def write (t : Taken σ) (bytes : List UInt8) : Taken σ :=
  ⟨(completed dev.newline (t.begun ++ bytes)).foldl dev.take t.state,
    unfinished dev.newline (t.begun ++ bytes)⟩

/-- What is written in two pieces is written at once. -/
theorem write_write (t : Taken σ) (bytes bytes' : List UInt8) :
    dev.write (dev.write t bytes) bytes' = dev.write t (bytes ++ bytes') := by
  obtain ⟨hcompleted, hunfinished⟩ :=
    completed_append dev.newline (t.begun ++ bytes) bytes'
  rw [write, write, write, ← List.append_assoc, hcompleted, hunfinished, List.foldl_append]

theorem write_nil {t : Taken σ} (h : dev.newline ∉ t.begun) : dev.write t [] = t := by
  rw [write, List.append_nil, completed_of_not_mem h, unfinished_of_not_mem h]
  rfl

/-- What is begun is the beginning of one line. -/
theorem newline_not_mem_write (t : Taken σ) (bytes : List UInt8) :
    dev.newline ∉ (dev.write t bytes).begun :=
  not_mem_unfinished _ _

/-- A piece of a line changes nothing yet. -/
theorem write_of_not_mem {t : Taken σ} {bytes : List UInt8}
    (h : dev.newline ∉ t.begun ++ bytes) : dev.write t bytes = ⟨t.state, t.begun ++ bytes⟩ := by
  rw [write, completed_of_not_mem h, unfinished_of_not_mem h]
  rfl

/-- The end of a line. -/
theorem write_append_cons {t : Taken σ} {w : List UInt8} (h : dev.newline ∉ t.begun ++ w)
    (rest : List UInt8) : dev.write t (w ++ dev.newline :: rest) =
      dev.write ⟨dev.take t.state (t.begun ++ w), []⟩ rest := by
  rw [write, write, ← List.append_assoc, completed_append_cons h, unfinished_append_cons h]
  rfl

/-- A whole line. -/
theorem write_line (s : σ) {w : List UInt8} (h : dev.newline ∉ w) :
    dev.write ⟨s, []⟩ (w ++ [dev.newline]) = ⟨dev.take s w, []⟩ := by
  rw [dev.write_append_cons (t := ⟨s, []⟩) h, List.nil_append]
  exact dev.write_of_not_mem List.not_mem_nil

/-- Whole lines, one behind the other. -/
theorem write_lines {lines : List (List UInt8)} (h : ∀ w ∈ lines, dev.newline ∉ w) (s : σ) :
    dev.write ⟨s, []⟩ (lines.flatMap (· ++ [dev.newline])) = ⟨lines.foldl dev.take s, []⟩ := by
  induction lines generalizing s with
  | nil => exact dev.write_nil List.not_mem_nil
  | cons w lines ih =>
    obtain ⟨hw, hlines⟩ := List.forall_mem_cons.1 h
    rw [List.flatMap_cons, ← dev.write_write, dev.write_line s hw, ih hlines, List.foldl_cons]

/-! ### Dialogues -/

open Dialogue

variable {α β : Type}

/-- Whatever is read, the dialogue ends, and with what is to hold then. -/
def Ensures : Dialogue α → (α → Taken σ → Prop) → Taken σ → Prop
  | .done a, Q, t => Q a t
  | .fail _, _, _ => False
  | .write bytes next, Q, t => Ensures next Q (dev.write t bytes)
  | .awaitByte next, Q, t => Ensures next Q t
  | .discard next, Q, t => Ensures next Q t
  | .readUntil _ _ _ next, Q, t => ∀ r, Ensures (next r) Q t

variable {dev}

/-- **Consequence**: less may be asked for. -/
theorem Ensures.mono {Q R : α → Taken σ → Prop} (hQR : ∀ a t, Q a t → R a t) :
    ∀ {d : Dialogue α} {t : Taken σ}, dev.Ensures d Q t → dev.Ensures d R t
  | .done a, t, h => hQR a t h
  | .fail _, _, h => h
  | .write _ next, _, h => Ensures.mono (d := next) hQR h
  | .awaitByte next, _, h => Ensures.mono (d := next) hQR h
  | .discard next, _, h => Ensures.mono (d := next) hQR h
  | .readUntil _ _ _ next, _, h => fun r ↦ Ensures.mono (d := next r) hQR (h r)

/-- There is a way to the end, on which something more is written. -/
theorem Ensures.exists_end {Q : α → Taken σ → Prop} :
    ∀ {d : Dialogue α} {t : Taken σ}, dev.newline ∉ t.begun → dev.Ensures d Q t →
      ∃ a bytes, Q a (dev.write t bytes)
  | .done a, t, ht, h => ⟨a, [], by rwa [dev.write_nil ht]⟩
  | .write bytes next, t, _, h => by
    obtain ⟨a, bytes', hq⟩ :=
      Ensures.exists_end (d := next) (dev.newline_not_mem_write t bytes) h
    exact ⟨a, bytes ++ bytes', dev.write_write t bytes bytes' ▸ hq⟩
  | .awaitByte next, _, ht, h => Ensures.exists_end (d := next) ht h
  | .discard next, _, ht, h => Ensures.exists_end (d := next) ht h
  | .readUntil r _ _ next, _, ht, h => Ensures.exists_end (d := next r) ht (h r)

/-- **Composition**: one dialogue, and then another one. -/
theorem Ensures.bind {f : α → Dialogue β} {Q : β → Taken σ → Prop} :
    ∀ {d : Dialogue α} {t : Taken σ}, dev.Ensures d (fun a ↦ dev.Ensures (f a) Q) t →
      dev.Ensures (d >>= f) Q t
  | .done _, _, h => h
  | .fail _, _, h => h
  | .write _ next, _, h => Ensures.bind (d := next) h
  | .awaitByte next, _, h => Ensures.bind (d := next) h
  | .discard next, _, h => Ensures.bind (d := next) h
  | .readUntil _ _ _ next, _, h => fun r ↦ Ensures.bind (d := next r) (h r)

/-- **Attempts**: if every pass takes what holds before it to what holds before the next one, then
it holds behind the last one, of which there is at least one. -/
theorem Ensures.attempts {τ : Type} {body : τ → Dialogue (Bool × τ)}
    {before : ℕ → τ → Taken σ → Prop}
    (hbody : ∀ n x t, before n x t → dev.Ensures (body x) (fun r t ↦ before (n + 1) r.2 t) t) :
    ∀ (retries n : ℕ) (x : τ) (t : Taken σ), before n x t →
      dev.Ensures (Dialogue.attempts body retries x)
        (fun _ t ↦ ∃ m ≤ retries, ∃ x, before (n + m + 1) x t) t
  | 0, n, x, t, h => by
    refine Ensures.bind ((hbody n x t h).mono fun r t' hr ↦ ?_)
    exact ⟨0, Nat.le_refl 0, r.2, hr⟩
  | retries + 1, n, x, t, h => by
    refine Ensures.bind ((hbody n x t h).mono fun r t' hr ↦ ?_)
    obtain ⟨_ | _, x'⟩ := r
    · refine (Ensures.attempts hbody retries (n + 1) x' t' hr).mono fun _ t'' ⟨m, hm, x'', ht⟩ ↦ ?_
      exact ⟨m + 1, Nat.succ_le_succ hm, x'', by rwa [← Nat.add_assoc, Nat.add_right_comm n m 1]⟩
    · exact ⟨0, Nat.zero_le _, x', hr⟩

end LineDevice

/-! ### The device at the end of an asynchronous line -/

namespace SerialLine

variable {σ : Type u} (dev : LineDevice σ)

/-- The lines that the peer has taken. -/
def taken (past : List SerialAction) : List (List UInt8) :=
  past.filterMap fun
    | .answer line _ => some line
    | _ => none

theorem taken_append (past out : List SerialAction) :
    taken (past ++ out) = taken past ++ taken out :=
  List.filterMap_append

/-- The device behind everything that is written, if it has come to `seen`. -/
def ahead (seen : σ) (s : SerialLine) : Taken σ :=
  dev.write ⟨seen, []⟩ s.outgoing

/-- Whatever is read, the running call ends with what is to hold of the device then. -/
def Leads (Q : Taken σ → Prop) (seen : σ) (s : SerialLine) : Prop :=
  match s.running with
  | none => Q (s.ahead dev seen)
  | some d => dev.Ensures d (fun _ ↦ Q) (s.ahead dev seen)

variable {dev} {Q : Taken σ → Prop} {seen : σ} {s s' : SerialLine} {out : List SerialAction}

theorem leads_none (hs : s.running = none) : s.Leads dev Q seen ↔ Q (s.ahead dev seen) := by
  rw [Leads, hs]

theorem leads_some {d : Dialogue Unit} (hs : s.running = some d) :
    s.Leads dev Q seen ↔ dev.Ensures d (fun _ ↦ Q) (s.ahead dev seen) := by
  rw [Leads, hs]

/-- What matters is the running call, and what is still to be taken. -/
theorem Leads.of_ahead_eq {seen' : σ} (h : s.Leads dev Q seen) (hrunning : s'.running = s.running)
    (hahead : s'.ahead dev seen' = s.ahead dev seen) : s'.Leads dev Q seen' := by
  rwa [Leads, hrunning, hahead]

/-- **The running call goes on.** -/
theorem Leads.proceed {d : Dialogue Unit} (hs : s.running = some d) (h : s.Leads dev Q seen)
    (hstep : s.proceed d = .ok (s', out)) :
    s'.Leads dev Q ((taken out).foldl dev.take seen) := by
  have hd := (leads_some hs).1 h
  rcases d with ⟨⟨⟩⟩ | e | ⟨bytes, next⟩ | next | next | ⟨r, terminator, length, next⟩
  · obtain ⟨rfl, rfl⟩ := Prod.mk.inj (Except.ok.inj hstep)
    exact hd
  · exact hd.elim
  · obtain ⟨rfl, rfl⟩ := Prod.mk.inj (Except.ok.inj hstep)
    show dev.Ensures next (fun _ ↦ Q) (dev.write ⟨seen, []⟩ (s.outgoing ++ bytes))
    rw [← dev.write_write]
    exact hd
  · obtain ⟨rfl, rfl⟩ := Prod.mk.inj (Except.ok.inj hstep)
    split_ifs
    · exact h
    · exact hd
  · rw [SerialLine.proceed] at hstep
    rcases hrx : s.rx with _ | ⟨b, rx⟩ <;> rw [hrx] at hstep <;>
      obtain ⟨rfl, rfl⟩ := Prod.mk.inj (Except.ok.inj hstep)
    · exact hd
    · exact h.of_ahead_eq rfl rfl
  · rw [SerialLine.proceed] at hstep
    split_ifs at hstep
    · obtain ⟨rfl, rfl⟩ := Prod.mk.inj (Except.ok.inj hstep)
      exact hd r
    · rcases hrx : s.rx with _ | ⟨b, rx⟩ <;> rw [hrx] at hstep
      · obtain ⟨rfl, rfl⟩ := Prod.mk.inj (Except.ok.inj hstep)
        exact h
      dsimp only at hstep
      split_ifs at hstep <;> obtain ⟨rfl, rfl⟩ := Prod.mk.inj (Except.ok.inj hstep)
      · exact hd r
      · exact hd

/-- A reading that gives up reads something, too. -/
theorem Leads.giveUp {d : Dialogue Unit} (hs : s.running = some d) (h : s.Leads dev Q seen) :
    (s.giveUp d).1.Leads dev Q ((taken (s.giveUp d).2).foldl dev.take seen) := by
  have hd := (leads_some hs).1 h
  rcases d with _ | _ | _ | _ | _ | ⟨r, terminator, length, next⟩ <;> try exact h
  rw [SerialLine.giveUp]
  split_ifs
  · exact hd r
  · exact h

/-- **The device takes a line** that it was to take. -/
theorem Leads.take (h : s.Leads dev Q seen) (answers : List UInt8 → List UInt8 → Bool)
    (answer : List UInt8) :
    (s.take dev.newline answers answer).1.Leads dev Q
      ((taken (s.take dev.newline answers answer).2).foldl dev.take seen) := by
  obtain ⟨hline, hsplit⟩ := takeWhile_dropWhile_ne dev.newline s.outgoing
  rw [SerialLine.take]
  rcases hrest : s.outgoing.dropWhile (· != dev.newline) with _ | ⟨b, rest⟩
  · exact h
  dsimp only
  split_ifs
  · rw [hrest, List.tail_cons] at hsplit
    have hout := hsplit.resolve_left fun hnil ↦ List.cons_ne_nil _ _ hnil.2
    refine h.of_ahead_eq rfl ?_
    show dev.write ⟨dev.take seen _, []⟩ rest = dev.write ⟨seen, []⟩ s.outgoing
    conv_rhs => rw [hout]
    rw [dev.write_append_cons (t := ⟨seen, []⟩) hline, List.nil_append]
  · exact h

theorem Leads.arrive (h : s.Leads dev Q seen) : s.arrive.Leads dev Q seen := by
  refine h.of_ahead_eq ?_ ?_ <;>
    · rw [SerialLine.arrive]
      rcases s.inFlight with _ | ⟨b, inFlight⟩ <;> rfl

/-- **Every step of the line** that is not a call. -/
theorem Leads.step {κ : Type} {answers : List UInt8 → List UInt8 → Bool}
    {program : κ → Dialogue Unit} {event : SerialEvent κ} (hevent : ∀ c, event ≠ .call c)
    (h : s.Leads dev Q seen)
    (hstep : SerialLine.step dev.newline answers program s event = .ok (s', out)) :
    s'.Leads dev Q ((taken out).foldl dev.take seen) := by
  cases event with
  | call c => exact absurd rfl (hevent c)
  | proceed =>
    rcases hs : s.running with _ | d <;> simp only [SerialLine.step, hs] at hstep
    · obtain ⟨rfl, rfl⟩ := Prod.mk.inj (Except.ok.inj hstep)
      exact h
    · exact h.proceed hs hstep
  | giveUp =>
    rcases hs : s.running with _ | d <;> simp only [SerialLine.step, hs] at hstep <;>
      obtain ⟨rfl, rfl⟩ := Prod.mk.inj (Except.ok.inj hstep)
    · exact h
    · exact h.giveUp hs
  | take answer =>
    obtain ⟨rfl, rfl⟩ := Prod.mk.inj (Except.ok.inj hstep)
    exact h.take answers answer
  | arrive =>
    obtain ⟨rfl, rfl⟩ := Prod.mk.inj (Except.ok.inj hstep)
    exact h.arrive

/-- Such a line is not stuck. -/
theorem Leads.exists_step {κ : Type} (h : s.Leads dev Q seen) (newline : UInt8)
    (answers : List UInt8 → List UInt8 → Bool) (program : κ → Dialogue Unit)
    (event : SerialEvent κ) : ∃ r, SerialLine.step newline answers program s event = .ok r := by
  rcases hs : s.running with _ | d
  · cases event <;> simp only [SerialLine.step, hs] <;> exact ⟨_, rfl⟩
  cases event with
  | proceed =>
    have hd := (leads_some hs).1 h
    simp only [SerialLine.step, hs]
    rcases d with ⟨⟨⟩⟩ | e | ⟨bytes, next⟩ | next | next | ⟨r, terminator, length, next⟩
    · exact ⟨_, rfl⟩
    · exact hd.elim
    · exact ⟨_, rfl⟩
    · exact ⟨_, rfl⟩
    · rw [SerialLine.proceed]
      rcases s.rx with _ | ⟨b, rx⟩ <;> exact ⟨_, rfl⟩
    · rw [SerialLine.proceed]
      split_ifs
      · exact ⟨_, rfl⟩
      · rcases s.rx with _ | ⟨b, rx⟩
        · exact ⟨_, rfl⟩
        · dsimp only
          split_ifs <;> exact ⟨_, rfl⟩
  | call c => simp only [SerialLine.step, hs]; exact ⟨_, rfl⟩
  | giveUp => simp only [SerialLine.step, hs]; exact ⟨_, rfl⟩
  | take answer => exact ⟨_, rfl⟩
  | arrive => exact ⟨_, rfl⟩

end SerialLine

end EspBode
