import Mathlib.Logic.Function.Basic
import EspBode.Foundations.LineDiscipline

/-!
# Asynchronous runs are runs against a peer

There are two models of a program on a serial line. `converse` runs a dialogue at once against a
peer, whose answer to a reading is a function of everything that was written until then. On a
`SerialLine` bytes travel, and a scheduler decides what happens next. This module says that the
second one adds nothing: what the calls do in an asynchronous run they also do one behind the other
against some peer (`exists_converse`).

The argument has two halves, which meet in the relation `Replays`, a path through the tree of a
dialogue together with what it writes and reads.

* **What is done is a path** (`Onward.of_run`). `own` forgets what the peer and the scheduler do;
  what is left of a run is the beginning of a path through the calls that were asked for, one behind
  the other (`inOrder`). One event at a time is enough (`Onward.of_step`): a call that is made, an
  operation of the running call, or a reading that ends, with all its bytes or given up. When no
  call is running the path is whole (`Onward.replays`).
* **A path is a run against a peer** (`converse_of_replays`). A peer is a function of what was
  written, so a path is one only if no two readings follow the same writings. That is where the
  discipline of the dialogues comes in: each reading comes behind a query of its own
  (`pairwise_heard`), a query is not empty, and so more and more was written before each reading. A
  function with the required values exists then (`exists_peer`).

The peer is found afterwards, from the run. Nothing is said about which peer it is, and none is
assumed to exist before.
-/

namespace EspBode

/-- The action is one of the calls, not of the peer. -/
def SerialAction.isOwn : SerialAction → Bool
  | .write _ | .response _ => true
  | .answer _ _ => false

namespace SerialLine

/-- What the calls have done. -/
def own (past : List SerialAction) : List SerialAction :=
  past.filter SerialAction.isOwn

/-- Everything that was written. -/
def written : List SerialAction → List UInt8
  | [] => []
  | .write bytes :: past => bytes ++ written past
  | .answer _ _ :: past | .response _ :: past => written past

/-- The readings, each with everything that was written before it. -/
def heard (sent : List UInt8) : List SerialAction → List (List UInt8 × List UInt8)
  | [] => []
  | .write bytes :: past => heard (sent ++ bytes) past
  | .answer _ _ :: past => heard sent past
  | .response bytes :: past => (sent, bytes) :: heard sent past

theorem own_append (past out : List SerialAction) : own (past ++ out) = own past ++ own out :=
  List.filter_append _ _

/-- The answers are not written. -/
theorem written_own (past : List SerialAction) : written (own past) = written past := by
  fun_induction written past with
  | case1 => rfl
  | case2 bytes past ih => exact congrArg (bytes ++ ·) ih
  | case3 line answer past ih => exact ih
  | case4 bytes past ih => exact ih

/-- Nor are they read. -/
theorem heard_own (sent : List UInt8) (past : List SerialAction) :
    heard sent (own past) = heard sent past := by
  fun_induction heard sent past with
  | case1 => rfl
  | case2 sent bytes past ih => exact ih
  | case3 sent line answer past ih => exact ih
  | case4 sent bytes past ih => exact congrArg ((sent, bytes) :: ·) ih

end SerialLine

open SerialLine (own own_append written heard written_own heard_own)

namespace Dialogue

variable {α : Type}

/-- The actions are those of a path through the tree of the dialogue to the value. -/
def Replays : Dialogue α → List SerialAction → α → Prop
  | .done a, past, b => past = [] ∧ a = b
  | .fail _, _, _ => False
  | .write bytes next, past, b => ∃ rest, past = .write bytes :: rest ∧ Replays next rest b
  | .awaitByte next, past, b => Replays next past b
  | .discard next, past, b => Replays next past b
  | .readUntil r terminator length next, past, b => ∃ u rest, terminator ∉ u ∧
      u.length ≤ length - r.length ∧ past = .response (r ++ u) :: rest ∧
        Replays (next (r ++ u)) rest b

/-- Calls one behind the other. -/
def inOrder {κ : Type} (program : κ → Dialogue Unit) : List κ → Dialogue Unit
  | [] => pure ()
  | c :: calls => program c >>= fun _ ↦ inOrder program calls

end Dialogue

open Dialogue (Replays inOrder converse reading_line)

/-! ### What is done is a path -/

section Paths

variable {κ : Type} (newline : UInt8) (answers : List UInt8 → List UInt8 → Bool)
variable (program : κ → Dialogue Unit)

/-- The calls that the events ask for. -/
def requested (events : List (SerialEvent κ)) : List κ :=
  events.filterMap fun
    | .call c => some c
    | _ => none

/-- What is still to come: the rest of the running call, and later calls. -/
def remaining (s : SerialLine) (later : List κ) : Dialogue Unit :=
  match s.running with
  | none => inOrder program later
  | some d => d >>= fun _ ↦ inOrder program later

/-- From the one state to the other the calls have gone the given part of a path. -/
def Onward (s s' : SerialLine) (out : List SerialAction) (calls : List κ) : Prop :=
  ∀ later rest, Replays (remaining program s' later) rest () →
    Replays (remaining program s (calls ++ later)) (own out ++ rest) ()

variable {newline answers program} {s s' : SerialLine}

theorem Onward.of_eq {out : List SerialAction} (hout : own out = [])
    (h : s'.running = s.running) : Onward program s s' out [] := fun later rest hrest ↦ by
  rw [remaining, h] at hrest
  rw [hout]
  exact hrest

theorem Onward.trans {s'' : SerialLine} {out out' : List SerialAction} {calls calls' : List κ}
    (h : Onward program s s' out calls) (h' : Onward program s' s'' out' calls') :
    Onward program s s'' (out ++ out') (calls ++ calls') := fun later rest hrest ↦ by
  rw [own_append, List.append_assoc, List.append_assoc]
  exact h _ _ (h' later rest hrest)

/-- If the running call goes on as `d'`, then what it does first is the beginning of the path. -/
theorem Onward.of_replays {d d' : Dialogue Unit} {out : List SerialAction}
    (hs : s.running = some d) (hs' : s'.running = some d')
    (h : ∀ later rest, Replays (d' >>= fun _ ↦ inOrder program later) rest () →
      Replays (d >>= fun _ ↦ inOrder program later) (own out ++ rest) ()) :
    Onward program s s' out [] := fun later rest hrest ↦ by
  rw [remaining, hs'] at hrest
  rw [remaining, hs]
  exact h later rest hrest

/-- A reading ends with what it has read. -/
theorem Onward.of_response {r : List UInt8} {terminator : UInt8} {length : ℕ}
    {next : List UInt8 → Dialogue Unit}
    (hs : s.running = some (.readUntil r terminator length next))
    (hs' : s'.running = some (next r)) : Onward program s s' [.response r] [] :=
  .of_replays hs hs' fun later rest hrest ↦
    ⟨[], rest, List.not_mem_nil, Nat.zero_le _, by rw [List.append_nil]; rfl,
      by rwa [List.append_nil]⟩

/-- **The running call goes on along a path.** -/
theorem Onward.of_proceed {d : Dialogue Unit} {out : List SerialAction} (hs : s.running = some d)
    (h : s.proceed d = .ok (s', out)) : Onward program s s' out [] := by
  rcases d with ⟨⟨⟩⟩ | e | ⟨bytes, next⟩ | next | next | ⟨r, terminator, length, next⟩
  · obtain ⟨rfl, rfl⟩ := Prod.mk.inj (Except.ok.inj h)
    intro later rest hrest
    rw [remaining, hs]
    exact hrest
  · exact absurd h (by simp [SerialLine.proceed])
  · obtain ⟨rfl, rfl⟩ := Prod.mk.inj (Except.ok.inj h)
    exact .of_replays hs rfl fun later rest hrest ↦ ⟨rest, rfl, hrest⟩
  · obtain ⟨rfl, rfl⟩ := Prod.mk.inj (Except.ok.inj h)
    split_ifs with hrx
    · exact .of_eq rfl rfl
    · exact .of_replays hs rfl fun later rest hrest ↦ hrest
  · rw [SerialLine.proceed] at h
    rcases hrx : s.rx with _ | ⟨b, rx⟩ <;> rw [hrx] at h <;>
      obtain ⟨rfl, rfl⟩ := Prod.mk.inj (Except.ok.inj h)
    · exact .of_replays hs rfl fun later rest hrest ↦ hrest
    · exact .of_eq rfl rfl
  · -- the response so far is a response, or the next byte belongs to it
    rw [SerialLine.proceed] at h
    split_ifs at h with hfull
    · obtain ⟨rfl, rfl⟩ := Prod.mk.inj (Except.ok.inj h)
      exact .of_response hs rfl
    rcases hrx : s.rx with _ | ⟨b, rx⟩ <;> rw [hrx] at h
    · obtain ⟨rfl, rfl⟩ := Prod.mk.inj (Except.ok.inj h)
      exact .of_eq rfl rfl
    dsimp only at h
    split_ifs at h with hb <;> obtain ⟨rfl, rfl⟩ := Prod.mk.inj (Except.ok.inj h)
    · exact .of_response hs rfl
    · refine .of_replays hs rfl fun later rest hrest ↦ ?_
      obtain ⟨u, rest', hu, hlength, hrest, hnext⟩ := hrest
      rw [List.append_assoc] at hrest hnext
      rw [List.length_append, List.length_singleton] at hlength
      refine ⟨b :: u, rest', ?_, ?_, hrest, hnext⟩
      · exact List.not_mem_cons_of_ne_of_not_mem (Ne.symm hb) hu
      · rw [List.length_cons]
        omega

/-- A reading that is given up has read a response. -/
theorem Onward.of_giveUp {d : Dialogue Unit} (hs : s.running = some d) :
    Onward program s (s.giveUp d).1 (s.giveUp d).2 [] := by
  rcases d with _ | _ | _ | _ | _ | ⟨r, terminator, length, next⟩
  iterate 5 exact .of_eq rfl rfl
  rw [SerialLine.giveUp]
  split_ifs with h
  · exact .of_response hs rfl
  · exact .of_eq rfl rfl

/-- A call that is made is the next one. -/
theorem Onward.of_call (c : κ) (hs : s.running = none) :
    Onward program s { s with running := some (program c) } [] [c] := fun later rest hrest ↦ by
  rw [remaining, hs]
  exact hrest

/-- **One event.** -/
theorem Onward.of_step {event : SerialEvent κ} {out : List SerialAction}
    (h : SerialLine.step newline answers program s event = .ok (s', out)) :
    ∃ calls, calls.Sublist (requested [event]) ∧ Onward program s s' out calls := by
  cases event with
  | call c =>
    rcases hs : s.running with _ | d <;> simp only [SerialLine.step, hs] at h <;>
      obtain ⟨rfl, rfl⟩ := Prod.mk.inj (Except.ok.inj h)
    · exact ⟨[c], List.Sublist.refl _, .of_call c hs⟩
    · exact ⟨[], List.nil_sublist _, .of_eq rfl rfl⟩
  | proceed =>
    refine ⟨[], List.nil_sublist _, ?_⟩
    rcases hs : s.running with _ | d <;> simp only [SerialLine.step, hs] at h
    · obtain ⟨rfl, rfl⟩ := Prod.mk.inj (Except.ok.inj h)
      exact .of_eq rfl rfl
    · exact .of_proceed hs h
  | giveUp =>
    refine ⟨[], List.nil_sublist _, ?_⟩
    rcases hs : s.running with _ | d <;> simp only [SerialLine.step, hs] at h <;>
      obtain ⟨rfl, rfl⟩ := Prod.mk.inj (Except.ok.inj h)
    · exact .of_eq rfl rfl
    · exact .of_giveUp hs
  | take answer =>
    refine ⟨[], List.nil_sublist _, ?_⟩
    obtain ⟨rfl, rfl⟩ := Prod.mk.inj (Except.ok.inj h)
    split
    · exact .of_eq rfl rfl
    · split_ifs <;> exact .of_eq rfl rfl
  | arrive =>
    refine ⟨[], List.nil_sublist _, ?_⟩
    obtain ⟨rfl, rfl⟩ := Prod.mk.inj (Except.ok.inj h)
    rw [SerialLine.arrive]
    split <;> exact .of_eq rfl rfl

theorem requested_cons (event : SerialEvent κ) (events : List (SerialEvent κ)) :
    requested (event :: events) = requested [event] ++ requested events := by
  cases event <;> rfl

/-- **What is done is a path.** -/
theorem Onward.of_run {events : List (SerialEvent κ)} {out : List SerialAction}
    (h : Machine.runFrom (SerialLine.step newline answers program) s events = .ok (s', out)) :
    ∃ calls, calls.Sublist (requested events) ∧ Onward program s s' out calls := by
  induction events generalizing s out with
  | nil =>
    obtain ⟨rfl, rfl⟩ := Prod.mk.inj (Except.ok.inj h)
    exact ⟨[], List.nil_sublist _, .of_eq rfl rfl⟩
  | cons event events ih =>
    obtain ⟨s₁, out₁, out₂, hstep, hrun, rfl⟩ := Machine.runFrom_cons_eq_ok.1 h
    obtain ⟨calls₁, hsub₁, h₁⟩ := Onward.of_step hstep
    obtain ⟨calls₂, hsub₂, h₂⟩ := ih hrun
    rw [requested_cons]
    exact ⟨calls₁ ++ calls₂, hsub₁.append hsub₂, h₁.trans h₂⟩

/-- Calls that have ended have gone whole paths. -/
theorem Onward.replays {past : List SerialAction} {calls : List κ}
    (h : Onward program {} s past calls) (hs : s.running = none) :
    Replays (inOrder program calls) (own past) () := by
  have hend : Replays (remaining program s []) [] () := by
    rw [remaining, hs]
    exact ⟨rfl, rfl⟩
  have hreplays := h [] [] hend
  rwa [List.append_nil, List.append_nil] at hreplays

end Paths

namespace LineProtocol

variable {α : Type} {p : LineProtocol}

/-! ### A path against a peer -/

/-- No part of an answer is read yet. -/
def Mode.Unread : Mode → Prop
  | .reading _ r => r = []
  | _ => True

/-- A query is written whose answer is not read. -/
def Mode.Owes : Mode → Prop
  | .asked _ | .reading _ _ => True
  | _ => False

theorem Writes.unread {m m' : Mode} {bytes : List UInt8} (h : p.Writes m bytes m') : m'.Unread := by
  cases h <;> exact trivial

/-- A query is not empty. -/
theorem Writes.ne_nil {m m' : Mode} {bytes : List UInt8} (h : p.Writes m bytes m')
    (howes : m'.Owes) : bytes ≠ [] := by
  cases h
  case ask => simp
  all_goals exact howes.elim

theorem Awaits.unread {m m' : Mode} (h : Awaits m m') : m'.Unread := by
  cases h
  · exact trivial
  · exact rfl

theorem Awaits.owes_iff {m m' : Mode} (h : Awaits m m') : m'.Owes ↔ m.Owes := by
  cases h <;> exact Iff.rfl

/-- **A path is a run against a peer** that gives the answers that were read. -/
theorem converse_of_replays {peer : Dialogue.Peer} {a : α} :
    ∀ {d : Dialogue α} {m : Mode} {sent : List UInt8} {past : List SerialAction},
      p.Obeys d m → m.Unread → Replays d past a →
      (∀ e ∈ heard sent past, peer e.1 = e.2 ++ [p.newline]) →
      converse peer d sent = (.ok a, sent ++ written past)
  | .done _, _, sent, _, _, _, ⟨hpast, ha⟩, _ => by
    subst hpast ha
    rw [written, List.append_nil]
    rfl
  | .write bytes next, _, sent, _, ⟨m', hwrites, hnext⟩, _, ⟨rest, hpast, hreplays⟩, hpeer => by
    subst hpast
    have hconverse := converse_of_replays hnext hwrites.unread hreplays hpeer
    rw [List.append_assoc] at hconverse
    exact hconverse
  | .awaitByte next, _, _, _, ⟨m', hawaits, hnext⟩, _, hreplays, hpeer =>
    converse_of_replays (d := next) hnext hawaits.unread hreplays hpeer
  | .discard next, _, _, _, ⟨_, hnext⟩, _, hreplays, hpeer =>
    converse_of_replays (d := next) hnext trivial hreplays hpeer
  | .readUntil r terminator length next, _, sent, _, ⟨⟨q, hm⟩, ht, _, hnext⟩, hunread,
      ⟨u, rest, hu, hlength, hpast, hreplays⟩, hpeer => by
    subst hm ht hpast
    obtain rfl : r = [] := hunread
    have hanswer : peer sent = u ++ [p.newline] := hpeer _ List.mem_cons_self
    have hconverse := converse_of_replays (hnext _) trivial hreplays fun e he ↦
      hpeer e (List.mem_cons_of_mem _ he)
    rw [converse, hanswer, reading_line hu hlength]
    exact hconverse

/-- **Each reading comes behind a query of its own**: more was written before it than before the
reading that precedes it. -/
theorem pairwise_heard {a : α} :
    ∀ {d : Dialogue α} {m : Mode} (sent : List UInt8) {past : List SerialAction},
      p.Obeys d m → Replays d past a →
      (heard sent past).Pairwise (fun e e' ↦ e.1.length < e'.1.length) ∧
        ∀ e ∈ heard sent past, sent.length ≤ e.1.length ∧ (¬ m.Owes → sent.length < e.1.length)
  | .done _, _, _, _, _, ⟨hpast, _⟩ => by
    subst hpast
    exact ⟨.nil, fun e he ↦ absurd he List.not_mem_nil⟩
  | .write bytes next, m, sent, _, ⟨m', hwrites, hnext⟩, ⟨rest, hpast, hreplays⟩ => by
    subst hpast
    obtain ⟨hpairwise, hlength⟩ := pairwise_heard (sent ++ bytes) hnext hreplays
    refine ⟨hpairwise, fun e he ↦ ?_⟩
    obtain ⟨hle, hlt⟩ := hlength e he
    rw [List.length_append] at hle hlt
    refine ⟨by omega, fun _ ↦ ?_⟩
    by_cases howes : m'.Owes
    · have hpos := List.length_pos_iff.2 (hwrites.ne_nil howes)
      omega
    · have hlt := hlt howes
      omega
  | .awaitByte next, _, sent, _, ⟨m', hawaits, hnext⟩, hreplays => by
    obtain ⟨hpairwise, hlength⟩ := pairwise_heard (d := next) sent hnext hreplays
    refine ⟨hpairwise, fun e he ↦ ?_⟩
    rw [← hawaits.owes_iff]
    exact hlength e he
  | .discard next, _, sent, _, ⟨hm, hnext⟩, hreplays => by
    obtain ⟨hpairwise, hlength⟩ := pairwise_heard (d := next) sent hnext hreplays
    exact ⟨hpairwise, fun e he ↦ ⟨(hlength e he).1, fun _ ↦ (hlength e he).2 id⟩⟩
  | .readUntil r _ _ next, _, sent, _, ⟨⟨q, hm⟩, _, _, hnext⟩,
      ⟨u, rest, _, _, hpast, hreplays⟩ => by
    subst hm hpast
    obtain ⟨hpairwise, hlength⟩ := pairwise_heard sent (hnext _) hreplays
    refine ⟨List.pairwise_cons.2 ⟨fun e he ↦ (hlength e he).2 id, hpairwise⟩, fun e he ↦ ?_⟩
    refine ⟨?_, fun howes ↦ absurd trivial howes⟩
    obtain rfl | he := List.mem_cons.1 he
    · exact Nat.le_refl _
    · exact (hlength e he).1

/-- Readings behind different writings are answers of one peer. -/
theorem exists_peer (newline : UInt8) {readings : List (List UInt8 × List UInt8)}
    (h : readings.Pairwise (fun e e' ↦ e.1.length < e'.1.length)) :
    ∃ peer : Dialogue.Peer, ∀ e ∈ readings, peer e.1 = e.2 ++ [newline] := by
  induction readings with
  | nil => exact ⟨fun _ ↦ [], fun e he ↦ absurd he List.not_mem_nil⟩
  | cons e readings ih =>
    obtain ⟨hlt, hrest⟩ := List.pairwise_cons.1 h
    obtain ⟨peer, hpeer⟩ := ih hrest
    refine ⟨Function.update peer e.1 (e.2 ++ [newline]), fun e' he' ↦ ?_⟩
    obtain rfl | he' := List.mem_cons.1 he'
    · exact Function.update_self ..
    · have hne : e'.1 ≠ e.1 := fun heq ↦ Nat.ne_of_lt (hlt e' he') (congrArg List.length heq.symm)
      rw [Function.update_of_ne hne, hpeer e' he']

variable {κ : Type} {program : κ → Dialogue Unit}

theorem Obeys.inOrder {calls : List κ} (hprogram : ∀ c ∈ calls, p.Obeys (program c) .quiet) :
    p.Obeys (inOrder program calls) .quiet := by
  induction calls with
  | nil => exact rfl
  | cons c calls ih =>
    obtain ⟨hc, hcalls⟩ := List.forall_mem_cons.1 hprogram
    exact hc.bind p fun _ ↦ ih hcalls

/-- **A whole path of calls is a run against a peer** that gives the answers that were read. -/
theorem exists_converse_of_onward {calls : List κ}
    (hprogram : ∀ c ∈ calls, p.Obeys (program c) .quiet) {s : SerialLine}
    {past : List SerialAction} (honward : Onward program {} s past calls)
    (hs : s.running = none) :
    ∃ peer, converse peer (inOrder program calls) [] = (.ok (), written past) ∧
      ∀ e ∈ heard [] past, peer e.1 = e.2 ++ [p.newline] := by
  have hreplays := honward.replays hs
  have hobeys := Obeys.inOrder hprogram
  obtain ⟨peer, hpeer⟩ := exists_peer p.newline (pairwise_heard [] hobeys hreplays).1
  have hconverse := converse_of_replays (p := p) hobeys trivial hreplays hpeer
  rw [written_own] at hconverse
  rw [heard_own] at hpeer
  exact ⟨peer, hconverse, hpeer⟩

/-- **An asynchronous run is a run against a peer**: the calls that were made have written what they
write, one behind the other, against a peer that gives the answers that were read. -/
theorem exists_converse (hprogram : ∀ c, p.Obeys (program c) .quiet)
    {events : List (SerialEvent κ)} {s : SerialLine} {past : List SerialAction}
    (hrun : Machine.runFrom (SerialLine.step p.newline p.answers program) {} events =
      .ok (s, past)) (hs : s.running = none) :
    ∃ calls peer, calls.Sublist (requested events) ∧
      converse peer (inOrder program calls) [] = (.ok (), written past) ∧
      ∀ e ∈ heard [] past, peer e.1 = e.2 ++ [p.newline] := by
  obtain ⟨calls, hsub, honward⟩ := Onward.of_run hrun
  obtain ⟨peer, hconverse, hpeer⟩ :=
    exists_converse_of_onward (p := p) (fun c _ ↦ hprogram c) honward hs
  exact ⟨calls, peer, hsub, hconverse, hpeer⟩

end LineProtocol

end EspBode
