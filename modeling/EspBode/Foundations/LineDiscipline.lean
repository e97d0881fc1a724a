import Mathlib.Data.List.Forall2
import EspBode.Foundations.Runs
import EspBode.Foundations.SerialLine

/-!
# Commands, queries and their answers

A peer that answers lines: a command by an empty line, a query by one line of a limited length, and
an empty line by nothing (`LineProtocol`). `Obeys d mode` says of a dialogue that it keeps to the
order that goes with such a peer: write a command, wait, discard what has come; or write a query
with an empty line behind it, wait, and read a line. It is a condition on the tree of the dialogue
alone, by recursion on it, and compositional (`Obeys.bind`, `Obeys.attempts`). A `Mode` records what
the dialogue owes and is owed, down to the part of a line that is written or read already.

A line on which only such dialogues run stays in step (`exists_run_inStep`): between calls nothing
is on its way or unread, and what was read are the answers to the queries, in order, each the answer
to what was written last before it.

The invariant is `InStep`: the line is in the mode from which the running call goes on. `LineIn`
says what that means for the three queues, mode by mode. Each event is one lemma, and they rest on
different parts of the protocol:

* the **peer** takes a line that is the one the mode says, or the empty line behind a query
  (`LineIn.take`), because at most these are written and not taken (`Untaken`);
* an **arriving byte** only moves between two queues whose concatenation is what counts
  (`LineIn.arrive`);
* the **running call** may go on because it obeys (`InStep.proceed`). Where it discards what has
  come, the answer to a command is a single newline, so nothing is left; where it reads, the answer
  fits the limit, so the reading ends at the newline and not before (`LineIn.not_full`);
* a reading **never gives up** (`LineIn.giveUp`): the end of the line is still to come.

What was read is kept apart from the queues, as `Read`: the queries that were answered are those
that were read, up to the ones that the mode still has.
-/

namespace EspBode

/-- How a peer answers lines. -/
structure LineProtocol where
  newline : UInt8
  answers : List UInt8 → List UInt8 → Bool
  isCommand : List UInt8 → Bool
  isQuery : List UInt8 → Bool
  /-- The longest answer, its newline included. -/
  maxLength : ℕ
  /-- Every line can be answered. -/
  exists_answers : ∀ w, ∃ a, answers w a
  answers_nil : ∀ {a}, answers [] a → a = []
  answers_command : ∀ {w a}, isCommand w → answers w a → a = [newline]
  answers_query : ∀ {q a}, isQuery q → answers q a →
    ∃ reply, newline ∉ reply ∧ reply.length < maxLength ∧ a = reply ++ [newline]
  not_isQuery_nil : isQuery [] = false
  not_isQuery : ∀ {w}, isCommand w → isQuery w = false

namespace LineProtocol

open SerialLine (lastWrite exchanges lastWrite_append answered_append exchanges_append)

/-- How far a dialogue has come with what it owes and is owed. -/
inductive Mode where
  | quiet
  /-- The beginning of a command line is written. -/
  | writing (w : List UInt8)
  /-- A command is written. -/
  | commanded
  /-- Its answer has begun to arrive. -/
  | answered
  /-- A query is written. -/
  | asked (q : List UInt8)
  /-- Its answer has begun to arrive, and a part of it is read. -/
  | reading (q r : List UInt8)

variable (p : LineProtocol)

/-- What may be written. -/
inductive Writes : Mode → List UInt8 → Mode → Prop
  | start {w : List UInt8} : p.newline ∉ w → Writes .quiet w (.writing w)
  | more {w v : List UInt8} : p.newline ∉ v → Writes (.writing w) v (.writing (w ++ v))
  | complete {w : List UInt8} : p.isCommand w → Writes (.writing w) [p.newline] .commanded
  | ask {q : List UInt8} : p.isQuery q → p.newline ∉ q →
    Writes .quiet (q ++ [p.newline, p.newline]) (.asked q)

/-- What an arriving byte means. -/
inductive Awaits : Mode → Mode → Prop
  | command : Awaits .commanded .answered
  | query (q : List UInt8) : Awaits (.asked q) (.reading q [])

/-- The dialogue keeps to the order, from a mode on until the line is quiet again. -/
def Obeys {α : Type} : Dialogue α → Mode → Prop
  | .done _, m => m = .quiet
  | .fail _, _ => False
  | .write bytes next, m => ∃ m', p.Writes m bytes m' ∧ Obeys next m'
  | .awaitByte next, m => ∃ m', Awaits m m' ∧ Obeys next m'
  | .discard next, m => m = .answered ∧ Obeys next .quiet
  | .readUntil r terminator length next, m =>
    (∃ q, m = .reading q r) ∧ terminator = p.newline ∧ p.maxLength ≤ length ∧
      ∀ r, Obeys (next r) .quiet

/-- One dialogue that keeps to the order, and then another. -/
theorem Obeys.bind {α β : Type} {f : α → Dialogue β} (hf : ∀ a, p.Obeys (f a) .quiet) :
    ∀ {d : Dialogue α} {m : Mode}, p.Obeys d m → p.Obeys (d >>= f) m
  | .done a, _, h => by
    obtain rfl := h
    exact hf a
  | .write _ _, _, ⟨m', hw, hnext⟩ => ⟨m', hw, Obeys.bind hf hnext⟩
  | .awaitByte _, _, ⟨m', hw, hnext⟩ => ⟨m', hw, Obeys.bind hf hnext⟩
  | .discard _, _, ⟨hm, hnext⟩ => ⟨hm, Obeys.bind hf hnext⟩
  | .readUntil _ _ _ _, _, ⟨hm, ht, hl, hnext⟩ => ⟨hm, ht, hl, fun r ↦ Obeys.bind hf (hnext r)⟩

/-- Attempts keep to the order if their body does. -/
theorem Obeys.attempts {σ : Type} {body : σ → Dialogue (Bool × σ)}
    (h : ∀ s, p.Obeys (body s) .quiet) (retries : ℕ) (s : σ) :
    p.Obeys (Dialogue.attempts body retries s) .quiet := by
  induction retries generalizing s with
  | zero =>
    refine Obeys.bind p (fun _ ↦ ?_) (h s)
    exact rfl
  | succ retries ih =>
    refine Obeys.bind p (fun a ↦ ?_) (h s)
    obtain ⟨_ | _, s'⟩ := a
    · exact ih s'
    · exact rfl

/-! ### The line in a mode -/

/-- What is written and not taken: an empty line may come first. -/
def Untaken (outgoing rest : List UInt8) : Prop :=
  outgoing = rest ∨ outgoing = p.newline :: rest

/-- A query line and its answer, and what was written for it and read. -/
def Fits (a e : List UInt8 × List UInt8) : Prop :=
  e.1 = a.1 ++ [p.newline, p.newline] ∧ a.2 = e.2 ++ [p.newline]

/-- The queries that were answered are those that were read, up to the given ones. -/
def Read (past : List SerialAction) (unread : List (List UInt8 × List UInt8)) : Prop :=
  ∃ read, SerialLine.answered p.isQuery past = read ++ unread ∧
    List.Forall₂ p.Fits read (exchanges [] past)

/-- The state of the line in a mode. -/
def LineIn (s : SerialLine) (past : List SerialAction) : Mode → Prop
  | .quiet => s.rx = [] ∧ s.inFlight = [] ∧ p.Untaken s.outgoing [] ∧ p.Read past []
  | .writing w =>
    s.rx = [] ∧ s.inFlight = [] ∧ p.newline ∉ w ∧ p.Untaken s.outgoing w ∧ p.Read past []
  | .commanded => p.Read past [] ∧
      ((s.rx = [] ∧ s.inFlight = [] ∧
        ∃ w, p.isCommand w ∧ p.newline ∉ w ∧ p.Untaken s.outgoing (w ++ [p.newline])) ∨
      (s.outgoing = [] ∧ s.rx ++ s.inFlight = [p.newline]))
  | .answered => p.Read past [] ∧ s.outgoing = [] ∧ s.inFlight = [] ∧
      (s.rx = [p.newline] ∨ s.rx = [])
  | .asked q => p.isQuery q ∧ p.newline ∉ q ∧ lastWrite [] past = q ++ [p.newline, p.newline] ∧
      ((s.rx = [] ∧ s.inFlight = [] ∧ p.Untaken s.outgoing (q ++ [p.newline, p.newline]) ∧
        p.Read past []) ∨
      (p.Untaken s.outgoing [] ∧ ∃ reply, p.newline ∉ reply ∧ reply.length < p.maxLength ∧
        s.rx ++ s.inFlight = reply ++ [p.newline] ∧ p.Read past [(q, reply ++ [p.newline])]))
  | .reading q r => lastWrite [] past = q ++ [p.newline, p.newline] ∧ p.Untaken s.outgoing [] ∧
      ∃ rest, p.newline ∉ r ++ rest ∧ (r ++ rest).length < p.maxLength ∧
        s.rx ++ s.inFlight = rest ++ [p.newline] ∧
        p.Read past [(q, r ++ rest ++ [p.newline])]

/-- The line is in step: it is in the mode from which the running call goes on. -/
def InStep (s : SerialLine) (past : List SerialAction) : Prop :=
  match s.running with
  | none => p.LineIn s past .quiet
  | some d => ∃ m, p.Obeys d m ∧ p.LineIn s past m

/-! ### What was read -/

variable {p}

theorem Read.of_nil {past : List SerialAction} {unread : List (List UInt8 × List UInt8)}
    (h : p.Read past unread) {out : List SerialAction}
    (hanswered : SerialLine.answered p.isQuery out = [])
    (hexchanges : ∀ last, exchanges last out = []) : p.Read (past ++ out) unread := by
  obtain ⟨read, hread, hfits⟩ := h
  refine ⟨read, ?_, ?_⟩
  · rw [answered_append, hanswered, List.append_nil, hread]
  · rw [exchanges_append, hexchanges, List.append_nil]
    exact hfits

/-- A query is answered. -/
theorem Read.query {past : List SerialAction} (h : p.Read past []) {q a : List UInt8}
    (hq : p.isQuery q) : p.Read (past ++ [.answer q a]) [(q, a)] := by
  obtain ⟨read, hread, hfits⟩ := h
  refine ⟨read, ?_, ?_⟩
  · rw [answered_append, hread, List.append_nil]
    simp [SerialLine.answered, hq]
  · rw [exchanges_append]
    exact (List.append_nil _).symm ▸ hfits

/-- Its answer is read. -/
theorem Read.response {past : List SerialAction} {q reply : List UInt8}
    (h : p.Read past [(q, reply ++ [p.newline])])
    (hlast : lastWrite [] past = q ++ [p.newline, p.newline]) :
    p.Read (past ++ [.response reply]) [] := by
  obtain ⟨read, hread, hfits⟩ := h
  refine ⟨read ++ [(q, reply ++ [p.newline])], ?_, ?_⟩
  · rw [answered_append, hread, List.append_nil]
    exact List.append_nil _
  · rw [exchanges_append, hlast]
    exact List.rel_append hfits (.cons ⟨rfl, rfl⟩ .nil)

/-- In each mode at most one answer is not read. -/
theorem LineIn.exists_read {s : SerialLine} {past : List SerialAction} {m : Mode}
    (h : p.LineIn s past m) : ∃ unread, unread.length ≤ 1 ∧ p.Read past unread := by
  cases m with
  | quiet => exact ⟨[], Nat.zero_le 1, h.2.2.2⟩
  | writing w => exact ⟨[], Nat.zero_le 1, h.2.2.2.2⟩
  | commanded => exact ⟨[], Nat.zero_le 1, h.1⟩
  | answered => exact ⟨[], Nat.zero_le 1, h.1⟩
  | asked q =>
    obtain ⟨-, -, -, ⟨-, -, -, hread⟩ | ⟨-, reply, -, -, -, hread⟩⟩ := h
    · exact ⟨[], Nat.zero_le 1, hread⟩
    · exact ⟨[(q, reply ++ [p.newline])], Nat.le_refl 1, hread⟩
  | reading q r =>
    obtain ⟨-, -, rest, -, -, -, hread⟩ := h
    exact ⟨[(q, r ++ rest ++ [p.newline])], Nat.le_refl 1, hread⟩

/-! ### The peer -/

/-- If a line is taken, it is the empty one or the first one behind it. -/
theorem Untaken.of_take {outgoing rest line rest' : List UInt8} (h : p.Untaken outgoing rest)
    (hline : p.newline ∉ line) (heq : outgoing = line ++ p.newline :: rest') :
    (line = [] ∧ rest' = rest) ∨ rest = line ++ p.newline :: rest' := by
  rcases h with rfl | rfl
  · exact .inr heq
  · rcases line with _ | ⟨b, line⟩
    · exact .inl ⟨rfl, (List.cons.inj heq).2.symm⟩
    · exact absurd ((List.cons.inj heq).1 ▸ List.mem_cons_self) hline

/-- An answer to something else than a query is not read. -/
theorem Read.other {past : List SerialAction} {unread : List (List UInt8 × List UInt8)}
    (h : p.Read past unread) {line a : List UInt8} (hline : p.isQuery line = false) :
    p.Read (past ++ [.answer line a]) unread :=
  h.of_nil (by simp [SerialLine.answered, hline]) fun _ ↦ rfl

/-- **Taking a line leaves the line in its mode.** -/
theorem LineIn.take {s : SerialLine} {past : List SerialAction} {m : Mode} (h : p.LineIn s past m)
    (answer : List UInt8) :
    p.LineIn (s.take p.newline p.answers answer).1
      (past ++ (s.take p.newline p.answers answer).2) m := by
  obtain hnone | ⟨line, rest, hout, hline, hanswer, htake⟩ :=
    s.take_cases p.newline p.answers answer
  · rw [hnone, List.append_nil]
    exact h
  rw [htake]
  -- the empty line, which may come first, is answered by nothing
  have hempty : line = [] → s.inFlight ++ answer = s.inFlight ∧ ∀ {unread},
      p.Read past unread → p.Read (past ++ [.answer line answer]) unread := by
    rintro rfl
    obtain rfl := p.answers_nil hanswer
    exact ⟨List.append_nil _, fun h ↦ h.other p.not_isQuery_nil⟩
  have hlast : lastWrite [] (past ++ [.answer line answer]) = lastWrite [] past := by
    rw [lastWrite_append]
    rfl
  cases m with
  | quiet =>
    obtain ⟨hrx, hin, huntaken, hread⟩ := h
    rcases huntaken.of_take hline hout with ⟨hnil, rfl⟩ | hcons
    · exact ⟨hrx, (hempty hnil).1.trans hin, .inl rfl, (hempty hnil).2 hread⟩
    · simp at hcons
  | writing w =>
    obtain ⟨hrx, hin, hw, huntaken, hread⟩ := h
    rcases huntaken.of_take hline hout with ⟨hnil, rfl⟩ | rfl
    · exact ⟨hrx, (hempty hnil).1.trans hin, hw, .inl rfl, (hempty hnil).2 hread⟩
    · simp at hw
  | commanded =>
    obtain ⟨hread, ⟨hrx, hin, w, hcommand, hw, huntaken⟩ | ⟨hnone, -⟩⟩ := h
    · rcases huntaken.of_take hline hout with ⟨hnil, rfl⟩ | heq
      · exact ⟨(hempty hnil).2 hread,
          .inl ⟨hrx, (hempty hnil).1.trans hin, w, hcommand, hw, .inl rfl⟩⟩
      · -- the command is answered
        obtain ⟨rfl, rfl⟩ := eq_of_append_cons_eq hw hline heq
        obtain rfl := p.answers_command hcommand hanswer
        exact ⟨hread.other (p.not_isQuery hcommand), .inr ⟨rfl, by rw [hrx, hin]; rfl⟩⟩
    · rw [hnone] at hout
      simp at hout
  | answered =>
    obtain ⟨-, hnone, -⟩ := h
    rw [hnone] at hout
    simp at hout
  | asked q =>
    obtain ⟨hquery, hq, hwritten, ⟨hrx, hin, huntaken, hread⟩ | ⟨huntaken, hreply⟩⟩ := h
    · rcases huntaken.of_take hline hout with ⟨hnil, rfl⟩ | heq
      · exact ⟨hquery, hq, hlast.trans hwritten,
          .inl ⟨hrx, (hempty hnil).1.trans hin, .inl rfl, (hempty hnil).2 hread⟩⟩
      · -- the query is answered
        obtain ⟨rfl, rfl⟩ := eq_of_append_cons_eq hq hline heq
        obtain ⟨reply, hreply, hlength, rfl⟩ := p.answers_query hquery hanswer
        exact ⟨hquery, hq, hlast.trans hwritten,
          .inr ⟨.inr rfl, reply, hreply, hlength, by rw [hrx, hin]; rfl, hread.query hquery⟩⟩
    · obtain ⟨reply, hnl, hlength, harrived, hread⟩ := hreply
      rcases huntaken.of_take hline hout with ⟨hnil, rfl⟩ | hcons
      · exact ⟨hquery, hq, hlast.trans hwritten, .inr ⟨.inl rfl, reply, hnl, hlength,
          by rw [(hempty hnil).1, harrived], (hempty hnil).2 hread⟩⟩
      · simp at hcons
  | reading q r =>
    obtain ⟨hwritten, huntaken, reply, hnl, hlength, harrived, hread⟩ := h
    rcases huntaken.of_take hline hout with ⟨hnil, rfl⟩ | hcons
    · exact ⟨hlast.trans hwritten, .inl rfl, reply, hnl, hlength,
        by rw [(hempty hnil).1, harrived], (hempty hnil).2 hread⟩
    · simp at hcons

/-- **So does the arrival of a byte.** -/
theorem LineIn.arrive {s : SerialLine} {past : List SerialAction} {m : Mode}
    (h : p.LineIn s past m) : p.LineIn s.arrive past m := by
  rw [SerialLine.arrive]
  rcases hin : s.inFlight with _ | ⟨b, rest⟩
  · exact h
  have hmoved : s.rx ++ [b] ++ rest = s.rx ++ s.inFlight := by
    rw [hin, List.append_assoc, List.singleton_append]
  cases m with
  | quiet => exact absurd (hin.symm.trans h.2.1) (List.cons_ne_nil _ _)
  | writing w => exact absurd (hin.symm.trans h.2.1) (List.cons_ne_nil _ _)
  | commanded =>
    obtain ⟨hread, ⟨-, hnone, -⟩ | ⟨hout, harrived⟩⟩ := h
    · exact absurd (hin.symm.trans hnone) (List.cons_ne_nil _ _)
    · exact ⟨hread, .inr ⟨hout, hmoved.trans harrived⟩⟩
  | answered => exact absurd (hin.symm.trans h.2.2.1) (List.cons_ne_nil _ _)
  | asked q =>
    obtain ⟨hquery, hq, hwritten, ⟨-, hnone, -⟩ |
      ⟨huntaken, reply, hnl, hlength, harrived, hread⟩⟩ := h
    · exact absurd (hin.symm.trans hnone) (List.cons_ne_nil _ _)
    · exact ⟨hquery, hq, hwritten,
        .inr ⟨huntaken, reply, hnl, hlength, hmoved.trans harrived, hread⟩⟩
  | reading q r =>
    obtain ⟨hwritten, huntaken, rest, hnl, hlength, harrived, hread⟩ := h
    exact ⟨hwritten, huntaken, rest, hnl, hlength, hmoved.trans harrived, hread⟩

/-! ### The running call -/

theorem Untaken.append {outgoing rest : List UInt8} (h : p.Untaken outgoing rest)
    (bytes : List UInt8) : p.Untaken (outgoing ++ bytes) (rest ++ bytes) :=
  h.imp (congrArg (· ++ bytes)) (congrArg (· ++ bytes))

/-- What is written is not read. -/
theorem Read.write {past : List SerialAction} {unread : List (List UInt8 × List UInt8)}
    (h : p.Read past unread) (bytes : List UInt8) : p.Read (past ++ [.write bytes]) unread :=
  h.of_nil rfl fun _ ↦ rfl

/-- A write brings the line into the mode behind it. -/
theorem LineIn.write {s : SerialLine} {past : List SerialAction} {m m' : Mode}
    {bytes : List UInt8} (h : p.LineIn s past m) (hwrites : p.Writes m bytes m')
    (next : Dialogue Unit) :
    p.LineIn { s with running := some next, outgoing := s.outgoing ++ bytes }
      (past ++ [.write bytes]) m' := by
  cases hwrites with
  | start hw =>
    obtain ⟨hrx, hin, huntaken, hread⟩ := h
    exact ⟨hrx, hin, hw, huntaken.append bytes, hread.write bytes⟩
  | more hv =>
    obtain ⟨hrx, hin, hw, huntaken, hread⟩ := h
    exact ⟨hrx, hin, fun hmem ↦ (List.mem_append.1 hmem).elim hw hv, huntaken.append bytes,
      hread.write bytes⟩
  | complete hcommand =>
    obtain ⟨hrx, hin, hw, huntaken, hread⟩ := h
    exact ⟨hread.write _, .inl ⟨hrx, hin, _, hcommand, hw, huntaken.append _⟩⟩
  | ask hquery hq =>
    obtain ⟨hrx, hin, huntaken, hread⟩ := h
    refine ⟨hquery, hq, ?_, .inl ⟨hrx, hin, huntaken.append _, hread.write _⟩⟩
    rw [lastWrite_append]
    rfl

/-- When a byte has come, the answer has begun. -/
theorem LineIn.awaited {s : SerialLine} {past : List SerialAction} {m m' : Mode}
    (h : p.LineIn s past m) (hawaits : Awaits m m') (hrx : s.rx ≠ []) (next : Dialogue Unit) :
    p.LineIn { s with running := some next } past m' := by
  cases hawaits with
  | command =>
    obtain ⟨hread, ⟨hnil, -⟩ | ⟨hout, harrived⟩⟩ := h
    · exact absurd hnil hrx
    · obtain ⟨hnil, -⟩ | ⟨hone, hin⟩ := List.append_eq_singleton_iff.1 harrived
      · exact absurd hnil hrx
      · exact ⟨hread, hout, hin, .inl hone⟩
  | query q =>
    obtain ⟨-, -, hwritten, ⟨hnil, -⟩ | ⟨huntaken, reply, hnl, hlength, harrived, hread⟩⟩ := h
    · exact absurd hnil hrx
    · exact ⟨hwritten, huntaken, reply, hnl, hlength, harrived, hread⟩

/-- A reading that is not at its end waits for the next byte. -/
theorem LineIn.not_full {s : SerialLine} {past : List SerialAction} {q r : List UInt8} {n : ℕ}
    (h : p.LineIn s past (.reading q r)) (hmax : p.maxLength ≤ n) : ¬ n ≤ r.length := by
  obtain ⟨-, -, rest, -, hlength, -⟩ := h
  rw [List.length_append] at hlength
  omega

theorem LineIn.proceed_wait {s : SerialLine} {past : List SerialAction} {q r : List UInt8} {n : ℕ}
    (h : p.LineIn s past (.reading q r)) (hmax : p.maxLength ≤ n) (hrx : s.rx = [])
    {next : List UInt8 → Dialogue Unit} :
    s.proceed (.readUntil r p.newline n next) = .ok (s, []) := by
  rw [SerialLine.proceed, if_neg (h.not_full hmax), hrx]

/-- **A byte of an answer is read**: it ends the line, and what was read is the answer, or it is a
part of the answer. -/
theorem LineIn.proceed_read {s : SerialLine} {past : List SerialAction} {q r rx : List UInt8}
    {b : UInt8} {n : ℕ} (h : p.LineIn s past (.reading q r)) (hmax : p.maxLength ≤ n)
    (hrx : s.rx = b :: rx) (next : List UInt8 → Dialogue Unit) :
    (s.proceed (.readUntil r p.newline n next) =
        .ok ({ s with running := some (next r), rx }, [.response r]) ∧
      p.LineIn { s with running := some (next r), rx } (past ++ [.response r]) .quiet) ∨
    (s.proceed (.readUntil r p.newline n next) =
        .ok ({ s with running := some (.readUntil (r ++ [b]) p.newline n next), rx }, []) ∧
      p.LineIn { s with running := some (.readUntil (r ++ [b]) p.newline n next), rx } past
        (.reading q (r ++ [b]))) := by
  have hlt := h.not_full hmax
  obtain ⟨hwritten, huntaken, rest, hnl, hlength, harrived, hread⟩ := h
  rw [hrx, List.cons_append] at harrived
  rcases rest with _ | ⟨c, rest⟩
  · obtain ⟨rfl, hrest⟩ := List.cons.inj harrived
    obtain ⟨hnil, hin⟩ := List.append_eq_nil_iff.1 hrest
    rw [List.append_nil] at hread
    refine .inl ⟨?_, hnil, hin, huntaken, hread.response hwritten⟩
    simp only [SerialLine.proceed, if_neg hlt, hrx, if_true]
  · obtain ⟨rfl, hrest⟩ := List.cons.inj harrived
    have hne : b ≠ p.newline := by
      rintro rfl
      simp at hnl
    rw [List.append_cons] at hnl hlength
    rw [List.append_cons r] at hread
    refine .inr ⟨?_, hwritten, huntaken, rest, hnl, hlength, hrest, hread⟩
    simp only [SerialLine.proceed, if_neg hlt, hrx, if_neg hne]

theorem inStep_none {s : SerialLine} {past : List SerialAction} (hs : s.running = none) :
    p.InStep s past ↔ p.LineIn s past .quiet := by
  rw [InStep, hs]

theorem inStep_some {s : SerialLine} {past : List SerialAction} {d : Dialogue Unit}
    (hs : s.running = some d) : p.InStep s past ↔ ∃ m, p.Obeys d m ∧ p.LineIn s past m := by
  rw [InStep, hs]

/-- At most one answer is not read, and none between calls. -/
theorem InStep.exists_read {s : SerialLine} {past : List SerialAction} (h : p.InStep s past) :
    ∃ unread, unread.length ≤ 1 ∧ (s.running = none → unread = []) ∧ p.Read past unread := by
  rcases hs : s.running with _ | d
  · exact ⟨[], Nat.zero_le 1, fun _ ↦ rfl, ((inStep_none hs).1 h).2.2.2⟩
  · obtain ⟨m, -, hm⟩ := (inStep_some hs).1 h
    obtain ⟨unread, hone, hread⟩ := hm.exists_read
    exact ⟨unread, hone, fun hnone ↦ absurd hnone (Option.some_ne_none d), hread⟩

/-- **The running call goes on in step.** -/
theorem InStep.proceed {s : SerialLine} {past : List SerialAction} {d : Dialogue Unit}
    (hd : s.running = some d) {m : Mode} (hobeys : p.Obeys d m) (h : p.LineIn s past m) :
    ∃ s' out, s.proceed d = .ok (s', out) ∧ p.InStep s' (past ++ out) := by
  have hsame : p.InStep s (past ++ []) := by
    rw [List.append_nil]
    exact (inStep_some hd).2 ⟨m, hobeys, h⟩
  rcases d with ⟨⟨⟩⟩ | _ | ⟨bytes, next⟩ | next | next | ⟨r, terminator, length, next⟩
  · -- the call is over
    obtain rfl : m = .quiet := hobeys
    refine ⟨_, [], rfl, ?_⟩
    rw [List.append_nil]
    exact h
  · exact hobeys.elim
  · obtain ⟨m', hwrites, hnext⟩ := hobeys
    exact ⟨_, _, rfl, m', hnext, h.write hwrites next⟩
  · obtain ⟨m', hawaits, hnext⟩ := hobeys
    refine ⟨_, [], rfl, ?_⟩
    split_ifs with hrx
    · exact hsame
    · rw [List.append_nil]
      exact ⟨m', hnext, h.awaited hawaits hrx next⟩
  · obtain ⟨rfl, hnext⟩ := hobeys
    obtain ⟨hread, hout, hin, hrx⟩ := h
    rcases hs : s.rx with _ | ⟨b, rx⟩
    · refine ⟨_, [], by rw [SerialLine.proceed, hs], ?_⟩
      rw [List.append_nil]
      exact ⟨.quiet, hnext, rfl, hin, .inl hout, hread⟩
    · -- the one byte of the answer
      refine ⟨_, [], by rw [SerialLine.proceed, hs], ?_⟩
      obtain ⟨-, rfl⟩ : b = p.newline ∧ rx = [] := by
        rw [hs] at hrx
        simpa using hrx
      rw [List.append_nil]
      refine (inStep_some (s := { s with rx := [] }) hd).2 ⟨.answered, ⟨rfl, hnext⟩, ?_⟩
      exact ⟨hread, hout, hin, .inr rfl⟩
  · obtain ⟨⟨q, rfl⟩, rfl, hmax, hnext⟩ := hobeys
    rcases hs : s.rx with _ | ⟨b, rx⟩
    · exact ⟨s, [], h.proceed_wait hmax hs, hsame⟩
    obtain ⟨hproceed, hline⟩ | ⟨hproceed, hline⟩ := h.proceed_read hmax hs next
    · exact ⟨_, _, hproceed, .quiet, hnext r, hline⟩
    · refine ⟨_, _, hproceed, .reading q (r ++ [b]), ⟨⟨q, rfl⟩, rfl, hmax, hnext⟩, ?_⟩
      rw [List.append_nil]
      exact hline

/-- A reading never gives up: the end of the line is still to come. -/
theorem LineIn.giveUp {s : SerialLine} {past : List SerialAction} {d : Dialogue Unit} {m : Mode}
    (hobeys : p.Obeys d m) (h : p.LineIn s past m) : s.giveUp d = (s, []) := by
  rcases d with _ | _ | _ | _ | _ | ⟨r, terminator, length, next⟩ <;> try rfl
  obtain ⟨⟨q, rfl⟩, -⟩ := hobeys
  obtain ⟨-, -, rest, -, -, harrived, -⟩ := h
  refine if_neg fun hnone ↦ ?_
  rw [hnone.1, hnone.2, List.append_nil] at harrived
  simp at harrived

/-! ### Runs -/

variable {κ : Type} {program : κ → Dialogue Unit}

/-- **Every step keeps the line in step.** -/
theorem InStep.step (hprogram : ∀ c, p.Obeys (program c) .quiet) {s : SerialLine}
    {past : List SerialAction} (event : SerialEvent κ) (h : p.InStep s past) :
    ∃ s' out, SerialLine.step p.newline p.answers program s event = .ok (s', out) ∧
      p.InStep s' (past ++ out) := by
  have hsame : p.InStep s (past ++ []) := by rwa [List.append_nil]
  have hkeeps : ∀ {s' : SerialLine} {out : List SerialAction}, s'.running = s.running →
      (∀ m, p.LineIn s past m → p.LineIn s' (past ++ out) m) → p.InStep s' (past ++ out) := by
    intro s' out hrunning hline
    rcases hs : s.running with _ | d
    · exact (inStep_none (hrunning.trans hs)).2 (hline _ ((inStep_none hs).1 h))
    · obtain ⟨m, hobeys, hm⟩ := (inStep_some hs).1 h
      exact (inStep_some (hrunning.trans hs)).2 ⟨m, hobeys, hline m hm⟩
  cases event with
  | call c =>
    rcases hs : s.running with _ | d
    · refine ⟨{ s with running := some (program c) }, [], by simp only [SerialLine.step, hs],
        .quiet, hprogram c, ?_⟩
      rw [List.append_nil]
      exact (inStep_none hs).1 h
    · exact ⟨s, [], by simp only [SerialLine.step, hs], hsame⟩
  | proceed =>
    rcases hs : s.running with _ | d
    · exact ⟨s, [], by simp only [SerialLine.step, hs], hsame⟩
    · obtain ⟨m, hobeys, hm⟩ := (inStep_some hs).1 h
      simp only [SerialLine.step, hs]
      exact InStep.proceed hs hobeys hm
  | giveUp =>
    rcases hs : s.running with _ | d
    · exact ⟨s, [], by simp only [SerialLine.step, hs], hsame⟩
    · obtain ⟨m, hobeys, hm⟩ := (inStep_some hs).1 h
      exact ⟨s, [], by simp only [SerialLine.step, hs, hm.giveUp hobeys], hsame⟩
  | take answer =>
    have hrunning : (s.take p.newline p.answers answer).1.running = s.running := by
      obtain hnone | ⟨line, rest, -, -, -, htake⟩ := s.take_cases p.newline p.answers answer
      · rw [hnone]
      · rw [htake]
    exact ⟨_, _, rfl, hkeeps hrunning fun m hm ↦ hm.take answer⟩
  | arrive =>
    refine ⟨s.arrive, [], rfl, hkeeps ?_ fun m hm ↦ ?_⟩
    · rw [SerialLine.arrive]
      rcases s.inFlight with _ | _ <;> rfl
    · rw [List.append_nil]
      exact hm.arrive

/-- What is not a call keeps the line in step whatever the calls are. -/
theorem InStep.step_of_not_call {s : SerialLine} {past : List SerialAction} {event : SerialEvent κ}
    (hevent : ∀ c, event ≠ .call c) (h : p.InStep s past) :
    ∃ s' out, SerialLine.step p.newline p.answers program s event = .ok (s', out) ∧
      p.InStep s' (past ++ out) := by
  have hstep := @InStep.step p Empty (fun c ↦ c.elim) (fun c ↦ c.elim) s past
  cases event with
  | call c => exact absurd rfl (hevent c)
  | proceed =>
    have hproceed := hstep .proceed h
    rcases hs : s.running with _ | d <;> simp only [SerialLine.step, hs] at hproceed ⊢ <;>
      exact hproceed
  | giveUp =>
    have hgiveUp := hstep .giveUp h
    rcases hs : s.running with _ | d <;> simp only [SerialLine.step, hs] at hgiveUp ⊢ <;>
      exact hgiveUp
  | take answer => exact hstep (.take answer) h
  | arrive => exact hstep .arrive h

/-- **Every run is in step**, and never stuck. -/
theorem exists_run_inStep (hprogram : ∀ c, p.Obeys (program c) .quiet)
    (events : List (SerialEvent κ)) :
    ∃ s past, Machine.runFrom (SerialLine.step p.newline p.answers program) {} events =
      .ok (s, past) ∧ p.InStep s past :=
  Machine.exists_runFrom (fun _ _ event h ↦ h.step hprogram event) []
    ⟨rfl, rfl, .inl rfl, [], rfl, .nil⟩ events

end LineProtocol

end EspBode
