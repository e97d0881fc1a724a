import EspBode.Foundations.Dialogue
import EspBode.Foundations.Machine

/-!
# An asynchronous serial line

Dialogues that run on a serial line whose peer works at its own pace. What is written waits until
the peer takes it, line by line; an answer travels byte by byte, and a byte can be read once it has
arrived. So there are three queues (`outgoing`, `inFlight`, `rx`) and the dialogue that is running.

The events of `step` are the choices of a scheduler: the next call, the next thing the running call
does, the peer taking a line, the arrival of a byte, and the end of a reading for which nothing
comes. An event that is not possible changes nothing, so that every list of events is a run, and a
result about all lists of events is one about all interleavings.

Two decisions about time are in the definition:

* **waiting is not an event of its own.** A dialogue that waits for a byte goes on when there is
  one; until then its step changes nothing. Whether that comes to an end depends on the events;
* **a reading gives up only when nothing is on its way**: the bytes of an answer follow each other
  faster than the timeout. A peer that pauses in the middle of a line is not covered.

The peer is a predicate on lines and answers, so it may answer differently each time. It takes whole
lines only: `take_cases` says what taking a line does, and is all that later modules use of it.

What can be observed of a run are the writes, the answers of the peer and the readings, in order.
`answered` and `exchanges` are the two sides of it that are compared: what the peer has answered,
and what was read, each reading with what was written last before it.
-/

namespace EspBode

/-- A serial line, and the call that runs on it. -/
structure SerialLine where
  running : Option (Dialogue Unit) := none
  /-- Written, and not yet taken by the peer. -/
  outgoing : List UInt8 := []
  /-- Sent by the peer, and not yet arrived. -/
  inFlight : List UInt8 := []
  /-- Arrived, and not yet read. -/
  rx : List UInt8 := []

/-- A choice of the scheduler. -/
inductive SerialEvent (κ : Type) where
  /-- A call is made, if none is running. -/
  | call (c : κ)
  /-- The running call goes on. -/
  | proceed
  /-- A reading for which nothing comes ends. -/
  | giveUp
  /-- The peer takes a line and answers. -/
  | take (answer : List UInt8)
  /-- A byte arrives. -/
  | arrive

/-- What can be observed of a step. -/
inductive SerialAction where
  | write (bytes : List UInt8)
  /-- The peer has taken a line and will answer it. -/
  | answer (line answer : List UInt8)
  /-- A reading has ended with these bytes. -/
  | response (bytes : List UInt8)
  deriving DecidableEq, Repr

namespace SerialLine

/-- The running call goes on: what is left of it, the line, and what can be observed. -/
def proceed (s : SerialLine) : Dialogue Unit → Except Fault (SerialLine × List SerialAction)
  | .done () => .ok ({ s with running := none }, [])
  | .fail e => .error e
  | .write bytes next =>
    .ok ({ s with running := some next, outgoing := s.outgoing ++ bytes }, [.write bytes])
  | .awaitByte next =>
    .ok (if s.rx = [] then s else { s with running := some next }, [])
  | .discard next =>
    match s.rx with
    | [] => .ok ({ s with running := some next }, [])
    | _ :: rx => .ok ({ s with rx }, [])
  | .readUntil response terminator length next =>
    if length ≤ response.length then
      .ok ({ s with running := some (next response) }, [.response response])
    else match s.rx with
      | [] => .ok (s, [])
      | b :: rx =>
        if b = terminator then
          .ok ({ s with running := some (next response), rx }, [.response response])
        else
          .ok ({ s with
            running := some (.readUntil (response ++ [b]) terminator length next), rx }, [])

/-- A reading ends if nothing is on its way. -/
def giveUp (s : SerialLine) : Dialogue Unit → SerialLine × List SerialAction
  | .readUntil response _ _ next =>
    if s.rx = [] ∧ s.inFlight = [] then
      ({ s with running := some (next response) }, [.response response])
    else (s, [])
  | _ => (s, [])

/-- The peer takes the next line, if there is one and it may be answered so. -/
def take (newline : UInt8) (answers : List UInt8 → List UInt8 → Bool) (s : SerialLine)
    (answer : List UInt8) : SerialLine × List SerialAction :=
  let line := s.outgoing.takeWhile (· != newline)
  match s.outgoing.dropWhile (· != newline) with
  | [] => (s, [])
  | _ :: outgoing =>
    if answers line answer then
      ({ s with outgoing, inFlight := s.inFlight ++ answer }, [.answer line answer])
    else (s, [])

/-- A byte arrives, if one is on its way. -/
def arrive (s : SerialLine) : SerialLine :=
  match s.inFlight with
  | [] => s
  | b :: inFlight => { s with inFlight, rx := s.rx ++ [b] }

/-- One step, for the calls `program`. -/
def step {κ : Type} (newline : UInt8) (answers : List UInt8 → List UInt8 → Bool)
    (program : κ → Dialogue Unit) : Machine SerialLine (SerialEvent κ) SerialAction := fun s event ↦
  match event, s.running with
  | .call c, none => .ok ({ s with running := some (program c) }, [])
  | .call _, some _ => .ok (s, [])
  | .proceed, none => .ok (s, [])
  | .proceed, some d => s.proceed d
  | .giveUp, none => .ok (s, [])
  | .giveUp, some d => .ok (s.giveUp d)
  | .take answer, _ => .ok (s.take newline answers answer)
  | .arrive, _ => .ok (s.arrive, [])

/-- What taking a line does. -/
theorem take_cases (newline : UInt8) (answers : List UInt8 → List UInt8 → Bool) (s : SerialLine)
    (answer : List UInt8) : s.take newline answers answer = (s, []) ∨
      ∃ line rest, s.outgoing = line ++ newline :: rest ∧ newline ∉ line ∧ answers line answer ∧
        s.take newline answers answer =
          ({ s with outgoing := rest, inFlight := s.inFlight ++ answer },
            [.answer line answer]) := by
  obtain ⟨hline, hsplit⟩ := takeWhile_dropWhile_ne newline s.outgoing
  rw [take]
  rcases hrest : s.outgoing.dropWhile (· != newline) with _ | ⟨b, rest⟩
  · exact .inl rfl
  dsimp only
  split_ifs with h
  · rw [hrest, List.tail_cons] at hsplit
    exact .inr ⟨_, rest, hsplit.resolve_left fun hnil ↦ List.cons_ne_nil _ _ hnil.2, hline, h, rfl⟩
  · exact .inl rfl

/-! ### What was observed -/

/-- The lines with the property that the peer has answered, with their answers. -/
def answered (P : List UInt8 → Bool) (past : List SerialAction) :
    List (List UInt8 × List UInt8) :=
  past.filterMap fun
    | .answer line answer => if P line then some (line, answer) else none
    | _ => none

/-- What was written last. -/
def lastWrite (last : List UInt8) : List SerialAction → List UInt8
  | [] => last
  | .write bytes :: past => lastWrite bytes past
  | .answer _ _ :: past | .response _ :: past => lastWrite last past

/-- The readings, each with what was written last before it. -/
def exchanges (last : List UInt8) : List SerialAction → List (List UInt8 × List UInt8)
  | [] => []
  | .write bytes :: past => exchanges bytes past
  | .answer _ _ :: past => exchanges last past
  | .response bytes :: past => (last, bytes) :: exchanges last past

theorem answered_append (P : List UInt8 → Bool) (past out : List SerialAction) :
    answered P (past ++ out) = answered P past ++ answered P out :=
  List.filterMap_append

theorem lastWrite_append (last : List UInt8) (past out : List SerialAction) :
    lastWrite last (past ++ out) = lastWrite (lastWrite last past) out := by
  fun_induction lastWrite last past with
  | case1 => rfl
  | case2 last bytes past ih => exact ih
  | case3 last line answer past ih => exact ih
  | case4 last bytes past ih => exact ih

theorem exchanges_append (last : List UInt8) (past out : List SerialAction) :
    exchanges last (past ++ out) =
      exchanges last past ++ exchanges (lastWrite last past) out := by
  fun_induction lastWrite last past with
  | case1 => rfl
  | case2 last bytes past ih => exact ih
  | case3 last line answer past ih => exact ih
  | case4 last bytes past ih => exact congrArg ((last, bytes) :: ·) ih

end SerialLine

end EspBode
