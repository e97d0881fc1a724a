import EspBode.Foundations.Fallible
import EspBode.Foundations.Runs

/-!
# Dialogues over a serial line

A program whose only effects are on a serial line, as the tree of what it does there: it writes, it
waits until a byte can be read, it throws away what can be read, or it reads up to a terminator. It
may be stuck (`fail`), and it ends with a value (`done`). A program is written once, in `do`
notation, and every account of what it does is a recursion on its tree: the run against a peer here,
the run on an asynchronous line, the conditions on how it waits and what it writes elsewhere. None
of them has to be compared with a second copy of the program.

`converse peer d sent` runs a dialogue against a peer. The peer is arbitrary: what it is about to
say when it is read from is any function of everything that was written until then. Waiting is
assumed to end, and a reading takes what the peer says up to the terminator or the length. The
result is a value or a fault, together with everything that was written. `converse_bind` composes
runs.

`attempts body n` is the loop that repeats its body until the body agrees, and up to `n` times more
than once. `converse_attempts` gives the number of passes, what is written and the result, for a
body whose every pass writes the same, and keeps a property of what the next pass starts from. The
number of passes is `lastPass`, the first one that agrees or the last one (`lastPass_spec`).

`NeverFails` says that no path of the tree is stuck, whatever is read. It composes, and a dialogue
with it ends with a value against every peer (`NeverFails.exists_converse`).
-/

namespace EspBode

/-- What a program does on a serial line, and what it does next. -/
inductive Dialogue (α : Type) where
  | done (a : α)
  | fail (e : Fault)
  | write (bytes : List UInt8) (next : Dialogue α)
  /-- Wait until a byte can be read. -/
  | awaitByte (next : Dialogue α)
  /-- Read and forget, as long as a byte can be read. -/
  | discard (next : Dialogue α)
  /-- Read up to a terminator, which is taken off the line and left out, up to a length, or until
  nothing comes any more; the first argument is what is read already. -/
  | readUntil (response : List UInt8) (terminator : UInt8) (length : ℕ)
      (next : List UInt8 → Dialogue α)

namespace Dialogue

variable {α β : Type}

/-- One dialogue, and then another one that may depend on its value. -/
def bind : Dialogue α → (α → Dialogue β) → Dialogue β
  | .done a, f => f a
  | .fail e, _ => .fail e
  | .write bytes next, f => .write bytes (next.bind f)
  | .awaitByte next, f => .awaitByte (next.bind f)
  | .discard next, f => .discard (next.bind f)
  | .readUntil response terminator length next, f =>
    .readUntil response terminator length fun r ↦ (next r).bind f

instance : Monad Dialogue where
  pure := .done
  bind := .bind

/-- Nothing is done with the value. -/
theorem bind_pure (d : Dialogue α) : d >>= pure = d := by
  show d.bind .done = d
  induction d with
  | done a => rfl
  | fail e => rfl
  | write bytes next ih => exact congrArg (Dialogue.write bytes) ih
  | awaitByte next ih => exact congrArg Dialogue.awaitByte ih
  | discard next ih => exact congrArg Dialogue.discard ih
  | readUntil response terminator length next ih =>
    exact congrArg (Dialogue.readUntil response terminator length) (funext ih)

/-- A checked operation. -/
def ofExcept : Except Fault α → Dialogue α
  | .ok a => .done a
  | .error e => .fail e

instance : MonadLift (Except Fault) Dialogue where
  monadLift := ofExcept

/-! ### The operations -/

/-- `Serial << bytes`. -/
def say (bytes : List UInt8) : Dialogue Unit :=
  .write bytes (.done ())

/-- `while (!Serial.available());`. -/
def waitAvailable : Dialogue Unit :=
  .awaitByte (.done ())

/-- `while (Serial.available()) Serial.read();`. -/
def readAvailable : Dialogue Unit :=
  .discard (.done ())

/-- `Serial.readBytesUntil(terminator, buffer, length)`. -/
def readBytesUntil (terminator : UInt8) (length : ℕ) : Dialogue (List UInt8) :=
  .readUntil [] terminator length .done

/-! ### Runs against a peer -/

/-- What comes over the line next, given everything that was written to it. -/
abbrev Peer : Type :=
  List UInt8 → List UInt8

/-- The part of the input that a reading up to a terminator takes. -/
def reading (terminator : UInt8) (length : ℕ) (input : List UInt8) : List UInt8 :=
  (input.takeWhile (· != terminator)).take length

/-- A reading of a line takes the line. -/
theorem reading_line {newline : UInt8} {u : List UInt8} {length : ℕ} (hu : newline ∉ u)
    (hlength : u.length ≤ length) : reading newline length (u ++ [newline]) = u := by
  rw [reading, takeWhile_append_cons hu, List.take_of_length_le hlength]

/-- Run a dialogue: its value, and everything that is written then. -/
def converse (peer : Peer) : Dialogue α → List UInt8 → Except Fault α × List UInt8
  | .done a, sent => (.ok a, sent)
  | .fail e, sent => (.error e, sent)
  | .write bytes next, sent => converse peer next (sent ++ bytes)
  | .awaitByte next, sent => converse peer next sent
  | .discard next, sent => converse peer next sent
  | .readUntil response terminator length next, sent =>
    converse peer
      (next (response ++ reading terminator (length - response.length) (peer sent))) sent

variable (peer : Peer)

/-- **Composition**: the second dialogue starts from what the first one has written. -/
theorem converse_bind (f : α → Dialogue β) : ∀ (d : Dialogue α) (sent : List UInt8),
    converse peer (d >>= f) sent = match converse peer d sent with
      | (.ok a, sent') => converse peer (f a) sent'
      | (.error e, sent') => (.error e, sent')
  | .done _, _ => rfl
  | .fail _, _ => rfl
  | .write _ next, sent => converse_bind f next (sent ++ _)
  | .awaitByte next, sent => converse_bind f next sent
  | .discard next, sent => converse_bind f next sent
  | .readUntil _ _ _ next, sent => converse_bind f (next _) sent

theorem converse_bind_of_eq {d : Dialogue α} {f : α → Dialogue β} {sent sent' : List UInt8} {a : α}
    (h : converse peer d sent = (.ok a, sent')) :
    converse peer (d >>= f) sent = converse peer (f a) sent' := by
  rw [converse_bind, h]

@[simp]
theorem converse_pure (a : α) (sent : List UInt8) :
    converse peer (pure a) sent = (.ok a, sent) :=
  rfl

@[simp]
theorem converse_say_bind (bytes : List UInt8) (f : Unit → Dialogue β) (sent : List UInt8) :
    converse peer (say bytes >>= f) sent = converse peer (f ()) (sent ++ bytes) :=
  rfl

/-! ### Trying again -/

/-- `do … while (!ok && retries-- > 0)`. The body tells whether it agrees, and what the next pass
starts from. -/
def attempts {σ : Type} (body : σ → Dialogue (Bool × σ)) : ℕ → σ → Dialogue Bool
  | 0, s => do
    let (ok, _) ← body s
    return ok
  | retries + 1, s => do
    let (ok, s) ← body s
    if ok then return true else attempts body retries s

/-- What `k` passes write. -/
def rounds (round : List UInt8) (k : ℕ) : List UInt8 :=
  (List.replicate k round).flatten

theorem rounds_succ (round : List UInt8) (k : ℕ) :
    rounds round (k + 1) = round ++ rounds round k := by
  rw [rounds, List.replicate_succ, List.flatten_cons, rounds]

theorem rounds_succ_right (round : List UInt8) (k : ℕ) :
    rounds round (k + 1) = rounds round k ++ round := by
  rw [rounds, List.replicate_succ', List.flatten_append, List.flatten_singleton, rounds]

/-- The number of the pass that ends the loop, counted from 0, if pass `i` agrees as `ok i` says:
the first one that agrees, or the last one. -/
def lastPass (ok : ℕ → Bool) : ℕ → ℕ
  | 0 => 0
  | retries + 1 => if ok 0 then 0 else lastPass (fun i ↦ ok (i + 1)) retries + 1

/-- All passes before the one that ends the loop do not agree, and that one does unless no retry is
left. -/
theorem lastPass_spec (ok : ℕ → Bool) (retries : ℕ) :
    lastPass ok retries ≤ retries ∧ (∀ i < lastPass ok retries, ok i = false) ∧
      (ok (lastPass ok retries) = false → lastPass ok retries = retries) := by
  induction retries generalizing ok with
  | zero => exact ⟨Nat.le_refl 0, fun i hi ↦ absurd hi (Nat.not_lt_zero i), fun _ ↦ rfl⟩
  | succ retries ih =>
    rw [lastPass]
    rcases h0 : ok 0 with _ | _
    · obtain ⟨hle, hall, hlast⟩ := ih fun i ↦ ok (i + 1)
      rw [if_neg Bool.false_ne_true]
      refine ⟨by omega, fun i hi ↦ ?_, fun h ↦ congrArg (· + 1) (hlast h)⟩
      rcases i with _ | i
      · exact h0
      · exact hall i (by omega)
    · rw [if_pos rfl]
      exact ⟨by omega, fun i hi ↦ absurd hi (Nat.not_lt_zero i), fun h ↦ absurd (h0.symm.trans h)
        (by decide)⟩

/-- The first pass ends the loop if it agrees. -/
theorem lastPass_eq_zero {ok : ℕ → Bool} (h : ok 0 = true) (retries : ℕ) :
    lastPass ok retries = 0 := by
  cases retries with
  | zero => rfl
  | succ retries => rw [lastPass, if_pos h]

/-- **A loop of attempts**, for a body that writes the same bytes in each pass and keeps a property
of what it starts from. -/
theorem converse_attempts {σ : Type} {body : σ → Dialogue (Bool × σ)} {P : σ → Prop}
    {round : List UInt8} {agrees : List UInt8 → Bool}
    (hbody : ∀ s, P s → ∀ sent, ∃ s', P s' ∧
      converse peer (body s) sent = (.ok (agrees (sent ++ round), s'), sent ++ round))
    {s : σ} (hs : P s) (retries : ℕ) (sent : List UInt8) :
    let ok : ℕ → Bool := fun i ↦ agrees (sent ++ rounds round (i + 1))
    converse peer (attempts body retries s) sent =
      (.ok (ok (lastPass ok retries)), sent ++ rounds round (lastPass ok retries + 1)) := by
  induction retries generalizing s sent with
  | zero =>
    obtain ⟨s', -, heq⟩ := hbody s hs sent
    rw [attempts, converse_bind_of_eq peer heq]
    simp [lastPass, rounds]
  | succ retries ih =>
    obtain ⟨s', hs', heq⟩ := hbody s hs sent
    have hfirst : agrees (sent ++ rounds round (0 + 1)) = agrees (sent ++ round) := by
      simp [rounds]
    dsimp only
    rw [attempts, converse_bind_of_eq peer heq, lastPass, hfirst]
    rcases hagrees : agrees (sent ++ round) with _ | _
    · -- not yet: the rest of the loop, behind what this pass has written
      have hshift : ∀ i, agrees (sent ++ rounds round (i + 1 + 1)) =
          agrees (sent ++ round ++ rounds round (i + 1)) := fun i ↦ by
        rw [rounds_succ round (i + 1), List.append_assoc]
      have hrest := ih hs' (sent ++ round)
      dsimp only at hrest
      simp only [hshift, Bool.false_eq_true, if_false]
      rw [hrest, rounds_succ round (lastPass _ retries + 1), ← List.append_assoc]
    · simp [rounds, hagrees]

/-! ### Dialogues that are never stuck -/

/-- No path of the dialogue is stuck, whatever is read. -/
def NeverFails : Dialogue α → Prop
  | .done _ => True
  | .fail _ => False
  | .write _ next => next.NeverFails
  | .awaitByte next => next.NeverFails
  | .discard next => next.NeverFails
  | .readUntil _ _ _ next => ∀ response, (next response).NeverFails

theorem neverFails_pure (a : α) : NeverFails (pure a) :=
  trivial

theorem neverFails_say (bytes : List UInt8) : NeverFails (say bytes) :=
  trivial

theorem neverFails_readBytesUntil (terminator : UInt8) (length : ℕ) :
    NeverFails (readBytesUntil terminator length) :=
  fun _ ↦ trivial

theorem NeverFails.bind {f : α → Dialogue β} : ∀ {d : Dialogue α}, d.NeverFails →
    (∀ a, (f a).NeverFails) → (d >>= f).NeverFails
  | .done a, _, hf => hf a
  | .fail _, h, _ => h.elim
  | .write _ next, h, hf => NeverFails.bind (d := next) h hf
  | .awaitByte next, h, hf => NeverFails.bind (d := next) h hf
  | .discard next, h, hf => NeverFails.bind (d := next) h hf
  | .readUntil _ _ _ next, h, hf => fun r ↦ NeverFails.bind (d := next r) (h r) hf

/-- A loop of attempts is never stuck if no pass is. -/
theorem neverFails_attempts {σ : Type} {body : σ → Dialogue (Bool × σ)}
    (h : ∀ s, (body s).NeverFails) : ∀ (retries : ℕ) (s : σ), (attempts body retries s).NeverFails
  | 0, s => (h s).bind fun _ ↦ trivial
  | retries + 1, s => (h s).bind fun ⟨ok, s'⟩ ↦ by
    rcases ok with _ | _
    · exact neverFails_attempts h retries s'
    · trivial

/-- A dialogue that is never stuck ends with a value against every peer. -/
theorem NeverFails.exists_converse : ∀ {d : Dialogue α}, d.NeverFails → ∀ sent,
    ∃ a sent', converse peer d sent = (.ok a, sent')
  | .done a, _, sent => ⟨a, sent, rfl⟩
  | .fail _, h, _ => h.elim
  | .write _ next, h, _ => NeverFails.exists_converse (d := next) h _
  | .awaitByte next, h, sent => NeverFails.exists_converse (d := next) h sent
  | .discard next, h, sent => NeverFails.exists_converse (d := next) h sent
  | .readUntil _ _ _ next, h, sent => NeverFails.exists_converse (d := next _) (h _) sent

end Dialogue

end EspBode
