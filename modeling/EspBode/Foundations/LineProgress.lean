import EspBode.Foundations.LineDiscipline

/-!
# A call comes to its end

On a line that is in step no call waits for something that cannot come: whatever the scheduler has
done before, there are events that end the running call (`InStep.ends`). This is a statement about
what is possible, not about what a scheduler does; that a fair one brings a call to its end is in
the module on fairness.

`Ends` is the statement of which the steps are made: from this state, some events lead to one with
no call running, and the line is in step there. It is closed under single events (`Ends.of_step`),
and the proof is by induction on the tree of the dialogue. A dialogue that writes, or throws away
what is there, goes on by itself (`Ends.of_proceed`). In the two other cases somebody else has to
move first:

* where it **waits for a byte** (`Ends.of_awaited`), the mode of the protocol says that an answer is
  due or has begun. If it has not begun, a line that will be answered stands in what is written
  (`LineIn.newline_mem`), and the peer can take lines up to it; then a byte can arrive;
* where it **reads a line** (`Ends.of_reading`), the rest of the line is on its way, and it can
  arrive byte by byte. The induction is on what is still to come of the line, because a reading that
  has taken a byte is the same dialogue with a longer response.

Nothing is asked of the peer but that it may answer every line somehow (`exists_answers` of the
protocol); which answer it gives is chosen in the proof.
-/

namespace EspBode.LineProtocol

variable {p : LineProtocol} {κ : Type} {program : κ → Dialogue Unit}

variable (p program) in
/-- The running call can be brought to its end. -/
def Ends (s : SerialLine) : Prop :=
  ∃ events s' out, Machine.runFrom (SerialLine.step p.newline p.answers program) s events =
    .ok (s', out) ∧ s'.running = none

theorem Ends.of_step {s s' : SerialLine} (event : SerialEvent κ) {out : List SerialAction}
    (h : SerialLine.step p.newline p.answers program s event = .ok (s', out))
    (hends : Ends p program s') : Ends p program s := by
  obtain ⟨events, s'', out', hrun, hnone⟩ := hends
  exact ⟨event :: events, s'', out ++ out',
    Machine.runFrom_cons_eq_ok.2 ⟨s', out, out', h, hrun, rfl⟩, hnone⟩

/-- The running call goes on. -/
theorem Ends.of_proceed {s s' : SerialLine} {d : Dialogue Unit} {out : List SerialAction}
    (hs : s.running = some d) (h : s.proceed d = .ok (s', out)) (hends : Ends p program s') :
    Ends p program s := by
  have hstep : SerialLine.step p.newline p.answers program s .proceed = .ok (s', out) := by
    simp only [SerialLine.step, hs, h]
  exact hends.of_step .proceed hstep

/-- A byte on its way can arrive. -/
theorem Ends.of_arrive {s : SerialLine} (hends : Ends p program s.arrive) : Ends p program s :=
  hends.of_step .arrive rfl

theorem running_arrive (s : SerialLine) : s.arrive.running = s.running := by
  rw [SerialLine.arrive]
  rcases s.inFlight with _ | _ <;> rfl

theorem rx_arrive_ne_nil {s : SerialLine} (h : s.inFlight ≠ []) : s.arrive.rx ≠ [] := by
  obtain ⟨b, rest, hin⟩ := List.exists_cons_of_ne_nil h
  rw [SerialLine.arrive, hin]
  simp

/-- What taking a line does that is answered so. -/
theorem take_eq {s : SerialLine} {line rest answer : List UInt8}
    (hout : s.outgoing = line ++ p.newline :: rest) (hline : p.newline ∉ line)
    (hanswer : p.answers line answer) :
    s.take p.newline p.answers answer =
      ({ s with outgoing := rest, inFlight := s.inFlight ++ answer }, [.answer line answer]) := by
  have htake : s.outgoing.takeWhile (· != p.newline) = line := by
    rw [hout, takeWhile_append_cons hline]
  have hdrop : s.outgoing.dropWhile (· != p.newline) = p.newline :: rest := by
    rw [hout, dropWhile_append_cons hline]
  simp only [SerialLine.take, htake, hdrop, hanswer, if_true]

/-- While a dialogue waits for an answer that has not begun, there is a line to be taken. -/
theorem LineIn.newline_mem {s : SerialLine} {past : List SerialAction} {m m' : Mode}
    (h : p.LineIn s past m) (hawaits : Awaits m m') (hrx : s.rx = []) (hin : s.inFlight = []) :
    p.newline ∈ s.outgoing := by
  have hnone : ∀ {reply : List UInt8}, s.rx ++ s.inFlight ≠ reply ++ [p.newline] := by
    rw [hrx, hin]
    simp
  have hmem : ∀ {rest : List UInt8}, p.newline ∈ rest → p.Untaken s.outgoing rest →
      p.newline ∈ s.outgoing := by
    rintro rest hrest (heq | heq) <;> simp [heq, hrest]
  cases hawaits with
  | command =>
    obtain ⟨-, ⟨-, -, w, -, -, huntaken⟩ | ⟨-, harrived⟩⟩ := h
    · exact hmem (by simp) huntaken
    · exact absurd (harrived.trans (List.nil_append _).symm) hnone
  | query q =>
    obtain ⟨-, -, -, ⟨-, -, huntaken, -⟩ | ⟨-, reply, -, -, harrived, -⟩⟩ := h
    · exact hmem (by simp) huntaken
    · exact absurd harrived hnone

/-- **A byte comes**: the peer takes lines until it has answered, and a byte arrives. -/
theorem Ends.of_awaited {s : SerialLine} {past : List SerialAction} {m m' : Mode}
    (h : p.LineIn s past m) (hawaits : Awaits m m')
    (hends : ∀ {s' past'}, s'.running = s.running → s'.rx ≠ [] → p.LineIn s' past' m →
      Ends p program s') : Ends p program s := by
  induction hn : s.outgoing.length using Nat.strongRecOn generalizing s past with
  | _ n ih =>
    rcases eq_or_ne s.rx [] with hrx | hrx
    swap
    · exact hends rfl hrx h
    rcases eq_or_ne s.inFlight [] with hin | hin
    swap
    · exact (hends (running_arrive s) (rx_arrive_ne_nil hin) h.arrive).of_arrive
    -- nothing is on its way: there is a line to be taken
    obtain hnone | ⟨line, rest, hline, hout⟩ := not_mem_or_eq_append_cons p.newline s.outgoing
    · exact absurd (h.newline_mem hawaits hrx hin) hnone
    obtain ⟨answer, hanswer⟩ := p.exists_answers line
    have htake := take_eq hout hline hanswer
    have hstep : SerialLine.step p.newline p.answers program s (.take answer) =
        .ok (s.take p.newline p.answers answer) := rfl
    have hnext := h.take answer
    rw [htake] at hstep hnext
    refine Ends.of_step (.take answer) hstep (ih rest.length ?_ hnext hends rfl)
    rw [← hn, hout, List.length_append, List.length_cons]
    omega

/-- **A line is read to its end.** The induction is on what is still to come of it. -/
theorem Ends.of_reading {n : ℕ} (hmax : p.maxLength ≤ n) {next : List UInt8 → Dialogue Unit}
    {q : List UInt8} (hends : ∀ {r s past}, s.running = some (next r) → p.LineIn s past .quiet →
      Ends p program s) {r : List UInt8} {s : SerialLine} {past : List SerialAction}
    (hs : s.running = some (.readUntil r p.newline n next)) (h : p.LineIn s past (.reading q r)) :
    Ends p program s := by
  -- the next byte can be read
  have hread : ∀ {r s past}, s.running = some (.readUntil r p.newline n next) →
      p.LineIn s past (.reading q r) → (∀ {r' s' past'},
        s'.running = some (.readUntil r' p.newline n next) → p.LineIn s' past' (.reading q r') →
        (s'.rx ++ s'.inFlight).length < (s.rx ++ s.inFlight).length → Ends p program s') →
      s.rx ≠ [] → Ends p program s := by
    intro r s past hs h hnext hrx
    obtain ⟨b, rx, hrx⟩ := List.exists_cons_of_ne_nil hrx
    obtain ⟨hproceed, hline⟩ | ⟨hproceed, hline⟩ := h.proceed_read hmax hrx next
    · exact (hends rfl hline).of_proceed hs hproceed
    · refine Ends.of_proceed hs hproceed (hnext rfl hline ?_)
      simp [hrx]
  induction hlength : (s.rx ++ s.inFlight).length using Nat.strongRecOn generalizing s past r with
  | _ k ih =>
    rcases eq_or_ne s.rx [] with hrx | hrx
    swap
    · exact hread hs h (fun hs' h' hlt ↦ ih _ (hlength ▸ hlt) hs' h' rfl) hrx
    -- it has to arrive before
    have hin : s.inFlight ≠ [] := by
      obtain ⟨-, -, rest, -, -, harrived, -⟩ := h
      rintro hin
      simp [hrx, hin] at harrived
    have hsame : s.arrive.rx ++ s.arrive.inFlight = s.rx ++ s.inFlight := by
      obtain ⟨b, rest, hin⟩ := List.exists_cons_of_ne_nil hin
      rw [SerialLine.arrive, hin]
      simp
    refine Ends.of_arrive (hread ((running_arrive s).trans hs) h.arrive (fun hs' h' hlt ↦ ?_)
      (rx_arrive_ne_nil hin))
    rw [hsame, hlength] at hlt
    exact ih _ hlt hs' h' rfl

/-- **A dialogue that keeps to the order comes to its end.** -/
theorem ends_of_obeys : ∀ {d : Dialogue Unit} {s : SerialLine} {past : List SerialAction}
    {m : Mode}, s.running = some d → p.Obeys d m → p.LineIn s past m → Ends p program s
  | .done (), s, _, _, hs, _, _ => Ends.of_proceed hs rfl ⟨[], _, [], rfl, rfl⟩
  | .write bytes next, s, _, _, hs, ⟨_, hwrites, hnext⟩, h =>
    (ends_of_obeys rfl hnext (h.write hwrites next)).of_proceed hs rfl
  | .awaitByte next, s, _, _, hs, ⟨m', hawaits, hnext⟩, h => by
    refine Ends.of_awaited h hawaits fun hs' hrx h' ↦ ?_
    exact (ends_of_obeys rfl hnext (h'.awaited hawaits hrx next)).of_proceed (hs'.trans hs)
      (congrArg Except.ok (Prod.ext (if_neg hrx) rfl))
  | .discard next, s, past, _, hs, ⟨hm, hnext⟩, h => by
    obtain rfl := hm
    obtain ⟨hread, hout, hin, hrx⟩ := h
    have hempty : ∀ {s : SerialLine}, s.running = some (.discard next) → s.rx = [] →
        s.inFlight = [] → s.outgoing = [] → Ends p program s := fun {s} hs hrx hin hout ↦ by
      have hproceed : s.proceed (.discard next) = .ok ({ s with running := some next }, []) := by
        rw [SerialLine.proceed, hrx]
      have hquiet : p.LineIn { s with running := some next } past .quiet :=
        ⟨hrx, hin, .inl hout, hread⟩
      exact (ends_of_obeys rfl hnext hquiet).of_proceed hs hproceed
    rcases hrx with hone | hnil
    · have hproceed : s.proceed (.discard next) = .ok ({ s with rx := [] }, []) := by
        rw [SerialLine.proceed, hone]
      exact (hempty (s := { s with rx := [] }) hs rfl hin hout).of_proceed hs hproceed
    · exact hempty hs hnil hin hout
  | .readUntil r _ _ next, s, _, _, hs, ⟨⟨q, hm⟩, ht, hmax, hnext⟩, h => by
    obtain rfl := hm
    obtain rfl := ht
    exact Ends.of_reading hmax (fun hs' h' ↦ ends_of_obeys hs' (hnext _) h') hs h

/-- **No call waits for ever.** -/
theorem InStep.ends {s : SerialLine} {past : List SerialAction} (h : p.InStep s past) :
    Ends p program s := by
  rcases hs : s.running with _ | d
  · exact ⟨[], s, [], rfl, hs⟩
  · obtain ⟨m, hobeys, hm⟩ := (inStep_some hs).1 h
    exact ends_of_obeys hs hobeys hm

end EspBode.LineProtocol
