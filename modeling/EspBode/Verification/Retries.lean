import EspBode.Verification.DriverRuns

/-!
# The retry loop

`set` sends the same command in each pass of its loop. With a retry count of 0 there is one pass,
and nothing is read back. Otherwise each command is followed by one query, and the loop ends with
the first pass in which the value is read back, or when the retries are used up.

`set_attempts` says this of an **arbitrary peer**: a function from everything that was sent to what
comes back, so that an answer may depend on the whole past, and no two passes need to be answered
alike. It rests on two facts that are proved elsewhere:

* `converse_set`: what was sent after `k` passes is `k` rounds of command and query, where `k` is
  one more than the number of the last pass. That number is a function of the values read back.
* `lastPass_spec`: all passes before the last one have failed, and if the last one has failed too,
  it was the one with the greatest number.

The statement takes the values `g` that `get` returns as they are, one for each pass. What was sent
by the time of a pass does not depend on the answers, which is why there is a `g` to speak of: the
`i`-th query is always made after the same bytes.

The bound on the retry count is that of the local `int` to which the source assigns it.
-/

namespace EspBode.AwgFy

open Dialogue

theorem retries_eq {awg : AwgFy} (h : awg.mRetryCount.toNat < 2 ^ 31) :
    awg.retries = awg.mRetryCount.toNat := by
  rw [retries, Int32.toInt, UInt32.toBitVec_toInt32, BitVec.toInt_eq_toNat_of_lt]
  · rfl
  · rw [UInt32.toNat_toBitVec]
    omega

/-- **The retry loop is exact.** The results `g` of `get` are arbitrary, since the peer is. -/
theorem set_attempts (pf : Platform) {awg : AwgFy} {channel : UInt32} {paramId : ℕ}
    {row : ParamTranslator} (h : Valid channel paramId) (hrow : awg.pt[paramId]? = some row)
    (hretries : awg.mRetryCount.toNat < 2 ^ 31) (value : Double) (peer : Peer)
    (sent : List UInt8) :
    let r := awg.mRetryCount.toNat
    let command := commandFor pf awg row channel paramId value
    let query := query channel paramId
    (r = 0 → converse peer (set pf awg channel paramId value) sent =
      (.ok true, sent ++ command)) ∧
    (0 < r → ∃ (g : ℕ → Double) (k : ℕ) (result : Bool),
      (∀ i, converse peer (get pf awg channel paramId)
          (sent ++ rounds (command ++ query) i ++ command) =
        (.ok (g i), sent ++ rounds (command ++ query) (i + 1))) ∧
      converse peer (set pf awg channel paramId value) sent =
        (.ok result, sent ++ rounds (command ++ query) k) ∧
      1 ≤ k ∧ k ≤ r + 1 ∧
      (∀ i, i + 1 < k → (comparedValue pf row paramId value).eq (g i) = false) ∧
      (k ≤ r → (comparedValue pf row paramId value).eq (g (k - 1)) = true) ∧
      (result = true ↔ ∃ i < r + 1, (comparedValue pf row paramId value).eq (g i) = true)) := by
  intro r command query
  have hentry := entry_of_getElem? hrow
  have hr : awg.retries = r := retries_eq hretries
  refine ⟨fun h0 ↦ converse_set_unvalidated pf peer h hentry (by omega) value sent, fun hpos ↦ ?_⟩
  have hrun := converse_set pf peer h hentry (by omega) value sent
  rw [hr, Int.toNat_natCast] at hrun
  set g : ℕ → Double := fun i ↦
    readBack pf row peer (sent ++ rounds (command ++ query) (i + 1)) with hg
  set ok : ℕ → Bool := fun i ↦ (comparedValue pf row paramId value).eq (g i)
  obtain ⟨hle, hall, hlast⟩ := lastPass_spec ok r
  -- a loop that does not end before the last pass has tried all of them
  have hfailed : ok (lastPass ok r) = false → ∀ i < r + 1, ok i = false := by
    intro hfalse i hi
    have hend := hlast hfalse
    rcases Nat.lt_or_ge i (lastPass ok r) with hlt | hge
    · exact hall i hlt
    · rwa [show i = lastPass ok r by omega]
  refine ⟨g, lastPass ok r + 1, ok (lastPass ok r), fun i ↦ ?_, hrun, by omega, by omega,
    fun i hi ↦ hall i (by omega), fun hk ↦ ?_, fun htrue ↦ ⟨_, by omega, htrue⟩, ?_⟩
  · have hround : sent ++ rounds (command ++ query) i ++ command ++ query =
        sent ++ rounds (command ++ query) (i + 1) := by
      rw [rounds_succ_right, List.append_assoc, List.append_assoc, ← List.append_assoc _ command]
    rw [converse_get pf peer h hentry, hround]
  · by_contra hfalse
    have := hlast (by simpa using hfalse)
    omega
  · rintro ⟨i, hi, htrue⟩
    by_contra hfalse
    exact absurd (hfailed (by simpa using hfalse) i hi) (by simpa using htrue)

/-- An AWG that always gives the same answer; the commands and queries for 1000 Hz. -/
theorem set_attempts_frequency :
    ∃ k result, converse (fun _ ↦ ascii "999\n")
        (set (referencePlatform .exact) (awgFy6900 2) 1 Scpi.frequency (.finite 1000)) [] =
      (.ok result, rounds (ascii "WMF1000.000000\nRMF\n\n") k) ∧ 1 ≤ k ∧ k ≤ 3 := by
  have hvalid : Valid 1 Scpi.frequency := ⟨by decide, by decide⟩
  have hrow : (awgFy6900 2).pt[Scpi.frequency]? = some ⟨.double, 0, 6, 0, .double, 0⟩ := rfl
  obtain ⟨-, k, result, -, hrun, hpos, hle, -⟩ :=
    (set_attempts (referencePlatform .exact) hvalid hrow (by decide) (.finite 1000)
      (fun _ ↦ ascii "999\n") []).2 (by decide)
  have hround : commandFor (referencePlatform .exact) (awgFy6900 2) ⟨.double, 0, 6, 0, .double, 0⟩ 1
      Scpi.frequency (.finite 1000) ++ query 1 Scpi.frequency =
        ascii "WMF1000.000000\nRMF\n\n" := by
    decide +kernel
  rw [hround] at hrun
  exact ⟨k, result, hrun, hpos, hle⟩

end EspBode.AwgFy
