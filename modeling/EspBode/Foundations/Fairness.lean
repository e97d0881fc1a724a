import EspBode.Foundations.Machine

/-!
# Fair runs

Infinite runs of a machine, and what they come to again and again. A run is given by its states and
inputs (`IsRun`); there is no temporal logic over it, only two rules, for two questions.

**That a goal is reached** is the rule `exists_ge`, with everything that is specific to a system as
a parameter. It takes a view of the state that has a well-founded order, and kinds of inputs that
each come again and again:

* on the way to the goal every step leaves the view as it is or makes it smaller;
* whatever the view is, there is a kind of inputs that make it smaller, and they do so as long as
  the view stays the same.

The order is arbitrary, so a view may be a tree with its immediate subtrees, or a lexicographic
combination; a number of steps is never asked for. Fairness enters only as the assumption that an
input of each kind comes sooner or later, so that the schedules that satisfy it can be anything from
taking turns to whatever a peer may do.

**What the run has put out by then** is the business of `LeadsTo`, which keeps the finite part of
the run between two points. It composes (`LeadsTo.trans`), which is how a goal is reached in phases:
each phase ends at the first point with its property (`IsRun.leadsTo`), and hands on what every step
before that point has kept.

An infinite run is built from finite ones that extend each other (`exists_isRun`), for a witness.
-/

namespace EspBode.Machine

universe u v w

variable {σ : Type u} {ι : Type v} {ω : Type w} (step : Machine σ ι ω)

/-- An infinite run: the states, and the inputs between them. -/
def IsRun (s : ℕ → σ) (input : ℕ → ι) : Prop :=
  ∀ i, ∃ out, step (s i) (input i) = .ok (s (i + 1), out)

variable {step} {s : ℕ → σ} {input : ℕ → ι}

/-- What every step keeps holds all along. -/
theorem IsRun.exists_past (h : IsRun step s input) {Q : σ → List ω → Prop} (hinit : Q (s 0) [])
    (hkeeps : ∀ i past out, Q (s i) past → step (s i) (input i) = .ok (s (i + 1), out) →
      Q (s (i + 1)) (past ++ out)) (i : ℕ) : ∃ past, Q (s i) past := by
  induction i with
  | zero => exact ⟨[], hinit⟩
  | succ i ih =>
    obtain ⟨past, hpast⟩ := ih
    obtain ⟨out, hstep⟩ := h i
    exact ⟨past ++ out, hkeeps i past out hpast hstep⟩

/-- A machine that is never stuck has a run for all inputs. -/
theorem exists_isRun (start : σ)
    (h : ∀ n, ∃ r, runFrom step start ((List.range n).map input) = .ok r) :
    ∃ s, s 0 = start ∧ IsRun step s input := by
  choose r hr using h
  have hzero : (r 0).1 = start := (congrArg Prod.fst (Except.ok.inj (hr 0))).symm
  refine ⟨fun n ↦ (r n).1, hzero, fun n ↦ ?_⟩
  have hnext := hr (n + 1)
  rw [List.range_succ, List.map_append] at hnext
  obtain ⟨s₁, out₁, out₂, hrun, hlast, -⟩ := runFrom_append_eq_ok.1 hnext
  obtain ⟨s₂, out₃, out₄, hstep, hnil, -⟩ := runFrom_cons_eq_ok.1 hlast
  obtain rfl : (r n).1 = s₁ := congrArg Prod.fst (Except.ok.inj ((hr n).symm.trans hrun))
  obtain rfl : s₂ = (r (n + 1)).1 := congrArg Prod.fst (Except.ok.inj hnil)
  exact ⟨out₃, hstep⟩

/-- **What comes about again and again.** The induction is on the view of the state; on the way to
the input that makes it smaller, either it becomes smaller before, or it stays the same. -/
theorem exists_ge {V K : Type*} {view : σ → V} {lt : V → V → Prop} (hwf : WellFounded lt)
    (goal : σ → Prop) (kind : K → σ → ι → Prop)
    (hview : ∀ i, ¬ goal (s i) → view (s (i + 1)) = view (s i) ∨ lt (view (s (i + 1))) (view (s i)))
    (hkind : ∀ i, ¬ goal (s i) → ∃ k, ∀ j, view (s j) = view (s i) → kind k (s j) (input j) →
      lt (view (s (j + 1))) (view (s j)))
    (hfair : ∀ k i, ∃ j ≥ i, kind k (s j) (input j)) (i : ℕ) : ∃ j ≥ i, goal (s j) := by
  induction hv : view (s i) using hwf.induction generalizing i with
  | _ v ih =>
    subst hv
    by_contra hnever
    have hnot : ∀ j ≥ i, ¬ goal (s j) := fun j hj hgoal ↦ hnever ⟨j, hj, hgoal⟩
    have hsmaller : ∀ j ≥ i, ¬ lt (view (s j)) (view (s i)) := by
      intro j hj hlt
      obtain ⟨j', hj', hgoal⟩ := ih _ hlt j rfl
      exact hnot j' (Nat.le_trans hj hj') hgoal
    have hsame : ∀ n, view (s (i + n)) = view (s i) := by
      intro n
      induction n with
      | zero => rfl
      | succ n ihn =>
        rcases hview (i + n) (hnot _ (Nat.le_add_right i n)) with heq | hlt
        · exact heq.trans ihn
        · exact absurd (ihn ▸ hlt) (hsmaller _ (Nat.le_add_right i (n + 1)))
    obtain ⟨k, hk⟩ := hkind i (hnot i (Nat.le_refl i))
    obtain ⟨j, hj, hinput⟩ := hfair k i
    obtain ⟨n, rfl⟩ := Nat.exists_eq_add_of_le hj
    exact hsmaller _ (Nat.le_add_right i (n + 1)) (hsame n ▸ hk _ (hsame n) hinput)

/-! ### What it leads to -/

variable (step s input) in
/-- From one point on the run comes to a later one, and has put out what is related to it by
then. -/
def LeadsTo (i : ℕ) (R : ℕ → List ω → Prop) : Prop :=
  ∃ n out, runFrom step (s i) ((List.range' i n).map input) = .ok (s (i + n), out) ∧ R (i + n) out

variable {i : ℕ} {R R' : ℕ → List ω → Prop}

theorem LeadsTo.refl (h : R i []) : LeadsTo step s input i R :=
  ⟨0, [], rfl, h⟩

/-- **One after the other.** -/
theorem LeadsTo.trans (h : LeadsTo step s input i R)
    (h' : ∀ j out, R j out → LeadsTo step s input j fun k out' ↦ R' k (out ++ out')) :
    LeadsTo step s input i R' := by
  obtain ⟨n, out, hrun, hR⟩ := h
  obtain ⟨m, out', hrun', hR'⟩ := h' _ _ hR
  rw [Nat.add_assoc] at hrun' hR'
  refine ⟨n + m, out ++ out', ?_, hR'⟩
  rw [← List.range'_append_1, List.map_append]
  exact runFrom_append_eq_ok.2 ⟨_, out, out', hrun, hrun', rfl⟩

theorem LeadsTo.mono (h : LeadsTo step s input i R) (hR : ∀ j out, R j out → R' j out) :
    LeadsTo step s input i R' := by
  obtain ⟨n, out, hrun, hout⟩ := h
  exact ⟨n, out, hrun, hR _ _ hout⟩

/-- A step leads to the next state. -/
theorem IsRun.leadsTo_succ (h : IsRun step s input)
    (hR : ∀ out, step (s i) (input i) = .ok (s (i + 1), out) → R (i + 1) out) :
    LeadsTo step s input i R := by
  obtain ⟨out, hstep⟩ := h i
  exact ⟨1, out, runFrom_cons_eq_ok.2 ⟨_, out, [], hstep, rfl, (List.append_nil out).symm⟩,
    hR out hstep⟩

/-- **The run leads to the first point with a property**, if there is one, and to what every step
before it keeps. The induction is on the distance of such a point. -/
theorem IsRun.leadsTo (h : IsRun step s input) {goal : ℕ → Prop} (hgoal : ∃ j ≥ i, goal j)
    (hinit : R i []) (hkeeps : ∀ j ≥ i, ¬ goal j → ∀ past out, R j past →
      step (s j) (input j) = .ok (s (j + 1), out) → R (j + 1) (past ++ out)) :
    LeadsTo step s input i fun j out ↦ goal j ∧ R j out := by
  obtain ⟨j, hj, hgoal⟩ := hgoal
  obtain ⟨n, rfl⟩ := Nat.exists_eq_add_of_le hj
  clear hj
  induction n generalizing i R with
  | zero => exact .refl ⟨hgoal, hinit⟩
  | succ n ih =>
    by_cases hi : goal i
    · exact .refl ⟨hi, hinit⟩
    refine (h.leadsTo_succ (R := fun j out ↦ j = i + 1 ∧ R j out) fun out hstep ↦
      ⟨rfl, hkeeps i (Nat.le_refl i) hi [] out hinit hstep⟩).trans ?_
    rintro _ past ⟨rfl, hpast⟩
    refine ih (R := fun j out ↦ R j (past ++ out)) ((List.append_nil past).symm ▸ hpast)
      (fun j hj hnot past' out hpast' hstep ↦ ?_) (by rwa [Nat.add_right_comm])
    rw [← List.append_assoc]
    exact hkeeps j (Nat.le_of_succ_le hj) hnot _ _ hpast' hstep

end EspBode.Machine
