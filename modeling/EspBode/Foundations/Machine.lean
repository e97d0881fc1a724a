import Mathlib.Data.List.Basic
import EspBode.Foundations.Fallible

/-!
# Runs of a machine

A machine takes a step on an input, may be stuck, and puts out a list of actions. `runFrom` feeds it
a list of inputs and concatenates what it puts out. A run that is stuck has no result: there is no
state behind undefined behaviour, and a theorem about a run says first that there is one.

Three rules carry the results about whole runs, and no other module does an induction over a run
where one of them fits:

* `runFrom_trace_invariant`: a relation between the state and everything put out so far that every
  step preserves. The output is part of the relation, because most of what is claimed of a server is
  about what it has sent, and how that goes together with its state;
* `exists_runFrom`: the same for a machine that is never stuck from related states. It gives the
  existence of the run along with the relation;
* `exists_runFrom_range`: the same for a loop that counts, where the relation knows the number of
  steps taken.

A run that is stuck comes to a state in which the next step is (`runFrom_eq_error_iff`), so failing
is traced back to one step. `Along` says that every step of a run meets a condition, which may look
at the state before the step; it is the hypothesis of results that hold on some runs only.
`Reachable` packages the states of the runs from a given start.
-/

namespace EspBode

universe u v w

/-- A step on an input: stuck, or a new state and what is put out. -/
abbrev Machine (σ : Type u) (ι : Type v) (ω : Type w) : Type _ :=
  σ → ι → Except Fault (σ × List ω)

namespace Machine

variable {σ : Type u} {ι : Type v} {ω : Type w} (step : Machine σ ι ω)

/-- Feed a list of inputs; the result is the last state and everything put out. -/
def runFrom (s : σ) : List ι → Except Fault (σ × List ω)
  | [] => .ok (s, [])
  | i :: is => do
    let (s, out) ← step s i
    let (s, out') ← runFrom s is
    return (s, out ++ out')

variable {step}

@[simp]
theorem runFrom_nil (s : σ) : runFrom step s [] = .ok (s, []) :=
  rfl

theorem runFrom_cons_eq_ok {s s' : σ} {i : ι} {is : List ι} {out : List ω} :
    runFrom step s (i :: is) = .ok (s', out) ↔
      ∃ s₁ out₁ out₂, step s i = .ok (s₁, out₁) ∧ runFrom step s₁ is = .ok (s', out₂) ∧
        out = out₁ ++ out₂ := by
  constructor
  · intro h
    obtain ⟨⟨s₁, out₁⟩, h₁, h⟩ := bind_eq_ok.1 h
    obtain ⟨⟨s₂, out₂⟩, h₂, h⟩ := bind_eq_ok.1 h
    obtain ⟨rfl, rfl⟩ := Prod.mk.inj (Except.ok.inj h)
    exact ⟨s₁, out₁, out₂, h₁, h₂, rfl⟩
  · rintro ⟨s₁, out₁, out₂, h₁, h₂, rfl⟩
    rw [runFrom, h₁, ok_bind]
    show (runFrom step s₁ is >>= _) = _
    rw [h₂]
    rfl

/-- A run over two lists of inputs is a run over the one and then a run over the other. -/
theorem runFrom_append_eq_ok {s s' : σ} {is js : List ι} {out : List ω} :
    runFrom step s (is ++ js) = .ok (s', out) ↔
      ∃ s₁ out₁ out₂, runFrom step s is = .ok (s₁, out₁) ∧ runFrom step s₁ js = .ok (s', out₂) ∧
        out = out₁ ++ out₂ := by
  induction is generalizing s out with
  | nil => simp
  | cons i is ih =>
    rw [List.cons_append, runFrom_cons_eq_ok]
    constructor
    · rintro ⟨s₁, o₁, o₂, h₁, h₂, rfl⟩
      obtain ⟨s₂, o₃, o₄, h₃, h₄, rfl⟩ := ih.1 h₂
      exact ⟨s₂, o₁ ++ o₃, o₄, runFrom_cons_eq_ok.2 ⟨s₁, o₁, o₃, h₁, h₃, rfl⟩, h₄, by simp⟩
    · rintro ⟨s₂, o, o₄, h, h₄, rfl⟩
      obtain ⟨s₁, o₁, o₃, h₁, h₃, rfl⟩ := runFrom_cons_eq_ok.1 h
      exact ⟨s₁, o₁, o₃ ++ o₄, h₁, ih.2 ⟨s₂, o₃, o₄, h₃, h₄, rfl⟩, by simp⟩

/-- **A run is stuck** where it comes to a state in which the next step is. -/
theorem runFrom_eq_error_iff {e : Fault} {is : List ι} : ∀ {s : σ},
    runFrom step s is = .error e ↔ ∃ before i after s' out, is = before ++ i :: after ∧
      runFrom step s before = .ok (s', out) ∧ step s' i = .error e := by
  induction is with
  | nil =>
    intro s
    refine iff_of_false (by simp) ?_
    rintro ⟨before, i, after, s', out, hsplit, -, -⟩
    exact absurd hsplit (by simp)
  | cons i is ih =>
    intro s
    rw [runFrom, bind_eq_error]
    constructor
    · rintro (hstep | ⟨⟨s₁, out₁⟩, hstep, hrest⟩)
      · exact ⟨[], i, is, s, [], rfl, rfl, hstep⟩
      · obtain hrun | ⟨⟨s₂, out₂⟩, -, hpure⟩ := bind_eq_error.1 hrest
        · obtain ⟨before, j, after, s', out, rfl, hbefore, hj⟩ := ih.1 hrun
          exact ⟨i :: before, j, after, s', out₁ ++ out, rfl,
            runFrom_cons_eq_ok.2 ⟨s₁, out₁, out, hstep, hbefore, rfl⟩, hj⟩
        · exact absurd hpure (by simp)
    · rintro ⟨_ | ⟨j, before⟩, k, after, s', out, hsplit, hbefore, hk⟩
      · obtain ⟨rfl, rfl⟩ := List.cons.inj hsplit
        obtain ⟨rfl, -⟩ := Prod.mk.inj (Except.ok.inj hbefore)
        exact .inl hk
      · obtain ⟨rfl, rfl⟩ := List.cons.inj hsplit
        obtain ⟨s₁, out₁, out₂, hstep, hrun, rfl⟩ := runFrom_cons_eq_ok.1 hbefore
        exact .inr ⟨_, hstep, bind_eq_error.2 (.inl
          (ih.2 ⟨before, k, after, s', out₂, rfl, hrun, hk⟩))⟩

/-- **The rule for runs with their output**: a relation between the state and everything put out so
far that every step preserves. -/
theorem runFrom_trace_invariant {P : σ → List ω → Prop}
    (hstep : ∀ s past i s' out, P s past → step s i = .ok (s', out) → P s' (past ++ out))
    (past : List ω) {s s' : σ} {is : List ι} {out : List ω} (hs : P s past)
    (hrun : runFrom step s is = .ok (s', out)) : P s' (past ++ out) := by
  induction is generalizing s past out with
  | nil =>
    obtain ⟨rfl, rfl⟩ := Prod.mk.inj (Except.ok.inj hrun)
    rwa [List.append_nil]
  | cons i is ih =>
    obtain ⟨s₁, out₁, out₂, h₁, h₂, rfl⟩ := runFrom_cons_eq_ok.1 hrun
    rw [← List.append_assoc]
    exact ih _ (hstep _ _ _ _ _ hs h₁) h₂

/-- **The rule for machines that are never stuck**, with a relation as above. -/
theorem exists_runFrom {P : σ → List ω → Prop}
    (hstep : ∀ s past i, P s past → ∃ s' out, step s i = .ok (s', out) ∧ P s' (past ++ out))
    (past : List ω) {s : σ} (hs : P s past) (is : List ι) :
    ∃ s' out, runFrom step s is = .ok (s', out) ∧ P s' (past ++ out) := by
  induction is generalizing s past with
  | nil => exact ⟨s, [], rfl, by rwa [List.append_nil]⟩
  | cons i is ih =>
    obtain ⟨s₁, out₁, h₁, hs₁⟩ := hstep s past i hs
    obtain ⟨s₂, out₂, h₂, hs₂⟩ := ih _ hs₁
    exact ⟨s₂, out₁ ++ out₂, runFrom_cons_eq_ok.2 ⟨s₁, out₁, out₂, h₁, h₂, rfl⟩, by
      rwa [← List.append_assoc]⟩

variable (step) in
/-- **The rule for counted loops**, with a relation that knows the number of steps taken. -/
theorem exists_runFrom_range {P : ℕ → σ → List ω → Prop} {f : ℕ → ι} {n : ℕ}
    (hstep : ∀ k < n, ∀ s past, P k s past →
      ∃ s' out, step s (f k) = .ok (s', out) ∧ P (k + 1) s' (past ++ out))
    (past : List ω) {s : σ} (hs : P 0 s past) :
    ∃ s' out, runFrom step s ((List.range n).map f) = .ok (s', out) ∧ P n s' (past ++ out) := by
  induction n with
  | zero => exact ⟨s, [], rfl, by rwa [List.append_nil]⟩
  | succ n ih =>
    obtain ⟨s₁, out₁, h₁, hs₁⟩ := ih fun k hk ↦ hstep k (Nat.lt_succ_of_lt hk)
    obtain ⟨s₂, out₂, h₂, hs₂⟩ := hstep n (Nat.lt_succ_self n) _ _ hs₁
    have hlast : runFrom step s₁ [f n] = .ok (s₂, out₂ ++ []) :=
      runFrom_cons_eq_ok.2 ⟨s₂, out₂, [], h₂, rfl, rfl⟩
    refine ⟨s₂, out₁ ++ (out₂ ++ []), ?_, ?_⟩
    · rw [List.range_succ, List.map_append]
      exact runFrom_append_eq_ok.2 ⟨s₁, out₁, _, h₁, hlast, rfl⟩
    · rwa [List.append_nil, ← List.append_assoc]

variable (step)

/-- Every step of the run meets the condition, which may look at the state before it. -/
def Along (P : σ → ι → Prop) (s : σ) : List ι → Prop
  | [] => True
  | i :: is => P s i ∧ ∀ s' out, step s i = .ok (s', out) → Along P s' is

variable {step}

theorem along_cons {P : σ → ι → Prop} {s s' : σ} {i : ι} {is : List ι} {out : List ω}
    (hstep : step s i = .ok (s', out)) : Along step P s (i :: is) ↔ P s i ∧ Along step P s' is := by
  refine and_congr_right fun _ ↦ ⟨fun h ↦ h s' out hstep, fun h s'' out' hstep' ↦ ?_⟩
  obtain ⟨rfl, -⟩ := Prod.mk.inj (Except.ok.inj (hstep.symm.trans hstep'))
  exact h

variable (step)

/-- The states of the runs from a given start. -/
def Reachable (start s : σ) : Prop :=
  ∃ is out, runFrom step start is = .ok (s, out)

variable {step}

theorem Reachable.refl (start : σ) : Reachable step start start :=
  ⟨[], [], rfl⟩

theorem Reachable.next {start s s' : σ} {i : ι} {out : List ω} (h : Reachable step start s)
    (hs : step s i = .ok (s', out)) : Reachable step start s' := by
  obtain ⟨is, past, hrun⟩ := h
  exact ⟨is ++ [i], past ++ out, runFrom_append_eq_ok.2
    ⟨s, past, out, hrun, runFrom_cons_eq_ok.2 ⟨s', out, [], hs, rfl, by simp⟩, rfl⟩⟩

end Machine

end EspBode
