import EspBode.Foundations.Machine

/-!
# One machine in another

Two ways in which the runs of a machine are explained by another one. They are different because
what is to be explained is: in the first one a part of a machine is looked at, which works as it
would alone; in the second one the whole machine is described by a simpler one.

A machine **carries** a component if every step of it either leaves the component alone or is a step
of the component (`Carries`). A `View` says how the states, inputs and outputs of the machine show
the component. What the component puts out may be owed at first, and put out by later steps, because
the machine may do something else in between. A run of the machine is then a run of the component on
some of the inputs, in their order, and what the component has put out is what the machine has put
out of it, followed by what is still owed (`Carries.run`). The debt is part of the view, so that at
a state without debts the two are equal.

A machine **follows** a `Mealy` machine, which is never stuck and has no state but what matters, if
related states stay related and the same is seen (`Follows`). Then a run of the machine exists and
shows what the Mealy machine puts out (`Follows.run`); so such a machine is never stuck either. What
is seen is a partial function of the actions: the abstract machine need not speak of all of them.

The steps may be restricted to inputs of some kind, which is how assumptions about the environment
enter: they are conditions on single inputs, never on a run.
-/

namespace EspBode

namespace Machine

variable {σ τ ι κ ω α : Type*}

/-! ### Components -/

/-- How the states, inputs and outputs of a machine show a component of it. -/
structure View (σ τ ι κ ω α : Type*) where
  /-- The component. -/
  part : σ → τ
  /-- The input of the component that an input may be. -/
  input : ι → Option κ
  /-- The output of the component that an output may be. -/
  output : ω → Option α
  /-- What the component has put out and the machine has not. -/
  owed : σ → List α

/-- **Every step leaves the component alone or is a step of it.** -/
def Carries (step : Machine σ ι ω) (component : Machine τ κ α) (v : View σ τ ι κ ω α) : Prop :=
  ∀ ⦃s i s' out⦄, step s i = .ok (s', out) →
    v.part s' = v.part s ∧ out.filterMap v.output ++ v.owed s' = v.owed s ∨
      ∃ k out', v.input i = some k ∧ component (v.part s) k = .ok (v.part s', out') ∧
        out.filterMap v.output ++ v.owed s' = v.owed s ++ out'

/-- **A run of the machine is a run of the component.** -/
theorem Carries.run {step : Machine σ ι ω} {component : Machine τ κ α} {v : View σ τ ι κ ω α}
    (h : Carries step component v) {is : List ι} :
    ∀ {s s' : σ} {out : List ω}, runFrom step s is = .ok (s', out) →
      ∃ ks out', ks.Sublist (is.filterMap v.input) ∧
        runFrom component (v.part s) ks = .ok (v.part s', out') ∧
          out.filterMap v.output ++ v.owed s' = v.owed s ++ out' := by
  induction is with
  | nil =>
    intro s s' out hrun
    obtain ⟨rfl, rfl⟩ := Prod.mk.inj (Except.ok.inj hrun)
    exact ⟨[], [], .slnil, rfl, (List.append_nil _).symm⟩
  | cons i is ih =>
    intro s s' out hrun
    obtain ⟨s₁, out₁, out₂, hstep, hrest, rfl⟩ := runFrom_cons_eq_ok.1 hrun
    obtain ⟨ks, out', hks, hcomponent, hout⟩ := ih hrest
    have hskip : (is.filterMap v.input).Sublist ((i :: is).filterMap v.input) :=
      (List.sublist_cons_self i is).filterMap v.input
    obtain ⟨hpart, howed⟩ | ⟨k, out₃, hk, hstep', howed⟩ := h hstep
    · refine ⟨ks, out', hks.trans hskip, by rwa [← hpart], ?_⟩
      rw [List.filterMap_append, List.append_assoc, hout, ← List.append_assoc, howed]
    · refine ⟨k :: ks, out₃ ++ out', ?_,
        runFrom_cons_eq_ok.2 ⟨_, out₃, out', hstep', hcomponent, rfl⟩, ?_⟩
      · rw [List.filterMap_cons_some hk]
        exact hks.cons_cons k
      · rw [List.filterMap_append, List.append_assoc, hout, ← List.append_assoc, howed,
          List.append_assoc]

end Machine

/-! ### Machines that are never stuck -/

/-- A machine that is never stuck. -/
abbrev Mealy (τ ι ω : Type*) : Type _ :=
  τ → ι → τ × List ω

namespace Mealy

variable {σ τ ι κ ω α β : Type*}

/-- Feed a list of inputs; the result is the last state and everything put out. -/
def runFrom (step : Mealy τ ι ω) (t : τ) : List ι → τ × List ω
  | [] => (t, [])
  | i :: is =>
    let (t, out) := step t i
    let (t, out') := runFrom step t is
    (t, out ++ out')

theorem runFrom_cons (step : Mealy τ ι ω) (t : τ) (i : ι) (is : List ι) :
    runFrom step t (i :: is) =
      ((runFrom step (step t i).1 is).1, (step t i).2 ++ (runFrom step (step t i).1 is).2) :=
  rfl

/-- A run over two lists of inputs. -/
theorem runFrom_append (step : Mealy τ ι ω) (t : τ) (is js : List ι) :
    runFrom step t (is ++ js) =
      ((runFrom step (runFrom step t is).1 js).1,
        (runFrom step t is).2 ++ (runFrom step (runFrom step t is).1 js).2) := by
  induction is generalizing t with
  | nil => rfl
  | cons i is ih => rw [List.cons_append, runFrom_cons, ih, runFrom_cons, List.append_assoc]

/-- **The same is seen of both**, and related states stay related. -/
def Follows (machine : Machine σ κ α) (step : Mealy τ ι ω) (input : ι → κ)
    (output : α → Option β) (seen : ω → List β) (P : ι → Prop) (R : σ → τ → Prop) : Prop :=
  ∀ ⦃s t i⦄, R s t → P i → ∃ s' out, machine s (input i) = .ok (s', out) ∧ R s' (step t i).1 ∧
    out.filterMap output = (step t i).2.flatMap seen

theorem Follows.run {machine : Machine σ κ α} {step : Mealy τ ι ω} {input : ι → κ}
    {output : α → Option β} {seen : ω → List β} {P : ι → Prop} {R : σ → τ → Prop}
    (h : Follows machine step input output seen P R) {is : List ι} :
    ∀ {s : σ} {t : τ}, R s t → (∀ i ∈ is, P i) →
      ∃ s' out, Machine.runFrom machine s (is.map input) = .ok (s', out) ∧
        R s' (runFrom step t is).1 ∧
          out.filterMap output = (runFrom step t is).2.flatMap seen := by
  induction is with
  | nil => exact fun hs _ ↦ ⟨_, [], rfl, hs, rfl⟩
  | cons i is ih =>
    intro s t hs his
    obtain ⟨s₁, out₁, hstep, hs₁, hout₁⟩ := h hs (his i List.mem_cons_self)
    obtain ⟨s₂, out₂, hrun, hs₂, hout₂⟩ := ih hs₁ fun j hj ↦ his j (List.mem_cons_of_mem i hj)
    refine ⟨s₂, out₁ ++ out₂, Machine.runFrom_cons_eq_ok.2 ⟨s₁, out₁, out₂, hstep, hrun, rfl⟩,
      hs₂, ?_⟩
    rw [List.filterMap_append, hout₁, hout₂, runFrom, List.flatMap_append]

end Mealy

end EspBode
