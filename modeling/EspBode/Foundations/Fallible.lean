import Mathlib.Tactic.Common

/-!
# Fallible computations

The reasons for which a run can be stuck, and what is needed to reason about sequences of checked
operations in `Except`. `Fault` is an enumeration of what the language leaves undefined, an index
outside its block and a null pointer used as a string, and of the one reason that belongs to the
model alone, a loop that has used up its fuel.

There are three groups of lemmas:

* **equations that step through a sequence**. A first operation that succeeds hands its value on,
  one that fails ends the sequence, and a sequence that succeeds did so step by step
  (`bind_eq_ok`), as one that fails did at a certain step (`bind_eq_error`). No proof unfolds the
  monad;
* **which faults are possible**. `FailsOnly P x` says that every fault of `x` has the property `P`,
  and composes, so that the faults of a function are found from those of its parts;
* **simulation**. `Simulates R x y` compares two computations: `x` fails exactly as `y` does, and
  where `y` has a value `x` has one that is related to it. It is what a refinement proof states at
  each step, and `Simulates.bind` chains the steps; a step that only one side takes is
  `Simulates.ok_bind_left`.

Simulation is used with the faithful model on the left and the abstract one on the right. Because
faults agree exactly, a result about when the abstract side fails is one about the faithful side
(`Simulates.eq_error_iff`), and so is one about its values (`Simulates.of_eq_ok`).
-/

namespace EspBode

/-- Why a run is stuck: what the language leaves undefined, and the end of a loop's fuel. -/
inductive Fault
  /-- A buffer was accessed at an index that is not below its size. -/
  | index
  /-- A null pointer was used as a string. -/
  | nullPointer
  /-- A loop of the model used up its fuel. -/
  | outOfFuel
  deriving DecidableEq, Repr

universe u

variable {ε : Type*} {α β : Type u}

@[simp]
theorem ok_bind (a : α) (f : α → Except ε β) : (Except.ok a >>= f) = f a :=
  rfl

@[simp]
theorem error_bind (e : ε) (f : α → Except ε β) : (Except.error e >>= f) = .error e :=
  rfl

@[simp]
theorem pure_eq_ok (a : α) : (pure a : Except ε α) = .ok a :=
  rfl

@[simp]
theorem map_ok (f : α → β) (a : α) : (f <$> (Except.ok a : Except ε α)) = .ok (f a) :=
  rfl

theorem map_eq_bind (f : α → β) (x : Except ε α) : f <$> x = x >>= fun a ↦ .ok (f a) := by
  rcases x with e | a <;> rfl

/-- A sequence succeeds exactly when its first operation does and the rest does with its value. -/
theorem bind_eq_ok {x : Except ε α} {f : α → Except ε β} {r : β} :
    (x >>= f) = .ok r ↔ ∃ a, x = .ok a ∧ f a = .ok r := by
  rcases x with e | a
  · simp
  · simp

/-- A sequence fails exactly where its first operation does, or the rest with its value. -/
theorem bind_eq_error {x : Except ε α} {f : α → Except ε β} {e : ε} :
    (x >>= f) = .error e ↔ x = .error e ∨ ∃ a, x = .ok a ∧ f a = .error e := by
  rcases x with e' | a
  · simp
  · simp

theorem map_eq_error {f : α → β} {x : Except ε α} {e : ε} :
    f <$> x = .error e ↔ x = .error e := by
  rw [map_eq_bind, bind_eq_error]
  exact or_iff_left fun ⟨_, _, h⟩ ↦ absurd h (by simp)

/-- A value of a mapped computation comes from one of the computation. -/
theorem exists_of_map_eq_ok {f : α → β} {x : Except ε α} {b : β} (h : f <$> x = .ok b) :
    ∃ a, x = .ok a ∧ f a = b := by
  rw [map_eq_bind] at h
  obtain ⟨a, ha, hb⟩ := bind_eq_ok.1 h
  exact ⟨a, ha, Except.ok.inj hb⟩

/-! ### Which faults are possible -/

/-- Every fault of the computation has the property. -/
def FailsOnly (P : ε → Prop) (x : Except ε α) : Prop :=
  ∀ e, x = .error e → P e

namespace FailsOnly

variable {P : ε → Prop}

theorem ok (a : α) : FailsOnly P (.ok a : Except ε α) :=
  fun _ h ↦ absurd h (by simp)

theorem error {e : ε} (h : P e) : FailsOnly P (.error e : Except ε α) :=
  fun _ he ↦ Except.error.inj he ▸ h

/-- A sequence has the faults of its parts. -/
theorem bind {x : Except ε α} {f : α → Except ε β} (h : FailsOnly P x)
    (hf : ∀ a, FailsOnly P (f a)) : FailsOnly P (x >>= f) := by
  rcases x with e | a
  · exact .error (h e rfl)
  · exact hf a

theorem map {x : Except ε α} (f : α → β) (h : FailsOnly P x) : FailsOnly P (f <$> x) := by
  rw [map_eq_bind]
  exact h.bind fun _ ↦ ok _

end FailsOnly

/-! ### Simulation -/

/-- The first computation fails as the second one does, and otherwise their values are related. -/
def Simulates (R : α → β → Prop) (x : Except ε α) (y : Except ε β) : Prop :=
  match y with
  | .error e => x = .error e
  | .ok b => ∃ a, x = .ok a ∧ R a b

namespace Simulates

variable {α' β' : Type u} {R : α → β → Prop} {R' : α' → β' → Prop}

theorem ok {a : α} {b : β} (h : R a b) : Simulates R (.ok a : Except ε α) (.ok b) :=
  ⟨a, rfl, h⟩

theorem error (e : ε) : Simulates R (.error e) (.error e) :=
  rfl

/-- Computations that simulate each other up to here and from here on do so altogether. -/
theorem bind {x : Except ε α} {y : Except ε β} {f : α → Except ε α'} {g : β → Except ε β'}
    (h : Simulates R x y) (hfg : ∀ a b, R a b → Simulates R' (f a) (g b)) :
    Simulates R' (x >>= f) (y >>= g) := by
  rcases y with e | b
  · obtain rfl : x = .error e := h
    exact error e
  · obtain ⟨a, rfl, hab⟩ := h
    exact hfg a b hab

/-- A step that only the first computation takes. -/
theorem ok_bind_left {x : Except ε α} {y : Except ε β'} {f : α → Except ε α'} {a : α}
    (hx : x = .ok a) (h : Simulates R' (f a) y) : Simulates R' (x >>= f) y := by
  rw [hx]
  exact h

theorem mono {S : α → β → Prop} {x : Except ε α} {y : Except ε β} (h : Simulates R x y)
    (hRS : ∀ a b, R a b → S a b) : Simulates S x y := by
  rcases y with e | b
  · exact h
  · obtain ⟨a, ha, hab⟩ := h
    exact ⟨a, ha, hRS a b hab⟩

/-- Where the second computation has a value, so has the first. -/
theorem of_eq_ok {x : Except ε α} {y : Except ε β} (h : Simulates R x y) {b : β} (hy : y = .ok b) :
    ∃ a, x = .ok a ∧ R a b := by
  subst hy
  exact h

/-- Where the first computation has a value, so has the second. -/
theorem exists_of_eq_ok {x : Except ε α} {y : Except ε β} (h : Simulates R x y) {a : α}
    (hx : x = .ok a) : ∃ b, y = .ok b ∧ R a b := by
  rcases y with e | b
  · exact absurd (hx.symm.trans h) (by simp)
  · obtain ⟨a', ha', hab⟩ := h
    obtain rfl := Except.ok.inj (hx.symm.trans ha')
    exact ⟨b, rfl, hab⟩

/-- The two fail alike. -/
theorem eq_error_iff {x : Except ε α} {y : Except ε β} (h : Simulates R x y) {e : ε} :
    x = .error e ↔ y = .error e := by
  rcases y with e' | b
  · obtain rfl : x = .error e' := h
    simp
  · obtain ⟨a, rfl, -⟩ := h
    simp

end Simulates

end EspBode
