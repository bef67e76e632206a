import Mathlib.Tactic

/-!
Systems that take one action after another, an action being able to stop the system with an
error.

* `Reach step ok s₀ s`: the state `s` is reached from `s₀` by actions that each meet the
  condition `ok` in the state they are taken in.
* `Reach.invariant`: the invariant rule for runs.
* `Inevitable`, `Inevitable.of_measure`: what comes about in whatever order the actions are taken.
* `runChecked`, `Reach.of_test`, `Reach.advance` and `stopsWith`: runs of given actions, by
  evaluation.
-/

namespace Col331

/-- Runs that show something need two parties. -/
instance neZero_two : NeZero 2 := ⟨by decide⟩

variable {S A E : Type} {step : S → A → Except E S} {ok : S → A → Prop} {s₀ s : S}

/-- The states reached from `s₀` by actions that meet `ok`. -/
inductive Reach (step : S → A → Except E S) (ok : S → A → Prop) (s₀ : S) : S → Prop where
  | init : Reach step ok s₀ s₀
  | next {s s' : S} (a : A) : Reach step ok s₀ s → ok s a → step s a = .ok s' →
      Reach step ok s₀ s'

/-- **The invariant rule**: what holds at the start and is kept by every action holds in every
state reached. -/
lemma Reach.invariant {I : S → Prop} (hinit : I s₀)
    (hstep : ∀ s a s', I s → ok s a → step s a = .ok s' → I s')
    (h : Reach step ok s₀ s) : I s := by
  induction h with
  | init => exact hinit
  | next a _ hok hs ih => exact hstep _ a _ ih hok hs

/-- Fewer actions reach fewer states. -/
lemma Reach.mono {ok' : S → A → Prop} (hok : ∀ s a, ok s a → ok' s a)
    (h : Reach step ok s₀ s) : Reach step ok' s₀ s := by
  induction h with
  | init => exact .init
  | next a _ ha hs ih => exact .next a ih (hok _ a ha) hs

/-- Whichever of the actions that meet `ok` and change the state are taken, and in whatever order, `goal`
holds after finitely many of them; until then there is one that can be taken. -/
inductive Inevitable (step : S → A → Except E S) (ok : A → Prop) (goal : S → Prop) : S → Prop where
  | now {s : S} : goal s → Inevitable step ok goal s
  | later {s : S} : (∃ a s', ok a ∧ step s a = .ok s' ∧ s' ≠ s) →
      (∀ a s', ok a → step s a = .ok s' → s' ≠ s → Inevitable step ok goal s') →
      Inevitable step ok goal s

/-- **The rule for what comes about**: under an invariant, every action that changes the state makes
`μ` smaller, and there is one as long as `goal` does not hold. -/
lemma Inevitable.of_measure {ok goal : _ → Prop} {I : S → Prop} (μ : S → ℕ)
    (hkeep : ∀ s (a : A) s', I s → ok a → step s a = .ok s' → I s')
    (hless : ∀ s a s', I s → ok a → step s a = .ok s' → s' ≠ s → μ s' < μ s)
    (hmove : ∀ s, I s → ¬goal s → ∃ a s', ok a ∧ step s a = .ok s' ∧ s' ≠ s) (h : I s) :
    Inevitable step ok goal s := by
  induction hn : μ s using Nat.strong_induction_on generalizing s with
  | _ n ih =>
    by_cases hgoal : goal s
    · exact .now hgoal
    · refine .later (hmove s h hgoal) fun a s' ha hs hne => ?_
      exact ih (μ s') (hn ▸ hless s a s' h ha hs hne) (hkeep s a s' h ha hs) rfl

/-- The state after the actions `as`, if they all meet `ok` and none stops the system. -/
def runChecked (step : S → A → Except E S) (ok : S → A → Prop) [∀ s a, Decidable (ok s a)] :
    List A → S → Option S
  | [], s => some s
  | a :: as, s =>
    if ok s a then
      match step s a with
      | .ok s' => runChecked step ok as s'
      | .error _ => none
    else none

lemma Reach.of_runChecked [∀ s a, Decidable (ok s a)] {as : List A} {s' : S}
    (h : Reach step ok s₀ s) (hrun : runChecked step ok as s = some s') :
    Reach step ok s₀ s' := by
  induction as generalizing s with
  | nil =>
    rw [runChecked, Option.some.injEq] at hrun
    exact hrun ▸ h
  | cons a as ih =>
    rw [runChecked] at hrun
    split_ifs at hrun with hok
    cases hs : step s a with
    | error e => simp [hs] at hrun
    | ok s₁ =>
      rw [hs] at hrun
      exact ih (.next a h hok hs) hrun

/-- What a test finds after the actions `as`, by evaluation. -/
lemma Reach.of_test [∀ s a, Decidable (ok s a)] (as : List A) {Q : S → Prop}
    (h : ∃ s ∈ runChecked step ok as s₀, Q s) : ∃ s, Reach step ok s₀ s ∧ Q s :=
  h.imp fun _ h => ⟨Reach.init.of_runChecked h.1, h.2⟩

/-- The state after the action `a`, or the same state if it stops the system. -/
def advance (step : S → A → Except E S) (s : S) (a : A) : S :=
  match step s a with
  | .ok s' => s'
  | .error _ => s

/-- One action more, by evaluation; the condition `ok` is shown by hand. -/
lemma Reach.advance {a : A} (h : Reach step ok s₀ s) (hok : ok s a)
    (hrun : (step s a).toBool = true) : Reach step ok s₀ (advance step s a) := by
  rw [Col331.advance]
  cases hs : step s a with
  | error e => simp [hs, Except.toBool] at hrun
  | ok s' => exact .next a h hok hs

/-- A test for the error an action stops with. -/
def stopsWith [DecidableEq E] (e : E) : Except E S → Bool
  | .error e' => e' = e
  | .ok _ => false

lemma stopsWith_eq_true [DecidableEq E] {e : E} {x : Except E S} (h : stopsWith e x = true) :
    x = .error e := by
  cases x with
  | error e' => rw [of_decide_eq_true h]
  | ok s => exact absurd h (by simp [stopsWith])

end Col331
