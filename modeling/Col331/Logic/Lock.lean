import Mathlib.Logic.Function.Basic

/-!
A lock among parties that each have a position.

* `Held l pc lock`: the lock is held by the party at a position where `l` says so, and by no other.
* `Held.move`, `Held.stay`, `Held.acquire`, `Held.release`: what becomes of that when a party moves.
-/

namespace Col331

open Function

variable {P C : Type} {l : C → Bool} {pc : P → C} {lock lock' : Option P} {p q : P} {c : C}

/-- The positions say who holds the lock. -/
def Held (l : C → Bool) (pc : P → C) (lock : Option P) : Prop := ∀ p, l (pc p) = true ↔ lock = some p

namespace Held

lemma eq (h : Held l pc lock) (hp : l (pc p) = true) (hq : l (pc q) = true) : p = q :=
  Option.some.inj (((h p).1 hp).symm.trans ((h q).1 hq))

variable [DecidableEq P]

/-- A party moves: what has to be shown of it. -/
lemma move (h : Held l pc lock) (hc : l c = true ↔ lock' = some p)
    (hq : ∀ q, q ≠ p → (lock' = some q ↔ lock = some q)) : Held l (update pc p c) lock' := by
  refine (forall_update_iff _ fun q x => l x = true ↔ lock' = some q).mpr ⟨hc, fun q hqp => ?_⟩
  rw [hq q hqp]
  exact h q

lemma stay (h : Held l pc lock) (hc : l c = l (pc p)) : Held l (update pc p c) lock :=
  h.move (by rw [hc]; exact h p) fun _ _ => Iff.rfl

lemma acquire (h : Held l pc lock) (hfree : lock = none) (hc : l c = true) :
    Held l (update pc p c) (some p) :=
  h.move (iff_of_true hc rfl) fun q hq => by simp [hfree, Ne.symm hq]

lemma release (h : Held l pc lock) (hp : l (pc p) = true) (hc : l c = false) :
    Held l (update pc p c) none :=
  h.move (by simp [hc]) fun q hq => by simp [(h p).1 hp, Ne.symm hq]

end Held

end Col331
