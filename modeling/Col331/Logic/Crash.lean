import Mathlib.Tactic

/-!
Stores that are written one cell at a time, and what a crash between two writes leaves behind.

* `applyWrites ws d`: the store `d` after the writes `ws`; which cells change
  (`applyWrites_of_notMem`, `applyWrites_of_mem`) and that writing a list again after some of it
  has been written gives the same store (`applyWrites_redo`).
* `crashAfter ws k d`: the store when the machine stops after the first `k` writes.
* `Recovers rec d d'`: a recovery procedure that issues the writes `rec d` on the store `d`,
  started again after each crash, ends with `d'`.  `Recovers.induct` is its invariant rule.
-/

namespace Col331

open Function

variable {A V : Type} [DecidableEq A]

/-! ### Writes -/

/-- The store after a list of writes. -/
def applyWrites : List (A × V) → (A → V) → A → V
  | [], d => d
  | w :: ws, d => applyWrites ws (update d w.1 w.2)

@[simp] lemma applyWrites_nil (d : A → V) : applyWrites [] d = d := rfl

@[simp] lemma applyWrites_cons (w : A × V) (ws : List (A × V)) (d : A → V) :
    applyWrites (w :: ws) d = applyWrites ws (update d w.1 w.2) := rfl

lemma applyWrites_append (ws vs : List (A × V)) (d : A → V) :
    applyWrites (ws ++ vs) d = applyWrites vs (applyWrites ws d) := by
  induction ws generalizing d with
  | nil => rfl
  | cons w ws ih => exact ih _

variable {ws : List (A × V)}

/-- A cell that is not written keeps its value. -/
lemma applyWrites_of_notMem {a : A} (h : ∀ w ∈ ws, w.1 ≠ a) (d : A → V) :
    applyWrites ws d a = d a := by
  induction ws generalizing d with
  | nil => rfl
  | cons w ws ih =>
    rw [applyWrites_cons, ih (fun v hv => h v (List.mem_cons_of_mem w hv))]
    exact update_of_ne (h w List.mem_cons_self).symm _ _

/-- A cell that is written, always with the same value, holds that value. -/
lemma applyWrites_of_mem {a : A} {v : V} (hmem : ∃ w ∈ ws, w.1 = a)
    (hval : ∀ w ∈ ws, w.1 = a → w.2 = v) (d : A → V) : applyWrites ws d a = v := by
  induction ws generalizing d with
  | nil =>
    obtain ⟨w, hw, _⟩ := hmem
    nomatch hw
  | cons w ws ih =>
    rw [applyWrites_cons]
    by_cases hrest : ∃ u ∈ ws, u.1 = a
    · exact ih hrest (fun u hu => hval u (List.mem_cons_of_mem w hu)) _
    · -- the first write is the only one to this cell
      have hnot : ∀ u ∈ ws, u.1 ≠ a := fun u hu hua => hrest ⟨u, hu, hua⟩
      obtain ⟨u, hu, hua⟩ := hmem
      rcases List.mem_cons.mp hu with rfl | hu'
      · rw [applyWrites_of_notMem hnot, ← hua, update_self]
        exact hval u List.mem_cons_self hua
      · exact absurd hua (hnot u hu')

/-- Two stores that agree on a cell, or a list that writes it: the cell ends the same. -/
lemma applyWrites_congr {d e : A → V} {a : A}
    (h : (∃ w ∈ ws, w.1 = a) ∨ d a = e a) : applyWrites ws d a = applyWrites ws e a := by
  induction ws generalizing d e with
  | nil =>
    rcases h with ⟨w, hw, _⟩ | h
    · nomatch hw
    · exact h
  | cons w ws ih =>
    rw [applyWrites_cons, applyWrites_cons]
    apply ih
    by_cases hw : w.1 = a
    · right
      rw [← hw, update_self, update_self]
    · rcases h with ⟨u, hu, hua⟩ | h
      · rcases List.mem_cons.mp hu with rfl | hu'
        · exact absurd hua hw
        · exact .inl ⟨u, hu', hua⟩
      · right
        rw [update_of_ne (Ne.symm hw), update_of_ne (Ne.symm hw), h]

/-- **Redo**: writing a list again after a part of it has been written changes nothing. -/
lemma applyWrites_redo (ws : List (A × V)) (k : ℕ) (d : A → V) :
    applyWrites ws (applyWrites (ws.take k) d) = applyWrites ws d := by
  funext a
  apply applyWrites_congr
  by_cases h : ∃ w ∈ ws, w.1 = a
  · exact .inl h
  · right
    exact applyWrites_of_notMem (fun w hw hwa => h ⟨w, List.mem_of_mem_take hw, hwa⟩) d

/-! ### Crashes and recovery -/

/-- The store a crash after the first `k` writes leaves. -/
def crashAfter (ws : List (A × V)) (k : ℕ) (d : A → V) : A → V := applyWrites (ws.take k) d

/-- Recovery with the writes `rec d` on a store `d`, crashed and started again any number of
times until it completes. -/
inductive Recovers (rec : (A → V) → List (A × V)) : (A → V) → (A → V) → Prop where
  | complete (d : A → V) : Recovers rec d (applyWrites (rec d) d)
  | crash {d d' : A → V} (k : ℕ) : Recovers rec (crashAfter (rec d) k d) d' → Recovers rec d d'

/-- **The invariant rule for recovery**: what every crash of the recovery keeps, and what a
complete recovery turns into `F`, is `F` at the end. -/
lemma Recovers.induct {rec : (A → V) → List (A × V)} {I F : (A → V) → Prop}
    (hcrash : ∀ d k, I d → I (crashAfter (rec d) k d))
    (hdone : ∀ d, I d → F (applyWrites (rec d) d)) {d d' : A → V}
    (h : Recovers rec d d') (hI : I d) : F d' := by
  induction h with
  | complete d => exact hdone d hI
  | crash k _ ih => exact ih (hcrash _ k hI)

end Col331
