import Col331.Logic.Prog

/-!
Refinement between programs over two states.

* `Refines R may ub x y`: run from states related by `R`, the program `x` returns what `y`
  returns, in related states again, and stops where `y` stops.  `x` may stop with the errors
  `may`, of which `y` knows nothing, and nothing is asked of it where `y` stops with `ub`, its
  code for a use outside its contract.
* `Refines.bind` and the other rules: programs built alike from refining parts refine.
* `Refines.wp`: what holds of `y` holds of `x`.
-/

namespace Col331

open Prog

variable {σ τ ε α β : Type} {R : σ → τ → Prop} {may : ε → Prop} {ub : ε}

/-- The program `x` does what `y` does. -/
def Refines (R : σ → τ → Prop) (may : ε → Prop) (ub : ε) (x : Prog σ ε α) (y : Prog τ ε α) : Prop :=
  ∀ s t, R s t → y t ≠ .error ub →
    Prog.wp x (fun a s' => ∃ t', y t = .ok (a, t') ∧ R s' t') (fun e => y t = .error e ∨ may e) s

namespace Refines

lemma pure (a : α) : Refines R may ub (Pure.pure a) (Pure.pure a) := fun _ t h _ => ⟨t, rfl, h⟩

lemma throw (e : ε) : Refines R may ub (throw e : Prog σ ε α) (MonadExcept.throw e) :=
  fun _ _ _ _ => .inl rfl

variable {y : Prog τ ε α} {x : Prog σ ε α}

/-- **Programs built alike from refining parts refine.** -/
lemma bind {f : α → Prog σ ε β} {g : α → Prog τ ε β}
    (h : Refines R may ub x y) (hfg : ∀ a, Refines R may ub (f a) (g a)) :
    Refines R may ub (x >>= f) (y >>= g) := by
  intro s t hR hub
  rw [wp_bind]
  cases hy : y t with
  | error e =>
    have hbind : (y >>= g) t = .error e := bind_error hy g
    rw [hbind] at hub ⊢
    refine wp_mono (h s t hR (by rw [hy]; simpa using hub)) ?_ ?_
    · rintro a s' ⟨t', ht', _⟩
      rw [hy] at ht'
      nomatch ht'
    · intro e' he'
      simpa [hy] using he'
  | ok r =>
    obtain ⟨b, t₁⟩ := r
    have hbind : (y >>= g) t = g b t₁ := bind_ok hy g
    rw [hbind] at hub ⊢
    refine wp_mono (h s t hR (by rw [hy]; simp)) ?_ ?_
    · rintro a s' ⟨t', ht', hR'⟩
      rw [hy, Except.ok.injEq, Prod.mk.injEq] at ht'
      obtain ⟨rfl, rfl⟩ := ht'
      exact hfg b s' t₁ hR' hub
    · rintro e' (he' | he')
      · rw [hy] at he'
        nomatch he'
      · exact .inr he'

lemma ret (h : Refines R may ub x y) (f : α → β) :
    Refines R may ub (x >>= fun a => Pure.pure (f a)) (y >>= fun a => Pure.pure (f a)) :=
  h.bind fun a => pure (f a)

/-- Programs that go on by whether there is a result. -/
lemma opt {x : Prog σ ε (Option α)} {y : Prog τ ε (Option α)} {f : Option α → Prog σ ε β}
    {g : Option α → Prog τ ε β} (h : Refines R may ub x y) (hn : Refines R may ub (f none) (g none))
    (hs : ∀ a, Refines R may ub (f (some a)) (g (some a))) : Refines R may ub (x >>= f) (y >>= g) :=
  h.bind fun
    | none => hn
    | some a => hs a

lemma map (h : Refines R may ub x y) (f : α → β) :
    Refines R may ub (f <$> x) (f <$> y) := by
  have hx : f <$> x = x >>= fun a => Pure.pure (f a) := map_eq_pure_bind f x
  have hy : f <$> y = y >>= fun a => Pure.pure (f a) := map_eq_pure_bind f y
  rw [hx, hy]
  exact h.ret f

lemma ite {c : Prop} [Decidable c] {x x' : Prog σ ε α} {y y' : Prog τ ε α}
    (h : Refines R may ub x y) (h' : Refines R may ub x' y') :
    Refines R may ub (if c then x else x') (if c then y else y') := by
  split_ifs
  · exact h
  · exact h'

/-- What holds of a program holds of one that refines it. -/
lemma wp (h : Refines R may ub x y) {s : σ} {t : τ}
    (hR : R s t) {Q : α → τ → Prop} {E : ε → Prop} (hy : Prog.wp y Q E t) (hE : ¬ E ub) :
    Prog.wp x (fun a s' => ∃ t', R s' t' ∧ Q a t') (fun e => E e ∨ may e) s := by
  have hub : y t ≠ .error ub := by
    intro hy'
    rw [wp_of_error hy'] at hy
    exact hE hy
  refine wp_mono (h s t hR hub) ?_ ?_
  · rintro a s' ⟨t', ht', hR'⟩
    exact ⟨t', hR', (wp_of_ok ht').mp hy⟩
  · rintro e (he | he)
    · exact .inl ((wp_of_error he).mp hy)
    · exact .inr he

end Refines

end Col331
