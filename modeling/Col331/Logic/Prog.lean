import Mathlib.Tactic

/-!
Programs over a state that either return a value or stop, and rules of pre- and
postconditions for them.

* `Prog σ ε α`: code over a state `σ` that returns an `α` or stops with an `ε`; what a run of
  each construct gives (`Prog.bind_run` and the lemmas around it).
* `Prog.wp x Q E`: the states from which `x` either returns with `Q` or stops with `E`.
* `wp_bind`, `wp_forM`, `wp_mono`, `wp_and` and the rest: how the precondition of a program is computed from
  those of its parts.
* `Prog.Keeps f x`: the program leaves `f` of the state alone, as programs built from such parts do.
-/

namespace Col331

/-- Code over a state `σ` that returns an `α` or stops with an `ε`. -/
abbrev Prog (σ ε α : Type) := StateT σ (Except ε) α

namespace Prog

variable {σ ε α β : Type}

/-! ### Runs -/

@[simp] lemma pure_run (a : α) (s : σ) : (pure a : Prog σ ε α) s = .ok (a, s) := rfl

@[simp] lemma get_run (s : σ) : (get : Prog σ ε σ) s = .ok (s, s) := rfl

@[simp] lemma set_run (s' s : σ) : (set s' : Prog σ ε PUnit) s = .ok (PUnit.unit, s') := rfl

@[simp] lemma modify_run (f : σ → σ) (s : σ) :
    (modify f : Prog σ ε PUnit) s = .ok (PUnit.unit, f s) := rfl

@[simp] lemma throw_run (e : ε) (s : σ) : (throw e : Prog σ ε α) s = .error e := rfl

lemma bind_run (x : Prog σ ε α) (f : α → Prog σ ε β) (s : σ) :
    (x >>= f) s = match x s with
      | .ok (a, s') => f a s'
      | .error e => .error e := by
  change (x s >>= fun p => f p.1 p.2) = _
  rcases x s with e | ⟨a, s'⟩ <;> rfl

lemma map_run (f : α → β) (x : Prog σ ε α) (s : σ) :
    (f <$> x) s = match x s with
      | .ok (a, s') => .ok (f a, s')
      | .error e => .error e := by
  change (x s >>= fun p => pure (f p.1, p.2)) = _
  rcases x s with e | ⟨a, s'⟩ <;> rfl

/-- A program goes on from where its first part returns. -/
lemma bind_ok {x : Prog σ ε α} {s s' : σ} {a : α} (h : x s = .ok (a, s'))
    (f : α → Prog σ ε β) : (x >>= f) s = f a s' := by
  rw [bind_run, h]

/-- A program stops where its first part stops. -/
lemma bind_error {x : Prog σ ε α} {s : σ} {e : ε} (h : x s = .error e)
    (f : α → Prog σ ε β) : (x >>= f) s = .error e := by
  rw [bind_run, h]

/-- A run of two parts that returns passes through a state in between. -/
lemma bind_eq_ok {x : Prog σ ε α} {f : α → Prog σ ε β} {s s' : σ} {b : β}
    (h : (x >>= f) s = .ok (b, s')) : ∃ a s₁, x s = .ok (a, s₁) ∧ f a s₁ = .ok (b, s') := by
  rw [bind_run] at h
  rcases hx : x s with e | ⟨a, s₁⟩
  · rw [hx] at h
    nomatch h
  · rw [hx] at h
    exact ⟨a, s₁, rfl, h⟩

/-! ### Preconditions -/

/-- The states from which `x` returns with `Q` or stops with `E`. -/
def wp (x : Prog σ ε α) (Q : α → σ → Prop) (E : ε → Prop) (s : σ) : Prop :=
  match x s with
  | .ok (a, s') => Q a s'
  | .error e => E e

variable {x : Prog σ ε α} {Q : α → σ → Prop} {E : ε → Prop} {s : σ}

lemma wp_of_ok {a : α} {s' : σ} (h : x s = .ok (a, s')) : wp x Q E s ↔ Q a s' := by
  rw [wp, h]

lemma wp_of_error {e : ε} (h : x s = .error e) : wp x Q E s ↔ E e := by
  rw [wp, h]

/-- A program that cannot stop returns. -/
lemma wp.exists_ok (h : wp x Q E s) (hE : ∀ e, E e → False) : ∃ a s', x s = .ok (a, s') ∧ Q a s' := by
  rcases hx : x s with e | ⟨a, s'⟩
  · exact (hE e ((wp_of_error hx).mp h)).elim
  · exact ⟨a, s', rfl, (wp_of_ok hx).mp h⟩

@[simp] lemma wp_pure (a : α) : wp (pure a : Prog σ ε α) Q E s ↔ Q a s := Iff.rfl

@[simp] lemma wp_get {Q : σ → σ → Prop} : wp (get : Prog σ ε σ) Q E s ↔ Q s s := Iff.rfl

@[simp] lemma wp_set {Q : PUnit → σ → Prop} (s' : σ) :
    wp (set s' : Prog σ ε PUnit) Q E s ↔ Q ⟨⟩ s' := Iff.rfl

@[simp] lemma wp_modify {Q : PUnit → σ → Prop} (f : σ → σ) :
    wp (modify f : Prog σ ε PUnit) Q E s ↔ Q ⟨⟩ (f s) := Iff.rfl

@[simp] lemma wp_throw (e : ε) : wp (throw e : Prog σ ε α) Q E s ↔ E e := Iff.rfl

/-- **The rule for sequences**: the first part must lead to a state the second accepts. -/
@[simp] lemma wp_bind (x : Prog σ ε α) (f : α → Prog σ ε β) {Q : β → σ → Prop} :
    wp (x >>= f) Q E s ↔ wp x (fun a => wp (f a) Q E) E s := by
  rw [wp, wp, bind_run]
  rcases x s with e | ⟨a, s'⟩ <;> rfl

@[simp] lemma wp_map (f : α → β) (x : Prog σ ε α) {Q : β → σ → Prop} :
    wp (f <$> x) Q E s ↔ wp x (fun a => Q (f a)) E s := by
  rw [wp, wp, map_run]
  rcases x s with e | ⟨a, s'⟩ <;> rfl

lemma wp_mono {Q' : α → σ → Prop} {E' : ε → Prop} (h : wp x Q E s)
    (hQ : ∀ a s', Q a s' → Q' a s') (hE : ∀ e, E e → E' e) : wp x Q' E' s := by
  rw [wp] at *
  rcases hx : x s with e | ⟨a, s'⟩
  · rw [hx] at h
    exact hE e h
  · rw [hx] at h
    exact hQ a s' h

/-- The postcondition is weakened. -/
lemma wp_post {Q' : α → σ → Prop} (h : wp x Q E s) (hQ : ∀ a s', Q a s' → Q' a s') : wp x Q' E s :=
  wp_mono h hQ fun _ => id

/-- The rule for sequences, by a specification of the first part. -/
lemma wp_seq {f : α → Prog σ ε β} {Q' : β → σ → Prop} (h : wp x Q E s)
    (hf : ∀ a s', Q a s' → wp (f a) Q' E s') : wp (x >>= f) Q' E s :=
  (wp_bind x f).mpr (wp_post h hf)

/-- Two things that hold after a program hold together. -/
lemma wp_and {Q' : α → σ → Prop} {E' : ε → Prop} (h : wp x Q E s) (h' : wp x Q' E' s) :
    wp x (fun a s' => Q a s' ∧ Q' a s') (fun e => E e ∧ E' e) s := by
  rw [wp] at *
  rcases hx : x s with e | ⟨a, s'⟩
  · rw [hx] at h h'
    exact ⟨h, h'⟩
  · rw [hx] at h h'
    exact ⟨h, h'⟩

/-- **The rule for loops**: `I` relates the elements already visited to the state. -/
lemma wp_forM {ι : Type} {f : ι → Prog σ ε PUnit} {I : List ι → σ → Prop}
    (l done : List ι) (h : I done s)
    (hstep : ∀ before x after s', done ++ l = before ++ x :: after → I before s' →
      wp (f x) (fun _ s'' => I (before ++ [x]) s'') E s') :
    wp (l.forM f) (fun _ s' => I (done ++ l) s') E s := by
  induction l generalizing s done with
  | nil =>
    rw [List.append_nil]
    exact h
  | cons x l ih =>
    change wp (f x >>= fun _ => l.forM f) _ _ _
    rw [wp_bind]
    refine wp_mono (hstep done x l s rfl h) (fun _ s₁ h₁ => ?_) fun _ he => he
    have hcons : done ++ x :: l = (done ++ [x]) ++ l := by simp
    rw [hcons]
    exact ih (done ++ [x]) h₁ fun before y after s' hl => hstep before y after s' (hcons.trans hl)

/-! ### Frames -/

/-- The program leaves `f` of the state as it is. -/
def Keeps {γ : Type} (f : σ → γ) (x : Prog σ ε α) : Prop :=
  ∀ s, wp x (fun _ s' => f s' = f s) (fun _ => True) s

namespace Keeps

variable {γ : Type} {f : σ → γ} {y : Prog σ ε α}

lemma pure (a : α) : Keeps f (Pure.pure a : Prog σ ε α) := fun _ => rfl

lemma throw (e : ε) : Keeps f (throw e : Prog σ ε α) := fun _ => trivial

lemma modify {g : σ → σ} (h : ∀ s, f (g s) = f s) :
    Keeps f (modify g : Prog σ ε PUnit) := h

lemma bind {g : α → Prog σ ε β} (hx : Keeps f x) (hg : ∀ a, Keeps f (g a)) :
    Keeps f (x >>= g) := by
  intro s
  rw [wp_bind]
  refine wp_mono (hx s) (fun a s₁ h₁ => ?_) fun _ _ => trivial
  exact wp_mono (hg a s₁) (fun _ _ h₂ => h₂.trans h₁) fun _ _ => trivial

lemma get_bind {g : σ → Prog σ ε β} (hg : ∀ a, Keeps f (g a)) :
    Keeps f ((get : Prog σ ε σ) >>= g) := bind (fun _ => rfl) hg

lemma ite {c : Prop} [Decidable c] (hx : Keeps f x) (hy : Keeps f y) :
    Keeps f (if c then x else y) := by
  split_ifs
  · exact hx
  · exact hy

end Keeps

end Prog

end Col331
