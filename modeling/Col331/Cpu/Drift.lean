import Col331.Cpu.Steps
import Col331.Proc.Tree

/-!
What one process does to the others.

Whatever a process does to the process table, the others go on as they are, up to a few changes of
state: a sleeping process is woken up, a zombie is waited for, a slot is allocated, given back or
started.  None of these makes a process `RUNNING` or takes that state away.

* `Drift`: the changes of state.
* `ProcSys.Elsewhere`: every process but one drifts, and stays where it is in `fork` and `wait`.
-/

namespace Col331

open Function

/-- How the state of a process changes by what others do; `ready` if it may be started. -/
inductive Drift (ready : Prop) : ProcState → ProcState → Prop where
  | same (a : ProcState) : Drift ready a a
  | woken : Drift ready .sleeping .runnable
  | reaped : Drift ready .zombie .unused
  | alloc : Drift ready .unused .embryo
  | freed : Drift ready .embryo .unused
  | born (h : ready) : Drift ready .embryo .runnable

variable {ready : Prop}

variable {a b : ProcState}

lemma Drift.running_iff (h : Drift ready a b) : b = .running ↔ a = .running := by
  cases h <;> simp

lemma Drift.mono {ready' : Prop} (h : Drift ready a b) (hr : ready → ready') :
    Drift ready' a b := by
  cases h with
  | born hb => exact .born (hr hb)
  | _ => constructor

/-- A process that can be switched to, or will be, could before, unless it has just been made. -/
lemma Drift.waiting (h : Drift ready a b) (hb : b = .runnable ∨ b = .sleeping) :
    (a = .runnable ∨ a = .sleeping) ∨ ready ∧ a = .embryo := by
  cases h <;> simp_all

lemma Drift.slot (h : Drift ready a b) (hb : b.slot = .used ∨ b.slot = .zombie) :
    (a.slot = .used ∨ a.slot = .zombie) ∨ ready ∧ a = .embryo := by
  cases h <;> simp_all [ProcState.slot]

/-- The process sleeps on, or is woken up. -/
def Woken (a b : ProcState) : Prop := b = a ∨ a = .sleeping ∧ b = .runnable

lemma Woken.trans {a b c : ProcState} (h : Woken a b) (h' : Woken b c) : Woken a c := by
  rcases h with rfl | ⟨rfl, rfl⟩
  · exact h'
  · rcases h' with rfl | ⟨h', -⟩
    · exact .inr ⟨rfl, rfl⟩
    · simp at h'

lemma Woken.drift (h : Woken a b) : Drift ready a b := by
  rcases h with rfl | ⟨rfl, rfl⟩
  · exact .same _
  · exact .woken

lemma wakeup1_woken (t : ProcTable) (chan : Option ProcChan) (q : Fin nproc) :
    Woken (t q).state (wakeup1 t chan q).state := by
  rw [wakeup1]
  split_ifs with h
  · exact .inr ⟨h.1, rfl⟩
  · exact .inl rfl

lemma passOn_woken (p : Fin nproc) (t : ProcTable) (r q : Fin nproc) :
    Woken (t q).state (passOn p t r q).state := by
  have hset : (update t r { t r with parent := some initproc } q).state = (t q).state := by
    by_cases hq : q = r
    · subst hq
      rw [update_self]
    · rw [update_of_ne hq]
  unfold passOn
  by_cases hr : (t r).parent = some p
  · rw [if_pos hr]
    split_ifs
    · rw [← hset]
      exact wakeup1_woken ..
    · exact .inl hset
  · rw [if_neg hr]
    exact .inl rfl

lemma foldl_passOn_woken (p : Fin nproc) (t : ProcTable) (l : List (Fin nproc)) (q : Fin nproc) :
    Woken (t q).state (l.foldl (passOn p) t q).state := by
  induction l generalizing t with
  | nil => exact .inl rfl
  | cons r l ih => exact (passOn_woken p t r q).trans (ih (passOn p t r))

/-- `exit` wakes others up at most. -/
lemma exitSection_woken (t : ProcTable) {p q : Fin nproc} (hq : q ≠ p) :
    Woken (t q).state (exitSection t p q).state := by
  rw [exitSection, update_of_ne hq]
  exact (wakeup1_woken ..).trans (foldl_passOn_woken ..)

namespace ProcSys

variable {s t : ProcSys} {p q np : Fin nproc}

/-- The processes other than `own` drift. -/
structure Elsewhere (s t : ProcSys) (own : Option (Fin nproc)) : Prop where
  task : ∀ q, own ≠ some q → t.pc q = s.pc q
  state : ∀ q, own ≠ some q → Drift (∃ p, own = some p ∧ s.pc p = .ready q) (s.proc q).state
    (t.proc q).state

lemma Elsewhere.refl (s : ProcSys) (own : Option (Fin nproc)) : Elsewhere s s own :=
  ⟨fun _ _ => rfl, fun _ _ => .same _⟩

/-- A process changes its own slot. -/
lemma Elsewhere.own {v : Proc} {t : ProcSys} (hproc : t.proc = update s.proc p v)
    (hpc : ∀ q, q ≠ p → t.pc q = s.pc q) : Elsewhere s t (some p) := by
  refine ⟨fun q hq => hpc q ?_, fun q hq => ?_⟩
  · rintro rfl
    exact hq rfl
  · have hne : q ≠ p := by
      rintro rfl
      exact hq rfl
    rw [hproc, update_of_ne hne]
    exact .same _

/-- A process changes one slot, perhaps not its own. -/
lemma Elsewhere.edit {v : Proc} {c : ProcPc} (h : Edit s t np v p c)
    (hv : Drift (s.pc p = .ready np) (s.proc np).state v.state) : Elsewhere s t (some p) := by
  refine ⟨fun q hq => h.pc q ?_, fun q _ => ?_⟩
  · rintro rfl
    exact hq rfl
  · by_cases hq : q = np
    · subst hq
      rw [h.proc_self]
      exact hv.mono fun hr => ⟨p, rfl, hr⟩
    · rw [h.proc q hq]
      exact .same _

lemma Elsewhere.wakeup1 (chan : Option ProcChan) (own : Option (Fin nproc)) :
    Elsewhere s { s with proc := wakeup1 s.proc chan } own :=
  ⟨fun _ _ => rfl, fun q _ => (wakeup1_woken s.proc chan q).drift⟩

lemma Elsewhere.kill (pid : ℤ) (own : Option (Fin nproc)) : Elsewhere s (s.killStep pid) own := by
  refine ⟨fun _ _ => rfl, fun q _ => ?_⟩
  change Drift _ _ ((killProc s.proc pid).2 q).state
  rw [killProc]
  split
  · exact .same _
  · rename_i r _
    dsimp only
    by_cases hq : q = r
    · subst hq
      rw [update_self]
      split_ifs with h
      · rw [show (s.proc q).state = .sleeping from h]
        exact .woken
      · exact .same _
    · rw [update_of_ne hq]
      exact .same _

lemma Elsewhere.exit : Elsewhere s { s with proc := exitSection s.proc p } (some p) := by
  refine ⟨fun _ _ => rfl, fun q hq => (exitSection_woken s.proc ?_).drift⟩
  rintro rfl
  exact hq rfl

/-- What a round of `wait` does. -/
lemma Elsewhere.wait (p : Fin nproc) : Elsewhere s (s.waitStep p) (some p) := by
  have hgoto : ∀ {c q}, some p ≠ some q → update s.pc p c q = s.pc q := by
    intro c q hq
    refine update_of_ne ?_ ..
    rintro rfl
    exact hq rfl
  cases hw : waitScan s.proc p with
  | reaped q pid =>
    obtain ⟨hq, -, -⟩ := waitScan_reaped hw
    have hst : (s.proc q).state = .zombie := slot_eq_zombie.1 hq
    simp only [waitStep, hw]
    refine ⟨fun r hr => hgoto hr, fun r _ => ?_⟩
    dsimp only
    by_cases hrq : r = q
    · subst hrq
      rw [reap, update_self, hst]
      exact .reaped
    · rw [reap, update_of_ne hrq]
      exact .same _
  | failed =>
    simp only [waitStep, hw]
    exact ⟨fun r hr => hgoto hr, fun r _ => .same _⟩
  | sleeps =>
    simp only [waitStep, hw]
    exact Elsewhere.own rfl fun q hq => update_of_ne hq ..

lemma Elsewhere.alloc (p : Fin nproc) : Elsewhere s (s.allocStep p) (some p) := by
  rw [allocStep]
  split
  · exact .refl _ _
  · rename_i np hnp
    have hst : (s.proc np).state = .unused := by simpa using List.find?_some hnp
    refine Elsewhere.edit (edit_of_update rfl rfl) ?_
    rw [hst]
    exact .alloc

/-- `allocproc` leaves the process that calls it running. -/
lemma allocStep_state_self (hp : (s.proc p).state = .running) :
    ((s.allocStep p).proc p).state = .running := by
  rw [allocStep]
  split
  · exact hp
  · rename_i np hnp
    have hst : (s.proc np).state = .unused := by simpa using List.find?_some hnp
    have hne : p ≠ np := by
      rintro rfl
      simp [hp] at hst
    simpa [setProc, goto, hne] using hp

/-- What a step of `fork` does to the new slot. -/
lemma Elsewhere.next {memory : Bool} (h : s.Tree) (p : Fin nproc) :
    Elsewhere s (s.nextStep p memory) (some p) := by
  have hembryo : ∀ {np}, (s.pc p).child = some np → (s.proc np).state = .embryo := by
    intro np hchild
    have hslot := (h.child p np hchild).1
    rw [slot] at hslot
    cases hst : (s.proc np).state <;> simp_all [ProcState.slot]
  have hgoto : ∀ {c}, Elsewhere s (s.goto p c) (some p) := by
    refine ⟨fun q hq => update_of_ne ?_ .., fun _ _ => .same _⟩
    rintro rfl
    exact hq rfl
  rw [nextStep]
  split
  · exact .refl _ _
  · rename_i np hpc
    split_ifs
    · exact hgoto
    · exact Elsewhere.edit (edit_of_update rfl rfl) (by rw [hembryo (by rw [hpc]; rfl)]; exact .freed)
  · rename_i np hpc
    split_ifs
    · exact hgoto
    · exact Elsewhere.edit (edit_of_update rfl rfl) (by rw [hembryo (by rw [hpc]; rfl)]; exact .freed)
  · exact Elsewhere.edit (edit_of_update rfl rfl) (.same _)
  · rename_i np hpc
    exact Elsewhere.edit (edit_of_update rfl rfl) (by rw [hembryo (by rw [hpc]; rfl)]; exact .born hpc)
  · exact .wait p

/-- A step of `fork` changes the state of the new slot at most. -/
lemma nextStep_state {memory : Bool} (h : s.Tree) (hpc : s.pc p ≠ .wait) (hq : s.slot q ≠ .embryo) :
    ((s.nextStep p memory).proc q).state = (s.proc q).state := by
  have hne : ∀ {np}, (s.pc p).child = some np → q ≠ np := by
    rintro np hchild rfl
    exact hq (h.child p q hchild).1
  rw [nextStep]
  split
  · rfl
  · rename_i np he
    split_ifs
    · rfl
    · simp [setState, setProc, goto, hne (by rw [he]; rfl)]
  · rename_i np he
    split_ifs
    · rfl
    · simp [setState, setProc, goto, hne (by rw [he]; rfl)]
  · rename_i np he
    simp [setProc, goto, hne (by rw [he]; rfl)]
  · rename_i np he
    simp [setState, setProc, goto, hne (by rw [he]; rfl)]
  · rename_i he
    exact absurd he hpc

end ProcSys

end Col331
