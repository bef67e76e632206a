import Col331.Proc.Tree

/-!
Whether a process can be killed by a `kill` that was not aimed at it.

`kill` looks for a pid in all slots of the process table, unused ones too.  A slot that `wait` has
emptied has pid 0, and one that `fork` has given back still has the pid it was to get.  `allocproc`
does not clear `killed`, so that the next process in the slot inherits it.

* `ProcSys.Aimed`: the condition that no `kill` names the pid in an unused slot, and that no process is
  killed before a `fork` fails to make it.
* `killed_aimed`: under it, a process is killed by a `kill` with its pid or a fault of its own only.
* `kill_unused`: `kill(0)`, and what becomes of the next process.
-/

namespace Col331

open Function

namespace ProcSys

variable {s t : ProcSys} {p q np : Fin nproc}

/-- No unused slot has the pid that a `kill` names, and nobody has killed the process that a `fork`
fails to make. -/
def Aimed (s : ProcSys) : ProcAct → Prop
  | .kill _ pid => ∀ q, (s.proc q).state = .unused → (s.proc q).pid ≠ pid
  | .next p false => ∀ np, s.pc p = .stack np ∨ s.pc p = .copy np → (s.proc np).killed = false
  | _ => True

instance (s : ProcSys) : (a : ProcAct) → Decidable (s.Aimed a)
  | .kill _ pid => inferInstanceAs (Decidable (∀ q, (s.proc q).state = .unused → (s.proc q).pid ≠ pid))
  | .next p false =>
    inferInstanceAs (Decidable (∀ np, s.pc p = .stack np ∨ s.pc p = .copy np →
      (s.proc np).killed = false))
  | .next _ true | .run _ | .tidy _ | .yield _ | .sleep .. | .wakeup _ | .fault _ | .fork _ | .wait _ | .exit _ =>
    .isTrue trivial

/-- Unused slots are not marked as killed, and processes only if somebody is to blame. -/
structure Clean (s : ProcSys) : Prop where
  unused : ∀ q, s.slot q = .unused → (s.proc q).killed = false
  blamed : ∀ q, (s.proc q).killed = true → s.blamed q = true

/-- A step that kills nobody and empties no slot. -/
lemma Clean.congr (h : s.Clean) (hslot : ∀ q, t.slot q = .unused → s.slot q = .unused)
    (hkilled : ∀ q, (t.proc q).killed = (s.proc q).killed) (hblamed : t.blamed = s.blamed) :
    t.Clean := by
  refine ⟨fun q hq => ?_, fun q hq => ?_⟩
  · rw [hkilled]
    exact h.unused q (hslot q hq)
  · rw [hblamed]
    exact h.blamed q (hkilled q ▸ hq)

/-- One slot changes. -/
lemma Clean.update {v : Proc} (h : s.Clean) (hproc : t.proc = Function.update s.proc q v)
    (hblamed : ∀ r, r ≠ q → t.blamed r = s.blamed r) (hunused : v.state.slot = .unused → v.killed = false)
    (hv : v.killed = true → t.blamed q = true) : t.Clean := by
  refine ⟨fun r hr => ?_, fun r hr => ?_⟩
  · by_cases hrq : r = q
    · subst hrq
      simp only [slot, hproc, update_self] at hr ⊢
      exact hunused hr
    · simp only [slot, hproc, update_of_ne hrq] at hr ⊢
      exact h.unused r hr
  · by_cases hrq : r = q
    · subst hrq
      simp only [hproc, update_self] at hr
      exact hv hr
    · simp only [hproc, update_of_ne hrq] at hr
      rw [hblamed r hrq]
      exact h.blamed r hr

/-- A slot that stays in use, with `killed` as it was. -/
lemma Clean.setProc {v : Proc} (h : s.Clean) (hproc : t.proc = Function.update s.proc q v)
    (hblamed : t.blamed = s.blamed) (hused : v.state.slot ≠ .unused)
    (hkilled : v.killed = (s.proc q).killed) : t.Clean :=
  h.update hproc (fun r _ => congrFun hblamed r) (fun hv => absurd hv hused) fun hk => by
    rw [hblamed]
    exact h.blamed q (hkilled ▸ hk)

lemma Clean.alloc (h : s.Clean) : (s.allocStep p).Clean := by
  rw [allocStep]
  split
  · exact h
  · rename_i np hnp
    have hst : (s.proc np).state = .unused := by simpa using List.find?_some hnp
    have hk := h.unused np (by simp [slot, hst])
    exact h.update rfl (fun r hr => update_of_ne hr ..) (fun hv => by simp at hv)
      fun hv => by simp [hk] at hv

lemma Clean.waitStep (h : s.Clean) : (s.waitStep p).Clean := by
  rw [ProcSys.waitStep]
  split
  · exact h.update rfl (fun _ _ => rfl) (fun _ => rfl) fun hv => by simp at hv
  · exact h.congr (fun _ => id) (fun _ => rfl) rfl
  · exact h.setProc rfl rfl (by simp) rfl

lemma Clean.next {memory : Bool} (h : s.Clean) (htree : s.Tree) (ha : s.Aimed (.next p memory)) :
    (s.nextStep p memory).Clean := by
  have hfail : ∀ {np}, s.pc p = .stack np ∨ s.pc p = .copy np → memory = false →
      ((s.setState np .unused).goto p .user).Clean := by
    intro np hpc hm
    subst hm
    have hk := ha np hpc
    exact h.update rfl (fun _ _ => rfl) (fun _ => hk) fun hv => nomatch hk.symm.trans hv
  rw [nextStep]
  split
  · exact h
  · rename_i np hpc
    split_ifs with hm
    · exact h.congr (fun _ => id) (fun _ => rfl) rfl
    · exact hfail (.inl hpc) (by simpa using hm)
  · rename_i np hpc
    split_ifs with hm
    · exact h.congr (fun _ => id) (fun _ => rfl) rfl
    · exact hfail (.inr hpc) (by simpa using hm)
  · rename_i np hpc
    have hemb := (htree.child p np (by rw [hpc]; rfl)).1
    exact h.setProc rfl rfl (by rw [show ProcState.slot _ = _ from hemb]; simp) rfl
  · exact h.setProc rfl rfl (by simp) rfl
  · exact h.waitStep

/-- What `kill` finds. -/
lemma findPid_some {pid : ℤ} (h : findPid s.proc pid = some q) : (s.proc q).pid = pid := by
  simpa using List.find?_some h

/-- `kill` changes no unused slot. -/
lemma killProc_unused {pid : ℤ} (ha : s.Aimed (.kill p pid)) (hq : (s.proc q).state = .unused) :
    (killProc s.proc pid).2 q = s.proc q := by
  rw [killProc]
  split
  · rfl
  · rename_i r hr
    refine update_of_ne ?_ ..
    rintro rfl
    exact ha q hq (findPid_some hr)

lemma Clean.kill {pid : ℤ} (h : s.Clean) (ha : s.Aimed (.kill p pid)) : (s.killStep pid).Clean := by
  refine ⟨fun q hq => ?_, fun q hq => ?_⟩
  · have hst : (s.proc q).state = .unused := by
      rw [slot, killStep, (killProc_same s.proc q pid).1] at hq
      cases hs : (s.proc q).state <;> simp_all [ProcState.slot]
    change ((killProc s.proc pid).2 q).killed = false
    rw [killProc_unused ha hst]
    exact h.unused q (by simp [slot, hst])
  · simp only [killStep, Bool.or_eq_true]
    change ((killProc s.proc pid).2 q).killed = true at hq
    rw [killProc] at hq
    split at hq
    · exact .inl (h.blamed q hq)
    · rename_i r hr
      dsimp only at hq
      by_cases hqr : q = r
      · subst hqr
        have hne : (s.proc q).state ≠ .unused := fun hu => ha q hu (findPid_some hr)
        exact .inr (by simp [hne, findPid_some hr])
      · rw [update_of_ne hqr] at hq
        exact .inl (h.blamed q hq)

lemma Clean.step {a : ProcAct} (h : s.Clean) (htree : s.Tree) (ha : s.Promised a) (haim : s.Aimed a)
    (hs : s.step a = .ok t) : t.Clean := by
  have hrun : ∀ {p u}, ((s.proc p).state = .running → Clean u) → (s.whenRunning p u).Clean := by
    intro p u hu
    rw [whenRunning]
    split_ifs with hp
    · exact hu hp
    · exact h
  cases a with
  | run q =>
    cases hs
    split_ifs
    · exact h.setProc rfl rfl (by simp) rfl
    · exact h
  | tidy p =>
    cases hs
    exact hrun fun hp => h.setProc rfl rfl (by simp [hp]) rfl
  | yield p | sleep p a =>
    cases hs
    exact hrun fun _ => h.setProc rfl rfl (by simp) rfl
  | wakeup a =>
    cases hs
    exact h.congr (fun q hq => (wakeup1_same s.proc q _).slot.symm.trans hq)
      (fun q => (wakeup1_same s.proc q _).killed) rfl
  | fault p =>
    cases hs
    refine hrun fun hp => h.update rfl (fun r hr => update_of_ne hr ..) (fun hv => ?_)
      fun _ => update_self ..
    simp [hp] at hv
  | fork p =>
    cases hs
    refine hrun fun _ => ?_
    split_ifs
    · exact h.alloc
    · exact h
  | wait p =>
    cases hs
    refine hrun fun _ => ?_
    split_ifs
    · exact h.waitStep
    · exact h
  | exit p =>
    rw [ProcSys.step] at hs
    split_ifs at hs with hp hinit
    · cases hs
      refine h.congr (fun q hq => ?_) (fun q => (exitSection_same ..).2) rfl
      rw [slot, exitSection_slot] at hq
      split_ifs at hq
      exact hq
    · exact Except.ok.inj hs ▸ h
  | kill p pid =>
    cases hs
    exact hrun fun _ => h.kill haim
  | next p memory =>
    cases hs
    exact hrun fun _ => h.next htree haim

lemma boot_clean : boot.Clean := by
  have hkilled : ∀ q, (boot.proc q).killed = false := by
    intro q
    by_cases hq : q = initproc
    · subst hq
      simp [boot]
    · simp [boot, hq]
  exact ⟨fun q _ => hkilled q, fun q hq => absurd ((hkilled q).symm.trans hq) (by simp)⟩

end ProcSys

open ProcSys

/-- **A process is killed only by a `kill` aimed at it**, in every state that processes reach by steps
that are all `Aimed`: `kill` returns 0 only if a slot in use has the pid, it changes no unused slot,
and `killed` is set for a process only if, since its slot was handed out, a `kill` has named its pid
or it has faulted. -/
theorem killed_aimed (s : ProcSys)
    (h : Reach ProcSys.step (fun s a => s.Promised a ∧ s.Aimed a) ProcSys.boot s) :
    (∀ p pid, s.Aimed (.kill p pid) →
      ((killProc s.proc pid).1 = 0 → ∃ q, (s.proc q).state ≠ .unused ∧ (s.proc q).pid = pid) ∧
      ∀ q, (s.proc q).state = .unused → (killProc s.proc pid).2 q = s.proc q) ∧
    ∀ q, (s.proc q).state ≠ .unused → (s.proc q).killed = true → s.blamed q = true := by
  have hinv : s.Tree ∧ s.Clean := by
    refine h.invariant (I := fun s => s.Tree ∧ s.Clean) ⟨boot_tree.1, boot_clean⟩ ?_
    rintro s a t ⟨htree, hclean⟩ ⟨ha, haim⟩ hs
    exact ⟨htree.move (move_of_step ha hs), hclean.step htree ha haim hs⟩
  refine ⟨fun p pid haim => ⟨fun hret => ?_, fun q hq => killProc_unused haim hq⟩,
    fun q _ hk => hinv.2.blamed q hk⟩
  rw [killProc] at hret
  split at hret
  · simp at hret
  · rename_i q hq
    exact ⟨q, fun hu => haim q hu (findPid_some hq), findPid_some hq⟩

/-- `init` kills a child, waits for it and forks another one, which gets the same slot. -/
def killAndFork : List ProcAct := List.flatten
  [[.run 0, .fork 0], List.replicate 4 (.next 0 true), [.kill 0 2, .run 1, .exit 1, .wait 0, .fork 0]]

theorem killed_aimed_killAndFork : ∃ s,
    Reach ProcSys.step (fun s a => s.Promised a ∧ s.Aimed a) ProcSys.boot s ∧
      ((s.proc 1).state ≠ .unused ∧ (s.proc 1).pid = 3 ∧ s.blamed 1 = false) ∧
      (s.proc 1).killed = false := by
  obtain ⟨s, hreach, hval⟩ : ∃ s, Reach ProcSys.step (fun s a => s.Promised a ∧ s.Aimed a)
      ProcSys.boot s ∧ (s.proc 1).state ≠ .unused ∧ (s.proc 1).pid = 3 ∧ s.blamed 1 = false :=
    Reach.of_test killAndFork (by decide +kernel)
  refine ⟨s, hreach, hval, Bool.eq_false_iff.mpr fun hk => ?_⟩
  have hb := (killed_aimed s hreach).2 1 hval.1 hk
  simp [hval.2.2] at hb

/-- **A `kill` that hits the wrong process**: `kill(0)` of `init` returns 0, though only unused slots
have pid 0, and the child that `init` forks then is marked as killed, though nobody is to blame. -/
theorem kill_unused :
    (∃ s, Reach ProcSys.step ProcSys.Promised ProcSys.boot s ∧ (s.proc 0).state = .running ∧
      (killProc s.proc 0).1 = 0 ∧ (∀ q, (s.proc q).state ≠ .unused → (s.proc q).pid ≠ 0) ∧
      ∃ q, (s.proc q).state = .unused ∧ (killProc s.proc 0).2 q ≠ s.proc q) ∧
    ∃ s, Reach ProcSys.step ProcSys.Promised ProcSys.boot s ∧ (s.proc 1).state = .runnable ∧
      (s.proc 1).pid = 2 ∧ (s.proc 1).killed = true ∧ s.blamed 1 = false :=
  ⟨Reach.of_test [.run 0] (by decide +kernel),
    Reach.of_test ([.run 0, .kill 0 0, .fork 0] ++ List.replicate 4 (.next 0 true)) (by decide +kernel)⟩

end Col331
