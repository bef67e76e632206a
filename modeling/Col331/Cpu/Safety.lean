import Col331.Cpu.Invariant

/-!
No two CPUs run the same process, and no CPU runs on memory that has been freed.

* `CpuSys.sysStep_of_step`: a step of a CPU is a step of the processes, or does not concern them.
* `Inv.step`: every step keeps the invariant.
* `reach_sys`: **the CPUs refine the processes**.
* `sched_safe`: **scheduling safety, in every run**.
-/

namespace Col331

open Function

namespace CpuSys

variable {C : Type} {s t : CpuSys C} {c c' : C} {p q np : Fin nproc}

/-! ### The processes -/

/-- The process table changes as `ProcSys.step` says, or not at all. -/
def SysStep (s t : CpuSys C) : Prop :=
  t.sys = s.sys ∨ ∃ b, s.sys.Promised b ∧ s.sys.step b = .ok t.sys

lemma SysStep.tree (h : SysStep s t) (hs : s.sys.Tree) : t.sys.Tree := by
  rcases h with he | ⟨b, hb, hstep⟩
  · exact he ▸ hs
  · exact hs.move (ProcSys.move_of_step hb hstep)

lemma SysStep.of {b : ProcAct} (hb : s.sys.Promised b) (h : s.sys.step b = .ok t.sys) : SysStep s t :=
  .inr ⟨b, hb, h⟩

/-- What a process does because it is running. -/
lemma SysStep.running {b : ProcAct} {u : ProcSys} (hp : s.state p = .running) (hb : s.sys.Promised b)
    (h : s.sys.step b = .ok (s.sys.whenRunning p u)) (hu : u = t.sys) : SysStep s t := by
  rw [ProcSys.whenRunning, if_pos hp, hu] at h
  exact .of hb h

/-- What happens to others does not stop a process that runs. -/
lemma running_of_elsewhere {u : ProcSys} (hel : s.sys.Elsewhere u none) (hp : s.state p = .running) :
    (u.proc p).state = .running :=
  ((hel.state p (by simp)).running_iff).2 hp

variable [DecidableEq C]

variable {memory : Bool}

lemma sysStep_user (hp : s.state p = .running) : SysStep s (s.userStep c p memory) := by
  have hnext : ∀ (b : Bool) (t : CpuSys C), s.sys.nextStep p b = t.sys → SysStep s t :=
    fun b t => .running (b := .next p b) hp trivial rfl
  rw [userStep]
  split
  · split_ifs
    · exact hnext true _ rfl
    · exact hnext false _ rfl
  · split_ifs
    · exact hnext true _ rfl
    · exact hnext false _ rfl
  · exact hnext true _ rfl
  · exact .inl rfl
  · exact .inl rfl
  · exact .inl rfl

lemma waitStep_sys (s : CpuSys C) (c : C) (p : Fin nproc) : (s.waitStep c p).sys = s.sys.waitStep p := by
  rw [waitStep]
  split <;> rfl

lemma sysStep_crit {o : CpuOp} (hp : s.state p = .running) (ho : Doing (s.sys.pc p) o)
    (hs : s.critStep c p o = .ok t) : SysStep s t := by
  cases o with
  | yield =>
    cases hs
    exact .running (b := .yield p) hp trivial rfl rfl
  | sleep a =>
    cases hs
    exact .running (b := .sleep p a) hp trivial rfl rfl
  | wait =>
    cases hs
    rcases ho with ho | ⟨⟨⟩, -⟩ | ⟨-, ho⟩
    · refine .running (b := .wait p) hp trivial rfl ?_
      rw [if_pos (by simpa [may] using ho), waitStep_sys]
    · refine .running (b := .next p true) hp trivial rfl ?_
      rw [waitStep_sys, ProcSys.nextStep, ho]
  | exit =>
    rw [critStep] at hs
    split_ifs at hs with hinit
    cases hs
    refine .of (b := .exit p) hinit ?_
    rw [ProcSys.step, if_pos ⟨hp, by simpa [may] using ho.may (by simp) (by simp)⟩, if_neg hinit]
    rfl
  | kill pid =>
    cases hs
    exact .running (b := .kill p pid) hp trivial rfl rfl
  | wakeup a =>
    cases hs
    exact .of (b := .wakeup a) trivial rfl
  | alloc =>
    cases hs
    exact .running (b := .fork p) hp trivial rfl (if_pos (by simpa [may] using ho.may (by simp) (by simp)))
  | start =>
    cases hs
    exact .running (b := .next p true) hp trivial rfl rfl

/-- **A step of a CPU is a step of the processes**, or does not concern them. -/
lemma sysStep_of_step {a : CpuAct C} (h : s.Inv) (hs : s.step a = .ok t) : SysStep s t := by
  cases a with
  | op c o =>
    rw [step] at hs
    split at hs
    · cases hs
      split_ifs <;> exact .inl rfl
    · cases hs
      exact .inl rfl
  | irq c a =>
    cases hs
    split_ifs <;> exact .inl rfl
  | fault c =>
    rw [step] at hs
    split at hs
    · rename_i p hpc
      cases hs
      exact .running (b := .fault p) (h.at hpc).2.1 trivial rfl rfl
    · cases hs
      exact .inl rfl
  | next c memory =>
    rw [step] at hs
    have hcpu := h.cpu c
    have hacq : ∀ {x}, SysStep s (s.acquire c x) := by
      intro x
      rw [acquire]
      split_ifs <;> exact .inl rfl
    generalize hpc : s.pc c = x at hs hcpu
    cases x with
    | idle | intr a | want p o =>
      exact Except.ok.inj hs ▸ hacq
    | intrLocked a =>
      cases hs
      exact .of (b := .wakeup a) trivial rfl
    | scan i =>
      rw [← Except.ok.inj hs, scanStep]
      split_ifs <;> exact .inl rfl
    | chosen p | marked p | back p | cleared p =>
      cases hs
      exact .inl rfl
    | loaded p =>
      cases hs
      exact .of (b := .run p) trivial (by rw [ProcSys.step, if_pos hcpu.2]; rfl)
    | user p =>
      exact Except.ok.inj hs ▸ sysStep_user hcpu.2.1
    | crit p o =>
      exact sysStep_crit hcpu.2.1 hcpu.2.2 hs
    | sched p k =>
      rw [nextStep, schedStep] at hs
      split_ifs at hs
      cases hs
      exact .inl rfl
    | resumed p k =>
      have htidy : ∀ u : CpuSys C, (s.tidy p).sys = u.sys → SysStep s u :=
        fun u => .running (b := .tidy p) hcpu.2.1 trivial rfl
      cases k with
      | forkret | yield => exact Except.ok.inj hs ▸ .inl rfl
      | sleep | wait => exact Except.ok.inj hs ▸ htidy _ rfl
      | exit => cases hs

/-! ### Steps with the lock -/

/-- A process gives up its CPU: it goes on in `sched`. -/
lemma Inv.toSched {u : ProcSys} {k : Resume} (h : s.Inv) (hl : (s.pc c).locked = true) (hp : s.Has c p)
    (hel : s.sys.Elsewhere u (some p)) (htree : u.Tree) (hst : (u.proc p).state = k.state)
    (hfit : k ≠ .exit → Fits (u.pc p) k) (hpc : u.pc p = s.sys.pc p ∨ u.pc p = .wait) :
    ((s.onSys u).goto c (.sched p k)).Inv := by
  refine h.go rfl rfl rfl rfl (hp.cur ▸ hel) (fun hu => by simp [hl] at hu) (.of_eq rfl rfl rfl) htree
    (h.lock.goto rfl rfl hl.symm) ⟨{ hp with }, hst, hfit⟩ fun q hq => ?_
  obtain rfl := hp.eq hq
  refine ⟨fun hr => ?_, fun _ hno => ?_, fun np hnp => ?_, fun np hnp => ?_⟩
  · have : k.state = .running := hst.symm.trans hr
    cases k <;> simp at this
  · exact absurd (update_self ..) (hno k)
  · change u.pc p = _ ∨ u.pc p = _ ∨ u.pc p = _ at hnp
    rcases hpc with e | e <;> rw [e] at hnp
    · exact h.stack p np hnp
    · simp at hnp
  · change u.pc p = _ ∨ u.pc p = _ at hnp
    rcases hpc with e | e <;> rw [e] at hnp
    · exact h.space p np hnp
    · simp at hnp

/-- A process releases the lock and goes on. -/
lemma Inv.toUser (h : s.Inv) (hl : (s.pc c).locked = true) (hp : s.Has c p)
    (hpc : t.pc = update s.pc c (.user p)) (hlock : t.lock = none) (hcur : t.cur = s.cur)
    (hcr3 : t.cr3 = s.cr3) (hloop : t.loop = s.loop) (hel : s.sys.Elsewhere t.sys (some p))
    (htree : t.sys.Tree) (hst : t.state p = .running) (hkept : Kept s t (some p))
    (hat : t.sys.pc p = .user ∨ (∃ np, t.sys.pc p = .stack np) ∨ s.sys.pc p ≠ .wait ∧
      t.sys.pc p = s.sys.pc p ∧ t.context = s.context ∧ t.kstack = s.kstack ∧ t.pgdir = s.pgdir) :
    t.Inv := by
  have hwait : t.sys.pc p ≠ .wait := by
    rcases hat with e | ⟨np, e⟩ | ⟨hw, e, -⟩
    · simp [e]
    · simp [e]
    · rwa [e]
  refine h.go hpc hcur hcr3 hloop (hp.cur ▸ hel) (fun hu => by simp [hl] at hu) (hp.cur ▸ hkept) htree
    (h.lock.release hpc hl hlock rfl)
    ⟨⟨hcur ▸ hp.cur, hcr3 ▸ hp.cr3, hloop ▸ hp.loop⟩, hst, hwait⟩ fun q hq => ?_
  obtain rfl := hp.eq hq
  refine ⟨fun _ => by rw [hpc, update_self]; rfl, fun hs => by simp [hst] at hs,
    fun np hnp => ?_, fun np hnp => ?_⟩
  all_goals rcases hat with e | ⟨np', e⟩ | ⟨-, e, hc, hk, hd⟩
  on_goal 3 =>
    rw [hk, hc]
    exact h.stack p np (e ▸ hnp)
  on_goal 5 =>
    rw [hd]
    exact h.space p np (e ▸ hnp)
  all_goals simp [e] at hnp

/-- A round of `wait`. -/
lemma Inv.wait (h : s.Inv) (hpc : s.pc c = .crit p .wait) (htree : (s.sys.waitStep p).Tree) :
    (s.waitStep c p).Inv := by
  have hcpu := h.at hpc
  have hl : (s.pc c).locked = true := by rw [hpc]; rfl
  have hel : s.sys.Elsewhere (s.sys.waitStep p) (some p) := .wait p
  rw [waitStep]
  cases hw : waitScan s.sys.proc p with
  | reaped q pid =>
    have hzombie : s.sys.slot q = .zombie := (ProcSys.waitScan_reaped hw).1
    have hpq : p ≠ q := by
      rintro rfl
      simp [ProcSys.slot, hcpu.2.1] at hzombie
    have hproc : (s.sys.waitStep p).proc = reap s.sys.proc q := by
      simp only [ProcSys.waitStep, hw]
    have hself : (s.sys.waitStep p).pc p = .user := by
      simp [ProcSys.waitStep, hw, ProcSys.goto]
    refine h.toUser hl hcpu.1 rfl rfl rfl rfl rfl hel htree ?_ ⟨fun _ _ _ => rfl, ?_, ?_⟩ (.inl hself)
    · change ((s.sys.waitStep p).proc p).state = _
      rw [hproc, reap, update_of_ne hpq]
      exact hcpu.2.1
    · intro r np _ hchild
      have hne : np ≠ q := by
        rintro rfl
        have hemb := (h.tree.child r np hchild).1
        simp [hzombie] at hemb
      exact ⟨update_of_ne hne .., rfl, update_of_ne hne ..⟩
    · intro r _ hr
      have hne : r ≠ q := by
        rintro rfl
        change ((s.sys.waitStep p).proc r).state.slot = _ ∨ ((s.sys.waitStep p).proc r).state.slot = _
          at hr
        rw [hproc, reap, update_self] at hr
        simp at hr
      exact ⟨update_of_ne hne .., update_of_ne hne ..⟩
  | failed =>
    have hself : (s.sys.waitStep p).pc p = .user := by
      simp [ProcSys.waitStep, hw, ProcSys.goto]
    refine h.toUser hl hcpu.1 rfl rfl rfl rfl rfl hel htree ?_ (.of_eq rfl rfl rfl) (.inl hself)
    simp only [ProcSys.waitStep, hw]
    exact hcpu.2.1
  | sleeps =>
    have hself : (s.sys.waitStep p).pc p = .wait := by
      simp [ProcSys.waitStep, hw, ProcSys.goto]
    refine h.toSched hl hcpu.1 hel htree ?_ (fun _ => ?_) (.inr hself)
    · simp [ProcSys.waitStep, hw, ProcSys.goto, ProcSys.setProc]
    · rw [hself]
      exact ⟨by simp, by simp⟩

/-- What a process does with the lock. -/
lemma Inv.crit {o : CpuOp} (h : s.Inv) (hpc : s.pc c = .crit p o) (hs : s.critStep c p o = .ok t) :
    t.Inv := by
  have hcpu := h.at hpc
  have hl : (s.pc c).locked = true := by rw [hpc]; rfl
  have htree := (sysStep_crit hcpu.2.1 hcpu.2.2 hs).tree h.tree
  have hout : o ≠ .start → o ≠ .wait → s.sys.pc p ≠ .wait := by
    intro hstart hne he
    have hm := hcpu.2.2.may hstart hne
    rw [he] at hm
    cases o <;> simp [may] at hm hne
  cases o with
  | yield =>
    cases hs
    refine h.toSched hl hcpu.1 (.own rfl fun _ _ => rfl) htree ?_
      (fun _ => ⟨by simp, iff_of_false (by simp) (hout (by simp) (by simp))⟩) (.inl rfl)
    simp [ProcSys.setState, ProcSys.setProc]
  | sleep a =>
    cases hs
    refine h.toSched hl hcpu.1 (.own rfl fun _ _ => rfl) htree ?_
      (fun _ => ⟨by simp, iff_of_false (by simp) (hout (by simp) (by simp))⟩) (.inl rfl)
    simp [ProcSys.setProc]
  | wait =>
    rw [← Except.ok.inj hs, waitStep_sys] at htree
    cases hs
    exact h.wait hpc htree
  | exit =>
    rw [critStep] at hs
    split_ifs at hs with hinit
    cases hs
    refine h.toSched hl hcpu.1 .exit htree ?_ (fun hne => absurd rfl hne) (.inl rfl)
    simp [exitSection]
  | kill pid =>
    cases hs
    exact h.toUser hl hcpu.1 rfl rfl rfl rfl rfl (.kill pid _) htree
      (running_of_elsewhere (.kill pid none) hcpu.2.1) (.of_eq rfl rfl rfl)
      (.inr (.inr ⟨hout (by simp) (by simp), rfl, rfl, rfl, rfl⟩))
  | wakeup a =>
    cases hs
    exact h.toUser hl hcpu.1 rfl rfl rfl rfl rfl (.wakeup1 _ _) htree
      (running_of_elsewhere (.wakeup1 _ none) hcpu.2.1) (.of_eq rfl rfl rfl)
      (.inr (.inr ⟨hout (by simp) (by simp), rfl, rfl, rfl, rfl⟩))
  | alloc =>
    cases hs
    have huser : s.sys.pc p = .user := by
      simpa [may] using hcpu.2.2.may (by simp) (by simp)
    refine h.toUser hl hcpu.1 rfl rfl rfl rfl rfl (.alloc p) htree ?_ (.of_eq rfl rfl rfl) ?_
    · exact ProcSys.allocStep_state_self hcpu.2.1
    · change (s.sys.allocStep p).pc p = _ ∨ (∃ np, (s.sys.allocStep p).pc p = _) ∨ _
      rw [ProcSys.allocStep]
      split
      · exact .inl huser
      · rename_i np _
        exact .inr (.inl ⟨np, by simp [ProcSys.goto]⟩)
  | start =>
    cases hs
    obtain ⟨np, hready⟩ : ∃ np, s.sys.pc p = .ready np := by
      rcases hcpu.2.2 with hm | ⟨-, hr⟩ | ⟨⟨⟩, -⟩
      · simp [may] at hm
      · exact hr
    refine h.toUser hl hcpu.1 rfl rfl rfl rfl rfl (.next h.tree p) htree ?_ (.of_eq rfl rfl rfl)
      (.inl ?_)
    · change ((s.sys.nextStep p true).proc p).state = _
      rw [ProcSys.nextStep_state h.tree (by simp [hready])]
      · exact hcpu.2.1
      · simp [ProcSys.slot, hcpu.2.1]
    · change (s.sys.nextStep p true).pc p = _
      simp [ProcSys.nextStep, hready, ProcSys.goto]

/-! ### Steps of `fork` without the lock -/

/-- A step of `fork`: `p` gets from `x` to `y`, and memory of its child at most changes. -/
lemma Inv.forkStep {y : ProcPc} (h : s.Inv) (hpc : s.pc c = .user p)
    (hsys : t.sys = s.sys.nextStep p memory) (htpc : t.pc = s.pc) (hlock : t.lock = s.lock)
    (hcur : t.cur = s.cur) (hcr3 : t.cr3 = s.cr3) (hloop : t.loop = s.loop)
    (hkept : Kept s t (some p)) (hy : t.sys.pc p = y) (hwait : y ≠ .wait)
    (hstack : ∀ np, y = .copy np ∨ y = .parent np ∨ y = .ready np →
      t.kstack np = true ∧ t.context np = .forkret)
    (hspace : ∀ np, y = .parent np ∨ y = .ready np → t.pgdir np = true) : t.Inv := by
  have hcpu := h.at hpc
  have hstill : ∀ q, s.InUse q → t.state q = s.state q := by
    intro q hq
    rw [state, hsys]
    refine ProcSys.nextStep_state h.tree hcpu.2.2 ?_
    rcases hq with e | e <;> simp [e]
  have hst : t.state p = .running := by
    rw [hstill p ((h.cpu c).inUse_of_cur hcpu.1.cur)]
    exact hcpu.2.1
  have htree : t.sys.Tree := SysStep.tree (s := s)
    (.running (b := .next p memory) hcpu.2.1 trivial rfl hsys.symm) h.tree
  have hupd : t.pc = update s.pc c (.user p) := by
    rw [htpc, ← hpc, update_eq_self]
  refine h.go hupd hcur hcr3 hloop (by rw [hcpu.1.cur, hsys]; exact .next h.tree p)
    (fun _ q _ hq => hstill q hq) (hcpu.1.cur ▸ hkept) htree
    (h.lock.goto hupd hlock (by rw [hpc]))
    ⟨⟨hcur ▸ hcpu.1.cur, hcr3 ▸ hcpu.1.cr3, hloop ▸ hcpu.1.loop⟩, hst, hy ▸ hwait⟩ fun q hq => ?_
  obtain rfl := hcpu.1.eq hq
  exact ⟨fun _ => by rw [hupd, update_self]; rfl, fun hs => by simp [hst] at hs,
    fun np hnp => hstack np (hy ▸ hnp), fun np hnp => hspace np (hy ▸ hnp)⟩

/-- A process goes on in `fork`. -/
lemma Inv.user (h : s.Inv) (hpc : s.pc c = .user p) :
    (s.userStep c p memory).Inv := by
  have hcpu := h.at hpc
  rw [userStep]
  split
  · rename_i np he
    have hkept := Kept.of_child (t := { s.onSys (s.sys.nextStep p true) with
        kstack := update s.kstack np true
        context := update s.context np .forkret }) h.tree (by rw [he]; rfl) (by simp [he])
      fun q hq => ⟨update_of_ne hq .., update_of_ne hq .., rfl⟩
    split_ifs
    · refine h.forkStep (y := .copy np) hpc rfl rfl rfl rfl rfl rfl hkept ?_ (by simp) ?_ (by simp)
      · simp [onSys, ProcSys.nextStep, he, ProcSys.goto]
      · rintro r (e | e | e) <;> cases e
        exact ⟨update_self .., update_self ..⟩
    · refine h.forkStep (y := .user) hpc rfl rfl rfl rfl rfl rfl (.of_eq rfl rfl rfl) ?_ (by simp)
        (by simp) (by simp)
      simp [onSys, ProcSys.nextStep, he, ProcSys.goto]
  · rename_i np he
    split_ifs
    · refine h.forkStep (y := .parent np) hpc rfl rfl rfl rfl rfl rfl
        (.of_child h.tree (by rw [he]; rfl) (by simp [he])
          fun q hq => ⟨rfl, rfl, update_of_ne hq ..⟩) ?_ (by simp) ?_ ?_
      · simp [onSys, ProcSys.nextStep, he, ProcSys.goto]
      · rintro r (e | e | e) <;> cases e
        exact h.stack p np (.inl he)
      · rintro r (e | e) <;> cases e
        exact update_self ..
    · refine h.forkStep (y := .user) hpc rfl rfl rfl rfl rfl rfl
        (.of_child h.tree (by rw [he]; rfl) (by simp [he])
          fun q hq => ⟨update_of_ne hq .., rfl, rfl⟩) ?_ (by simp) (by simp) (by simp)
      simp [onSys, ProcSys.nextStep, he, ProcSys.goto]
  · rename_i np he
    refine h.forkStep (y := .ready np) hpc rfl rfl rfl rfl rfl rfl (.of_eq rfl rfl rfl) ?_ (by simp) ?_ ?_
    · simp [onSys, ProcSys.nextStep, he, ProcSys.goto]
    · rintro r (e | e | e) <;> cases e
      exact h.stack p np (.inr (.inl he))
    · rintro r (e | e) <;> cases e
      exact h.space p np (.inl he)
  · rename_i np he
    refine h.light rfl (h.lock.goto rfl rfl (by rw [hpc]; rfl))
      ⟨{ hcpu.1 with }, hcpu.2.1, .inr (.inl ⟨rfl, np, he⟩)⟩ (fun q hq _ => ?_)
      (by simp [hpc])
    exact hcpu.1.cur.symm.trans hq
  · exact h
  · exact h

/-! ### Steps of the scheduler -/

section

variable (h : s.Inv)

include h

lemma Inv.acquire {x : CpuPc} (hx : x.locked = true) (hl : (s.pc c).locked = false)
    (hcpu : ∀ t : CpuSys C, t.sys = s.sys → t.cur = s.cur → t.cr3 = s.cr3 → t.loop = s.loop →
      t.CpuOk c x) (hrun : ∀ p, s.cur c = some p → x.runs = some p) : (s.acquire c x).Inv := by
  rw [CpuSys.acquire]
  split_ifs with hnone
  · refine h.light rfl (h.lock.acquire rfl hnone rfl hx)
      (hcpu _ rfl rfl rfl rfl) (fun p hp _ => hrun p hp) fun p k hk => ?_
    simp [hk, CpuPc.locked] at hl
  · exact h

/-- The loop of `scheduler` looks at one slot. -/
lemma Inv.scan {i : ℕ} (hpc : s.pc c = .scan i) : (s.scanStep c i).Inv := by
  have hcpu := h.at hpc
  have hl : (s.pc c).locked = true := by rw [hpc]; rfl
  have hnone : ∀ p, s.cur c ≠ some p := fun p hp => by simp [hcpu.1] at hp
  rw [scanStep]
  split_ifs with hi hst
  · refine h.of_frame (c := c) ⟨⟨fun c' hc => update_of_ne hc ..,
      fun c' hc => update_of_ne hc .., fun _ _ => rfl, fun c' hc => update_of_ne hc ..⟩,
      .refl _ _, fun _ _ _ _ => rfl, .of_eq rfl rfl rfl⟩ h.tree
      (h.lock.goto rfl rfl hl.symm) ?_ (fun p hp => .inr ⟨hl, ?_⟩) fun p hp => absurd hp (hnone p)
    · simp only [CpuSys.goto, update_self]
      exact ⟨⟨update_self .., hcpu.2, update_self ..⟩, hst⟩
    · obtain rfl : ⟨i, hi⟩ = p := by simpa [CpuSys.goto] using hp
      exact hst
  · exact h.light rfl (h.lock.goto rfl rfl hl.symm) hcpu
      (fun p hp => absurd hp (hnone p)) (by simp [hpc])
  · exact h.light rfl (h.lock.release rfl hl rfl rfl) hcpu
      (fun p hp => absurd hp (hnone p)) (by simp [hpc])

/-- `swtch` in `sched`. -/
lemma Inv.sched {k : Resume} (hpc : s.pc c = .sched p k) (hs : s.schedStep c p k = .ok t) :
    t.Inv := by
  have hcpu := h.at hpc
  have hl : (s.pc c).locked = true := by rw [hpc]; rfl
  have huse := (h.cpu c).inUse_of_cur hcpu.1.cur
  rw [schedStep] at hs
  split_ifs at hs
  cases hs
  refine h.go rfl rfl rfl rfl (.refl _ _) (fun _ _ _ _ => rfl) ⟨fun q hq _ => ?_, fun r np _ hr => ?_,
    fun _ _ _ => ⟨rfl, rfl⟩⟩ h.tree (h.lock.goto rfl rfl hl.symm) ?_ fun q hq => ?_
  · refine update_of_ne ?_ ..
    rintro rfl
    exact hq hcpu.1.cur
  · refine ⟨rfl, update_of_ne ?_ .., rfl⟩
    rintro rfl
    have hemb := (h.tree.child r np hr).1
    rw [InUse, hemb] at huse
    simp at huse
  · rw [hcpu.1.loop]
    refine ⟨⟨hcpu.1.cur, hcpu.1.cr3⟩, ?_⟩
    change Left (s.state p)
    rw [hcpu.2.1]
    cases k <;> simp [Left]
  · obtain rfl := hcpu.1.eq hq
    refine ⟨fun hr => ?_, fun hst _ => ?_, fun np hnp => ?_, fun np hnp => h.space p np hnp⟩
    · have : k.state = .running := hcpu.2.1.symm.trans hr
      cases k <;> simp at this
    · simp only [CpuSys.goto, update_self]
      refine hcpu.2.2 ?_
      rintro rfl
      change s.state p = _ ∨ s.state p = _ at hst
      simp [hcpu.2.1] at hst
    · obtain ⟨h₁, h₂⟩ := h.stack p np hnp
      refine ⟨h₁, ?_⟩
      have hne : np ≠ p := by
        rintro rfl
        have hemb := (h.tree.child np np (by rcases hnp with e | e | e <;> exact e ▸ rfl)).1
        rw [InUse, hemb] at huse
        simp at huse
      exact (update_of_ne hne ..).trans h₂

/-- `switchuvm(p)`. -/
lemma Inv.chosen (hpc : s.pc c = .chosen p) :
    ({ s with cr3 := update s.cr3 c (some p) }.goto c (.loaded p)).Inv := by
  have hcpu := h.at hpc
  refine h.of_frame (c := c) ⟨⟨fun c' hc => update_of_ne hc .., fun _ _ => rfl,
    fun c' hc => update_of_ne hc .., fun _ _ => rfl⟩, .refl _ _, fun _ _ _ _ => rfl,
    .of_eq rfl rfl rfl⟩ h.tree (h.lock.goto rfl rfl (by rw [hpc]; rfl)) ?_ (fun q hq => .inl hq)
    fun q hq => h.own hq rfl rfl rfl rfl rfl (fun hr => ?_) (by simp [hpc])
  · simp only [CpuSys.goto, update_self]
    exact ⟨⟨hcpu.1.1, update_self .., hcpu.1.2.2⟩, hcpu.2⟩
  · obtain rfl : p = q := Option.some.inj (hcpu.1.1.symm.trans hq)
    simp [hcpu.2] at hr

/-- `p->state = RUNNING`. -/
lemma Inv.loaded (hpc : s.pc c = .loaded p) (htree : (s.sys.setState p .running).Tree) :
    ((s.onSys (s.sys.setState p .running)).goto c (.marked p)).Inv := by
  have hcpu := h.at hpc
  have hst : ((s.sys.setState p .running).proc p).state = .running := by
    simp [ProcSys.setState, ProcSys.setProc]
  refine h.go rfl rfl rfl rfl (by rw [hcpu.1.cur]; exact .own rfl fun _ _ => rfl)
    (fun hl => by simp [hpc, CpuPc.locked] at hl) (.of_eq rfl rfl rfl) htree
    (h.lock.goto rfl rfl (by rw [hpc]; rfl)) ⟨{ hcpu.1 with }, hst, ?_⟩
    fun q hq => ?_
  · exact h.saved p (.inl hcpu.2) (h.not_sched hcpu.1.cur (by simp [hpc]))
  · obtain rfl := hcpu.1.eq hq
    refine ⟨fun _ => ?_, fun hs => ?_, h.stack p, h.space p⟩
    · simp only [CpuSys.goto, update_self]
      rfl
    · change ((s.sys.setState p .running).proc p).state = _ ∨ ((s.sys.setState p .running).proc p).state = _
        at hs
      simp [hst] at hs

/-- `switchkvm()`. -/
lemma Inv.back (hpc : s.pc c = .back p) :
    ({ s with cr3 := update s.cr3 c none }.goto c (.cleared p)).Inv := by
  have hcpu := h.at hpc
  refine h.of_frame (c := c) ⟨⟨fun c' hc => update_of_ne hc .., fun _ _ => rfl,
    fun c' hc => update_of_ne hc .., fun _ _ => rfl⟩, .refl _ _, fun _ _ _ _ => rfl,
    .of_eq rfl rfl rfl⟩ h.tree (h.lock.goto rfl rfl (by rw [hpc]; rfl)) ?_ (fun q hq => .inl hq)
    fun q hq => h.own hq rfl rfl rfl rfl rfl (fun hr => ?_) (by simp [hpc])
  · simp only [CpuSys.goto, update_self]
    exact ⟨⟨hcpu.1.1, update_self ..⟩, hcpu.2⟩
  · obtain rfl : p = q := Option.some.inj (hcpu.1.1.symm.trans hq)
    rcases hcpu.2 with e | e | e <;> simp [e] at hr

/-- `proc = 0`. -/
lemma Inv.cleared (hpc : s.pc c = .cleared p) :
    ({ s with cur := update s.cur c none }.goto c (.scan (p + 1))).Inv := by
  have hcpu := h.at hpc
  refine h.of_frame (c := c) ⟨⟨fun c' hc => update_of_ne hc ..,
    fun c' hc => update_of_ne hc .., fun _ _ => rfl, fun _ _ => rfl⟩, .refl _ _,
    fun _ _ _ _ => rfl, .of_eq rfl rfl rfl⟩ h.tree (h.lock.goto rfl rfl (by rw [hpc]; rfl)) ?_
    (fun q hq => ?_) fun q hq => h.own hq rfl rfl rfl rfl rfl (fun hr => ?_) (by simp [hpc])
  · simp only [CpuSys.goto, update_self]
    exact ⟨update_self .., hcpu.1.2⟩
  · simp [CpuSys.goto] at hq
  · obtain rfl : p = q := Option.some.inj (hcpu.1.1.symm.trans hq)
    rcases hcpu.2 with e | e | e <;> simp [e] at hr

/-- A process goes on where it had called `sched`, or in `forkret`. -/
lemma Inv.resumed {k : Resume} (hpc : s.pc c = .resumed p k) (htree : t.sys.Tree)
    (hs : s.resumeStep c p k = .ok t) : t.Inv := by
  have hcpu := h.at hpc
  have hl : (s.pc c).locked = true := by rw [hpc]; rfl
  have hout : k ≠ .wait → s.sys.pc p ≠ .wait := fun hne he => hne (hcpu.2.2.2.2 he)
  have htidy : (s.tidy p).state p = .running := by
    simpa [state, tidy, onSys, ProcSys.setProc] using hcpu.2.1
  cases k with
  | forkret | yield =>
    cases hs
    exact h.light rfl (h.lock.release rfl hl rfl rfl)
      ⟨{ hcpu.1 with }, hcpu.2.1, hout (by simp)⟩
      (fun q hq _ => hcpu.1.cur.symm.trans hq) (by simp [hpc])
  | sleep =>
    cases hs
    exact h.toUser hl hcpu.1 rfl rfl rfl rfl rfl (.own rfl fun _ _ => rfl) htree htidy
      (.of_eq rfl rfl rfl) (.inr (.inr ⟨hout (by simp), rfl, rfl, rfl, rfl⟩))
  | wait =>
    cases hs
    refine h.go rfl rfl rfl rfl (by rw [hcpu.1.cur]; exact .own rfl fun _ _ => rfl)
      (fun hu => by simp [hl] at hu) (.of_eq rfl rfl rfl) htree (h.lock.goto rfl rfl hl.symm)
      ⟨{ hcpu.1 with }, htidy, .inr (.inr ⟨rfl, hcpu.2.2.2.1 rfl⟩)⟩
      fun q hq => ?_
    obtain rfl := hcpu.1.eq hq
    refine ⟨fun _ => ?_, fun hst => ?_, h.stack p, h.space p⟩
    · simp only [CpuSys.goto, update_self]
      rfl
    · change (s.tidy p).state p = _ ∨ (s.tidy p).state p = _ at hst
      simp [htidy] at hst
  | exit => cases hs

end

/-! ### Every step -/

/-- The next step of a CPU. -/
lemma Inv.next (h : s.Inv) (hs : s.step (.next c memory) = .ok t) : t.Inv := by
  have htree := (sysStep_of_step h hs).tree h.tree
  have hcpu := h.cpu c
  rw [step] at hs
  generalize hpc : s.pc c = x at hs hcpu
  cases x with
  | idle | intr a =>
    cases hs
    refine h.acquire rfl (by rw [hpc]; rfl) (fun t _ hc hr _ => ?_) fun p hp => by simp [hcpu.1] at hp
    exact ⟨hc ▸ hcpu.1, hr ▸ hcpu.2⟩
  | intrLocked a =>
    cases hs
    have hl : (s.pc c).locked = true := by rw [hpc]; rfl
    exact h.go rfl rfl rfl rfl (.wakeup1 _ _) (fun hu => by simp [hl] at hu) (.of_eq rfl rfl rfl) htree
      (h.lock.release rfl hl rfl rfl) hcpu fun p hp => by simp [hcpu.1] at hp
  | scan i =>
    cases hs
    exact h.scan hpc
  | chosen p =>
    cases hs
    exact h.chosen hpc
  | loaded p =>
    cases hs
    exact h.loaded hpc htree
  | marked p =>
    cases hs
    exact h.light rfl (h.lock.goto rfl rfl (by rw [hpc]; rfl))
      ⟨{ hcpu.1 with }, hcpu.2.1, hcpu.2.2⟩
      (fun q hq _ => hcpu.1.cur.symm.trans hq) (by simp [hpc])
  | back p =>
    cases hs
    exact h.back hpc
  | cleared p =>
    cases hs
    exact h.cleared hpc
  | user p =>
    cases hs
    exact h.user hpc
  | want p o =>
    cases hs
    refine h.acquire rfl (by rw [hpc]; rfl) (fun t ht hc hr hlo => ?_)
      fun q hq => hcpu.1.cur.symm.trans hq
    refine ⟨⟨hc ▸ hcpu.1.cur, hr ▸ hcpu.1.cr3, hlo ▸ hcpu.1.loop⟩, ?_, ht ▸ hcpu.2.2⟩
    rw [state, ht]
    exact hcpu.2.1
  | crit p o =>
    exact h.crit hpc hs
  | sched p k =>
    exact h.sched hpc hs
  | resumed p k =>
    exact h.resumed hpc htree hs

lemma Inv.step {a : CpuAct C} (h : s.Inv) (hs : s.step a = .ok t) : t.Inv := by
  cases a with
  | op c o =>
    rw [CpuSys.step] at hs
    split at hs
    · rename_i p hpc
      have hcpu := h.at hpc
      cases hs
      split_ifs with hmay
      · exact h.light rfl (h.lock.goto rfl rfl (by rw [hpc]; rfl))
          ⟨{ hcpu.1 with }, hcpu.2.1, .inl hmay⟩
          (fun q hq _ => hcpu.1.cur.symm.trans hq) (by simp [hpc])
      · exact h
    · exact Except.ok.inj hs ▸ h
  | irq c a =>
    cases hs
    split_ifs with hpc
    · have hcpu := h.cpu c
      rw [hpc] at hcpu
      exact h.light rfl (h.lock.goto rfl rfl (by rw [hpc]; rfl)) hcpu
        (fun p hp => by simp [hcpu.1] at hp) (by simp [hpc])
    · exact h
  | fault c =>
    have htree := (sysStep_of_step h hs).tree h.tree
    rw [CpuSys.step] at hs
    split at hs
    · rename_i p hpc
      have hcpu := h.at hpc
      cases hs
      have hupd : s.pc = update s.pc c (.user p) := by rw [← hpc, update_eq_self]
      refine h.go hupd rfl rfl rfl (by rw [hcpu.1.cur]; exact .own rfl fun _ _ => rfl)
        (fun _ q hq _ => ?_) (.of_eq rfl rfl rfl) htree (h.lock.goto hupd rfl (by rw [hpc]))
        ⟨{ hcpu.1 with }, ?_, hcpu.2.2⟩ fun q hq => ?_
      · have hne : q ≠ p := by
          rintro rfl
          exact hq hcpu.1.cur
        simp [state, onSys, ProcSys.setProc, hne]
      · simpa [state, onSys, ProcSys.setProc] using hcpu.2.1
      · obtain rfl := hcpu.1.eq hq
        refine ⟨fun _ => by rw [onSys, hpc]; rfl, fun hst => ?_, h.stack p, h.space p⟩
        simp [state, onSys, ProcSys.setProc, hcpu.2.1] at hst
    · exact Except.ok.inj hs ▸ h
  | next c memory => exact h.next hs

omit [DecidableEq C] in
lemma boot_inv : (boot : CpuSys C).Inv := by
  have hslot : ∀ q, (boot : CpuSys C).state q = if q = initproc then .runnable else .unused := by
    intro q
    by_cases hq : q = initproc
    · subst hq
      rfl
    · simp [state, boot, ProcSys.boot, hq]
  refine ⟨ProcSys.boot_tree.1, fun c => by simp [boot, CpuPc.locked], fun c => ⟨rfl, rfl⟩,
    fun c c' p hp => by simp [boot] at hp, fun p hp => ?_, fun p _ _ => ⟨by simp [boot], by simp [boot, ProcSys.boot]⟩,
    fun p np hp => by simp [boot, ProcSys.boot] at hp, fun p np hp => by simp [boot, ProcSys.boot] at hp,
    fun p hp => ?_⟩
  · rw [hslot] at hp
    split_ifs at hp
  · have hp' : p = initproc := by
      by_contra hne
      rw [InUse, ProcSys.slot, show ((boot : CpuSys C).sys.proc p).state = _ from hslot p, if_neg hne] at hp
      simp at hp
    simp [boot, hp']

/-- The invariant holds in every run. -/
lemma inv_of_reach (h : Reach step Promised boot s) : s.Inv :=
  h.invariant boot_inv fun _ _ _ hi _ hs => hi.step hs

/-- **The CPUs refine the processes**: under every interleaving of the critical sections of all CPUs the
process table runs as `ProcSys` says, where each of them is one step. -/
theorem reach_sys (h : Reach step Promised boot s) :
    Reach ProcSys.step ProcSys.Promised ProcSys.boot s.sys := by
  induction h with
  | init => exact .init
  | next a hr _ hs ih =>
    rcases sysStep_of_step (inv_of_reach hr) hs with he | ⟨b, hb, hstep⟩
    · exact he ▸ ih
    · exact ih.next b hb hstep

/-! ### Safety -/

/-- A CPU gets to the kernel stack of a process by `swtch` in `scheduler`. -/
lemma stack_of_step {a : CpuAct C} (hs : s.step a = .ok t) (hp : (t.pc c).stack = some p) :
    (s.pc c).stack = some p ∨ s.pc c = .marked p := by
  -- one CPU moves, to `x`
  have key : ∀ {d x}, t.pc = update s.pc d x →
      (∀ p, x.stack = some p → (s.pc d).stack = some p ∨ s.pc d = .marked p) →
      (s.pc c).stack = some p ∨ s.pc c = .marked p := by
    intro d x hpc hx
    by_cases hc : c = d
    · subst hc
      rw [hpc, update_self] at hp
      exact hx p hp
    · rw [hpc, update_of_ne hc] at hp
      exact .inl hp
  have stay : t.pc = s.pc → (s.pc c).stack = some p ∨ s.pc c = .marked p :=
    fun hpc => .inl (hpc ▸ hp)
  cases a with
  | op d o =>
    rw [step] at hs
    split at hs
    · rename_i q hpc
      by_cases hm : may (s.sys.pc q) o = true
      · rw [if_pos hm] at hs
        refine key (d := d) (x := .want q o) (by rw [← Except.ok.inj hs]; rfl) fun r hr => ?_
        rw [hpc]
        exact .inl hr
      · rw [if_neg hm] at hs
        exact stay (by rw [Except.ok.inj hs])
    · exact stay (by rw [Except.ok.inj hs])
  | irq d a =>
    rw [step] at hs
    by_cases hm : s.pc d = .idle
    · rw [if_pos hm] at hs
      exact key (d := d) (x := .intr a) (by rw [← Except.ok.inj hs]; rfl) (by simp)
    · rw [if_neg hm] at hs
      exact stay (by rw [Except.ok.inj hs])
  | fault d =>
    rw [step] at hs
    split at hs
    · exact stay (by rw [← Except.ok.inj hs]; rfl)
    · exact stay (by rw [Except.ok.inj hs])
  | next d memory =>
    rw [step] at hs
    have acq : ∀ {x}, t = s.acquire d x → x.stack = (s.pc d).stack →
        (s.pc c).stack = some p ∨ s.pc c = .marked p := by
      intro x ht hx
      rw [acquire] at ht
      by_cases hl : s.lock = none
      · rw [if_pos hl] at ht
        exact key (d := d) (by rw [ht]; rfl) fun r hr => .inl (hx ▸ hr)
      · rw [if_neg hl] at ht
        exact stay (by rw [ht])
    generalize hpc : s.pc d = x at hs
    cases x with
    | idle | intr a | want q o =>
      exact acq (Except.ok.inj hs).symm (by rw [hpc]; rfl)
    | intrLocked a | chosen q | loaded q | back q | cleared q =>
      exact key (d := d) (by rw [← Except.ok.inj hs]; rfl) (by simp)
    | scan i =>
      have ht := (Except.ok.inj hs).symm
      rw [scanStep] at ht
      split_ifs at ht
      all_goals exact key (d := d) (by rw [ht]; rfl) (by simp)
    | marked q =>
      refine key (d := d) (by rw [← Except.ok.inj hs]; rfl) fun r hr => .inr ?_
      obtain rfl : q = r := by simpa using hr
      exact hpc
    | user q =>
      have ht := (Except.ok.inj hs).symm
      rw [userStep] at ht
      split at ht
      · split_ifs at ht <;> exact stay (by rw [ht]; rfl)
      · split_ifs at ht <;> exact stay (by rw [ht]; rfl)
      · exact stay (by rw [ht]; rfl)
      · exact key (d := d) (by rw [ht]; rfl) fun r hr => by rw [hpc]; exact .inl hr
      · exact stay (by rw [ht])
      · exact stay (by rw [ht])
    | crit q o =>
      have hon : ∀ {x}, t.pc = update s.pc d x → x.stack = some q →
          (s.pc c).stack = some p ∨ s.pc c = .marked p := fun ht hx =>
        key (d := d) ht fun r hr => by rw [hpc]; exact .inl (hx.symm.trans hr)
      rw [nextStep] at hs
      cases o with
      | wait =>
        have ht := (Except.ok.inj hs).symm
        rw [waitStep] at ht
        split at ht <;> exact hon (by rw [ht]; rfl) rfl
      | exit =>
        rw [critStep] at hs
        split_ifs at hs
        exact hon (by rw [← Except.ok.inj hs]; rfl) rfl
      | _ => exact hon (by rw [← Except.ok.inj hs]; rfl) rfl
    | sched q k =>
      rw [nextStep, schedStep] at hs
      split_ifs at hs
      exact key (d := d) (by rw [← Except.ok.inj hs]; rfl) (by simp)
    | resumed q k =>
      cases k with
      | exit => cases hs
      | _ =>
        refine key (d := d) (by rw [← Except.ok.inj hs]; rfl) fun r hr => ?_
        rw [hpc]
        exact .inl hr

/-- **Scheduling safety**: in every run, -/
theorem sched_safe (h : Reach step Promised boot s) :
    -- when the lock is free, the running processes are those that one CPU has and is on the stack of,
    (s.lock = none → ∀ p, s.state p = .running ↔
      ∃! c, s.cur c = some p ∧ (s.pc c).stack = some p) ∧
    -- no process is current on two CPUs,
    (∀ c c' p, s.cur c = some p → s.cur c' = some p → c = c') ∧
    -- the scheduler takes only runnable processes, and gets to their stacks only when they are running,
    (∀ c p, s.pc c = .chosen p ∨ s.pc c = .loaded p → s.state p = .runnable) ∧
    (∀ a t, s.step a = .ok t → ∀ c p, (t.pc c).stack = some p →
      (s.pc c).stack = some p ∨ s.pc c = .marked p ∧ s.state p = .running) ∧
    -- and what `wait` frees is not in use on any CPU.
    (∀ c p q pid, s.pc c = .crit p .wait → waitScan s.sys.proc p = .reaped q pid →
      ∀ c', (s.pc c').stack ≠ some q ∧ s.cr3 c' ≠ some q) ∧
    (∀ c p, (s.pc c).stack = some p ∨ s.cr3 c = some p → s.kstack p = true ∧ s.pgdir p = true) := by
  have hi := inv_of_reach h
  refine ⟨fun hfree p => ⟨fun hp => ?_, ?_⟩, hi.cur, fun c p hpc => ?_, fun a t hs c p hp => ?_,
    fun c p q pid hpc hw c' => ?_, fun c p hp => hi.memory p ?_⟩
  · obtain ⟨c, hc⟩ := hi.running p hp
    refine ⟨c, ⟨((hi.cpu c).cur_of_runs hc).1.cur, ?_⟩, fun c' hc' => ?_⟩
    · have hl : (s.pc c).locked ≠ true := by
        intro hl
        simp [(hi.lock c).1 hl] at hfree
      cases hx : s.pc c <;> rw [hx] at hc hl <;> simp_all [CpuPc.runs, CpuPc.stack, CpuPc.locked]
    · exact hi.cur c' c p hc'.1 ((hi.cpu c).cur_of_runs hc).1.cur
  · rintro ⟨c, ⟨hcur, -⟩, -⟩
    refine (hi.cpu c).running_of_cur ?_ hcur
    cases hl : (s.pc c).locked with
    | false => rfl
    | true => simp [(hi.lock c).1 hl] at hfree
  · have hcpu := hi.cpu c
    rcases hpc with e | e <;> rw [e] at hcpu <;> exact hcpu.2
  · rcases stack_of_step hs hp with hp | hm
    · exact .inl hp
    · have hcpu := hi.cpu c
      rw [hm] at hcpu
      exact .inr ⟨hm, hcpu.2.1⟩
  · have hzombie : s.state q = .zombie := ProcSys.slot_eq_zombie.1 (ProcSys.waitScan_reaped hw).1
    have hl : (s.pc c).locked = true := by rw [hpc]; rfl
    have hno : s.cur c' ≠ some q := by
      intro hcur
      by_cases hc : c' = c
      · subst hc
        have hcpu := hi.cpu c'
        rw [hpc] at hcpu
        obtain rfl : p = q := Option.some.inj (hcpu.1.cur.symm.trans hcur)
        simp [hcpu.2.1] at hzombie
      · have hrun := (hi.cpu c').running_of_cur (hi.lock.unlocked hl hc) hcur
        simp [hzombie] at hrun
    exact ⟨fun hst => hno ((hi.cpu c').cur_of_stack hst).cur,
      fun hr => hno ((hi.cpu c').cur_of_cr3 hr)⟩
  · refine (hi.cpu c).inUse_of_cur ?_
    rcases hp with hst | hr
    · exact ((hi.cpu c).cur_of_stack hst).cur
    · exact (hi.cpu c).cur_of_cr3 hr

/-- One of two CPUs takes `init`, which calls `fork` and `wait`; the other one takes the child, which
exits. -/
def forkExit : List (CpuAct (Fin 2)) :=
  -- the first CPU gets to `init`,
  List.replicate 6 (.next 0 true) ++
  -- `init` makes a child and is about to wait for it;
  [.op 0 .alloc, .next 0 true, .next 0 true, .next 0 true, .next 0 true, .next 0 true, .next 0 true,
    .next 0 true, .next 0 true] ++
  -- the second CPU gets to the child, which exits up to `switchkvm()` and further to the end of the
  -- loop of the scheduler;
  List.replicate 7 (.next 1 true) ++ [.op 1 .exit, .next 1 true, .next 1 true] ++
  List.replicate 66 (.next 1 true) ++
  -- `init` enters `wait`.
  [.op 0 .wait, .next 0 true]

theorem sched_safe_forkExit : ∃ s : CpuSys (Fin 2), Reach step Promised boot s ∧
    (s.pc 0 = .crit 0 .wait ∧ waitScan s.sys.proc 0 = .reaped 1 2) ∧
    ∀ c, (s.pc c).stack ≠ some 1 ∧ s.cr3 c ≠ some 1 := by
  obtain ⟨s, hreach, hval⟩ : ∃ s : CpuSys (Fin 2), Reach step Promised boot s ∧
      s.pc 0 = .crit 0 .wait ∧ waitScan s.sys.proc 0 = .reaped 1 2 :=
    Reach.of_test forkExit (by decide +kernel)
  exact ⟨s, hreach, hval, (sched_safe hreach).2.2.2.2.1 0 0 1 2 hval.1 hval.2⟩

theorem reach_sys_forkExit : ∃ s : CpuSys (Fin 2), s.state 1 = .zombie ∧
    Reach ProcSys.step ProcSys.Promised ProcSys.boot s.sys := by
  obtain ⟨s, hreach, hval⟩ : ∃ s : CpuSys (Fin 2), Reach step Promised boot s ∧ s.state 1 = .zombie :=
    Reach.of_test forkExit (by decide +kernel)
  exact ⟨s, hval, reach_sys hreach⟩

end CpuSys

end Col331
