import Col331.Cpu.Drift
import Col331.Logic.Lock

/-!
What holds between the CPUs and the process table at every step.

* `CpuSys.CpuOk`: what is known of a CPU and of the process it has, by where the CPU is.
* `CpuSys.Inv`: the invariant of the CPUs together.
* `CpuSys.Frame`, `Inv.of_frame`: what a CPU leaves alone, and that this keeps the invariant up to what
  is to be shown of the CPU itself.
* `Inv.go`, `Inv.light`: the same for a CPU that keeps its process.
-/

namespace Col331

open Function

/-- The process that is `RUNNING` because the CPU is there. -/
@[simp] def CpuPc.runs : CpuPc → Option (Fin nproc)
  | .marked p | .user p | .want p _ | .crit p _ | .resumed p _ => some p
  | .idle | .intr _ | .intrLocked _ | .scan _ | .chosen _ | .loaded _ | .back _ | .cleared _ |
      .sched .. => none

/-- The state that a process is in when it calls `sched`. -/
@[simp] def Resume.state : Resume → ProcState
  | .forkret | .yield => .runnable
  | .sleep | .wait => .sleeping
  | .exit => .zombie

namespace CpuSys

variable {C : Type} {s t : CpuSys C} {c c' : C} {p q np : Fin nproc}

/-- The state of a process. -/
abbrev state (s : CpuSys C) (p : Fin nproc) : ProcState := (s.sys.proc p).state

/-- The context `k` fits where the process is: in the loop of `wait` or not. -/
def Fits (x : ProcPc) (k : Resume) : Prop := k ≠ .exit ∧ (k = .wait ↔ x = .wait)

/-- What a process may do with the lock where it is. -/
def Doing (x : ProcPc) (o : CpuOp) : Prop :=
  may x o = true ∨ o = .start ∧ (∃ np, x = .ready np) ∨ o = .wait ∧ x = .wait

/-- The CPU has the process `p`, and its page table. -/
structure Has (s : CpuSys C) (c : C) (p : Fin nproc) : Prop where
  cur : s.cur c = some p
  cr3 : s.cr3 c = some p
  loop : s.loop c = p

/-- A process that has left its CPU and is not yet given up by it. -/
def Left (x : ProcState) : Prop := x = .runnable ∨ x = .sleeping ∨ x = .zombie

/-- What is known of a CPU, by where it is. -/
def CpuOk (s : CpuSys C) (c : C) : CpuPc → Prop
  | .idle | .intr _ | .intrLocked _ | .scan _ => s.cur c = none ∧ s.cr3 c = none
  | .chosen p => (s.cur c = some p ∧ s.cr3 c = none ∧ s.loop c = p) ∧ s.state p = .runnable
  | .loaded p => s.Has c p ∧ s.state p = .runnable
  | .marked p => s.Has c p ∧ s.state p = .running ∧ Fits (s.sys.pc p) (s.context p)
  | .back p => (s.cur c = some p ∧ s.cr3 c = some p) ∧ Left (s.state p)
  | .cleared p => (s.cur c = some p ∧ s.cr3 c = none) ∧ Left (s.state p)
  | .user p => s.Has c p ∧ s.state p = .running ∧ s.sys.pc p ≠ .wait
  | .want p o | .crit p o => s.Has c p ∧ s.state p = .running ∧ Doing (s.sys.pc p) o
  | .sched p k => s.Has c p ∧ s.state p = k.state ∧ (k ≠ .exit → Fits (s.sys.pc p) k)
  | .resumed p k => s.Has c p ∧ s.state p = .running ∧ Fits (s.sys.pc p) k

/-- Who is where the lock is held has the lock. -/
def LockOk (s : CpuSys C) : Prop := ∀ c, (s.pc c).locked = true ↔ s.lock = some c

/-- A slot with a process in it, alive or not. -/
def InUse (s : CpuSys C) (q : Fin nproc) : Prop := s.sys.slot q = .used ∨ s.sys.slot q = .zombie

/-- **The invariant**. -/
structure Inv (s : CpuSys C) : Prop where
  tree : s.sys.Tree
  lock : s.LockOk
  cpu : ∀ c, s.CpuOk c (s.pc c)
  cur : ∀ c c' p, s.cur c = some p → s.cur c' = some p → c = c'
  running : ∀ p, s.state p = .running → ∃ c, (s.pc c).runs = some p
  saved : ∀ p, s.state p = .runnable ∨ s.state p = .sleeping → (∀ c k, s.pc c ≠ .sched p k) →
    Fits (s.sys.pc p) (s.context p)
  stack : ∀ p np, s.sys.pc p = .copy np ∨ s.sys.pc p = .parent np ∨ s.sys.pc p = .ready np →
    s.kstack np = true ∧ s.context np = .forkret
  space : ∀ p np, s.sys.pc p = .parent np ∨ s.sys.pc p = .ready np → s.pgdir np = true
  memory : ∀ p, s.InUse p → s.kstack p = true ∧ s.pgdir p = true

/-! ### One CPU -/

variable {x : CpuPc}

lemma Doing.may {x : ProcPc} {o : CpuOp} (h : Doing x o) (hstart : o ≠ .start) (hwait : o ≠ .wait) :
    may x o = true :=
  h.resolve_right fun ho => ho.elim (fun he => hstart he.1) fun he => hwait he.1

lemma Inv.at (h : s.Inv) (hx : s.pc c = x) : s.CpuOk c x := hx ▸ h.cpu c

lemma Has.eq (h : s.Has c p) (hq : s.cur c = some q) : p = q :=
  Option.some.inj (h.cur.symm.trans hq)

section

variable (h : s.CpuOk c x)

include h

/-- The CPU has the process whose kernel stack it is on. -/
lemma CpuOk.cur_of_stack (hx : x.stack = some p) : s.Has c p := by
  cases x with
  | user q | want q o | crit q o | sched q k | resumed q k =>
    obtain rfl : q = p := by simpa using hx
    exact h.1
  | _ => simp at hx

lemma CpuOk.cur_of_runs (hx : x.runs = some p) :
    s.Has c p ∧ s.state p = .running := by
  cases x with
  | marked q | user q | want q o | crit q o | resumed q k =>
    obtain rfl : q = p := by simpa using hx
    exact ⟨h.1, h.2.1⟩
  | _ => simp at hx

/-- A CPU without the lock runs the process it has, if any. -/
lemma CpuOk.running_of_cur (hx : x.locked = false)
    (hp : s.cur c = some p) : s.state p = .running := by
  cases x with
  | user q | want q o =>
    obtain rfl : q = p := by simpa [h.1.cur] using hp
    exact h.2.1
  | idle | intr a => simp [h.1] at hp
  | _ => simp [CpuPc.locked] at hx

/-- The process a CPU has is in use. -/
lemma CpuOk.inUse_of_cur (hp : s.cur c = some p) : s.InUse p := by
  rw [InUse, ProcSys.slot]
  cases x with
  | chosen q =>
    obtain rfl : q = p := by simpa [h.1.1] using hp
    simp [h.2]
  | loaded q =>
    obtain rfl : q = p := by simpa [h.1.cur] using hp
    simp [h.2]
  | marked q | user q | want q o | crit q o | resumed q k =>
    obtain rfl : q = p := by simpa [h.1.cur] using hp
    simp [h.2.1]
  | back q | cleared q =>
    obtain rfl : q = p := by simpa [h.1.1] using hp
    rcases h.2 with e | e | e <;> simp [e]
  | sched q k =>
    obtain rfl : q = p := by simpa [h.1.cur] using hp
    cases k <;> simp [h.2.1]
  | _ => simp [h.1] at hp

/-- The process whose page table the CPU uses is the one it has. -/
lemma CpuOk.cur_of_cr3 (hp : s.cr3 c = some p) : s.cur c = some p := by
  cases x with
  | loaded q | marked q | user q | want q o | crit q o | resumed q k | sched q k =>
    rw [h.1.cur, ← hp, h.1.cr3]
  | back q => rw [h.1.1, ← hp, h.1.2]
  | cleared q => simp [h.1.2] at hp
  | chosen q => simp [h.1.2.1] at hp
  | _ => simp [h.2] at hp

/-- Two states in which a CPU and its process are the same. -/
lemma CpuOk.congr (hcur : t.cur c = s.cur c) (hcr3 : t.cr3 c = s.cr3 c)
    (hloop : t.loop c = s.loop c)
    (hp : ∀ p, s.cur c = some p → t.state p = s.state p ∧ t.sys.pc p = s.sys.pc p)
    (hctx : ∀ p, x = .marked p → t.context p = s.context p) : t.CpuOk c x := by
  have has : ∀ {p}, s.Has c p → t.Has c p := fun hh => ⟨hcur ▸ hh.cur, hcr3 ▸ hh.cr3, hloop ▸ hh.loop⟩
  cases x with
  | idle | intr a | intrLocked a | scan i => exact ⟨hcur ▸ h.1, hcr3 ▸ h.2⟩
  | chosen p => exact ⟨by rw [hcur, hcr3, hloop]; exact h.1, (hp p h.1.1).1 ▸ h.2⟩
  | loaded p => exact ⟨has h.1, (hp p h.1.cur).1 ▸ h.2⟩
  | marked p =>
    obtain ⟨hst, hpc⟩ := hp p h.1.cur
    exact ⟨has h.1, hst ▸ h.2.1, by rw [hpc, hctx p rfl]; exact h.2.2⟩
  | back p | cleared p => exact ⟨by rw [hcur, hcr3]; exact h.1, (hp p h.1.1).1 ▸ h.2⟩
  | user p | want p o | crit p o | sched p k | resumed p k =>
    obtain ⟨hst, hpc⟩ := hp p h.1.cur
    exact ⟨has h.1, hst ▸ h.2.1, by rw [hpc]; exact h.2.2⟩

end

/-- The CPU that holds the lock is the only one. -/
lemma LockOk.eq (h : s.LockOk) (hc : (s.pc c).locked = true) (hc' : (s.pc c').locked = true) :
    c = c' := Held.eq (l := CpuPc.locked) h hc hc'

lemma LockOk.unlocked (h : s.LockOk) (hc : (s.pc c).locked = true) (hne : c' ≠ c) :
    (s.pc c').locked = false := by
  cases hc' : (s.pc c').locked with
  | false => rfl
  | true => exact absurd (h.eq hc' hc) hne

/-! ### What a CPU leaves alone -/

/-- The other CPUs are where they are. -/
structure Others (s t : CpuSys C) (c : C) : Prop where
  pc : ∀ c', c' ≠ c → t.pc c' = s.pc c'
  cur : ∀ c', c' ≠ c → t.cur c' = s.cur c'
  cr3 : ∀ c', c' ≠ c → t.cr3 c' = s.cr3 c'
  loop : ∀ c', c' ≠ c → t.loop c' = s.loop c'

/-- The memory of the processes other than `own` and of the slots they have from `allocproc` is
kept, and so is that of a slot which is ready to start. -/
structure Kept (s t : CpuSys C) (own : Option (Fin nproc)) : Prop where
  context : ∀ q, own ≠ some q → s.sys.slot q ≠ .embryo → t.context q = s.context q
  child : ∀ p np, own ≠ some p ∨ s.sys.pc p = .ready np → (s.sys.pc p).child = some np →
    t.kstack np = s.kstack np ∧ t.context np = s.context np ∧ t.pgdir np = s.pgdir np
  inUse : ∀ q, s.InUse q → t.InUse q → t.kstack q = s.kstack q ∧ t.pgdir q = s.pgdir q

/-- What the CPU `c` with the process `own` leaves alone. -/
structure Frame (s t : CpuSys C) (c : C) (own : Option (Fin nproc)) : Prop where
  others : Others s t c
  elsewhere : s.sys.Elsewhere t.sys own
  still : (s.pc c).locked = false → ∀ q, own ≠ some q → s.InUse q → t.state q = s.state q
  kept : Kept s t own

lemma Kept.of_eq {own : Option (Fin nproc)} (hc : t.context = s.context) (hk : t.kstack = s.kstack)
    (hp : t.pgdir = s.pgdir) : Kept s t own := by
  refine ⟨fun q _ _ => ?_, fun p np _ _ => ⟨?_, ?_, ?_⟩, fun q _ _ => ⟨?_, ?_⟩⟩
  all_goals first | rw [hc] | rw [hk] | rw [hp]

/-- The memory of the slot that `p` has from `allocproc` changes. -/
lemma Kept.of_child (h : s.sys.Tree) (hp : (s.sys.pc p).child = some np)
    (hready : s.sys.pc p ≠ .ready np)
    (hne : ∀ q, q ≠ np → t.kstack q = s.kstack q ∧ t.context q = s.context q ∧ t.pgdir q = s.pgdir q) :
    Kept s t (some p) := by
  have hemb := (h.child p np hp).1
  refine ⟨fun q _ hq => (hne q ?_).2.1, fun p' np' hp' hchild => hne np' ?_, fun q hq _ => ?_⟩
  · rintro rfl
    exact hq hemb
  · rintro rfl
    obtain rfl := h.one p p' np' hp hchild
    rcases hp' with hp' | hp'
    · exact hp' rfl
    · exact hready hp'
  · have hqnp : q ≠ np := by
      rintro rfl
      rw [InUse, hemb] at hq
      simp at hq
    exact ⟨(hne q hqnp).1, (hne q hqnp).2.2⟩

/-- What is to be shown of the process `p` that the CPU `c` had. -/
structure Own (s : CpuSys C) (c : C) (p : Fin nproc) : Prop where
  running : s.state p = .running → (s.pc c).runs = some p
  saved : s.state p = .runnable ∨ s.state p = .sleeping → (∀ k, s.pc c ≠ .sched p k) →
    Fits (s.sys.pc p) (s.context p)
  stack : ∀ np, s.sys.pc p = .copy np ∨ s.sys.pc p = .parent np ∨ s.sys.pc p = .ready np →
    s.kstack np = true ∧ s.context np = .forkret
  space : ∀ np, s.sys.pc p = .parent np ∨ s.sys.pc p = .ready np → s.pgdir np = true

/-- The process that is started has its memory. -/
lemma Inv.born (h : s.Inv) {own : Option (Fin nproc)} (hk : Kept s t own)
    (hp : ∃ p, own = some p ∧ s.sys.pc p = .ready q) :
    t.kstack q = true ∧ t.context q = .forkret ∧ t.pgdir q = true := by
  obtain ⟨p, -, hpc⟩ := hp
  obtain ⟨hk₁, hk₂, hk₃⟩ := hk.child p q (.inr hpc) (by rw [hpc]; rfl)
  obtain ⟨h₁, h₂⟩ := h.stack p q (.inr (.inr hpc))
  exact ⟨hk₁.trans h₁, hk₂.trans h₂, hk₃.trans (h.space p q (.inr hpc))⟩

/-- Where the other CPUs are, their processes are as they were. -/
lemma Inv.other (h : s.Inv) (hf : Frame s t c (s.cur c)) (hne : c' ≠ c) : t.CpuOk c' (t.pc c') := by
  rw [hf.others.pc c' hne]
  have hcpu := h.cpu c'
  have hown : ∀ p, s.cur c' = some p → s.cur c ≠ some p := fun p hp hc => hne (h.cur c' c p hp hc)
  refine hcpu.congr (hf.others.cur c' hne) (hf.others.cr3 c' hne) (hf.others.loop c' hne)
    (fun p hp => ⟨?_, hf.elsewhere.task p (hown p hp)⟩) fun p hx => ?_
  · cases hl : (s.pc c').locked with
    | false =>
      have hrun := hcpu.running_of_cur hl hp
      rw [hrun]
      exact ((hf.elsewhere.state p (hown p hp)).running_iff).2 hrun
    | true =>
      -- the lock is with the other CPU, so this one does not have it
      exact hf.still (h.lock.unlocked hl (Ne.symm hne)) p (hown p hp) (hcpu.inUse_of_cur hp)
  · rw [hx] at hcpu
    refine hf.kept.context p (hown p hcpu.1.cur) ?_
    simp [ProcSys.slot, hcpu.2.1]

/-- **What a CPU leaves alone keeps the invariant**, up to what is to be shown of the CPU and of the
process it has. -/
lemma Inv.of_frame (h : s.Inv) (hf : Frame s t c (s.cur c)) (htree : t.sys.Tree) (hlock : t.LockOk)
    (hcpu : t.CpuOk c (t.pc c))
    (hcur : ∀ p, t.cur c = some p → s.cur c = some p ∨ (s.pc c).locked = true ∧ s.state p = .runnable)
    (hown : ∀ p, s.cur c = some p → t.Own c p) : t.Inv := by
  have hfresh : ∀ c' p, c' ≠ c → t.cur c = some p → t.cur c' ≠ some p := by
    intro c' p hne hc hc'
    rw [hf.others.cur c' hne] at hc'
    rcases hcur p hc with hc | ⟨hl, hst⟩
    · exact hne (h.cur c' c p hc' hc)
    · have hrun := (h.cpu c').running_of_cur (h.lock.unlocked hl hne) hc'
      simp [hst] at hrun
  refine ⟨htree, hlock, fun c' => ?_, fun c₁ c₂ p h₁ h₂ => ?_, fun p hp => ?_, fun p hp hs => ?_,
    fun p np hp => ?_, fun p np hp => ?_, fun p hp => ?_⟩
  · by_cases hc : c' = c
    · exact hc ▸ hcpu
    · exact h.other hf hc
  · by_cases hc₁ : c₁ = c
    · by_cases hc₂ : c₂ = c
      · rw [hc₁, hc₂]
      · exact absurd h₂ (hfresh c₂ p hc₂ (hc₁ ▸ h₁))
    · by_cases hc₂ : c₂ = c
      · exact absurd h₁ (hfresh c₁ p hc₁ (hc₂ ▸ h₂))
      · rw [hf.others.cur c₁ hc₁] at h₁
        rw [hf.others.cur c₂ hc₂] at h₂
        exact h.cur c₁ c₂ p h₁ h₂
  · by_cases hc : s.cur c = some p
    · exact ⟨c, (hown p hc).running hp⟩
    · obtain ⟨c', hc'⟩ := h.running p (((hf.elsewhere.state p hc).running_iff).1 hp)
      refine ⟨c', ?_⟩
      rw [hf.others.pc c' ?_]
      · exact hc'
      · rintro rfl
        exact hc ((h.cpu c').cur_of_runs hc').1.cur
  · by_cases hc : s.cur c = some p
    · exact (hown p hc).saved hp (hs c)
    · have htask := hf.elsewhere.task p hc
      rcases (hf.elsewhere.state p hc).waiting hp with hw | ⟨hr, hemb⟩
      · rw [htask, hf.kept.context p hc ?_]
        · refine h.saved p hw fun c' k hk => ?_
          by_cases hcc : c' = c
          · subst hcc
            exact hc (h.at hk).1.cur
          · exact hs c' k (by rw [hf.others.pc c' hcc, hk])
        · rcases hw with e | e <;> simp [ProcSys.slot, e]
      · rw [htask, (h.born hf.kept hr).2.1]
        refine ⟨by simp, fun he => by simp at he, fun he => ?_⟩
        have hused := h.tree.user p (by simp [he])
        simp [ProcSys.slot, hemb] at hused
  · by_cases hc : s.cur c = some p
    · exact (hown p hc).stack np hp
    · rw [hf.elsewhere.task p hc] at hp
      obtain ⟨hk, hx, -⟩ := hf.kept.child p np (.inl hc) (by rcases hp with e | e | e <;> rw [e] <;> rfl)
      rw [hk, hx]
      exact h.stack p np hp
  · by_cases hc : s.cur c = some p
    · exact (hown p hc).space np hp
    · rw [hf.elsewhere.task p hc] at hp
      obtain ⟨-, -, hk⟩ := hf.kept.child p np (.inl hc) (by rcases hp with e | e <;> rw [e] <;> rfl)
      rw [hk]
      exact h.space p np hp
  · have hold : s.InUse p ∨ ∃ r, s.cur c = some r ∧ s.sys.pc r = .ready p := by
      by_cases hc : s.cur c = some p
      · exact .inl ((h.cpu c).inUse_of_cur hc)
      · rcases (hf.elsewhere.state p hc).slot hp with hu | ⟨hr, -⟩
        · exact .inl hu
        · exact .inr hr
    rcases hold with hu | hr
    · obtain ⟨h₁, h₂⟩ := hf.kept.inUse p hu hp
      rw [h₁, h₂]
      exact h.memory p hu
    · obtain ⟨h₁, -, h₂⟩ := h.born hf.kept hr
      exact ⟨h₁, h₂⟩

/-- A process is not in `sched` on a CPU that does not have it. -/
lemma Inv.not_sched (h : s.Inv) (hp : s.cur c = some p) (hx : ∀ k, s.pc c ≠ .sched p k) (c' : C)
    (k : Resume) : s.pc c' ≠ .sched p k := by
  intro hk
  obtain rfl := h.cur c' c p (h.at hk).1.cur hp
  exact hx k hk

section Steps

variable [DecidableEq C] {x : CpuPc}

/-! ### The lock -/

lemma LockOk.goto (h : s.LockOk) (hpc : t.pc = update s.pc c x) (hl : t.lock = s.lock)
    (hx : x.locked = (s.pc c).locked) : t.LockOk := by
  rw [LockOk, hpc, hl]
  exact Held.stay (l := CpuPc.locked) h hx

lemma LockOk.acquire (h : s.LockOk) (hpc : t.pc = update s.pc c x) (hs : s.lock = none)
    (hl : t.lock = some c) (hx : x.locked = true) : t.LockOk := by
  rw [LockOk, hpc, hl]
  exact Held.acquire (l := CpuPc.locked) h hs hx

lemma LockOk.release (h : s.LockOk) (hpc : t.pc = update s.pc c x)
    (hc : (s.pc c).locked = true) (hl : t.lock = none) (hx : x.locked = false) : t.LockOk := by
  rw [LockOk, hpc, hl]
  exact Held.release (l := CpuPc.locked) h hc hx

/-! ### One step -/

/-- The CPU goes on at `x`, and its process is on the way it was. -/
lemma Inv.own (h : s.Inv) (hp : s.cur c = some p) (hpc : t.pc = update s.pc c x)
    (hsys : t.sys = s.sys) (hctx : t.context = s.context) (hk : t.kstack = s.kstack)
    (hd : t.pgdir = s.pgdir) (hrun : s.state p = .running → x.runs = some p)
    (hx : ∀ k, s.pc c ≠ .sched p k) : t.Own c p := by
  refine ⟨fun hst => ?_, fun hst _ => ?_, fun np hnp => ?_, fun np hnp => ?_⟩
  · rw [hpc, update_self]
    exact hrun (by rwa [state, hsys] at hst)
  · rw [hsys, hctx]
    exact h.saved p (by rwa [state, hsys] at hst) (h.not_sched hp hx)
  · rw [hk, hctx]
    exact h.stack p np (hsys ▸ hnp)
  · rw [hd]
    exact h.space p np (hsys ▸ hnp)

/-- The CPU goes on at `x`, and keeps its process. -/
lemma Inv.go (h : s.Inv) (hpc : t.pc = update s.pc c x) (hcur : t.cur = s.cur)
    (hcr3 : t.cr3 = s.cr3) (hloop : t.loop = s.loop) (hel : s.sys.Elsewhere t.sys (s.cur c))
    (hstill : (s.pc c).locked = false → ∀ q, s.cur c ≠ some q → s.InUse q → t.state q = s.state q)
    (hkept : Kept s t (s.cur c)) (htree : t.sys.Tree) (hlock : t.LockOk) (hcpu : t.CpuOk c x)
    (hown : ∀ p, s.cur c = some p → t.Own c p) : t.Inv := by
  have hself : t.pc c = x := by rw [hpc, update_self]
  refine h.of_frame ⟨⟨fun c' hc => ?_, fun _ _ => by rw [hcur], fun _ _ => by rw [hcr3],
    fun _ _ => by rw [hloop]⟩, hel, hstill, hkept⟩ htree hlock (hself ▸ hcpu)
    (fun p hp => .inl (hcur ▸ hp)) hown
  rw [hpc, update_of_ne hc]

/-- The CPU goes on at `x`, and nothing else happens but that the lock may change hands. -/
lemma Inv.light {l : Option C} (h : s.Inv) (ht : t = { s with pc := update s.pc c x, lock := l })
    (hlock : t.LockOk) (hcpu : t.CpuOk c x)
    (hrun : ∀ p, s.cur c = some p → s.state p = .running → x.runs = some p)
    (hx : ∀ p k, s.pc c ≠ .sched p k) : t.Inv := by
  subst ht
  exact h.go rfl rfl rfl rfl (.refl _ _) (fun _ _ _ _ => rfl) (.of_eq rfl rfl rfl) h.tree hlock hcpu
    fun p hp => h.own hp rfl rfl rfl rfl rfl (hrun p hp) (hx p)

end Steps

end CpuSys

end Col331
