import Col331.Proc.Steps

/-!
Several CPUs that run processes, with `ptable.lock` held across `swtch`: `scheduler`, `sched`,
`yield`, `forkret` and the other functions of `proc.c`, step by step.

A CPU runs on the stack of its scheduler or on the kernel stack of a process.  `swtch` takes it from
one to the other.  The lock is acquired on one side and released on the other: by the process that
`scheduler` has switched to, and by the scheduler that `sched` has switched to.

* `CpuPc`: where a CPU is.
* `CpuSys`: the process table and the CPUs.
* `CpuSys.step`: one step of one CPU.
-/

namespace Col331

open Function

/-- What a process wants `ptable.lock` for. -/
inductive CpuOp where
  | yield
  | sleep (a : ℕ)
  | wait
  | exit
  | kill (pid : ℤ)
  | wakeup (a : ℕ)
  /-- `allocproc` in `fork`. -/
  | alloc
  /-- `np->state = RUNNABLE` at the end of `fork`. -/
  | start
  deriving DecidableEq

/-- Where the saved context of a process goes on. -/
inductive Resume where
  | forkret | yield | sleep | wait | exit
  deriving DecidableEq

/-- Where a CPU is.  On the stack of the scheduler: -/
inductive CpuPc where
  /-- Before `acquire(&ptable.lock)` in `scheduler`. -/
  | idle
  /-- In an interrupt that is to call `wakeup(a)`, before it acquires the lock. -/
  | intr (a : ℕ)
  /-- In an interrupt, with the lock. -/
  | intrLocked (a : ℕ)
  /-- At the test of the loop of `scheduler`, with `i` slots looked at. -/
  | scan (i : ℕ)
  /-- Before `switchuvm(p)`. -/
  | chosen (p : Fin nproc)
  /-- Before `p->state = RUNNING`. -/
  | loaded (p : Fin nproc)
  /-- Before `swtch(&cpu->scheduler, proc->context)`. -/
  | marked (p : Fin nproc)
  /-- After `swtch`, before `switchkvm()`. -/
  | back (p : Fin nproc)
  /-- Before `proc = 0`. -/
  | cleared (p : Fin nproc)
  /-- On the kernel stack of `p`, or in user mode, without the lock. -/
  | user (p : Fin nproc)
  /-- Before `acquire(&ptable.lock)`. -/
  | want (p : Fin nproc) (o : CpuOp)
  /-- After it. -/
  | crit (p : Fin nproc) (o : CpuOp)
  /-- In `sched`. -/
  | sched (p : Fin nproc) (k : Resume)
  /-- Just switched to, with the lock that the scheduler has acquired. -/
  | resumed (p : Fin nproc) (k : Resume)
  deriving DecidableEq

/-- The CPU holds `ptable.lock`, by where it is. -/
def CpuPc.locked : CpuPc → Bool
  | .idle | .intr _ | .user _ | .want .. => false
  | .intrLocked _ | .scan _ | .chosen _ | .loaded _ | .marked _ | .back _ | .cleared _ | .crit .. |
      .sched .. | .resumed .. => true

/-- The process on whose kernel stack the CPU is. -/
@[simp] def CpuPc.stack : CpuPc → Option (Fin nproc)
  | .user p | .want p _ | .crit p _ | .sched p _ | .resumed p _ => some p
  | .idle | .intr _ | .intrLocked _ | .scan _ | .chosen _ | .loaded _ | .marked _ | .back _ |
      .cleared _ => none

/-- The process table and the CPUs `C`. -/
structure CpuSys (C : Type) where
  sys : ProcSys
  /-- Who holds `ptable.lock`. -/
  lock : Option C
  /-- `proc` of the CPU. -/
  cur : C → Option (Fin nproc)
  pc : C → CpuPc
  /-- The page table of the CPU: that of a process, or `kpgdir`. -/
  cr3 : C → Option (Fin nproc)
  /-- The variable `p` of `scheduler`, on the stack of the scheduler. -/
  loop : C → Fin nproc
  /-- `p->context`. -/
  context : Fin nproc → Resume
  /-- `p->kstack` is allocated. -/
  kstack : Fin nproc → Bool
  /-- `p->pgdir` is allocated. -/
  pgdir : Fin nproc → Bool

/-- What can happen next. -/
inductive CpuAct (C : Type) where
  /-- The process on the CPU begins something that needs the lock. -/
  | op (c : C) (o : CpuOp)
  /-- A device interrupts the scheduler. -/
  | irq (c : C) (a : ℕ)
  /-- The process on the CPU does something that `trap` sets `killed` for. -/
  | fault (c : C)
  /-- The CPU takes its next step; `memory` says whether the kernel has the memory it asks for. -/
  | next (c : C) (memory : Bool)

namespace CpuSys

variable {C : Type}

/-- All CPUs are in their schedulers, and `init` is about to run for the first time. -/
def boot : CpuSys C where
  sys := .boot
  lock := none
  cur _ := none
  pc _ := .idle
  cr3 _ := none
  loop _ := 0
  context _ := .forkret
  kstack p := p = initproc
  pgdir p := p = initproc

variable [DecidableEq C]

/-- The CPU goes on at `x`. -/
def goto (s : CpuSys C) (c : C) (x : CpuPc) : CpuSys C :=
  { s with pc := update s.pc c x }

/-- `acquire(&ptable.lock)`: the CPU spins until the lock is free. -/
def acquire (s : CpuSys C) (c : C) (x : CpuPc) : CpuSys C :=
  if s.lock = none then { s with lock := some c }.goto c x else s

/-- `release(&ptable.lock)`. -/
def release (s : CpuSys C) (c : C) (x : CpuPc) : CpuSys C := { s with lock := none }.goto c x

/-- The process table changes. -/
def onSys (s : CpuSys C) (t : ProcSys) : CpuSys C := { s with sys := t }

/-- What a process may begin where it is: in the middle of `fork` it can only be interrupted or
sleep. -/
def may (c : ProcPc) : CpuOp → Bool
  | .yield | .sleep _ | .wakeup _ => c ≠ .wait
  | .start => false
  | .wait | .exit | .kill _ | .alloc => c = .user

/-- The next step of `fork` without the lock. -/
def userStep (s : CpuSys C) (c : C) (p : Fin nproc) (memory : Bool) : CpuSys C :=
  match s.sys.pc p with
  | .stack np =>
    if memory then
      { s.onSys (s.sys.nextStep p true) with
        kstack := update s.kstack np true
        context := update s.context np .forkret }
    else s.onSys (s.sys.nextStep p false)
  | .copy np =>
    if memory then
      { s.onSys (s.sys.nextStep p true) with pgdir := update s.pgdir np true }
    else
      { s.onSys (s.sys.nextStep p false) with kstack := update s.kstack np false }
  | .parent _ => s.onSys (s.sys.nextStep p true)
  | .ready _ => s.goto c (.want p .start)
  | .user | .wait => s

/-- `wait`, with the lock. -/
def waitStep (s : CpuSys C) (c : C) (p : Fin nproc) : CpuSys C :=
  match waitScan s.sys.proc p with
  | .reaped q _ =>
    { s.onSys (s.sys.waitStep p) with
      kstack := update s.kstack q false
      pgdir := update s.pgdir q false }.release c (.user p)
  | .failed => (s.onSys (s.sys.waitStep p)).release c (.user p)
  | .sleeps => (s.onSys (s.sys.waitStep p)).goto c (.sched p .wait)

/-- What a process does with the lock. -/
def critStep (s : CpuSys C) (c : C) (p : Fin nproc) : CpuOp → Except Panic (CpuSys C)
  | .yield => .ok ((s.onSys (s.sys.setState p .runnable)).goto c (.sched p .yield))
  | .sleep a =>
    .ok ((s.onSys (s.sys.setProc p { s.sys.proc p with
      state := .sleeping, chan := some (.other a) })).goto c (.sched p .sleep))
  | .wait => .ok (s.waitStep c p)
  | .exit =>
    if p = initproc then .error .initExiting
    else .ok ((s.onSys { s.sys with proc := exitSection s.sys.proc p }).goto c (.sched p .exit))
  | .kill pid => .ok ((s.onSys (s.sys.killStep pid)).release c (.user p))
  | .wakeup a =>
    .ok ((s.onSys { s.sys with proc := wakeup1 s.sys.proc (some (.other a)) }).release c (.user p))
  | .alloc => .ok ((s.onSys (s.sys.allocStep p)).release c (.user p))
  | .start => .ok ((s.onSys (s.sys.nextStep p true)).release c (.user p))

/-- `sched`: its checks, and `swtch(&proc->context, cpu->scheduler)`. -/
def schedStep (s : CpuSys C) (c : C) (p : Fin nproc) (k : Resume) : Except Panic (CpuSys C) :=
  if s.lock ≠ some c then .error .schedPtableLock
  else if (s.sys.proc p).state = .running then .error .schedRunning
  else .ok ({ s with context := update s.context p k }.goto c (.back (s.loop c)))

/-- The end of `sleep`: `proc->chan = 0`. -/
def tidy (s : CpuSys C) (p : Fin nproc) : CpuSys C :=
  s.onSys (s.sys.setProc p { s.sys.proc p with chan := none })

/-- A process goes on after `swtch`. -/
def resumeStep (s : CpuSys C) (c : C) (p : Fin nproc) : Resume → Except Panic (CpuSys C)
  | .forkret | .yield => .ok (s.release c (.user p))
  | .sleep => .ok ((s.tidy p).release c (.user p))
  | .wait => .ok ((s.tidy p).goto c (.crit p .wait))
  | .exit => .error .zombieExit

/-- The loop of `scheduler` looks at slot `i`. -/
def scanStep (s : CpuSys C) (c : C) (i : ℕ) : CpuSys C :=
  if h : i < nproc then
    if (s.sys.proc ⟨i, h⟩).state = .runnable then
      { s with
        cur := update s.cur c (some ⟨i, h⟩)
        loop := update s.loop c ⟨i, h⟩ }.goto c (.chosen ⟨i, h⟩)
    else s.goto c (.scan (i + 1))
  else s.release c .idle

/-- The next step of a CPU. -/
def nextStep (s : CpuSys C) (c : C) (memory : Bool) : CpuPc → Except Panic (CpuSys C)
  | .idle => .ok (s.acquire c (.scan 0))
  | .intr a => .ok (s.acquire c (.intrLocked a))
  | .intrLocked a =>
    .ok ((s.onSys { s.sys with proc := wakeup1 s.sys.proc (some (.other a)) }).release c .idle)
  | .scan i => .ok (s.scanStep c i)
  | .chosen p => .ok ({ s with cr3 := update s.cr3 c (some p) }.goto c (.loaded p))
  | .loaded p => .ok ((s.onSys (s.sys.setState p .running)).goto c (.marked p))
  | .marked p => .ok (s.goto c (.resumed p (s.context p)))
  | .back p => .ok ({ s with cr3 := update s.cr3 c none }.goto c (.cleared p))
  | .cleared p => .ok ({ s with cur := update s.cur c none }.goto c (.scan (p + 1)))
  | .user p => .ok (s.userStep c p memory)
  | .want p o => .ok (s.acquire c (.crit p o))
  | .crit p o => s.critStep c p o
  | .sched p k => s.schedStep c p k
  | .resumed p k => s.resumeStep c p k

/-- One step. -/
def step (s : CpuSys C) : CpuAct C → Except Panic (CpuSys C)
  | .op c o =>
    match s.pc c with
    | .user p => .ok (if may (s.sys.pc p) o then s.goto c (.want p o) else s)
    | _ => .ok s
  | .irq c a => .ok (if s.pc c = .idle then s.goto c (.intr a) else s)
  | .fault c =>
    match s.pc c with
    | .user p =>
      .ok (s.onSys { s.sys.setProc p { s.sys.proc p with killed := true } with
        blamed := update s.sys.blamed p true })
    | _ => .ok s
  | .next c memory => s.nextStep c memory (s.pc c)

/-- `init` does not exit. -/
def Promised (s : CpuSys C) : CpuAct C → Prop
  | .op c .exit => s.pc c ≠ .user initproc
  | _ => True

instance (s : CpuSys C) : (a : CpuAct C) → Decidable (s.Promised a)
  | .op _ .exit => inferInstanceAs (Decidable (_ ≠ _))
  | .op _ .yield | .op _ (.sleep _) | .op _ .wait | .op _ (.kill _) | .op _ (.wakeup _) |
      .op _ .alloc | .op _ .start | .irq .. | .fault _ | .next .. => .isTrue trivial

end CpuSys

end Col331
