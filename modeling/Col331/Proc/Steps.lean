import Col331.Logic.Reach
import Col331.Proc.Table

/-!
Processes that `fork`, `exit`, `wait`, `kill` and sleep at the same time, and a scheduler.

A critical section of `ptable.lock` is one step.  What `fork` does without the lock (the kernel stack,
the copy of the memory, the parent, and the return of the slot if there is no memory) takes further
steps, in between of which anything else can happen.

* `ProcPc`: where a process is in `fork` or `wait`.
* `ProcSys`, `ProcAct`, `ProcSys.step`: the process table and what can happen to it.
-/

namespace Col331

open Function

/-- Where a process is. -/
inductive ProcPc where
  /-- Anywhere but in `fork` or `wait`. -/
  | user
  /-- In `allocproc`, before `kalloc`, with the slot `np`. -/
  | stack (np : Fin nproc)
  /-- In `fork`, before `copyuvm`. -/
  | copy (np : Fin nproc)
  /-- In `fork`, before `np->parent = proc`. -/
  | parent (np : Fin nproc)
  /-- In `fork`, before `np->state = RUNNABLE`. -/
  | ready (np : Fin nproc)
  /-- In `wait`, asleep or before the next round of its loop. -/
  | wait
  deriving DecidableEq, Repr

/-- The slot that the process has from `allocproc`. -/
def ProcPc.child : ProcPc → Option (Fin nproc)
  | .stack np | .copy np | .parent np | .ready np => some np
  | .user | .wait => none

/-- The process table and its users. -/
structure ProcSys where
  proc : ProcTable
  /-- `nextpid`, an `int` that is not meant to overflow. -/
  nextpid : ℤ
  pc : Fin nproc → ProcPc
  /-- The calls of `wait` that have returned, last one first: who called, and what was returned. -/
  returned : List (Fin nproc × ℤ)
  /-- A `kill` has named the process in the slot by its pid, or it has faulted. -/
  blamed : Fin nproc → Bool
  /-- The pid of the process that called the `fork` which the slot was allocated for. -/
  maker : Fin nproc → ℤ

/-- What can happen next. -/
inductive ProcAct where
  /-- The scheduler switches to `q`. -/
  | run (q : Fin nproc)
  /-- `p` tidies up at the end of `sleep`. -/
  | tidy (p : Fin nproc)
  | yield (p : Fin nproc)
  /-- `p` sleeps on the address `a`. -/
  | sleep (p : Fin nproc) (a : ℕ)
  /-- `wakeup(a)`, in a process or an interrupt. -/
  | wakeup (a : ℕ)
  /-- `p` does something that `trap` sets `killed` for. -/
  | fault (p : Fin nproc)
  | fork (p : Fin nproc)
  | wait (p : Fin nproc)
  | exit (p : Fin nproc)
  | kill (p : Fin nproc) (pid : ℤ)
  /-- `p` goes on in `fork` or `wait`; `memory` says whether the kernel has the memory it asks for. -/
  | next (p : Fin nproc) (memory : Bool)

namespace ProcSys

/-- The table when `init` is about to run for the first time. -/
def boot : ProcSys where
  proc := update (fun _ => ⟨.unused, 0, none, false, none⟩) initproc
    ⟨.runnable, 1, none, false, none⟩
  nextpid := 2
  pc _ := .user
  returned := []
  blamed _ := false
  maker _ := 0

/-- The slot `q` changes. -/
def setProc (s : ProcSys) (q : Fin nproc) (v : Proc) : ProcSys :=
  { s with proc := update s.proc q v }

/-- The process `p` goes on at `c`. -/
def goto (s : ProcSys) (p : Fin nproc) (c : ProcPc) : ProcSys :=
  { s with pc := update s.pc p c }

/-- The state of the slot `q` changes. -/
def setState (s : ProcSys) (q : Fin nproc) (v : ProcState) : ProcSys :=
  s.setProc q { s.proc q with state := v }

/-- `allocproc` up to the `release`. -/
def allocStep (s : ProcSys) (p : Fin nproc) : ProcSys :=
  match findUnused s.proc with
  | none => s
  | some np =>
    { (s.setProc np { s.proc np with state := .embryo, pid := s.nextpid }).goto p (.stack np) with
      nextpid := s.nextpid + 1
      blamed := update s.blamed np false
      maker := update s.maker np (s.proc p).pid }

/-- A round of the loop of `wait`. -/
def waitStep (s : ProcSys) (p : Fin nproc) : ProcSys :=
  match waitScan s.proc p with
  | .reaped q pid =>
    { s.goto p .user with proc := reap s.proc q, returned := (p, pid) :: s.returned }
  | .failed => { s.goto p .user with returned := (p, -1) :: s.returned }
  | .sleeps =>
    (s.setProc p { s.proc p with state := .sleeping, chan := some (.proc p) }).goto p .wait

/-- The next step of `p` in `fork` or `wait`. -/
def nextStep (s : ProcSys) (p : Fin nproc) (memory : Bool) : ProcSys :=
  match s.pc p with
  | .user => s
  | .stack np =>
    if memory then s.goto p (.copy np) else (s.setState np .unused).goto p .user
  | .copy np =>
    if memory then s.goto p (.parent np) else (s.setState np .unused).goto p .user
  | .parent np => (s.setProc np { s.proc np with parent := some p }).goto p (.ready np)
  | .ready np => (s.setState np .runnable).goto p .user
  | .wait => s.waitStep p

/-- `kill(pid)`. -/
def killStep (s : ProcSys) (pid : ℤ) : ProcSys :=
  { s with
    proc := (killProc s.proc pid).2
    blamed := fun q => s.blamed q || (s.proc q).state ≠ .unused && (s.proc q).pid = pid }

/-- What `p` does if it has a CPU. -/
def whenRunning (s : ProcSys) (p : Fin nproc) (t : ProcSys) : ProcSys :=
  if (s.proc p).state = .running then t else s

/-- One step.  What is not possible in a state leaves it as it is. -/
def step (s : ProcSys) : ProcAct → Except Panic ProcSys
  | .run q =>
    .ok (if (s.proc q).state = .runnable then s.setState q .running else s)
  | .tidy p => .ok (s.whenRunning p (s.setProc p { s.proc p with chan := none }))
  | .yield p => .ok (s.whenRunning p (s.setState p .runnable))
  | .sleep p a =>
    .ok (s.whenRunning p (s.setProc p { s.proc p with state := .sleeping, chan := some (.other a) }))
  | .wakeup a => .ok { s with proc := wakeup1 s.proc (some (.other a)) }
  | .fault p =>
    .ok (s.whenRunning p { s.setProc p { s.proc p with killed := true } with
      blamed := update s.blamed p true })
  | .fork p => .ok (s.whenRunning p (if s.pc p = .user then s.allocStep p else s))
  | .wait p => .ok (s.whenRunning p (if s.pc p = .user then s.waitStep p else s))
  | .exit p =>
    if (s.proc p).state = .running ∧ s.pc p = .user then
      if p = initproc then .error .initExiting
      else .ok { s with proc := exitSection s.proc p }
    else .ok s
  | .kill p pid => .ok (s.whenRunning p (s.killStep pid))
  | .next p memory => .ok (s.whenRunning p (s.nextStep p memory))

/-- `init` does not exit. -/
def Promised (_ : ProcSys) (a : ProcAct) : Prop :=
  match a with
  | .exit p => p ≠ initproc
  | _ => True

instance (s : ProcSys) : (a : ProcAct) → Decidable (s.Promised a)
  | .exit _ => inferInstanceAs (Decidable (_ ≠ _))
  | .run _ | .tidy _ | .yield _ | .sleep .. | .wakeup _ | .fault _ | .fork _ | .wait _ | .kill .. |
      .next .. => .isTrue trivial

end ProcSys

end Col331
