import Col331.Log.Group

/-!
Waiting for log space: `begin_op`, `log_write` and `end_op` of `log.c`, with `sleep` and `wakeup` of
`proc.c`, down to the locks.

A process looks at the counters while it holds `log.lock`.  `sleep` acquires `ptable.lock` before it
releases `log.lock`, and `wakeup` needs `ptable.lock`.  `commit` runs without locks, and `log_write` makes
its checks before it acquires `log.lock`.

* `WaitPc`: where a process is.
* `LogWait.step`: one step.
-/

namespace Col331

/-- Where a process is. -/
inductive WaitPc where
  /-- Outside `begin_op..end_op`. -/
  | idle
  /-- In `begin_op`, before `acquire(&log.lock)`, at the start or at the end of `sleep`. -/
  | acquire
  /-- At the top of the loop of `begin_op`. -/
  | test
  /-- In `sleep`, before `acquire(&ptable.lock)`. -/
  | sleepLock
  /-- In `sleep`, before `release(lk)`. -/
  | sleepRelease
  /-- In `sleep`, before `proc->state = SLEEPING; sched()`. -/
  | sleepSet
  /-- In `sleep`, switched out. -/
  | asleep
  /-- In `begin_op`, before `release(&log.lock)`. -/
  | entered
  /-- Between `begin_op` and `end_op`. -/
  | inOp
  /-- In `log_write`, after the checks. -/
  | writeAcquire (b : UInt32) (data : Block)
  /-- In `log_write`, before `release(&log.lock)`. -/
  | writeRelease
  /-- In `end_op`, before the first `acquire(&log.lock)`. -/
  | endAcquire
  /-- In `end_op`, before the first `wakeup(&log)`. -/
  | endWake
  /-- In `end_op`, before the first `release(&log.lock)`. -/
  | endRelease (doCommit : Bool)
  /-- In `commit`; when it is done, before the second `acquire(&log.lock)` of `end_op`. -/
  | commit (c : CommitPc)
  /-- In `end_op`, before the second `wakeup(&log)`. -/
  | doneWake
  /-- In `end_op`, before the second `release(&log.lock)`. -/
  | doneRelease
  deriving DecidableEq

/-- The log and the processes that use it. -/
structure LogWait (P : Type) where
  log : Log
  /-- Who holds `log.lock`. -/
  lock : Option P
  /-- Who holds `ptable.lock`. -/
  ptlock : Option P
  /-- The processes that are `SLEEPING` on `&log`. -/
  sleeping : P → Bool
  pc : P → WaitPc

/-- What can happen next. -/
inductive WaitAct (P : Type) where
  | beginOp (p : P)
  | logWrite (p : P) (b : UInt32) (data : Block)
  | endOp (p : P)
  /-- The process takes the next step of the call it is in. -/
  | next (p : P)
  | kill (p : P)

namespace LogWait

variable {P : Type}

/-- The log after `initlog`, which has recovered from `m`. -/
def boot (m : LogMem) : LogWait P where
  log := ⟨0, false, m.recoverFromLog⟩
  lock := none
  ptlock := none
  sleeping _ := false
  pc _ := .idle

/-- `wakeup1(&log)`. -/
def wakeup (s : LogWait P) : LogWait P := { s with sleeping := fun _ => false }

variable [DecidableEq P]

/-- The process `p` goes on at `c`. -/
def goto (s : LogWait P) (p : P) (c : WaitPc) : LogWait P :=
  { s with pc := Function.update s.pc p c }

@[simp] lemma goto_log (s : LogWait P) (p : P) (c : WaitPc) : (s.goto p c).log = s.log := rfl

@[simp] lemma goto_lock (s : LogWait P) (p : P) (c : WaitPc) : (s.goto p c).lock = s.lock := rfl

@[simp] lemma goto_ptlock (s : LogWait P) (p : P) (c : WaitPc) : (s.goto p c).ptlock = s.ptlock := rfl

@[simp] lemma goto_sleeping (s : LogWait P) (p : P) (c : WaitPc) :
    (s.goto p c).sleeping = s.sleeping := rfl

/-- The process `p` acquires `log.lock`, after which the log is `l`, and goes on at `c`.  A process that
needs a lock somebody else holds does nothing. -/
def enter (s : LogWait P) (p : P) (l : Log) (c : WaitPc) : LogWait P :=
  if s.lock = none then { s with lock := some p, log := l }.goto p c else s

/-- The process `p` releases `log.lock` and goes on at `c`. -/
def leave (s : LogWait P) (p : P) (c : WaitPc) : LogWait P := { s with lock := none }.goto p c

/-- `wakeup(&log)`, after which `p` goes on at `c`. -/
def wake (s : LogWait P) (p : P) (c : WaitPc) : LogWait P :=
  if s.ptlock = none then s.wakeup.goto p c else s

/-- The next step of `p`. -/
def run (s : LogWait P) (p : P) : Except Panic (LogWait P) :=
  match s.pc p with
  | .idle | .inOp => .ok s
  | .acquire => .ok (s.enter p s.log .test)
  | .test =>
    match s.log.beginOp with
    | none => .ok (s.goto p .sleepLock)
    | some l => .ok ({ s with log := l }.goto p .entered)
  | .sleepLock =>
    .ok (if s.ptlock = none then { s with ptlock := some p }.goto p .sleepRelease else s)
  | .sleepRelease => .ok (s.leave p .sleepSet)
  | .sleepSet =>
    .ok ({ s with sleeping := Function.update s.sleeping p true, ptlock := none }.goto p .asleep)
  | .asleep => .ok (if s.sleeping p = false ∧ s.ptlock = none then s.goto p .acquire else s)
  | .entered => .ok (s.leave p .inOp)
  | .writeAcquire b data => .ok (s.enter p (s.log.record b data) .writeRelease)
  | .writeRelease => .ok (s.leave p .inOp)
  | .endAcquire =>
    if s.lock = none then
      match s.log.endOp with
      | .error e => .error e
      | .ok (doCommit, l) => .ok (s.enter p l (if doCommit then .endRelease true else .endWake))
    else .ok s
  | .endWake => .ok (s.wake p (.endRelease false))
  | .endRelease doCommit => .ok (s.leave p (if doCommit then .commit .start else .idle))
  | .commit .done => .ok (s.enter p { s.log with committing := false } .doneWake)
  | .commit c =>
    .ok ({ s with log.mem := (commitStep s.log.mem c).1 }.goto p (.commit (commitStep s.log.mem c).2))
  | .doneWake => .ok (s.wake p .doneRelease)
  | .doneRelease => .ok (s.leave p .idle)

/-- One step.  A process calls `log_write` and `end_op` between `begin_op` and `end_op` only. -/
def step (s : LogWait P) : WaitAct P → Except Panic (LogWait P)
  | .beginOp p => .ok (if s.pc p = .idle then s.goto p .acquire else s)
  | .logWrite p b data =>
    if s.pc p = .inOp then
      match s.log.logWrite b data with
      | .error e => .error e
      | .ok _ => .ok (s.goto p (.writeAcquire b data))
    else .ok s
  | .endOp p => .ok (if s.pc p = .inOp then s.goto p .endAcquire else s)
  | .next p => s.run p
  | .kill p =>
    .ok (if s.ptlock = none then { s with sleeping := Function.update s.sleeping p false } else s)

end LogWait

end Col331
