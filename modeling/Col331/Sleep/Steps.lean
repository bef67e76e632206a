import Col331.Cons.Steps
import Col331.Pipe.Steps
import Col331.Proc.Table

/-!
The calls in which a process sleeps until it is killed: `piperead` and `pipewrite` of `pipe.c`,
`consoleread` of `console.c`, `sys_sleep` of `sysproc.c` and `wait` of `proc.c`, each with `sleep` of
`proc.c`.

A process looks at `killed` while it holds the lock of its call.  `kill` holds `ptable.lock`, which `sleep`
acquires later, but for `wait`, whose lock it is.

* `SleepCall`, `SleepPoint`: the calls, and where in a call a process is.
* `SleepSys.step`: one step.
-/

namespace Col331

open Function

/-- The locks other than `ptable.lock`: that of a pipe, `cons.lock`, `tickslock` and `icache.lock`. -/
inductive SleepLock where
  | pipe (n : ℕ)
  | cons
  | ticks
  | icache
  deriving DecidableEq

/-- A call, with its arguments and how far it has got. -/
inductive SleepCall where
  /-- `piperead(p, addr, n)`, with the number of bytes it has read. -/
  | piperead (pipe : ℕ) (n : ℤ) (i : ℕ)
  /-- `pipewrite(p, addr, n)`, with the number of bytes it has written. -/
  | pipewrite (pipe : ℕ) (addr : ℕ → UInt8) (n : ℤ) (i : ℕ)
  /-- `consoleread(ip, dst, n)`, with the number of bytes it has read. -/
  | consoleread (n : ℤ) (i : ℕ)
  /-- The `ilock(ip)` at the end of `consoleread`. -/
  | ilock
  /-- `sys_sleep`, with `n` as it is compared, and `ticks0` once it is set. -/
  | sleep (n : UInt32) (ticks0 : Option UInt32)
  /-- `wait`. -/
  | wait

namespace SleepCall

/-- What the call acquires first; `none` for `ptable.lock`. -/
def lock : SleepCall → Option SleepLock
  | .piperead pipe .. | .pipewrite pipe .. => some (.pipe pipe)
  | .consoleread .. => some .cons
  | .ilock => some .icache
  | .sleep .. => some .ticks
  | .wait => none

/-- The call looks at `killed` before it sleeps. -/
def interruptible : SleepCall → Bool
  | .ilock => false
  | _ => true

end SleepCall

/-! ### Channels -/

/-- `&p->nread`, for the pipe `n`. -/
def nreadChan (n : ℕ) : ProcChan := .other (8 * n)

/-- `&p->nwrite`, for the pipe `n`. -/
def nwriteChan (n : ℕ) : ProcChan := .other (8 * n + 1)

/-- `&input.r`. -/
def inputChan : ProcChan := .other 2

/-- `&ticks`. -/
def ticksChan : ProcChan := .other 3

/-- The inode of the console. -/
def inodeChan : ProcChan := .other 4

/-- What a call of the process `p` sleeps on. -/
def SleepCall.chan (p : Fin nproc) : SleepCall → ProcChan
  | .piperead pipe .. => nreadChan pipe
  | .pipewrite pipe .. => nwriteChan pipe
  | .consoleread .. => inputChan
  | .ilock => inodeChan
  | .sleep .. => ticksChan
  | .wait => .proc p

/-! ### Processes -/

/-- The point a call has reached. -/
inductive SleepPoint where
  /-- Before the lock of the call is acquired, at the start or at the end of `sleep`. -/
  | acquire
  /-- At the top of the loop. -/
  | top
  /-- At the top of the copy loop of `piperead`. -/
  | copy
  /-- Before `wakeup(&p->nread)` in the loop of `pipewrite`. -/
  | wake
  /-- In `sleep`, before `acquire(&ptable.lock)`. -/
  | sleepLock
  /-- In `sleep`, before `release(lk)`. -/
  | sleepRelease
  /-- In `sleep`, before `proc->state = SLEEPING; sched()`. -/
  | sleepSet
  /-- In `sleep`, switched out. -/
  | asleep
  /-- Before the last `wakeup`. -/
  | ending
  /-- Before the lock is released. -/
  | release
  deriving DecidableEq

/-- Where a process is. -/
inductive SleepPc where
  | idle
  | run (c : SleepCall) (x : SleepPoint)

/-- What the calls work on. -/
structure SleepData where
  pipe : ℕ → Pipe
  input : Input
  ticks : UInt32
  /-- `I_BUSY` of the inode of the console. -/
  busy : Bool

/-- Processes and what they share. -/
structure SleepSys where
  proc : ProcTable
  /-- Who holds `ptable.lock`. -/
  ptlock : Option (Fin nproc)
  /-- Who holds the other locks. -/
  lock : SleepLock → Option (Fin nproc)
  pc : Fin nproc → SleepPc
  data : SleepData

/-- What can happen next. -/
inductive SleepAct where
  /-- A process makes a call. -/
  | call (p : Fin nproc) (c : SleepCall)
  /-- A process takes the next step of its call. -/
  | next (p : Fin nproc)
  | kill (pid : ℤ)
  /-- The rest of the kernel changes the data. -/
  | data (d : SleepData)
  /-- The rest of the kernel calls `wakeup`. -/
  | wakeup (chan : ProcChan)
  /-- A process that is in none of the calls exits. -/
  | exit (p : Fin nproc)

namespace SleepSys

/-- The process `p` goes on at the point `x` of the call `c`. -/
def go (s : SleepSys) (p : Fin nproc) (c : SleepCall) (x : SleepPoint) : SleepSys :=
  { s with pc := update s.pc p (.run c x) }

/-- The process `p` returns from its call. -/
def ret (s : SleepSys) (p : Fin nproc) : SleepSys := { s with pc := update s.pc p .idle }

/-- The data become `d`. -/
def setData (s : SleepSys) (d : SleepData) : SleepSys := { s with data := d }

/-- The pipe `n` becomes `q`. -/
def setPipe (s : SleepSys) (n : ℕ) (q : Pipe) : SleepSys :=
  s.setData { s.data with pipe := update s.data.pipe n q }

/-- A round of `consoleread` that finds a byte: the read index, the number of bytes, and whether the loop
goes on. -/
def consoleByte (i : Input) (got : ℕ) : UInt32 × ℕ × Bool :=
  if i.front = ctrlD then (if 0 < got then i.r else i.r + 1, got, false)
  else (i.r + 1, got + 1, i.front ≠ newline)

/-- A round of the loop of a call. -/
def topStep (s : SleepSys) (p : Fin nproc) : SleepCall → SleepSys
  | .piperead k n i =>
    if (s.data.pipe k).empty ∧ (s.data.pipe k).writeopen then
      if (s.proc p).killed then s.go p (.piperead k n i) .release
      else s.go p (.piperead k n i) .sleepLock
    else s.go p (.piperead k n i) .copy
  | .pipewrite k addr n i =>
    if (i : ℤ) < n then
      if (s.data.pipe k).full then
        if (s.data.pipe k).readopen = false ∨ (s.proc p).killed then
          s.go p (.pipewrite k addr n i) .release
        else s.go p (.pipewrite k addr n i) .wake
      else (s.setPipe k ((s.data.pipe k).put (addr i))).go p (.pipewrite k addr n (i + 1)) .top
    else s.go p (.pipewrite k addr n i) .ending
  | .consoleread n i =>
    if (i : ℤ) < n then
      if s.data.input.r = s.data.input.w then
        if (s.proc p).killed then s.go p (.consoleread n i) .release
        else s.go p (.consoleread n i) .sleepLock
      else
        let (r, i, more) := consoleByte s.data.input i
        (s.setData { s.data with input := { s.data.input with r } }).go p (.consoleread n i)
          (if more then .top else .release)
    else s.go p (.consoleread n i) .release
  | .ilock =>
    if s.data.busy then s.go p .ilock .sleepLock
    else (s.setData { s.data with busy := true }).go p .ilock .release
  | .sleep n none => s.go p (.sleep n (some s.data.ticks)) .top
  | .sleep n (some ticks0) =>
    if s.data.ticks - ticks0 < n then
      if (s.proc p).killed then s.go p (.sleep n (some ticks0)) .release
      else s.go p (.sleep n (some ticks0)) .sleepLock
    else s.go p (.sleep n (some ticks0)) .release
  | .wait =>
    match waitScan s.proc p with
    | .reaped q _ => { s with proc := reap s.proc q, ptlock := none }.ret p
    | .failed => { s with ptlock := none }.ret p
    | .sleeps => s.go p .wait .sleepSet

/-- A round of the copy loop of `piperead`. -/
def copyStep (s : SleepSys) (p : Fin nproc) : SleepCall → SleepSys
  | .piperead k n i =>
    if (i : ℤ) < n ∧ (s.data.pipe k).empty = false then
      (s.setPipe k (s.data.pipe k).drop).go p (.piperead k n (i + 1)) .copy
    else s.go p (.piperead k n i) .ending
  | c => s.go p c .ending

/-- The last `wakeup` of `piperead` and `pipewrite`. -/
def endChan : SleepCall → Option ProcChan
  | .piperead k .. => some (nwriteChan k)
  | .pipewrite k .. => some (nreadChan k)
  | _ => none

/-- The next step of `p` in the call `c`.  A process that needs a lock somebody else holds does
nothing. -/
def callStep (s : SleepSys) (p : Fin nproc) (c : SleepCall) : SleepPoint → SleepSys
  | .acquire =>
    match c.lock with
    | none => if s.ptlock = none then { s with ptlock := some p }.go p c .top else s
    | some l =>
      if s.lock l = none then { s with lock := update s.lock l (some p) }.go p c .top else s
  | .top => s.topStep p c
  | .copy => s.copyStep p c
  | .wake =>
    if s.ptlock = none then
      { s with proc := wakeup1 s.proc (endChan c) }.go p c .sleepLock
    else s
  | .sleepLock => if s.ptlock = none then { s with ptlock := some p }.go p c .sleepRelease else s
  | .sleepRelease =>
    match c.lock with
    | none => s.go p c .sleepSet
    | some l => { s with lock := update s.lock l none }.go p c .sleepSet
  | .sleepSet =>
    { s with
      proc := update s.proc p { s.proc p with state := .sleeping, chan := some (c.chan p) }
      ptlock := none }.go p c .asleep
  | .asleep =>
    if (s.proc p).state ≠ .sleeping ∧ s.ptlock = none then
      let s := { s with
        proc := update s.proc p { s.proc p with state := .running, chan := none } }
      match c.lock with
      | none => { s with ptlock := some p }.go p c .top
      | some _ => s.go p c .acquire
    else s
  | .ending =>
    if s.ptlock = none then { s with proc := wakeup1 s.proc (endChan c) }.go p c .release else s
  | .release =>
    -- `wait` does not come here
    let s : SleepSys :=
      match c.lock with
      | none => s
      | some l => { s with lock := update s.lock l none }
    match c with
    | .consoleread .. => s.go p .ilock .acquire
    | _ => s.ret p

/-- The call is at its beginning. -/
def fresh : SleepCall → Bool
  | .piperead _ _ i | .pipewrite _ _ _ i | .consoleread _ i => i = 0
  | .sleep _ ticks0 => ticks0 = none
  | .wait => true
  | .ilock => false

/-- One step. -/
def step (s : SleepSys) : SleepAct → Except Empty SleepSys
  | .call p c =>
    match s.pc p with
    | .idle =>
      if fresh c ∧ (s.proc p).state.slot = .used then .ok (s.go p c .acquire) else .ok s
    | .run .. => .ok s
  | .next p =>
    match s.pc p with
    | .idle => .ok s
    | .run c x => .ok (s.callStep p c x)
  | .kill pid => if s.ptlock = none then .ok { s with proc := (killProc s.proc pid).2 } else .ok s
  | .data d => .ok (s.setData d)
  | .wakeup chan =>
    if s.ptlock = none then .ok { s with proc := wakeup1 s.proc (some chan) } else .ok s
  | .exit p =>
    match s.pc p with
    | .idle => if s.ptlock = none then .ok { s with proc := exitSection s.proc p } else .ok s
    | .run .. => .ok s

/-- Nobody is in a call, and nobody sleeps. -/
structure Quiet (s : SleepSys) : Prop where
  pc : ∀ p, s.pc p = .idle
  state : ∀ p, (s.proc p).state ≠ .sleeping
  ptlock : s.ptlock = none

end SleepSys

end Col331
