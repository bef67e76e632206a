import Col331.Data.Window
import Col331.Kernel.Param
import Col331.Logic.Reach

/-!
A pipe (`pipe.c`) as any number of processes use it at the same time, with `sleep`, `wakeup` and
`kill` of `proc.c`.

The two locks that matter are there as such.  A process works on the pipe only while it holds
`p->lock`.  `sleep` acquires `ptable.lock` before it releases `p->lock`, and `wakeup` and `kill`
need `ptable.lock`: this is what is to keep a process from sleeping through a wakeup.

* `Pipe`: `struct pipe`.
* `PipeOp`, `PipePoint`: the calls, and where in a call a process is.
* `PipeSys.step`: one step, as small as one byte.
* `PipeSys.Promised`: what the callers promise.
-/

namespace Col331

open Function

/-- `PIPESIZE`. -/
abbrev pipesize : ℕ := 512

/-- The fields of `struct pipe` other than the lock. -/
structure Pipe where
  data : Fin pipesize → UInt8
  nread : UInt32
  nwrite : UInt32
  readopen : Bool
  writeopen : Bool

namespace Pipe

/-- `p->nwrite == p->nread + PIPESIZE`. -/
def full (p : Pipe) : Bool := p.nwrite = p.nread + 512

/-- `p->nread == p->nwrite`. -/
def empty (p : Pipe) : Bool := p.nread = p.nwrite

/-- `p->data[p->nwrite++ % PIPESIZE] = b`. -/
def put (p : Pipe) (b : UInt8) : Pipe :=
  { p with data := update p.data (cell pipesize p.nwrite) b, nwrite := p.nwrite + 1 }

/-- `p->data[p->nread % PIPESIZE]`. -/
def front (p : Pipe) : UInt8 := p.data (cell pipesize p.nread)

/-- `p->nread++`. -/
def drop (p : Pipe) : Pipe := { p with nread := p.nread + 1 }

/-- `p->writeopen = 0` or `p->readopen = 0`. -/
def shut (p : Pipe) (writable : Bool) : Pipe :=
  if writable then { p with writeopen := false } else { p with readopen := false }

/-- What `pipealloc` makes of a page with the contents `data`. -/
def alloc (data : Fin pipesize → UInt8) : Pipe := ⟨data, 0, 0, true, true⟩

end Pipe

/-! ### Processes -/

/-- The channels a process can sleep on: `&p->nread` and `&p->nwrite`. -/
inductive Chan where
  | nread | nwrite
  deriving DecidableEq

/-- A call with its arguments and how far it has got. -/
inductive PipeOp where
  /-- `pipewrite(p, addr, n)` with the loop variable `i`; `unseen` if it has put a byte into the
  pipe after it last called `wakeup(&p->nread)` or acquired the lock. -/
  | write (addr : ℕ → UInt8) (n : ℤ) (i : ℕ) (unseen : Bool)
  /-- `piperead(p, addr, n)` with the bytes it has read. -/
  | read (n : ℤ) (got : List UInt8)
  /-- `pipeclose(p, writable)`. -/
  | close (writable : Bool)

/-- What a call sleeps on. -/
def PipeOp.chan : PipeOp → Chan
  | .write .. => .nwrite
  | _ => .nread

/-- What a call wakes up at its end. -/
def PipeOp.peer : PipeOp → Chan
  | .write .. | .close true => .nread
  | .read .. | .close false => .nwrite

/-- The point a call has reached. -/
inductive PipePoint where
  /-- Before `acquire(&p->lock)`, at the start or at the end of `sleep`. -/
  | acquire
  /-- At the top of the loop of `pipewrite`, at the `while` of `piperead`, or before the
  assignment of `pipeclose`. -/
  | top
  /-- At the top of the copy loop of `piperead`. -/
  | copy
  /-- Before `wakeup(&p->nread)` in the loop of `pipewrite`. -/
  | wake
  /-- In `sleep`, before `acquire(&ptable.lock)`. -/
  | sleepLock
  /-- In `sleep`, before `release(lk)`. -/
  | sleepRelease
  /-- In `sleep`, before `proc->state = SLEEPING; sched()`. -/
  | sleepSet
  /-- In `sleep`, switched out. -/
  | asleep
  /-- Before the last `wakeup`. -/
  | ending
  /-- Before the last `release(&p->lock)`; `r` is what is returned. -/
  | release (r : ℤ)

/-- The points of a call where `p->lock` is held. -/
def PipePoint.locked : PipePoint → Bool
  | .top | .copy | .wake | .sleepLock | .sleepRelease | .ending | .release _ => true
  | .acquire | .sleepSet | .asleep => false

/-- Where a process is. -/
inductive PipePc where
  | idle
  | run (o : PipeOp) (c : PipePoint)

/-- The process holds `p->lock`, by where it is. -/
def PipePc.locked : PipePc → Bool
  | .idle => false
  | .run _ c => c.locked

/-- The pipe and its users. -/
structure PipeSys (P : Type) where
  pipe : Pipe
  /-- Who holds `p->lock`. -/
  lock : Option P
  /-- Who holds `ptable.lock`. -/
  ptlock : Option P
  /-- The processes that are `SLEEPING`, with their `chan`. -/
  sleeping : P → Option Chan
  killed : P → Bool
  pc : P → PipePc
  /-- How often the page was passed to `kfree`. -/
  frees : ℕ
  /-- The bytes put into the pipe so far. -/
  accepted : List UInt8
  /-- The bytes taken out of the pipe so far. -/
  handed : List UInt8
  /-- `pipeclose` was called for the write end, or for the read end. -/
  shut : Bool → Bool

/-- What can happen next. -/
inductive PipeAct (P : Type) where
  | write (p : P) (addr : ℕ → UInt8) (n : ℤ)
  | read (p : P) (n : ℤ)
  | close (p : P) (writable : Bool)
  /-- The process takes the next step of the call it is in. -/
  | next (p : P)
  | kill (p : P)

namespace PipeSys

variable {P : Type}

/-- A new pipe. -/
def boot (data : Fin pipesize → UInt8) : PipeSys P where
  pipe := .alloc data
  lock := none
  ptlock := none
  sleeping _ := none
  killed _ := false
  pc _ := .idle
  frees := 0
  accepted := []
  handed := []
  shut _ := false

/-- `wakeup1(chan)`. -/
def wakeup (s : PipeSys P) (ch : Chan) : PipeSys P :=
  { s with sleeping := fun q => if s.sleeping q = some ch then none else s.sleeping q }

variable [DecidableEq P]

/-- The process `p` goes on at `c`. -/
def goto (s : PipeSys P) (p : P) (c : PipePc) : PipeSys P :=
  { s with pc := update s.pc p c }

/-- The process `p` goes on at the point `c` of the call `o`. -/
def go (s : PipeSys P) (p : P) (o : PipeOp) (c : PipePoint) : PipeSys P := s.goto p (.run o c)

/-- `p->data[p->nwrite++ % PIPESIZE] = b`. -/
def put (s : PipeSys P) (b : UInt8) : PipeSys P :=
  { s with pipe := s.pipe.put b, accepted := s.accepted ++ [b] }

/-- `addr[i] = p->data[p->nread++ % PIPESIZE]`. -/
def take (s : PipeSys P) : PipeSys P :=
  { s with pipe := s.pipe.drop, handed := s.handed ++ [s.pipe.front] }

/-- The round of the loop of `pipewrite`, of the `while` of `piperead`, or the assignment of
`pipeclose`. -/
def topStep (s : PipeSys P) (p : P) : PipeOp → PipeSys P
  | .write addr n i unseen =>
    if (i : ℤ) < n then
      if s.pipe.full then
        if s.pipe.readopen = false ∨ s.killed p then s.go p (.write addr n i unseen) (.release (-1))
        else s.go p (.write addr n i unseen) .wake
      else (s.put (addr i)).go p (.write addr n (i + 1) true) .top
    else s.go p (.write addr n i unseen) .ending
  | .read n got =>
    if s.pipe.empty ∧ s.pipe.writeopen then
      if s.killed p then s.go p (.read n got) (.release (-1))
      else s.go p (.read n got) .sleepLock
    else s.go p (.read n got) .copy
  | .close writable => ({ s with pipe := s.pipe.shut writable }).go p (.close writable) .ending

/-- The round of the copy loop of `piperead`. -/
def copyStep (s : PipeSys P) (p : P) : PipeOp → PipeSys P
  | .read n got =>
    if (got.length : ℤ) < n ∧ s.pipe.empty = false then
      s.take.go p (.read n (got ++ [s.pipe.front])) .copy
    else s.go p (.read n got) .ending
  | o => s.go p o .ending

/-- What a call returns when it gets to its end. -/
def result : PipeOp → ℤ
  | .write _ n _ _ => n
  | .read _ got => got.length
  | .close _ => 0

/-- The call has made all its bytes known. -/
def seen : PipeOp → PipeOp
  | .write addr n i _ => .write addr n i false
  | o => o

/-- The last `release(&p->lock)`, with the `kfree` of `pipeclose`. -/
def releaseStep (s : PipeSys P) (p : P) (o : PipeOp) : PipeSys P :=
  let freed : Bool :=
    match o with
    | .close _ => s.pipe.readopen = false ∧ s.pipe.writeopen = false
    | _ => false
  { s with
    lock := none
    pc := update s.pc p .idle
    frees := if freed then s.frees + 1 else s.frees }

/-- The next step of `p` in the call `o`.  A process that needs a lock somebody else holds does
nothing. -/
def opStep (s : PipeSys P) (p : P) (o : PipeOp) : PipePoint → PipeSys P
  | .acquire => if s.lock = none then { s with lock := some p }.go p o .top else s
  | .top => s.topStep p o
  | .copy => s.copyStep p o
  | .wake => if s.ptlock = none then (s.wakeup .nread).go p (seen o) .sleepLock else s
  | .sleepLock =>
    if s.ptlock = none then { s with ptlock := some p }.go p o .sleepRelease else s
  | .sleepRelease => { s with lock := none }.go p o .sleepSet
  | .sleepSet =>
    { s with
      sleeping := update s.sleeping p (some o.chan)
      ptlock := none }.go p o .asleep
  | .asleep =>
    if s.sleeping p = none ∧ s.ptlock = none then s.go p o .acquire else s
  | .ending =>
    if s.ptlock = none then (s.wakeup o.peer).go p (seen o) (.release (result o)) else s
  | .release _ => s.releaseStep p o

/-- One step. -/
def step (s : PipeSys P) : PipeAct P → Except Panic (PipeSys P)
  | .write p addr n => .ok (s.go p (.write addr n 0 false) .acquire)
  | .read p n => .ok (s.go p (.read n []) .acquire)
  | .close p writable =>
    .ok ({ s with shut := update s.shut writable true }.go p (.close writable) .acquire)
  | .next p =>
    match s.pc p with
    | .idle => .ok s
    | .run o c => .ok (s.opStep p o c)
  | .kill p =>
    if s.ptlock = none then
      .ok { s with
        killed := update s.killed p true
        sleeping := update s.sleeping p none }
    else .ok s

/-- The process is in a call on the write end, or on the read end. -/
def uses (writable : Bool) : PipePc → Bool
  | .run (.write ..) _ => writable
  | .run (.read ..) _ => !writable
  | _ => false

/-- What the callers promise: a process makes one call at a time, and an end is closed once, when
nobody uses it or will. -/
def Promised (s : PipeSys P) : PipeAct P → Prop
  | .write p _ _ => s.pc p = .idle ∧ s.shut true = false
  | .read p _ => s.pc p = .idle ∧ s.shut false = false
  | .close p writable =>
    s.pc p = .idle ∧ s.shut writable = false ∧ ∀ q, uses writable (s.pc q) = false
  | .next _ | .kill _ => True

instance (c : PipePc) : Decidable (c = .idle) :=
  match c with
  | .idle => .isTrue rfl
  | .run .. => .isFalse nofun

instance [Fintype P] (s : PipeSys P) : (a : PipeAct P) → Decidable (s.Promised a)
  | .write .. | .read .. | .close .. => inferInstanceAs (Decidable (_ ∧ _))
  | .next _ | .kill _ => .isTrue trivial

end PipeSys

end Col331
