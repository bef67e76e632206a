import Col331.Data.Linked
import Col331.Kernel.Param
import Col331.Logic.Reach

/-!
The disk drivers `ide.c` and `memide.c`.

`ide.c` keeps the requests in a queue whose first buffer is the one the controller works on.  A process
puts its buffer into the queue and sleeps until the flags say that the request is done; the interrupt
handler takes the first buffer out, wakes its process and starts the next one.  Everything that touches
the queue holds `idelock`; `sleep` and `wakeup` are modelled down to the locks.

* `IdeBuf`: a buffer; `memide`, `memRun`: `iderw` of `memide.c`, for one request and for a list of them.
* `Cmd`, `lbaOf`: what the controller is told.
* `Ide B`: the driver, the controller with its two disks, and the processes, one for each buffer.
* `Ide.step`, `Ide.Promised`: one step, and what the callers promise.
-/

namespace Col331

open Function

/-! ### Buffers and `memide.c` -/

/-- `struct buf` as the drivers see it, with `B_BUSY`, `B_VALID` and `B_DIRTY` of `flags`. -/
structure IdeBuf where
  busy : Bool
  valid : Bool
  dirty : Bool
  dev : UInt32
  blockno : UInt32
  data : Block

/-- `(b->flags & (B_VALID|B_DIRTY)) == B_VALID`. -/
def IdeBuf.clean (b : IdeBuf) : Bool := b.valid && !b.dirty

/-- `iderw` of `memide.c`, with a disk of `disksize` blocks. -/
def memide (disksize : ℕ) (disk : Disk) (b : IdeBuf) : Except Panic (IdeBuf × Disk) :=
  if b.busy = false then .error .iderwNotBusy
  else if b.clean then .error .iderwNothing
  else if b.dev ≠ 1 then .error .iderwNotDisk1
  else if disksize ≤ b.blockno.toNat then .error .iderwRange
  else if b.dirty then
    .ok ({ b with dirty := false, valid := true }, update disk b.blockno.toNat b.data)
  else .ok ({ b with data := disk b.blockno.toNat, valid := true }, disk)

/-- The requests one after another: the buffers they return, and the disk. -/
def memRun (disksize : ℕ) : Disk → List IdeBuf → Except Panic (List IdeBuf × Disk)
  | disk, [] => .ok ([], disk)
  | disk, b :: bs =>
    match memide disksize disk b with
    | .error e => .error e
    | .ok (r, disk) =>
      match memRun disksize disk bs with
      | .error e => .error e
      | .ok (rs, disk) => .ok (r :: rs, disk)

/-! ### The controller -/

/-- The sector number that the controller puts together from the registers `0x1f3` to `0x1f6`; a block
is one sector. -/
def lbaOf (blockno : UInt32) : ℕ :=
  let sector := blockno.toNat
  sector % 2 ^ 8 + 2 ^ 8 * (sector / 2 ^ 8 % 2 ^ 8) + 2 ^ 16 * (sector / 2 ^ 16 % 2 ^ 8) +
    2 ^ 24 * (sector / 2 ^ 24 % 2 ^ 4)

/-- A command: `IDE_CMD_WRITE` with the data that `outsl` has sent, or `IDE_CMD_READ`. -/
structure Cmd where
  /-- Bit 4 of the register `0x1f6`: disk 1. -/
  disk1 : Bool
  lba : ℕ
  data : Option Block
  /-- The number of the request it was started for. -/
  ticket : ℕ

/-! ### The driver -/

/-- Where the process that has called `iderw` with a buffer is. -/
inductive IdePc where
  | idle
  /-- Before `acquire(&idelock)`. -/
  | acquire
  /-- Before the buffer is put into the queue. -/
  | queue
  /-- Before `if(idequeue == b) idestart(b)`. -/
  | start
  /-- At the top of the loop. -/
  | test
  /-- In `sleep`, before `acquire(&ptable.lock)`. -/
  | sleepLock
  /-- In `sleep`, before `release(lk)`. -/
  | sleepRelease
  /-- In `sleep`, before `proc->state = SLEEPING; sched()`. -/
  | sleepSet
  /-- In `sleep`, switched out. -/
  | asleep
  /-- In `sleep`, before `acquire(lk)`. -/
  | woken
  /-- Before `release(&idelock)`. -/
  | release
  deriving DecidableEq

/-- Where the interrupt handler is; `t` is the number of the request whose command has raised the
interrupt. -/
inductive IntrPc (B : Type) where
  | idle
  /-- Before `acquire(&idelock)`. -/
  | acquire (t : ℕ)
  /-- Before the first buffer is taken out of the queue. -/
  | serve (t : ℕ)
  /-- Before `wakeup(b)`. -/
  | wake (b : B)
  /-- Before the next buffer is started. -/
  | start
  /-- Before `release(&idelock)`. -/
  | release

/-- Who holds a lock. -/
inductive Who (B : Type) where
  | proc (b : B)
  | intr
  deriving DecidableEq

/-- The driver, the controller and the processes.  A buffer is given to `iderw` by the process that has
it locked, so a call is named by its buffer. -/
structure Ide (B : Type) where
  /-- The two disks. -/
  disk : Bool → Disk
  /-- The command that the controller works on. -/
  cmd : Option Cmd
  /-- The block that the controller has ready for `insl`. -/
  latch : Block
  /-- The controller has raised an interrupt, for the command of this request. -/
  irq : Option ℕ
  havedisk1 : Bool
  buf : B → IdeBuf
  qnext : B → Option B
  idequeue : Option B
  /-- Who holds `idelock`. -/
  idelock : Option (Who B)
  /-- Who holds `ptable.lock`. -/
  ptlock : Option (Who B)
  /-- The process is `SLEEPING`, on its buffer. -/
  sleeping : B → Bool
  pc : B → IdePc
  intr : IntrPc B
  /-- The buffers put into the queue so far, as they were then. -/
  queued : List IdeBuf
  /-- The number of the last request for the buffer, in that order. -/
  ticket : B → ℕ
  /-- The requests that the handler has completed: the number of the request, and that of the command
  which raised the interrupt. -/
  served : List (ℕ × ℕ)
  /-- The calls that have returned: the number of the request, and the buffer at that time. -/
  returned : List (ℕ × IdeBuf)

/-- What can happen next. -/
inductive IdeAct (B : Type) where
  /-- The process that has `b` locked changes the buffer to `v` and calls `iderw`. -/
  | iderw (b : B) (v : IdeBuf)
  /-- The process that has called `iderw` with `b` takes its next step. -/
  | next (b : B)
  /-- The controller completes its command and raises an interrupt. -/
  | complete
  /-- The processor takes the interrupt. -/
  | interrupt
  /-- The handler takes its next step. -/
  | handler
  | kill (b : B)

namespace Ide

variable {B : Type}

/-- Before the first call, with disk 1 present. -/
def boot (disk : Bool → Disk) (buf : B → IdeBuf) : Ide B where
  disk
  cmd := none
  latch := Bytes.zero bsize
  irq := none
  havedisk1 := true
  buf
  qnext _ := none
  idequeue := none
  idelock := none
  ptlock := none
  sleeping _ := false
  pc _ := .idle
  intr := .idle
  queued := []
  ticket _ := 0
  served := []
  returned := []

/-- The command for the buffer `b`. -/
def command (s : Ide B) (b : B) : Cmd where
  disk1 := (s.buf b).dev.toNat % 2 = 1
  lba := lbaOf (s.buf b).blockno
  data := if (s.buf b).dirty then some (s.buf b).data else none
  ticket := s.ticket b

/-- `idestart(b)`, once the disk is ready. -/
def idestart (s : Ide B) (b : B) : Except (Option Panic) (Ide B) :=
  if fssize ≤ (s.buf b).blockno.toNat then .error (some .idestartBlockno)
  else .ok { s with cmd := some (s.command b) }

variable [DecidableEq B]

/-- The process goes on at `c`. -/
def goto (s : Ide B) (b : B) (c : IdePc) : Ide B := { s with pc := update s.pc b c }

/-- The assignments that put `b` at the end of the queue; the error `none` is a loop that does not
end. -/
def append [Fintype B] (s : Ide B) (b : B) : Except (Option Panic) (Ide B) :=
  let qnext := update s.qnext b none
  match lastNode qnext (Fintype.card B) none s.idequeue with
  | none => .error none
  | some none => .ok { s with qnext, idequeue := some b }
  | some (some x) => .ok { s with qnext := update qnext x (some b) }

/-- The next step of the process that has called `iderw` with `b`.  A process that needs a lock somebody
else holds, or a disk that is busy, does nothing. -/
def run [Fintype B] (s : Ide B) (b : B) : Except (Option Panic) (Ide B) :=
  match s.pc b with
  | .idle => .ok s
  | .acquire =>
    .ok (if s.idelock = none then { s with idelock := some (.proc b) }.goto b .queue else s)
  | .queue =>
    match s.append b with
    | .error e => .error e
    | .ok s => .ok ({ s with
        queued := s.queued ++ [s.buf b]
        ticket := update s.ticket b s.queued.length }.goto b .start)
  | .start =>
    if s.idequeue = some b then
      if s.cmd.isSome then .ok s
      else
        match s.idestart b with
        | .error e => .error e
        | .ok s => .ok (s.goto b .test)
    else .ok (s.goto b .test)
  | .test => .ok (s.goto b (if (s.buf b).clean then .release else .sleepLock))
  | .sleepLock =>
    .ok (if s.ptlock = none then { s with ptlock := some (.proc b) }.goto b .sleepRelease else s)
  | .sleepRelease => .ok ({ s with idelock := none }.goto b .sleepSet)
  | .sleepSet =>
    .ok ({ s with sleeping := update s.sleeping b true, ptlock := none }.goto b .asleep)
  | .asleep => .ok (if s.sleeping b = false ∧ s.ptlock = none then s.goto b .woken else s)
  | .woken => .ok (if s.idelock = none then { s with idelock := some (.proc b) }.goto b .test else s)
  | .release =>
    .ok ({ s with
      idelock := none
      returned := s.returned ++ [(s.ticket b, s.buf b)] }.goto b .idle)

/-- The part of `ideintr` that takes the first buffer out of the queue and completes its request. -/
def serve (s : Ide B) (t : ℕ) : Ide B :=
  match s.idequeue with
  | none => { s with intr := .release }
  | some b =>
    let v := s.buf b
    let data := if v.dirty then v.data else s.latch
    { s with
      idequeue := s.qnext b
      buf := update s.buf b { v with valid := true, dirty := false, data }
      served := s.served ++ [(s.ticket b, t)]
      intr := .wake b }

/-- The next step of `ideintr`. -/
def runIntr (s : Ide B) : Except (Option Panic) (Ide B) :=
  match s.intr with
  | .idle => .ok s
  | .acquire t => .ok (if s.idelock = none then { s with idelock := some .intr, intr := .serve t } else s)
  | .serve t => .ok (s.serve t)
  | .wake b =>
    .ok (if s.ptlock = none then
      { s with sleeping := update s.sleeping b false, intr := .start } else s)
  | .start =>
    match s.idequeue with
    | none => .ok { s with intr := .release }
    | some b =>
      if s.cmd.isSome then .ok s
      else
        match s.idestart b with
        | .error e => .error e
        | .ok s => .ok { s with intr := .release }
  | .release => .ok { s with idelock := none, intr := .idle }

/-- The controller completes the command `c`. -/
def finish (s : Ide B) (c : Cmd) : Ide B :=
  match c.data with
  | none => { s with cmd := none, irq := some c.ticket, latch := s.disk c.disk1 c.lba }
  | some data =>
    { s with
      cmd := none
      irq := some c.ticket
      disk := update s.disk c.disk1 (update (s.disk c.disk1) c.lba data) }

/-- One step. -/
def step [Fintype B] (s : Ide B) : IdeAct B → Except (Option Panic) (Ide B)
  | .iderw b v =>
    if v.busy = false then .error (some .iderwNotBusy)
    else if v.clean then .error (some .iderwNothing)
    else if v.dev ≠ 0 ∧ s.havedisk1 = false then .error (some .iderwNoDisk1)
    else .ok ({ s with buf := update s.buf b v }.goto b .acquire)
  | .next b => s.run b
  | .complete =>
    match s.cmd with
    | none => .ok s
    | some c => .ok (s.finish c)
  | .interrupt =>
    match s.irq, s.intr with
    | some t, .idle => .ok { s with irq := none, intr := .acquire t }
    | _, _ => .ok s
  | .handler => s.runIntr
  | .kill b =>
    .ok (if s.ptlock = none then { s with sleeping := update s.sleeping b false } else s)

omit [DecidableEq B] in
/-- What the callers promise: the buffer is not in a call, it is locked, and it is for a block of
disk 1. -/
def Promised (s : Ide B) : IdeAct B → Prop
  | .iderw b v => s.pc b = .idle ∧ v.busy = true ∧ v.dev = 1 ∧ v.blockno.toNat < fssize
  | _ => True

end Ide

end Col331
