import Col331.Data.Ring
import Col331.Kernel.Param
import Col331.Logic.Reach

/-!
The buffer cache (`bio.c`) as processes use it at the same time.

A step is one critical section of `bcache.lock`, or code that a process runs on a buffer it
holds; `sleep` and `goto loop` in `bget` make the search start again.  The disk driver is there
by what it does to the flags of the buffer it is given, and the contents of the blocks, which
`bio.c` never looks at, are left out.

* `Bcache.binit`, `Bcache.link`, `Bcache.unlink`: the pointer assignments of `binit` and
  `brelse`.
* `BioSys.bget`, `BioSys.brelse`: the critical sections.
* `BioSys.step`, `BioSys.Promised`: one step, and what the callers promise.
-/

namespace Col331

open Function

/-! ### The cache -/

/-- What `next` and `prev` point to: a buffer, or `&bcache.head`, which is `none`. -/
abbrev BufNode := Option (Fin nbuf)

/-- `struct buf`, with `B_BUSY`, `B_VALID` and `B_DIRTY` of `flags`. -/
structure Buf where
  dev : UInt32
  blockno : UInt32
  busy : Bool
  valid : Bool
  dirty : Bool

/-- The buffer is for this block. -/
def Buf.isFor (b : Buf) (dev blockno : UInt32) : Bool := b.dev = dev ∧ b.blockno = blockno

/-- `(b->flags & B_BUSY) == 0 && (b->flags & B_DIRTY) == 0`. -/
def Buf.cleanIdle (b : Buf) : Bool := b.busy = false ∧ b.dirty = false

/-- `bcache`. -/
structure Bcache where
  next : BufNode → BufNode
  prev : BufNode → BufNode
  buf : Fin nbuf → Buf

namespace Bcache

/-- `x->next = y`. -/
def setNext (c : Bcache) (x y : BufNode) : Bcache := { c with next := update c.next x y }

/-- `x->prev = y`. -/
def setPrev (c : Bcache) (x y : BufNode) : Bcache := { c with prev := update c.prev x y }

/-- The fields of `b` are changed. -/
def setBuf (c : Bcache) (b : Fin nbuf) (v : Buf) : Bcache :=
  { c with buf := update c.buf b v }

/-- The assignments in `binit` and `brelse` that put `b` at the head of the list. -/
def link (c : Bcache) (b : Fin nbuf) : Bcache :=
  let c := c.setNext (some b) (c.next none)
  let c := c.setPrev (some b) none
  let c := c.setPrev (c.next none) (some b)
  c.setNext none (some b)

/-- The assignments in `brelse` that take `b` out of the list. -/
def unlink (c : Bcache) (b : Fin nbuf) : Bcache :=
  let c := c.setPrev (c.next (some b)) (c.prev (some b))
  c.setNext (c.prev (some b)) (c.next (some b))

/-- The loop of `binit`. -/
def linkAll (c : Bcache) : List (Fin nbuf) → Bcache
  | [] => c
  | b :: bs => ((c.link b).setBuf b { c.buf b with dev := -1 }).linkAll bs

/-- `binit`.  Nothing reads the pointers of a buffer before they are set here. -/
def binit : Bcache :=
  let c : Bcache := ⟨fun _ => none, fun _ => none, fun _ => ⟨0, 0, false, false, false⟩⟩
  ((c.setPrev none none).setNext none none).linkAll (List.finRange nbuf)

/-- A search loop of `bget`, along `next` or `prev`: `none` if it does not come back to the head
within `NBUF` rounds, and else the buffer it stops at. -/
def find (c : Bcache) (along : BufNode → BufNode) (f : Buf → Bool) :
    Option (Option (Fin nbuf)) :=
  (findFrom along none (fun x => x.any fun b => f (c.buf b)) nbuf (along none)).map Option.join

end Bcache

/-! ### Processes -/

/-- Where a process is. -/
inductive BufPc where
  | idle
  /-- In `bget`, at `loop`. -/
  | bget (dev blockno : UInt32)
  /-- In `bget`, in `sleep(b, &bcache.lock)`. -/
  | asleep (b : Fin nbuf) (dev blockno : UInt32)
  /-- In `bread`, after `bget` has returned `b`. -/
  | fetched (b : Fin nbuf)
  /-- In `iderw`, waiting for the disk. -/
  | iderw (b : Fin nbuf)
  /-- In `brelse`, before the critical section. -/
  | brelse (b : Fin nbuf)
  deriving DecidableEq

/-- The buffer cache and the processes that use it. -/
structure BioSys (P : Type) where
  cache : Bcache
  pc : P → BufPc
  /-- The process got the buffer from `bget` and has not given it back. -/
  holds : P → Fin nbuf → Bool
  /-- When each buffer was last put at the head of the list, by `brelse` or else by `binit`. -/
  time : Fin nbuf → ℕ
  /-- How often that was done. -/
  clock : ℕ

/-- What can happen next. -/
inductive BioAct (P : Type) where
  | bread (p : P) (dev blockno : UInt32)
  | brelse (p : P) (b : Fin nbuf)
  | bwrite (p : P) (b : Fin nbuf)
  | logWrite (p : P) (b : Fin nbuf)
  /-- The disk is done with the buffer that `p` waits for. -/
  | ideintr (p : P)
  /-- The process takes the next step of the call it is in. -/
  | next (p : P)
  | kill (p : P)

namespace BioSys

variable {P : Type}

/-- After `binit`. -/
def boot : BioSys P where
  cache := .binit
  pc _ := .idle
  holds _ _ := false
  time b := b
  clock := nbuf

/-- `wakeup(b)`. -/
def wakeup (s : BioSys P) (b : Fin nbuf) : BioSys P :=
  { s with pc := fun q =>
      match s.pc q with
      | .asleep b' dev blockno => if b' = b then .bget dev blockno else .asleep b' dev blockno
      | c => c }

/-- The fields of `b` are changed. -/
def setBuf (s : BioSys P) (b : Fin nbuf) (v : Buf) : BioSys P :=
  { s with cache := s.cache.setBuf b v }

variable [DecidableEq P]

/-- The process `p` goes on at `c`. -/
def goto (s : BioSys P) (p : P) (c : BufPc) : BioSys P :=
  { s with pc := update s.pc p c }

/-- The process `p` has got, or given back, the buffer `b`. -/
def setHolds (s : BioSys P) (p : P) (b : Fin nbuf) (v : Bool) : BioSys P :=
  { s with holds := fun q b' => if q = p ∧ b' = b then v else s.holds q b' }

/-- `bget` from `loop` on.  The error `none` is a search that does not end. -/
def bget (s : BioSys P) (p : P) (dev blockno : UInt32) : Except (Option Panic) (BioSys P) :=
  match s.cache.find s.cache.next (·.isFor dev blockno) with
  | none => .error none
  | some (some b) =>
    let v := s.cache.buf b
    if v.busy then .ok (s.goto p (.asleep b dev blockno))
    else .ok (((s.setBuf b { v with busy := true }).setHolds p b true).goto p (.fetched b))
  | some none =>
    match s.cache.find s.cache.prev Buf.cleanIdle with
    | none => .error none
    | some (some b) =>
      .ok (((s.setBuf b ⟨dev, blockno, true, false, false⟩).setHolds p b true).goto p
        (.fetched b))
    | some none => .error (some .bgetNone)

/-- `iderw`, up to the wait. -/
def iderw (s : BioSys P) (p : P) (b : Fin nbuf) : Except (Option Panic) (BioSys P) :=
  let v := s.cache.buf b
  if v.busy = false then .error (some .iderwNotBusy)
  else if v.valid ∧ v.dirty = false then .error (some .iderwNothing)
  else .ok (s.goto p (.iderw b))

/-- The critical section of `brelse`. -/
def brelse (s : BioSys P) (p : P) (b : Fin nbuf) : BioSys P :=
  let c := (s.cache.unlink b).link b
  let s : BioSys P := { s with
    cache := c.setBuf b { c.buf b with busy := false }
    time := update s.time b s.clock
    clock := s.clock + 1 }
  ((s.setHolds p b false).goto p .idle).wakeup b

/-- One step. -/
def step (s : BioSys P) : BioAct P → Except (Option Panic) (BioSys P)
  | .bread p dev blockno => .ok (s.goto p (.bget dev blockno))
  | .brelse p b =>
    if (s.cache.buf b).busy = false then .error (some .brelse) else .ok (s.goto p (.brelse b))
  | .bwrite p b =>
    if (s.cache.buf b).busy = false then .error (some .bwrite)
    else (s.setBuf b { s.cache.buf b with dirty := true }).iderw p b
  | .logWrite _ b => .ok (s.setBuf b { s.cache.buf b with dirty := true })
  | .ideintr p =>
    match s.pc p with
    | .iderw b =>
      .ok ((s.setBuf b { s.cache.buf b with valid := true, dirty := false }).wakeup b)
    | _ => .ok s
  | .next p =>
    match s.pc p with
    | .idle | .asleep .. => .ok s
    | .bget dev blockno => s.bget p dev blockno
    | .fetched b => if (s.cache.buf b).valid then .ok (s.goto p .idle) else s.iderw p b
    | .iderw b =>
      if (s.cache.buf b).valid ∧ (s.cache.buf b).dirty = false then .ok (s.goto p .idle)
      else .ok s
    | .brelse b => .ok (s.brelse p b)
  | .kill p =>
    match s.pc p with
    | .asleep _ dev blockno => .ok (s.goto p (.bget dev blockno))
    | _ => .ok s

/-- What the callers promise: a process makes one call at a time, and passes on only buffers it
holds. -/
def Promised (s : BioSys P) : BioAct P → Prop
  | .bread p _ _ => s.pc p = .idle
  | .brelse p b | .bwrite p b | .logWrite p b => s.pc p = .idle ∧ s.holds p b = true
  | .ideintr _ | .next _ | .kill _ => True

instance (s : BioSys P) : (a : BioAct P) → Decidable (s.Promised a)
  | .bread .. => inferInstanceAs (Decidable (_ = _))
  | .brelse .. | .bwrite .. | .logWrite .. => inferInstanceAs (Decidable (_ ∧ _))
  | .ideintr _ | .next _ | .kill _ => .isTrue trivial

end BioSys

end Col331
