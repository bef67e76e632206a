import Col331.Fs.Layout
import Col331.Logic.Reach

/-!
The inode cache of `fs.c` as processes use it at the same time.

A step is one critical section of `icache.lock`, one access to an inode on disk, or a piece of
code that runs between these on an inode the process has locked.  `iput` releases the lock while
it frees an inode, and `ialloc` takes a number as soon as its type is zero on disk, so two
processes can be at work on one entry of the cache.

* `IcSys`: the cache, the inodes on disk, where each process is, and, as a record of what the
  callers do, the pointers they hold and the inodes they have locked.
* `IcSys.step`: one step.
* `IcSys.Promised`: what the callers promise.
-/

namespace Col331

/-! ### The cache -/

/-- What names an inode: its device and its number there. -/
structure Ino where
  dev : UInt32
  inum : UInt32
  deriving DecidableEq

/-- `struct inode`, with `I_BUSY` and `I_VALID` of `flags`. -/
structure CachedInode where
  ino : Ino
  ref : ℤ
  busy : Bool
  valid : Bool
  d : Dinode

/-- Where a process is in `ilock`. -/
inductive LockPc where
  /-- Before the test of `I_BUSY`, for the first time or after a `sleep`. -/
  | test
  /-- In `sleep(ip, &icache.lock)`. -/
  | asleep
  /-- `I_BUSY` is set; before the test of `I_VALID`. -/
  | flags
  /-- Before the copy from the disk. -/
  | read
  /-- Before `ip->flags |= I_VALID`. -/
  | copied
  deriving DecidableEq

/-- Where a process is in the part of `iput` that frees the inode. -/
inductive FreePc where
  /-- In `itrunc`, before `ip->addrs[i]` is cleared. -/
  | trunc (i : ℕ)
  /-- In `itrunc`, before its `iupdate`. -/
  | shrunk
  /-- Before `ip->type = 0`. -/
  | typed
  /-- Before the last `iupdate`. -/
  | cleared
  /-- Before the lock is acquired again. -/
  | done
  deriving DecidableEq

/-- The types of allocated inodes, which `ialloc` is called with: `T_DIR`, `T_FILE` and `T_DEV`
are not zero. -/
abbrev FileType := {t : Int16 // t ≠ 0}

/-- Where a process is.  `H` are the variables that point to inodes; a call works on the entry
`k` that the pointer `h` refers to. -/
inductive IcPc (H : Type) where
  | idle
  | ilock (h : H) (k : Fin ninode) (c : LockPc)
  | iunlock (h : H) (k : Fin ninode)
  | iput (h : H) (k : Fin ninode) (c : FreePc)
  /-- In `ialloc`, before the disk inode `inum` is looked at. -/
  | ialloc (dev : UInt32) (type : FileType) (inum : UInt32)
  /-- In `ialloc`, before `iget`. -/
  | marked (i : Ino)
  deriving DecidableEq

/-- The inode cache with the inodes on disk and the processes `P`. -/
structure IcSys (P H : Type) where
  disk : Ino → Dinode
  inode : Fin ninode → CachedInode
  pc : P → IcPc H
  /-- The references: what each pointer refers to. -/
  ptr : H → Option (Fin ninode)
  /-- The process has set `I_BUSY` of the inode through this pointer and not cleared it yet. -/
  locked : P → H → Bool
  /-- The copy in memory was changed after the last `iupdate`. -/
  dirty : Fin ninode → Bool

namespace IcSys

variable {P H : Type}

/-- The loop of `iget`: the entry that caches the inode. -/
def cached? (s : IcSys P H) (i : Ino) : Option (Fin ninode) :=
  (List.finRange ninode).find? fun k => 0 < (s.inode k).ref ∧ (s.inode k).ino = i

/-- The loop of `iget`: the first free entry. -/
def empty? (s : IcSys P H) : Option (Fin ninode) :=
  (List.finRange ninode).find? fun k => (s.inode k).ref = 0

/-- The entry `k` is changed to `ip`. -/
def setInode (s : IcSys P H) (k : Fin ninode) (ip : CachedInode) : IcSys P H :=
  { s with inode := Function.update s.inode k ip }

/-- The disk inode `i` is changed to `d`. -/
def setDisk (s : IcSys P H) (i : Ino) (d : Dinode) : IcSys P H :=
  { s with disk := Function.update s.disk i d }

/-- The copy of the entry `k` in memory is changed to `d`. -/
def setCopy (s : IcSys P H) (k : Fin ninode) (d : Dinode) : IcSys P H :=
  s.setInode k { s.inode k with d }

/-- The disk gets the copy of the entry `k`. -/
def update (s : IcSys P H) (k : Fin ninode) : IcSys P H :=
  s.setDisk (s.inode k).ino (s.inode k).d

/-- The entry a process is working on. -/
def slot? : IcPc H → Option (Fin ninode)
  | .ilock _ k _ | .iunlock _ k | .iput _ k _ => some k
  | _ => none

/-- A sleeping process is made runnable. -/
def rouse : IcPc H → IcPc H
  | .ilock h k .asleep => .ilock h k .test
  | c => c

/-- `wakeup(ip)`. -/
def wakeup (s : IcSys P H) (k : Fin ninode) : IcSys P H :=
  { s with pc := fun q => if slot? (s.pc q) = some k then rouse (s.pc q) else s.pc q }

variable [DecidableEq P] [DecidableEq H]

/-- The process `p` goes on at `c`. -/
def goto (s : IcSys P H) (p : P) (c : IcPc H) : IcSys P H :=
  { s with pc := Function.update s.pc p c }

/-- The pointer `h` is set. -/
def setPtr (s : IcSys P H) (h : H) (r : Option (Fin ninode)) : IcSys P H :=
  { s with ptr := Function.update s.ptr h r }

/-- The inode of `h` is, or is no longer, locked by `p`. -/
def setLocked (s : IcSys P H) (p : P) (h : H) (b : Bool) : IcSys P H :=
  { s with locked := fun q g => if q = p ∧ g = h then b else s.locked q g }

/-! ### The critical sections -/

/-- `iget`. -/
def iget (s : IcSys P H) (p : P) (h : H) (i : Ino) : Except Panic (IcSys P H) :=
  match s.cached? i with
  | some k =>
    .ok (((s.setInode k { s.inode k with ref := (s.inode k).ref + 1 }).setPtr h (some k)).goto
      p .idle)
  | none =>
    match s.empty? with
    | some k =>
      .ok (((s.setInode k
        { s.inode k with ino := i, ref := 1, busy := false, valid := false }).setPtr
          h (some k)).goto p .idle)
    | none => .error .igetNone

/-- The round of the loop of `ialloc` for the inode `inum`. -/
def iallocRound (s : IcSys P H) (ninodes : UInt32) (p : P) (dev : UInt32) (type : FileType)
    (inum : UInt32) : Except Panic (IcSys P H) :=
  if inum < ninodes then
    if (s.disk ⟨dev, inum⟩).type = 0 then
      .ok ((s.setDisk ⟨dev, inum⟩ { Dinode.zero with type := type.1 }).goto p (.marked ⟨dev, inum⟩))
    else .ok (s.goto p (.ialloc dev type (inum + 1)))
  else .error .iallocNone

/-- The next step of `p` in `ilock`. -/
def lockStep (s : IcSys P H) (p : P) (h : H) (k : Fin ninode) : LockPc → Except Panic (IcSys P H)
  | .test =>
    if (s.inode k).busy then .ok (s.goto p (.ilock h k .asleep))
    else .ok (((s.setInode k { s.inode k with busy := true }).setLocked p h true).goto p
      (.ilock h k .flags))
  | .asleep => .ok s
  | .flags => .ok (s.goto p (if (s.inode k).valid then .idle else .ilock h k .read))
  | .read => .ok ((s.setCopy k (s.disk (s.inode k).ino)).goto p (.ilock h k .copied))
  | .copied =>
    if (s.inode k).d.type = 0 then .error .ilockNoType
    else .ok ((s.setInode k { s.inode k with valid := true }).goto p .idle)

/-- The critical section of `iunlock`. -/
def unlock (s : IcSys P H) (p : P) (h : H) (k : Fin ninode) : IcSys P H :=
  (((s.setInode k { s.inode k with busy := false }).setLocked p h false).goto p .idle).wakeup k

/-- `ip->ref--`. -/
def decRef (s : IcSys P H) (h : H) (k : Fin ninode) : IcSys P H :=
  (s.setInode k { s.inode k with ref := (s.inode k).ref - 1 }).setPtr h none

/-- The first critical section of `iput`. -/
def iput (s : IcSys P H) (p : P) (h : H) (k : Fin ninode) : Except Panic (IcSys P H) :=
  let ip := s.inode k
  if ip.ref = 1 ∧ ip.valid ∧ ip.d.nlink = 0 then
    if ip.busy then .error .iputBusy
    else .ok (((s.setInode k { ip with busy := true }).setLocked p h true).goto p
      (.iput h k (.trunc 0)))
  else .ok (s.decRef h k)

/-- The next step of `p` while it frees the inode in `iput`. -/
def freeStep (s : IcSys P H) (p : P) (h : H) (k : Fin ninode) : FreePc → IcSys P H
  | .trunc i =>
    let d := (s.inode k).d
    if hi : i < ndirect + 1 then
      (s.setCopy k { d with addrs := Function.update d.addrs ⟨i, hi⟩ 0 }).goto p
        (.iput h k (.trunc (i + 1)))
    else (s.setCopy k { d with size := 0 }).goto p (.iput h k .shrunk)
  | .shrunk => (s.update k).goto p (.iput h k .typed)
  | .typed => (s.setCopy k { (s.inode k).d with type := 0 }).goto p (.iput h k .cleared)
  | .cleared => (s.update k).goto p (.iput h k .done)
  | .done =>
    ((((s.setInode k { s.inode k with busy := false, valid := false }).setLocked p h
      false).goto p .idle).decRef h k).wakeup k

/-! ### Steps -/

end IcSys

/-- What can happen next. -/
inductive IcAct (P H : Type) where
  | iget (p : P) (h : H) (i : Ino)
  | idup (p : P) (h h' : H)
  | ilock (p : P) (h : H)
  | iunlock (p : P) (h : H)
  | iput (p : P) (h : H)
  | ialloc (p : P) (dev : UInt32) (type : FileType)
  /-- The process changes the inode it has locked. -/
  | modify (p : P) (h : H) (d : Dinode)
  | iupdate (p : P) (h : H)
  /-- A reference is handed from one variable to another. -/
  | move (h h' : H)
  /-- The process takes the next step of the call it is in. -/
  | next (p : P)
  | kill (p : P)

namespace IcSys

variable {P H : Type} [DecidableEq P] [DecidableEq H]

/-- One step.  `ninodes` is the field of the super block. -/
def step (ninodes : UInt32) (s : IcSys P H) : IcAct P H → Except Panic (IcSys P H)
  | .iget p h i => s.iget p h i
  | .idup _ h h' =>
    match s.ptr h with
    | some k =>
      .ok ((s.setInode k { s.inode k with ref := (s.inode k).ref + 1 }).setPtr h' (some k))
    | none => .ok s
  | .ilock p h =>
    match s.ptr h with
    | some k =>
      if (s.inode k).ref < 1 then .error .ilock else .ok (s.goto p (.ilock h k .test))
    | none => .error .ilock
  | .iunlock p h =>
    match s.ptr h with
    | some k =>
      if (s.inode k).busy = false ∨ (s.inode k).ref < 1 then .error .iunlock
      else .ok (s.goto p (.iunlock h k))
    | none => .error .iunlock
  | .iput p h =>
    match s.ptr h with
    | some k => s.iput p h k
    | none => .ok s
  | .ialloc p dev type => .ok (s.goto p (.ialloc dev type 1))
  | .modify _ h d =>
    match s.ptr h with
    | some k => .ok { s.setCopy k d with dirty := Function.update s.dirty k true }
    | none => .ok s
  | .iupdate _ h =>
    match s.ptr h with
    | some k => .ok { s.update k with dirty := Function.update s.dirty k false }
    | none => .ok s
  | .move h h' => .ok ((s.setPtr h' (s.ptr h)).setPtr h none)
  | .next p =>
    match s.pc p with
    | .idle | .marked _ => .ok s
    | .ilock h k c => s.lockStep p h k c
    | .iunlock h k => .ok (s.unlock p h k)
    | .iput h k c => .ok (s.freeStep p h k c)
    | .ialloc dev type inum => s.iallocRound ninodes p dev type inum
  | .kill p => .ok (s.goto p (rouse (s.pc p)))

/-! ### The callers -/

/-- The inode is allocated and has links, on disk or in the copy that is in use. -/
def Linked (s : IcSys P H) (i : Ino) : Prop :=
  ((s.disk i).type ≠ 0 ∧ 0 < (s.disk i).nlink) ∨
    ∃ k, 0 < (s.inode k).ref ∧ (s.inode k).ino = i ∧ (s.inode k).valid = true ∧
      0 < (s.inode k).d.nlink

/-- The process is in `ilock` through the pointer `h`. -/
def locks (h : H) : IcPc H → Bool
  | .ilock h' _ _ => h' = h
  | _ => false

/-- The process is in `iput` of the reference `h`. -/
def puts (h : H) : IcPc H → Bool
  | .iput h' _ _ => h' = h
  | _ => false

/-- Some process has locked the inode of `h` through it, or is about to. -/
def InUse (s : IcSys P H) (h : H) : Prop :=
  ∃ q, s.locked q h = true ∨ locks h (s.pc q) = true

/-- The pointer `h` is a reference that nobody is putting. -/
def Held (s : IcSys P H) (h : H) : Prop := s.ptr h ≠ none ∧ ∀ q, puts h (s.pc q) = false

instance (s : IcSys P H) (i : Ino) : Decidable (s.Linked i) :=
  inferInstanceAs (Decidable (_ ∨ _))

instance [Fintype P] (s : IcSys P H) (h : H) : Decidable (s.InUse h) :=
  inferInstanceAs (Decidable (∃ _, _ ∨ _))

instance [Fintype P] (s : IcSys P H) (h : H) : Decidable (s.Held h) :=
  inferInstanceAs (Decidable (_ ∧ _))

/-- What the callers promise.  A reference is put only by who holds it, and not while an inode
is locked through it; an inode is changed by who has locked it, stays allocated, and is written
back with `iupdate` before it is unlocked; `iget` is called for an inode that has links or was
just marked by `ialloc`. -/
def Promised (s : IcSys P H) : IcAct P H → Prop
  | .iget p h i => s.ptr h = none ∧ (s.pc p = .idle ∧ s.Linked i ∨ s.pc p = .marked i)
  | .idup p h h' => s.pc p = .idle ∧ s.Held h ∧ s.ptr h' = none
  | .ilock p h => s.pc p = .idle ∧ s.Held h
  | .iunlock p h => s.pc p = .idle ∧ s.locked p h = true ∧ ∀ k, s.ptr h = some k → s.dirty k = false
  | .iput p h => s.pc p = .idle ∧ s.Held h ∧ ¬s.InUse h
  | .ialloc p _ _ => s.pc p = .idle
  | .modify p h d => s.pc p = .idle ∧ s.locked p h = true ∧ d.type ≠ 0
  | .iupdate p h => s.pc p = .idle ∧ s.locked p h = true
  | .move h h' => s.Held h ∧ s.ptr h' = none ∧ ¬s.InUse h
  | .next _ | .kill _ => True

instance [Fintype P] (s : IcSys P H) : (a : IcAct P H) → Decidable (s.Promised a)
  | .iget .. | .idup .. | .ilock .. | .iunlock .. | .iput .. | .modify .. | .iupdate ..
  | .move .. => inferInstanceAs (Decidable (_ ∧ _))
  | .ialloc .. => inferInstanceAs (Decidable (_ = _))
  | .next _ | .kill _ => .isTrue trivial

end IcSys

end Col331
