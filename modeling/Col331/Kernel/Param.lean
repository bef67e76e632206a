import Col331.Data.Bytes
import Col331.Logic.Prog

/-!
The constants of `param.h` and `fs.h`, disk blocks, and the ways kernel code can stop short of
returning: the `panic` calls of the modelled files, a sleep that only another process can end,
and an access through a pointer that no object backs.
-/

namespace Col331

/-! ### `param.h` -/

/-- `NPROC`: maximum number of processes. -/
abbrev nproc : ℕ := 64

/-- `NOFILE`: open files per process. -/
abbrev nofile : ℕ := 16

/-- `NFILE`: open files per system. -/
abbrev nfile : ℕ := 100

/-- `NINODE`: maximum number of active i-nodes. -/
abbrev ninode : ℕ := 50

instance : NeZero nproc := ⟨by decide⟩

instance : NeZero ninode := ⟨by decide⟩

/-- `NDEV`: maximum major device number. -/
abbrev ndev : ℕ := 10

/-- `MAXOPBLOCKS`: max number of blocks any FS op writes. -/
abbrev maxOpBlocks : ℕ := 10

/-- `LOGSIZE`: max data blocks in on-disk log. -/
abbrev logSize : ℕ := maxOpBlocks * 3

/-- `NBUF`: size of disk block cache. -/
abbrev nbuf : ℕ := maxOpBlocks * 3

/-- `FSSIZE`: size of file system in blocks. -/
abbrev fssize : ℕ := 1000

/-- `KERNBASE` of `memlayout.h`: the first kernel virtual address. -/
abbrev kernbase : ℕ := 0x80000000

/-! ### Disk blocks -/

/-- `BSIZE`: block size. -/
abbrev bsize : ℕ := 512

/-- The contents of one block. -/
abbrev Block := Bytes bsize

/-- A disk, or the contents of the blocks as the buffer cache shows them. -/
abbrev Disk := ℕ → Block

/-- `initproc`: `userinit` gets the first slot of the process table. -/
abbrev initproc : Fin nproc := 0

/-! ### How kernel code stops -/

/-- The `panic` calls of the modelled files. -/
inductive Panic where
  | filedup | fileclose
  | tooBigTransaction | outsideTrans | logCommitting
  | ballocOut | freeingFree | iallocNone | igetNone | ilock | ilockNoType | iunlock | iputBusy
  | bmapRange | dirlookupNotDir | dirlinkRead | dirlink
  | isdiremptyReadi | unlinkNlink | unlinkWritei | createDots | createDirlink
  | fileread | filewrite | shortFilewrite
  | bgetNone | bwrite | brelse | iderwNotBusy | iderwNothing
  | idestart | idestartBlockno | iderwNoDisk1 | iderwNotDisk1 | iderwRange
  | initExiting | zombieExit | schedPtableLock | schedLocks | schedRunning | schedInterruptible
  | loaduvmAligned | loaduvmExist | remap | clearpteu | copyuvmPte | copyuvmPage
  deriving DecidableEq, Repr

/-- What keeps a call from returning. -/
inductive Stop where
  /-- The kernel panics. -/
  | panic (p : Panic)
  /-- The caller sleeps until another process wakes it. -/
  | sleep
  /-- An access outside an array or through an uninitialised pointer. -/
  | wild
  deriving DecidableEq, Repr

/-- Kernel code over a state `σ`. -/
abbrev Kern (σ α : Type) := Prog σ Stop α

/-- `panic(...)`. -/
def panic {σ α : Type} (p : Panic) : Kern σ α := throw (.panic p)

@[simp] lemma panic_run {σ α : Type} (p : Panic) (s : σ) :
    (panic p : Kern σ α) s = .error (.panic p) := rfl

@[simp] lemma wp_panic {σ α : Type} {Q : α → σ → Prop} {E : Stop → Prop} {s : σ} (p : Panic) :
    Prog.wp (panic p : Kern σ α) Q E s ↔ E (.panic p) := Iff.rfl

end Col331
