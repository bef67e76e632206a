import Col331.Kernel.Param

/-!
The open-file table of `file.c` and the descriptor tables of the processes: `struct file`,
`filedup`, the table part of `fileclose`, and `argfd` of `sysfile.c`.

`FdState.Consistent` is the invariant of the layer: the reference count of every file is the
number of descriptors that refer to it.  `FdState.dropRef`, `FdState.addRef` and `FdState.setFd` are
the changes that the tables undergo; `Consistent.close` and `Consistent.open` put them together.
-/

namespace Col331

open Function

/-! ### `struct file` -/

/-- `enum { FD_NONE, FD_PIPE, FD_INODE }`. -/
inductive FdType where
  | none | pipe | inode
  deriving DecidableEq, Repr

/-- `struct file`; `pipe` is the address of the pipe and `ip` the entry of the inode cache. -/
structure File where
  type : FdType
  ref : ℤ
  readable : Bool
  writable : Bool
  pipe : ℕ
  ip : Fin ninode
  off : UInt32
  deriving DecidableEq, Repr

/-- The open-file table, the descriptor tables of the processes `P`, and the files released so
far: the copies `ff` that `fileclose` hands to `pipeclose` or `iput`, last one first. -/
structure FdState (P : Type) where
  file : Fin nfile → File
  ofile : P → Fin nofile → Option (Fin nfile)
  released : List File

namespace FdState

variable {P : Type}

/-! ### Changes to the tables -/

/-- One reference to `f` less; the last one empties the slot and releases the file. -/
def dropRef (s : FdState P) (f : Fin nfile) : FdState P :=
  if 0 < (s.file f).ref - 1 then
    { s with file := update s.file f { s.file f with ref := (s.file f).ref - 1 } }
  else
    { s with
      file := update s.file f { s.file f with ref := 0, type := .none }
      released := { s.file f with ref := (s.file f).ref - 1 } :: s.released }

/-- One reference to `f` more. -/
def addRef (s : FdState P) (f : Fin nfile) : FdState P :=
  { s with file := update s.file f { s.file f with ref := (s.file f).ref + 1 } }

@[simp] lemma dropRef_ofile (s : FdState P) (f : Fin nfile) : (s.dropRef f).ofile = s.ofile := by
  rw [dropRef]
  split_ifs <;> rfl

@[simp] lemma addRef_ofile (s : FdState P) (f : Fin nfile) : (s.addRef f).ofile = s.ofile := rfl

lemma dropRef_ref (s : FdState P) {f : Fin nfile} (hf : 1 ≤ (s.file f).ref) (g : Fin nfile) :
    ((s.dropRef f).file g).ref = (s.file g).ref - if g = f then 1 else 0 := by
  rw [dropRef]
  by_cases hg : g = f
  · subst hg
    rw [if_pos rfl]
    split_ifs with h
    · simp
    · have h0 : (s.file g).ref - 1 = 0 := by omega
      simp [h0]
  · split_ifs <;> simp [hg]

lemma addRef_ref (s : FdState P) (f g : Fin nfile) :
    ((s.addRef f).file g).ref = (s.file g).ref + if g = f then 1 else 0 := by
  by_cases hg : g = f
  · subst hg
    simp [addRef]
  · simp [addRef, hg]

section

variable [DecidableEq P]

/-- Descriptor `fd` of process `p` now refers to `v`. -/
def setFd (s : FdState P) (p : P) (fd : Fin nofile) (v : Option (Fin nfile)) : FdState P :=
  { s with ofile := update s.ofile p (update (s.ofile p) fd v) }

@[simp] lemma setFd_file (s : FdState P) (p : P) (fd : Fin nofile)
    (v : Option (Fin nfile)) : (s.setFd p fd v).file = s.file := rfl

@[simp] lemma setFd_ofile_self (s : FdState P) (p : P) (fd : Fin nofile)
    (v : Option (Fin nfile)) : (s.setFd p fd v).ofile p fd = v := by
  simp [setFd]

lemma setFd_ofile (s : FdState P) (p : P) (fd : Fin nofile) (v : Option (Fin nfile))
    (q : P × Fin nofile) :
    (s.setFd p fd v).ofile q.1 q.2 = if q = (p, fd) then v else s.ofile q.1 q.2 := by
  obtain ⟨p', fd'⟩ := q
  by_cases hp : p' = p
  · subst hp
    by_cases hfd : fd' = fd
    · simp [setFd, hfd]
    · simp [setFd, hfd]
  · simp [setFd, hp]

/-- The two tables are changed in any order. -/
lemma dropRef_setFd (s : FdState P) (f : Fin nfile) (p : P) (fd : Fin nofile) (v : Option (Fin nfile)) :
    (s.dropRef f).setFd p fd v = (s.setFd p fd v).dropRef f := by
  rw [dropRef, dropRef, setFd_file]
  by_cases h : 0 < (s.file f).ref - 1
  · rw [if_pos h, if_pos h]
    rfl
  · rw [if_neg h, if_neg h]
    rfl

end

/-! ### Reference counts -/

variable [Fintype P]

/-- The descriptors, of any process, that refer to `f`. -/
def refs (s : FdState P) (f : Fin nfile) : Finset (P × Fin nofile) :=
  Finset.univ.filter fun q => s.ofile q.1 q.2 = some f

/-- **The invariant of the layer**: the count of every file is its number of descriptors. -/
def Consistent (s : FdState P) : Prop := ∀ f, (s.file f).ref = (s.refs f).card

variable {s : FdState P} {fd : Fin nofile} {f : Fin nfile} {p : P}

lemma mem_refs {q : P × Fin nofile} :
    q ∈ s.refs f ↔ s.ofile q.1 q.2 = some f := by
  simp [refs]

@[simp] lemma refs_dropRef (s : FdState P) (f g : Fin nfile) : (s.dropRef f).refs g = s.refs g := by
  simp [refs]

@[simp] lemma refs_addRef (s : FdState P) (f g : Fin nfile) : (s.addRef f).refs g = s.refs g := rfl

lemma card_refs_pos
    (h : s.ofile p fd = some f) : 0 < (s.refs f).card := by
  have hmem : (p, fd) ∈ s.refs f := mem_refs.mpr h
  exact Finset.card_pos.mpr ⟨_, hmem⟩

lemma exists_of_card_refs_pos (h : 0 < (s.refs f).card) :
    ∃ p fd, s.ofile p fd = some f := by
  obtain ⟨⟨p, fd⟩, hmem⟩ := Finset.card_pos.mp h
  exact ⟨p, fd, mem_refs.mp hmem⟩

/-- An open descriptor keeps its file's count positive. -/
lemma Consistent.one_le_ref (hs : s.Consistent)
    (h : s.ofile p fd = some f) : 1 ≤ (s.file f).ref := by
  have hpos := card_refs_pos h
  rw [hs f]
  omega

variable [DecidableEq P]

/-- Clearing a descriptor takes it from the descriptors of its file. -/
lemma refs_setFd_none {g : Fin nfile}
    (h : s.ofile p fd = some g) (f : Fin nfile) :
    ((s.setFd p fd none).refs f).card = (s.refs f).card - if f = g then 1 else 0 := by
  have hset : (s.setFd p fd none).refs f = (s.refs f).erase (p, fd) := by
    ext q
    rw [Finset.mem_erase, mem_refs, mem_refs, setFd_ofile]
    by_cases hq : q = (p, fd) <;> simp [hq]
  rw [hset]
  by_cases hfg : f = g
  · subst hfg
    rw [Finset.card_erase_of_mem (mem_refs.mpr h), if_pos rfl]
  · rw [if_neg hfg, Finset.erase_eq_of_notMem]
    · rfl
    · rw [mem_refs, h]
      simpa using fun hgf => hfg hgf.symm

/-- Filling a free descriptor adds it to the descriptors of its file. -/
lemma refs_setFd_some
    (h : s.ofile p fd = none) (g f : Fin nfile) :
    ((s.setFd p fd (some g)).refs f).card = (s.refs f).card + if f = g then 1 else 0 := by
  have hnot : (p, fd) ∉ s.refs f := by rw [mem_refs, h]; simp
  by_cases hfg : f = g
  · subst hfg
    have hset : (s.setFd p fd (some f)).refs f = insert (p, fd) (s.refs f) := by
      ext q
      rw [Finset.mem_insert, mem_refs, mem_refs, setFd_ofile]
      by_cases hq : q = (p, fd) <;> simp [hq]
    rw [hset, Finset.card_insert_of_notMem hnot, if_pos rfl]
  · have hset : (s.setFd p fd (some g)).refs f = s.refs f := by
      ext q
      rw [mem_refs, mem_refs, setFd_ofile]
      by_cases hq : q = (p, fd)
      · rw [if_pos hq, hq, h]
        simpa using fun hgf => hfg hgf.symm
      · rw [if_neg hq]
    rw [hset, if_neg hfg, Nat.add_zero]

/-- Closing a descriptor keeps the counts exact. -/
lemma Consistent.close (hs : s.Consistent)
    {g : Fin nfile} (h : s.ofile p fd = some g) :
    ((s.setFd p fd none).dropRef g).Consistent := by
  intro f
  have hg : 1 ≤ ((s.setFd p fd none).file g).ref := by
    rw [setFd_file]
    exact hs.one_le_ref h
  rw [dropRef_ref _ hg, refs_dropRef, refs_setFd_none h, setFd_file, hs f]
  by_cases hfg : f = g
  · subst hfg
    have hpos := card_refs_pos h
    simp only [if_pos]
    omega
  · simp [hfg]

/-- Giving a file to a free descriptor keeps the counts exact. -/
lemma Consistent.open (hs : s.Consistent)
    (h : s.ofile p fd = none) (g : Fin nfile) :
    ((s.setFd p fd (some g)).addRef g).Consistent := by
  intro f
  rw [addRef_ref, refs_addRef, refs_setFd_some h, setFd_file, hs f]
  by_cases hfg : f = g <;> simp [hfg]

end FdState

/-! ### `filedup`, `fileclose` and `argfd` -/

variable {P : Type}

/-- `filedup`. -/
def filedup (f : Fin nfile) : Kern (FdState P) Unit := do
  let s ← get
  if (s.file f).ref < 1 then panic .filedup
  set (s.addRef f)

/-- `fileclose`: the table under `ftable.lock`, and the copy `ff` it hands to `pipeclose` or to
`iput` when the last reference is gone. -/
def fileclose (f : Fin nfile) : Kern (FdState P) Unit := do
  let s ← get
  if (s.file f).ref < 1 then panic .fileclose
  set (s.dropRef f)

variable {s : FdState P}

lemma filedup_run {f : Fin nfile} (h : 1 ≤ (s.file f).ref) :
    filedup f s = .ok ((), s.addRef f) := by
  have hn : ¬ (s.file f).ref < 1 := not_lt.mpr h
  simp [filedup, Prog.bind_run, hn]

lemma fileclose_run {f : Fin nfile} (h : 1 ≤ (s.file f).ref) :
    fileclose f s = .ok ((), s.dropRef f) := by
  have hn : ¬ (s.file f).ref < 1 := not_lt.mpr h
  simp [fileclose, Prog.bind_run, hn]

/-- Closing a file without references stops the kernel. -/
lemma fileclose_panic {f : Fin nfile} (h : (s.file f).ref < 1) :
    fileclose f s = .error (.panic .fileclose) := by
  simp [fileclose, Prog.bind_run, h]

/-- A descriptor number in `0..NOFILE-1`. -/
def fdSlot? (fd : ℤ) : Option (Fin nofile) :=
  if h : 0 ≤ fd ∧ fd < nofile then some ⟨fd.toNat, by omega⟩ else none

/-- `proc->ofile[fd]` with `0 <= fd < NOFILE`, the null pointer as `none`. -/
def FdState.fd? (s : FdState P) (p : P) (fd : ℤ) : Option (Fin nfile) :=
  if h : 0 ≤ fd ∧ fd < nofile then s.ofile p ⟨fd.toNat, by omega⟩ else none

/-- `argfd`: the file of the descriptor that is argument `n`.  `args` is what `argint` fetches
from the user stack. -/
def argfd (p : P) (args : ℕ → Option ℤ) (n : ℕ) : Kern (FdState P) (Option (Fin nfile)) := do
  let s ← get
  match args n with
  | none => return none
  | some fd => return s.fd? p fd

lemma argfd_run {p : P} {args : ℕ → Option ℤ} {n : ℕ} {fd : ℤ}
    (h : args n = some fd) : argfd p args n s = .ok (s.fd? p fd, s) := by
  simp [argfd, Prog.bind_run, h]

end Col331
