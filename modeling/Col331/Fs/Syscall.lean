import Col331.File.Table
import Col331.Fs.Dir

/-!
The file-system calls of `sysfile.c` and the part of `file.c` they use, over any inode layer.

* `create`, `sysLink`, `sysUnlink`, `sysMkdir`, `sysMknod`: the calls that change directories, for
  a process with current directory `cwd`.
* `Kernel P σ`: the open-file table and the descriptors of the processes `P`, their current
  directories, and the file system; `sysOpen`, `sysClose`, `sysRead`, `sysWrite`, `sysChdir`.
* `Call`, `exec`: a call with its arguments, which have been fetched from user memory.

There are no pipes: no call modelled here opens one.
-/

namespace Col331

open InodeLayer

/-! ### Calls on directories -/

/-- `"."`. -/
abbrev dot : List UInt8 := [46]

/-- `".."`. -/
abbrev dotdot : List UInt8 := [46, 46]

section Layer

variable {σ : Type} [InodeLayer σ]

/-- `ip->nlink++; iupdate(ip)`. -/
def incNlink (ip : Fin ninode) : Kern σ Unit := change ip fun a => { a with nlink := a.nlink + 1 }

/-- `ip->nlink--; iupdate(ip)`. -/
def decNlink (ip : Fin ninode) : Kern σ Unit := change ip fun a => { a with nlink := a.nlink - 1 }

/-- `bad:` in `sys_link`. -/
def linkBad (ip : Fin ninode) : Kern σ ℤ := do
  ilock ip
  decNlink ip
  iunlockput ip
  endOp
  return -1

/-- `sys_link`. -/
def sysLink (cwd : Fin ninode) (old new : List UInt8) : Kern σ ℤ := do
  beginOp
  match ← namei cwd old with
  | none =>
    endOp
    return -1
  | some ip =>
    ilock ip
    if (← type ip) = tDir then
      iunlockput ip
      endOp
      return -1
    else
      incNlink ip
      iunlock ip
      match ← nameiparent cwd new with
      | none => linkBad ip
      | some (dp, name) =>
        ilock dp
        if (← dirlink dp name (← inum ip)) < 0 then
          iunlockput dp
          linkBad ip
        else
          iunlockput dp
          iput ip
          endOp
          return 0

/-- `bad:` in `sys_unlink`. -/
def unlinkBad (dp : Fin ninode) : Kern σ ℤ := do
  iunlockput dp
  endOp
  return -1

/-- `ip->type == T_DIR && !isdirempty(ip)`. -/
def nonemptyDir (ip : Fin ninode) : Kern σ Bool := do
  if (← type ip) = tDir then return !(← isdirempty ip) else return false

/-- `sys_unlink` once the entry at `off` of `dp` may be removed. -/
def unlinkEntry (dp ip : Fin ninode) (off : ℕ) : Kern σ ℤ := do
  let de : Dirent := ⟨0, List.replicate dirsiz 0⟩
  if (← writei dp de.bytes off) ≠ direntSize then panic .unlinkWritei
  else
    if (← type ip) = tDir then decNlink dp
    iunlockput dp
    decNlink ip
    iunlockput ip
    endOp
    return 0

/-- `sys_unlink`. -/
def sysUnlink (cwd : Fin ninode) (path : List UInt8) : Kern σ ℤ := do
  beginOp
  match ← nameiparent cwd path with
  | none =>
    endOp
    return -1
  | some (dp, name) =>
    ilock dp
    if namecmp name dot = 0 ∨ namecmp name dotdot = 0 then unlinkBad dp
    else
      match ← dirlookup dp name with
      | none => unlinkBad dp
      | some (ip, off) =>
        ilock ip
        if (← nlink ip) < 1 then panic .unlinkNlink
        else if ← nonemptyDir ip then
          iunlockput ip
          unlinkBad dp
        else unlinkEntry dp ip off

/-- The entries `.` and `..` in `create`. -/
def createDotEntries (dp ip : Fin ninode) : Kern σ Unit := do
  incNlink dp
  if (← dirlink ip dot (← inum ip)) < 0 then panic .createDots
  else if (← dirlink ip dotdot (← inum dp)) < 0 then panic .createDots

/-- `create` once it is clear that `dp` has no entry `name`. -/
def createNew (dp : Fin ninode) (name : List UInt8) (type major minor : Int16) :
    Kern σ (Fin ninode) := do
  let ip ← ialloc type
  ilock ip
  change ip fun _ => ⟨major, minor, 1⟩
  if type = tDir then createDotEntries dp ip
  if (← dirlink dp name (← inum ip)) < 0 then panic .createDirlink
  else
    iunlockput dp
    return ip

/-- `create`: the inode is returned locked. -/
def create (cwd : Fin ninode) (path : List UInt8) (type major minor : Int16) :
    Kern σ (Option (Fin ninode)) := do
  match ← nameiparent cwd path with
  | none => return none
  | some (dp, name) =>
    ilock dp
    match ← dirlookup dp name with
    | some (ip, _) =>
      iunlockput dp
      ilock ip
      if type = tFile ∧ (← InodeLayer.type ip) = tFile then return some ip
      else
        iunlockput ip
        return none
    | none => some <$> createNew dp name type major minor

/-- `sys_mkdir` and `sys_mknod`: create the inode and let it go. -/
def sysCreate (cwd : Fin ninode) (path : List UInt8) (type major minor : Int16) : Kern σ ℤ := do
  beginOp
  match ← create cwd path type major minor with
  | none =>
    endOp
    return -1
  | some ip =>
    iunlockput ip
    endOp
    return 0

/-- `sys_mkdir`. -/
def sysMkdir (cwd : Fin ninode) (path : List UInt8) : Kern σ ℤ := sysCreate cwd path tDir 0 0

/-- `sys_mknod`. -/
def sysMknod (cwd : Fin ninode) (path : List UInt8) (major minor : Int16) : Kern σ ℤ :=
  sysCreate cwd path tDev major minor

/-! ### Open files -/

/-- `O_RDONLY`. -/
abbrev oRdonly : UInt32 := 0x000

/-- `O_WRONLY`. -/
abbrev oWronly : UInt32 := 0x001

/-- `O_RDWR`. -/
abbrev oRdwr : UInt32 := 0x002

/-- `O_CREATE`. -/
abbrev oCreate : UInt32 := 0x200

/-- The inode that `sys_open` opens, locked. -/
def openInode (cwd : Fin ninode) (path : List UInt8) (omode : UInt32) :
    Kern σ (Option (Fin ninode)) := do
  if omode &&& oCreate ≠ 0 then create cwd path tFile 0 0
  else
    match ← namei cwd path with
    | none => return none
    | some ip =>
      ilock ip
      if (← type ip) = tDir ∧ omode ≠ oRdonly then
        iunlockput ip
        return none
      else return some ip

/-- `max` in `filewrite`: the bytes of one round of its loop. -/
abbrev maxChunk : ℕ := (logSize - 1 - 1 - 2) / 2 * 512

/-- One round of the loop of `filewrite`, from `begin_op` to `end_op`. -/
def writeRound (ip : Fin ninode) (off : ℕ) (chunk : List UInt8) : Kern σ ℤ := do
  beginOp
  ilock ip
  let r ← writei ip chunk off
  iunlock ip
  endOp
  return r

end Layer

/-- The state of the kernel that file-system calls use. -/
structure Kernel (P σ : Type) where
  fd : FdState P
  cwd : P → Fin ninode
  fs : σ

namespace Kernel

variable {P σ : Type} [DecidableEq P] [InodeLayer σ]

/-- Code of the file system, run in the kernel. -/
def onFs {α : Type} (x : Kern σ α) : Kern (Kernel P σ) α := fun κ =>
  match x κ.fs with
  | .ok (a, fs) => .ok (a, { κ with fs })
  | .error e => .error e

omit [DecidableEq P] [InodeLayer σ] in
@[simp] lemma wp_onFs {α : Type} (x : Kern σ α) {Q : α → Kernel P σ → Prop} {E : Stop → Prop}
    {κ : Kernel P σ} :
    Prog.wp (onFs x) Q E κ ↔ Prog.wp x (fun a fs => Q a { κ with fs := fs }) E κ.fs := by
  rw [Prog.wp, Prog.wp, onFs]
  rcases x κ.fs with e | ⟨a, fs⟩ <;> rfl

/-- A change to the open files. -/
def onFd (f : FdState P → FdState P) : Kern (Kernel P σ) Unit :=
  modify fun κ => { κ with fd := f κ.fd }

/-- `filealloc`: the first free file. -/
def freeFile? (s : FdState P) : Option (Fin nfile) :=
  (List.finRange nfile).find? fun f => (s.file f).ref = 0

/-- `fdalloc`: the first free descriptor. -/
def freeFd? (s : FdState P) (p : P) : Option (Fin nofile) :=
  (List.finRange nofile).find? fun fd => s.ofile p fd = none

/-- File `f` is changed. -/
def setFile (s : FdState P) (f : Fin nfile) (file : File) : FdState P :=
  { s with file := Function.update s.file f file }

/-- `fileclose`. -/
def fileclose (f : Fin nfile) : Kern (Kernel P σ) Unit := do
  let ff := (← get).fd.file f
  if ff.ref < 1 then panic .fileclose
  else
    onFd fun s => s.dropRef f
    if ff.ref = 1 ∧ ff.type = .inode then
      onFs do
        beginOp
        iput ff.ip
        endOp

/-- `sys_open`. -/
def sysOpen (p : P) (path : List UInt8) (omode : UInt32) : Kern (Kernel P σ) ℤ := do
  let cwd := (← get).cwd p
  onFs beginOp
  match ← onFs (openInode cwd path omode) with
  | none =>
    onFs endOp
    return -1
  | some ip =>
    match freeFile? (← get).fd with
    | none =>
      onFs do
        iunlockput ip
        endOp
      return -1
    | some f =>
      onFd fun s => setFile s f { s.file f with ref := 1 }
      match freeFd? (← get).fd p with
      | none =>
        fileclose f
        onFs do
          iunlockput ip
          endOp
        return -1
      | some fd =>
        onFd fun s => s.setFd p fd (some f)
        onFs do
          iunlock ip
          endOp
        onFd fun s => setFile s f { s.file f with
          type := .inode
          ip := ip
          off := 0
          readable := omode &&& oWronly = 0
          writable := omode &&& oWronly ≠ 0 ∨ omode &&& oRdwr ≠ 0 }
        return fd

/-- `sys_close`. -/
def sysClose (p : P) (fd : ℤ) : Kern (Kernel P σ) ℤ := do
  match fdSlot? fd with
  | none => return -1
  | some i =>
    match (← get).fd.ofile p i with
    | none => return -1
    | some f =>
      onFd fun s => s.setFd p i none
      fileclose f
      return 0

/-- An `int` passed as a `uint`. -/
def toUInt (n : ℤ) : ℕ := (n % 2 ^ 32).toNat

/-- `fileread`; the bytes stored at `addr`, and `none` for the result `-1`. -/
def fileread (f : Fin nfile) (n : ℤ) : Kern (Kernel P σ) (Option (List UInt8)) := do
  let ff := (← get).fd.file f
  if ff.readable = false then return none
  else
    match ff.type with
    | .pipe => throw .wild
    | .none => panic .fileread
    | .inode =>
      let r ← onFs do
        ilock ff.ip
        readi ff.ip ff.off.toNat (toUInt n)
      onFd fun s => setFile s f { s.file f with
        off := (s.file f).off + UInt32.ofNat (r.getD []).length }
      onFs (iunlock ff.ip)
      return r

/-- `sys_read`: the value returned and the bytes stored. -/
def sysRead (p : P) (fd n : ℤ) : Kern (Kernel P σ) (ℤ × List UInt8) := do
  match (← get).fd.fd? p fd with
  | none => return (-1, [])
  | some f =>
    match ← fileread f n with
    | none => return (-1, [])
    | some bs => return (bs.length, bs)

/-- The loop of `filewrite`: whether all of `src` is written. -/
def filewriteLoop (f : Fin nfile) : ℕ → List UInt8 → Kern (Kernel P σ) Bool
  | 0, src => return src = []
  | fuel + 1, src => do
    if src = [] then return true
    else
      let ff := (← get).fd.file f
      let chunk := src.take maxChunk
      let r ← onFs (writeRound ff.ip ff.off.toNat chunk)
      if 0 < r then
        onFd fun s => setFile s f { s.file f with off := (s.file f).off + UInt32.ofNat r.toNat }
      if r < 0 then return false
      else if r ≠ chunk.length then panic .shortFilewrite
      else filewriteLoop f fuel (src.drop maxChunk)

/-- `filewrite` of the `n` bytes at `addr`, which holds `mem`. -/
def filewrite (f : Fin nfile) (mem : ℕ → UInt8) (n : ℤ) : Kern (Kernel P σ) ℤ := do
  let ff := (← get).fd.file f
  if ff.writable = false then return -1
  else
    match ff.type with
    | .pipe => throw .wild
    | .none => panic .filewrite
    | .inode =>
      if n < 0 then return -1
      else if ← filewriteLoop f n.toNat ((List.range n.toNat).map mem) then return n
      else return -1

/-- `sys_write`. -/
def sysWrite (p : P) (fd : ℤ) (mem : ℕ → UInt8) (n : ℤ) : Kern (Kernel P σ) ℤ := do
  match (← get).fd.fd? p fd with
  | none => return -1
  | some f => filewrite f mem n

/-- The inode that `sys_chdir` changes to, unlocked again. -/
def chdirInode (cwd : Fin ninode) (path : List UInt8) : Kern σ (Option (Fin ninode)) := do
  match ← namei cwd path with
  | none => return none
  | some ip =>
    ilock ip
    if (← type ip) ≠ tDir then
      iunlockput ip
      return none
    else
      iunlock ip
      return some ip

/-- `sys_chdir`. -/
def sysChdir (p : P) (path : List UInt8) : Kern (Kernel P σ) ℤ := do
  let cwd := (← get).cwd p
  onFs beginOp
  match ← onFs (chdirInode cwd path) with
  | none =>
    onFs endOp
    return -1
  | some ip =>
    onFs do
      iput cwd
      endOp
    modify fun κ => { κ with cwd := Function.update κ.cwd p ip }
    return 0

end Kernel

/-- A system call with its arguments. -/
inductive Call where
  | open (path : List UInt8) (omode : UInt32)
  | close (fd : ℤ)
  | read (fd n : ℤ)
  | write (fd : ℤ) (mem : ℕ → UInt8) (n : ℤ)
  | mkdir (path : List UInt8)
  | mknod (path : List UInt8) (major minor : Int16)
  | link (old new : List UInt8)
  | unlink (path : List UInt8)
  | chdir (path : List UInt8)

/-- A call by process `p`: the value returned, and the bytes stored in user memory. -/
def exec {P σ : Type} [DecidableEq P] [InodeLayer σ] (p : P) :
    Call → Kern (Kernel P σ) (ℤ × List UInt8)
  | .open path omode => return (← Kernel.sysOpen p path omode, [])
  | .close fd => return (← Kernel.sysClose p fd, [])
  | .read fd n => Kernel.sysRead p fd n
  | .write fd mem n => return (← Kernel.sysWrite p fd mem n, [])
  | .mkdir path => do return (← Kernel.onFs (sysMkdir ((← get).cwd p) path), [])
  | .mknod path major minor => do
      return (← Kernel.onFs (sysMknod ((← get).cwd p) path major minor), [])
  | .link old new => do return (← Kernel.onFs (sysLink ((← get).cwd p) old new), [])
  | .unlink path => do return (← Kernel.onFs (sysUnlink ((← get).cwd p) path), [])
  | .chdir path => return (← Kernel.sysChdir p path, [])

end Col331
