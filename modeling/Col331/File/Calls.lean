import Col331.Fs.Syscall
import Col331.Logic.Reach
import Col331.Proc.Table

/-!
The calls that make, share and drop open files, for all processes of the table: `sys_open`,
`sys_close`, `sys_dup`, `sys_pipe`, `fork`, `exit` and `wait`, with every way in which they fail for
want of a file, a descriptor, a process or memory.

* `FileSys`: the open files, the pages of pipes, and a record of what was allocated and freed.
* `FileSys.fileclose`, `FileSys.pipealloc` and so on: the functions of the source.
* `FileCall`, `FileSys.exec`, `FileSys.step`: a call, together with what the rest of the kernel gives it.
-/

namespace Col331

open Function

/-- The open files of all processes and what they hold. -/
structure FileSys where
  fd : FdState (Fin nproc)
  slot : Fin nproc → ProcSlot
  /-- `nextpid`, an `int` that is not meant to overflow. -/
  nextpid : ℕ
  /-- `readopen` (`false`) and `writeopen` (`true`) of the pipe in a page. -/
  page : ℕ → Bool → Bool
  /-- How often `kalloc` gave the page to `pipealloc`. -/
  got : ℕ → ℕ
  /-- How often `pipeclose` passed the page to `kfree`. -/
  freed : ℕ → ℕ
  /-- How often a reference to an entry of the inode cache became that of a file. -/
  taken : Fin ninode → ℕ
  /-- How often `fileclose` passed the entry to `iput`. -/
  put : Fin ninode → ℕ

namespace FileSys

/-- The state in which `init` starts. -/
def boot : FileSys where
  fd := ⟨fun _ => ⟨.none, 0, false, false, 0, 0, 0⟩, fun _ _ => none, []⟩
  slot := update (fun _ => .unused) initproc .used
  nextpid := 2
  page _ _ := false
  got _ := 0
  freed _ := 0
  taken _ := 0
  put _ := 0

/-! ### Files -/

/-- A change to the open files. -/
def onFd (s : FileSys) (g : FdState (Fin nproc) → FdState (Fin nproc)) : FileSys :=
  { s with fd := g s.fd }

/-- `filealloc`. -/
def filealloc : Kern FileSys (Option (Fin nfile)) := do
  match Kernel.freeFile? (← get).fd with
  | none => return none
  | some f =>
    modify fun s => s.onFd fun t => Kernel.setFile t f { t.file f with ref := 1 }
    return some f

/-- `filedup`. -/
def filedup (f : Fin nfile) : Kern FileSys Unit := do
  if ((← get).fd.file f).ref < 1 then panic .filedup
  modify fun s => s.onFd fun t => t.addRef f

/-- `kfree` of the page of a pipe, which it fills with junk. -/
def kfree (s : FileSys) (a : ℕ) : FileSys :=
  { s with
    page := update s.page a fun _ => true
    freed := update s.freed a (s.freed a + 1) }

/-- `pipeclose`. -/
def pipeclose (s : FileSys) (a : ℕ) (writable : Bool) : FileSys :=
  let t := { s with page := update s.page a (update (s.page a) writable false) }
  if t.page a false = false ∧ t.page a true = false then t.kfree a else t

/-- `iput` of the reference that a file has. -/
def iput (s : FileSys) (ip : Fin ninode) : FileSys :=
  { s with put := update s.put ip (s.put ip + 1) }

/-- What becomes of a file whose last reference is gone. -/
def release (s : FileSys) (ff : File) : FileSys :=
  match ff.type with
  | .none => s
  | .pipe => s.pipeclose ff.pipe ff.writable
  | .inode => s.iput ff.ip

/-- `fileclose` of a file with a reference. -/
def close (s : FileSys) (f : Fin nfile) : FileSys :=
  let t := s.onFd fun t => t.dropRef f
  if 0 < (s.fd.file f).ref - 1 then t else t.release (s.fd.file f)

/-- `fileclose`. -/
def fileclose (f : Fin nfile) : Kern FileSys Unit := do
  if ((← get).fd.file f).ref < 1 then panic .fileclose
  modify fun s => s.close f

/-- `fdalloc`. -/
def fdalloc (p : Fin nproc) (f : Fin nfile) : Kern FileSys (Option (Fin nofile)) := do
  match Kernel.freeFd? (← get).fd p with
  | none => return none
  | some fd =>
    modify fun s => s.onFd fun t => t.setFd p fd (some f)
    return some fd

/-- `argfd`: the descriptor and its file. -/
def argfd (p : Fin nproc) (arg : Option ℤ) : Kern FileSys (Option (Fin nofile × Fin nfile)) := do
  match arg.bind fdSlot? with
  | none => return none
  | some fd =>
    match (← get).fd.ofile p fd with
    | none => return none
    | some f => return some (fd, f)

/-! ### System calls on files -/

/-- `sys_dup`. -/
def sysDup (p : Fin nproc) (arg : Option ℤ) : Kern FileSys ℤ := do
  match ← argfd p arg with
  | none => return -1
  | some (_, f) =>
    match ← fdalloc p f with
    | none => return -1
    | some fd =>
      filedup f
      return fd

/-- `sys_close`. -/
def sysClose (p : Fin nproc) (arg : Option ℤ) : Kern FileSys ℤ := do
  match ← argfd p arg with
  | none => return -1
  | some (fd, f) =>
    modify fun s => s.onFd fun t => t.setFd p fd none
    fileclose f
    return 0

/-- The assignments at the end of `sys_open`. -/
def fillInode (s : FileSys) (f : Fin nfile) (ip : Fin ninode) (omode : UInt32) : FileSys :=
  { s with
    fd := Kernel.setFile s.fd f { s.fd.file f with
      type := .inode
      ip := ip
      off := 0
      readable := omode &&& oWronly = 0
      writable := omode &&& oWronly ≠ 0 ∨ omode &&& oRdwr ≠ 0 }
    taken := update s.taken ip (s.taken ip + 1) }

/-- `sys_open`, from the inode that `create` or `namei` finds: `none` if there is none, or it is a
directory to be written to.  The reference to it is given back or becomes that of the file. -/
def sysOpen (p : Fin nproc) (found : Option (Fin ninode)) (omode : UInt32) : Kern FileSys ℤ := do
  match found with
  | none => return -1
  | some ip =>
    match ← filealloc with
    | none => return -1
    | some f =>
      match ← fdalloc p f with
      | none =>
        fileclose f
        return -1
      | some fd =>
        modify fun s => s.fillInode f ip omode
        return fd

/-- The assignments at the end of `pipealloc`. -/
def fillPipe (s : FileSys) (f₀ f₁ : Fin nfile) (a : ℕ) : FileSys :=
  let t := Kernel.setFile s.fd f₀ { s.fd.file f₀ with
    type := .pipe, readable := true, writable := false, pipe := a }
  { s with
    fd := Kernel.setFile t f₁ { t.file f₁ with
      type := .pipe, readable := false, writable := true, pipe := a }
    page := update s.page a fun _ => true
    got := update s.got a (s.got a + 1) }

/-- `pipealloc`, with what `kalloc` gives. -/
def pipealloc (page : Option ℕ) : Kern FileSys (Option (Fin nfile × Fin nfile)) := do
  match ← filealloc with
  | none => return none
  | some f₀ =>
    match ← filealloc with
    | none =>
      fileclose f₀
      return none
    | some f₁ =>
      match page with
      | none =>
        fileclose f₀
        fileclose f₁
        return none
      | some a =>
        modify fun s => s.fillPipe f₀ f₁ a
        return some (f₀, f₁)

/-- `sys_pipe`; `arg` if its argument is an address of the process. -/
def sysPipe (p : Fin nproc) (arg : Bool) (page : Option ℕ) : Kern FileSys ℤ := do
  if arg then
    match ← pipealloc page with
    | none => return -1
    | some (rf, wf) =>
      match ← fdalloc p rf with
      | none =>
        fileclose rf
        fileclose wf
        return -1
      | some fd₀ =>
        match ← fdalloc p wf with
        | none =>
          modify fun s => s.onFd fun t => t.setFd p fd₀ none
          fileclose rf
          fileclose wf
          return -1
        | some _ => return 0
  else return -1

/-! ### Processes -/

/-- A slot of the process table changes. -/
def setSlot (s : FileSys) (p : Fin nproc) (v : ProcSlot) : FileSys :=
  { s with slot := update s.slot p v }

/-- `allocproc`, with whether `kalloc` has a page for the kernel stack. -/
def allocproc (kstack : Bool) : Kern FileSys (Option (Fin nproc × ℕ)) := do
  let s ← get
  match (List.finRange nproc).find? fun p => s.slot p = .unused with
  | none => return none
  | some np =>
    set { s.setSlot np .embryo with nextpid := s.nextpid + 1 }
    if kstack then return some (np, s.nextpid)
    else
      modify fun s => s.setSlot np .unused
      return none

/-- The loop of `fork` over the descriptors. -/
def dupAll (p np : Fin nproc) : List (Fin nofile) → Kern FileSys Unit
  | [] => return
  | i :: is => do
    match (← get).fd.ofile p i with
    | none => dupAll p np is
    | some f =>
      filedup f
      modify fun s => s.onFd fun t => t.setFd np i (some f)
      dupAll p np is

/-- `fork`, with whether `kalloc` has a page for the kernel stack and `copyuvm` enough pages. -/
def fork (p : Fin nproc) (kstack copy : Bool) : Kern FileSys ℤ := do
  match ← allocproc kstack with
  | none => return -1
  | some (np, pid) =>
    if copy then
      dupAll p np (List.finRange nofile)
      modify fun s => s.setSlot np .used
      return pid
    else
      modify fun s => s.setSlot np .unused
      return -1

/-- The loop of `exit` over the descriptors. -/
def closeAll (p : Fin nproc) : List (Fin nofile) → Kern FileSys Unit
  | [] => return
  | fd :: fds => do
    match (← get).fd.ofile p fd with
    | none => closeAll p fds
    | some f =>
      fileclose f
      modify fun s => s.onFd fun t => t.setFd p fd none
      closeAll p fds

/-- `exit`, which does not return. -/
def exit (p : Fin nproc) : Kern FileSys ℤ := do
  if p = initproc then panic .initExiting
  closeAll p (List.finRange nofile)
  modify fun s => s.setSlot p .zombie
  return 0

/-- `wait`, if it finds the child `q`. -/
def wait (q : Fin nproc) : Kern FileSys ℤ := do
  if (← get).slot q = .zombie then
    modify fun s => s.setSlot q .unused
    return 0
  else return -1

end FileSys

/-- A call of a process, with what the rest of the kernel gives it. -/
inductive FileCall where
  | open (p : Fin nproc) (found : Option (Fin ninode)) (omode : UInt32)
  | close (p : Fin nproc) (arg : Option ℤ)
  | dup (p : Fin nproc) (arg : Option ℤ)
  | pipe (p : Fin nproc) (arg : Bool) (page : Option ℕ)
  | fork (p : Fin nproc) (kstack copy : Bool)
  | exit (p : Fin nproc)
  | wait (p q : Fin nproc)

/-- The process that calls. -/
def FileCall.proc : FileCall → Fin nproc
  | .open p .. | .close p _ | .dup p _ | .pipe p .. | .fork p .. | .exit p | .wait p _ => p

namespace FileSys

/-- A call from start to end. -/
def exec : FileCall → Kern FileSys ℤ
  | .open p found omode => sysOpen p found omode
  | .close p arg => sysClose p arg
  | .dup p arg => sysDup p arg
  | .pipe p arg page => sysPipe p arg page
  | .fork p kstack copy => fork p kstack copy
  | .exit p => exit p
  | .wait _ q => wait q

/-- One completed call. -/
def step (s : FileSys) (c : FileCall) : Except Stop FileSys := (exec c s).map Prod.snd

/-- Only a process calls, and `kalloc` gives out pages that are not in use. -/
def Promised (s : FileSys) (c : FileCall) : Prop :=
  s.slot c.proc = .used ∧
    match c with
    | .pipe _ _ (some a) => s.got a = s.freed a
    | _ => True

instance (s : FileSys) : (c : FileCall) → Decidable (s.Promised c)
  | .pipe _ _ (some _) => inferInstanceAs (Decidable (_ ∧ _))
  | .pipe _ _ none | .open .. | .close .. | .dup .. | .fork .. | .exit _ | .wait .. =>
    inferInstanceAs (Decidable (_ ∧ True))

end FileSys

end Col331
