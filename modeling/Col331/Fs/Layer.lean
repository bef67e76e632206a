import Col331.Fs.Syscall
import Col331.Fs.Trunc

/-!
Code over an inode layer does the same on two layers of which one refines the other.

* `LayerRefines R may`: every operation of one layer refines that of the other.
* `LayerRefines.exec`: every system call does, on kernels with the same open files and current
  directories.
* `fsRefines`: the file system of `fs.c` refines the abstract one, up to a full disk.
-/

namespace Col331

variable {σ τ : Type} [InodeLayer σ] [InodeLayer τ]

/-- The operations on `σ` refine those on `τ`. -/
structure LayerRefines (R : σ → τ → Prop) (may : Stop → Prop) : Prop where
  beginOp : Refines R may .wild (InodeLayer.beginOp : Kern σ _) (InodeLayer.beginOp : Kern τ _)
  endOp : Refines R may .wild (InodeLayer.endOp : Kern σ _) (InodeLayer.endOp : Kern τ _)
  iget : ∀ i, Refines R may .wild (InodeLayer.iget i : Kern σ _) (InodeLayer.iget i : Kern τ _)
  ialloc : ∀ t, Refines R may .wild (InodeLayer.ialloc t : Kern σ _) (InodeLayer.ialloc t : Kern τ _)
  idup : ∀ k, Refines R may .wild (InodeLayer.idup k : Kern σ _) (InodeLayer.idup k : Kern τ _)
  ilock : ∀ k, Refines R may .wild (InodeLayer.ilock k : Kern σ _) (InodeLayer.ilock k : Kern τ _)
  iunlock : ∀ k,
    Refines R may .wild (InodeLayer.iunlock k : Kern σ _) (InodeLayer.iunlock k : Kern τ _)
  iput : ∀ k, Refines R may .wild (InodeLayer.iput k : Kern σ _) (InodeLayer.iput k : Kern τ _)
  inum : ∀ k, Refines R may .wild (InodeLayer.inum k : Kern σ _) (InodeLayer.inum k : Kern τ _)
  type : ∀ k, Refines R may .wild (InodeLayer.type k : Kern σ _) (InodeLayer.type k : Kern τ _)
  nlink : ∀ k, Refines R may .wild (InodeLayer.nlink k : Kern σ _) (InodeLayer.nlink k : Kern τ _)
  size : ∀ k, Refines R may .wild (InodeLayer.size k : Kern σ _) (InodeLayer.size k : Kern τ _)
  change : ∀ k f,
    Refines R may .wild (InodeLayer.change k f : Kern σ _) (InodeLayer.change k f : Kern τ _)
  readi : ∀ k off n,
    Refines R may .wild (InodeLayer.readi k off n : Kern σ _) (InodeLayer.readi k off n : Kern τ _)
  writei : ∀ k src off, Refines R may .wild
    (InodeLayer.writei k src off : Kern σ _) (InodeLayer.writei k src off : Kern τ _)

namespace LayerRefines

/-- The code `x` does the same on both layers. -/
abbrev Same (R : σ → τ → Prop) (may : Stop → Prop) {α : Type} (x : ∀ ρ : Type, [InodeLayer ρ] → Kern ρ α) :
    Prop := Refines R may .wild (x σ) (x τ)

variable {R : σ → τ → Prop} {may : Stop → Prop} (L : LayerRefines R may)

include L

/-! ### Directories and paths -/

lemma iunlockput (ip : Fin ninode) : Same R may fun _ => iunlockput ip :=
  (L.iunlock ip).bind fun _ => L.iput ip

lemma readDirent (msg : Panic) (dp : Fin ninode) (off : ℕ) : Same R may fun _ => readDirent msg dp off := by
  refine (L.readi dp off _).bind fun r => ?_
  cases r with
  | none => exact Refines.throw _
  | some bs => exact Refines.ite (Refines.pure _) (Refines.throw _)

section

variable (dp : Fin ninode)

include dp

lemma lookupLoop (name : List UInt8) (offs : List ℕ) :
    Same R may fun _ => lookupLoop dp name offs := by
  induction offs with
  | nil => exact Refines.pure _
  | cons off offs ih =>
    refine (L.readDirent _ dp off).bind fun de => Refines.ite ih (Refines.ite ?_ ih)
    exact (L.iget _).bind fun ip => Refines.pure _

lemma dirlookup (name : List UInt8) : Same R may fun _ => dirlookup dp name :=
  (L.type dp).bind fun _ => Refines.ite (Refines.throw _)
    ((L.size dp).bind fun _ => L.lookupLoop dp name _)

lemma emptyLoop (last : ℕ) (offs : List ℕ) :
    Same R may fun _ => emptyLoop dp last offs := by
  induction offs with
  | nil => exact Refines.pure _
  | cons off offs ih =>
    exact (L.readDirent _ dp off).bind fun de => Refines.ite (Refines.pure _) ih

lemma dirlink (name : List UInt8) (inum : ℕ) :
    Same R may fun _ => dirlink dp name inum := by
  refine (L.dirlookup dp name).opt ?_ fun ip => (L.iput _).ret _
  refine (L.size dp).bind fun _ => (L.emptyLoop dp _ _).bind fun off => ?_
  exact (L.writei dp _ off).bind fun r => Refines.ite ((Refines.throw _).ret _) (Refines.pure _)

lemma isdiremptyLoop (offs : List ℕ) : Same R may fun _ => isdiremptyLoop dp offs := by
  induction offs with
  | nil => exact Refines.pure _
  | cons off offs ih =>
    exact (L.readDirent _ dp off).bind fun de => Refines.ite (Refines.pure _) ih

lemma isdirempty : Same R may fun _ => isdirempty dp :=
  (L.size dp).bind fun _ => L.isdiremptyLoop dp _

end

lemma namexLoop (parent : Bool) (path : List (List UInt8)) (ip : Fin ninode) :
    Same R may fun _ => namexLoop parent ip path := by
  induction path generalizing ip with
  | nil => exact Refines.ite ((L.iput ip).ret _) (Refines.pure _)
  | cons name path ih =>
    refine (L.ilock ip).bind fun _ => (L.type ip).bind fun t => Refines.ite ?_ (Refines.ite ?_ ?_)
    · exact (L.iunlockput ip).ret _
    · exact (L.iunlock ip).ret _
    · exact (L.dirlookup ip name).opt ((L.iunlockput ip).ret _) fun r =>
        (L.iunlockput ip).bind fun _ => ih r.1

lemma namex (cwd : Fin ninode) (path : List UInt8) (parent : Bool) :
    Same R may fun _ => namex cwd path parent :=
  Refines.ite ((L.iget _).bind fun ip => L.namexLoop parent _ ip)
    ((L.idup cwd).bind fun _ => L.namexLoop parent _ cwd)

lemma namei (cwd : Fin ninode) (path : List UInt8) : Same R may fun _ => namei cwd path :=
  (L.namex cwd path false).ret _

lemma nameiparent (cwd : Fin ninode) (path : List UInt8) : Same R may fun _ => nameiparent cwd path :=
  L.namex cwd path true

/-! ### Calls on directories -/

lemma linkBad (ip : Fin ninode) : Same R may fun _ => linkBad ip :=
  (L.ilock ip).bind fun _ => (L.change ip _).bind fun _ => (L.iunlockput ip).bind fun _ =>
    L.endOp.ret _

lemma sysLink (cwd : Fin ninode) (old new : List UInt8) : Same R may fun _ => sysLink cwd old new := by
  refine L.beginOp.bind fun _ => (L.namei cwd old).opt (L.endOp.ret _) fun ip =>
    (L.ilock ip).bind fun _ => (L.type ip).bind fun t => Refines.ite ?_ ?_
  · exact (L.iunlockput ip).bind fun _ => L.endOp.ret _
  · refine (L.change ip _).bind fun _ => (L.iunlock ip).bind fun _ =>
      (L.nameiparent cwd new).opt (L.linkBad ip) fun r => (L.ilock r.1).bind fun _ =>
      (L.inum ip).bind fun i => (L.dirlink r.1 r.2 i).bind fun r' => Refines.ite ?_ ?_
    · exact (L.iunlockput r.1).bind fun _ => L.linkBad ip
    · exact (L.iunlockput r.1).bind fun _ => (L.iput ip).bind fun _ => L.endOp.ret _

lemma unlinkBad (dp : Fin ninode) : Same R may fun _ => unlinkBad dp :=
  (L.iunlockput dp).bind fun _ => L.endOp.ret _

lemma nonemptyDir (ip : Fin ninode) : Same R may fun _ => nonemptyDir ip :=
  (L.type ip).bind fun _ => Refines.ite ((L.isdirempty ip).ret _)
    (Refines.pure _)

lemma unlinkEntry (dp ip : Fin ninode) (off : ℕ) : Same R may fun _ => unlinkEntry dp ip off := by
  have htail : Same R may fun _ => (do
      Col331.iunlockput dp; decNlink ip; Col331.iunlockput ip; InodeLayer.endOp; pure (0 : ℤ)) :=
    (L.iunlockput dp).bind fun _ => (L.change ip _).bind fun _ => (L.iunlockput ip).bind fun _ =>
      L.endOp.ret _
  exact (L.writei dp _ off).bind fun r => Refines.ite (Refines.throw _) ((L.type ip).bind fun t =>
    Refines.ite ((L.change dp _).bind fun _ => htail) htail)

lemma sysUnlink (cwd : Fin ninode) (path : List UInt8) : Same R may fun _ => sysUnlink cwd path := by
  refine L.beginOp.bind fun _ => (L.nameiparent cwd path).opt (L.endOp.ret _) fun r =>
    (L.ilock r.1).bind fun _ => Refines.ite (L.unlinkBad r.1)
      ((L.dirlookup r.1 r.2).opt (L.unlinkBad r.1) fun r' => ?_)
  refine (L.ilock r'.1).bind fun _ => (L.nlink r'.1).bind fun n =>
    Refines.ite (Refines.throw _) ((L.nonemptyDir r'.1).bind fun b => Refines.ite ?_ ?_)
  · exact (L.iunlockput r'.1).bind fun _ => L.unlinkBad r.1
  · exact L.unlinkEntry r.1 r'.1 r'.2

lemma createDotEntries (dp ip : Fin ninode) : Same R may fun _ => createDotEntries dp ip :=
  (L.change dp _).bind fun _ => (L.inum ip).bind fun i => (L.dirlink ip _ i).bind fun _ =>
    Refines.ite (Refines.throw _) ((L.inum dp).bind fun j => (L.dirlink ip _ j).bind fun _ =>
      Refines.ite (Refines.throw _) (Refines.pure _))

lemma createNew (dp : Fin ninode) (name : List UInt8) (type major minor : Int16) :
    Same R may fun _ => createNew dp name type major minor := by
  refine (L.ialloc type).bind fun ip => (L.ilock ip).bind fun _ => (L.change ip _).bind fun _ => ?_
  have htail : Same R may fun _ => (do
      if (← Col331.dirlink dp name (← InodeLayer.inum ip)) < 0 then panic .createDirlink
      else
        Col331.iunlockput dp
        return ip) :=
    (L.inum ip).bind fun i => (L.dirlink dp name i).bind fun _ => Refines.ite (Refines.throw _)
      ((L.iunlockput dp).ret _)
  exact Refines.ite ((L.createDotEntries dp ip).bind fun _ => htail) htail

lemma create (cwd : Fin ninode) (path : List UInt8) (type major minor : Int16) :
    Same R may fun _ => create cwd path type major minor := by
  refine (L.nameiparent cwd path).opt (Refines.pure _) fun r => (L.ilock r.1).bind fun _ =>
    (L.dirlookup r.1 r.2).opt ((L.createNew r.1 r.2 type major minor).map _) fun r' => ?_
  exact (L.iunlockput r.1).bind fun _ => (L.ilock r'.1).bind fun _ => (L.type r'.1).bind fun t =>
    Refines.ite (Refines.pure _) ((L.iunlockput r'.1).ret _)

lemma sysCreate (cwd : Fin ninode) (path : List UInt8) (type major minor : Int16) :
    Same R may fun _ => sysCreate cwd path type major minor :=
  L.beginOp.bind fun _ => (L.create cwd path type major minor).opt (L.endOp.ret _) fun ip =>
    (L.iunlockput ip).bind fun _ => L.endOp.ret _

lemma openInode (cwd : Fin ninode) (path : List UInt8) (omode : UInt32) :
    Same R may fun _ => openInode cwd path omode :=
  Refines.ite (L.create cwd path _ _ _) ((L.namei cwd path).opt (Refines.pure _) fun ip =>
    (L.ilock ip).bind fun _ => (L.type ip).bind fun _ =>
      Refines.ite ((L.iunlockput ip).ret _) (Refines.pure _))

lemma writeRound (ip : Fin ninode) (off : ℕ) (chunk : List UInt8) :
    Same R may fun _ => writeRound ip off chunk :=
  L.beginOp.bind fun _ => (L.ilock ip).bind fun _ => (L.writei ip chunk off).bind fun _ =>
    (L.iunlock ip).bind fun _ => L.endOp.ret _

lemma chdirInode (cwd : Fin ninode) (path : List UInt8) :
    Same R may fun _ => Kernel.chdirInode cwd path :=
  (L.namei cwd path).opt (Refines.pure _) fun ip => (L.ilock ip).bind fun _ =>
    (L.type ip).bind fun _ => Refines.ite ((L.iunlockput ip).ret _) ((L.iunlock ip).ret _)

end LayerRefines

/-! ### Calls -/

/-- Kernels with the same open files and current directories, over related file systems. -/
structure KernelRel (P : Type) (R : σ → τ → Prop) (κ : Kernel P σ) (κ' : Kernel P τ) : Prop where
  fd : κ.fd = κ'.fd
  cwd : κ.cwd = κ'.cwd
  fs : R κ.fs κ'.fs

section Kernel

variable {P : Type} [DecidableEq P] {R : σ → τ → Prop} {may : Stop → Prop} {α : Type}

namespace KernelRel

omit [InodeLayer σ] [InodeLayer τ] [DecidableEq P] in
lemma onFs {x : Kern σ α} {y : Kern τ α} (h : Refines R may .wild x y) :
    Refines (KernelRel P R) may .wild (Kernel.onFs x) (Kernel.onFs y) := by
  intro κ κ' hκ hub
  have hub' : y κ'.fs ≠ .error .wild := fun hy => hub (by rw [Kernel.onFs, hy])
  rw [Kernel.wp_onFs]
  refine Prog.wp_mono (h κ.fs κ'.fs hκ.fs hub') ?_ fun e he => he.imp_left fun hy => ?_
  · rintro a fs ⟨fs', hy, hR⟩
    exact ⟨{ κ' with fs := fs' }, by rw [Kernel.onFs, hy], hκ.fd, hκ.cwd, hR⟩
  · rw [Kernel.onFs, hy]

omit [InodeLayer σ] [InodeLayer τ] [DecidableEq P] in
lemma onFd (f : FdState P → FdState P) : Refines (KernelRel P R) may .wild (Kernel.onFd f) (Kernel.onFd f) :=
  fun _ κ' h _ => ⟨{ κ' with fd := f κ'.fd }, rfl, congrArg f h.fd, h.cwd, h.fs⟩

omit [InodeLayer σ] [InodeLayer τ] [DecidableEq P] in
/-- Code that reads the open files and the current directories. -/
lemma get_bind {f : Kernel P σ → Kern (Kernel P σ) α} {g : Kernel P τ → Kern (Kernel P τ) α}
    (h : ∀ κ κ', κ.fd = κ'.fd → κ.cwd = κ'.cwd → Refines (KernelRel P R) may .wild (f κ) (g κ')) :
    Refines (KernelRel P R) may .wild (get >>= f) (get >>= g) :=
  fun κ κ' hκ hub => h κ κ' hκ.fd hκ.cwd κ κ' hκ hub

end KernelRel

namespace LayerRefines

/-- The system call `x` does the same over both layers. -/
abbrev SameCall (P : Type) (R : σ → τ → Prop) (may : Stop → Prop)
    (x : ∀ ρ : Type, [InodeLayer ρ] → Kern (Kernel P ρ) α) : Prop :=
  Refines (KernelRel P R) may .wild (x σ) (x τ)

variable (L : LayerRefines R may)

include L

omit [DecidableEq P] in
lemma fileclose (f : Fin nfile) : SameCall P R may fun _ => Kernel.fileclose f := by
  refine KernelRel.get_bind fun κ κ' hfd _ => ?_
  rw [hfd]
  refine Refines.ite (Refines.throw _) ((KernelRel.onFd _).bind fun _ => Refines.ite ?_ (Refines.pure _))
  exact KernelRel.onFs (L.beginOp.bind fun _ => (L.iput _).bind fun _ => L.endOp)

lemma sysOpen (p : P) (path : List UInt8) (omode : UInt32) :
    SameCall P R may fun _ => Kernel.sysOpen p path omode := by
  refine KernelRel.get_bind fun κ κ' _ hcwd => ?_
  rw [hcwd]
  have hdrop : ∀ ip, SameCall P R may fun _ => Kernel.onFs (do Col331.iunlockput ip; InodeLayer.endOp) :=
    fun ip => KernelRel.onFs ((L.iunlockput ip).bind fun _ => L.endOp)
  refine (KernelRel.onFs L.beginOp).bind fun _ => (KernelRel.onFs (L.openInode _ path omode)).opt
    ((KernelRel.onFs L.endOp).ret _) fun ip => KernelRel.get_bind fun κ κ' hfd _ => ?_
  rw [hfd]
  cases Kernel.freeFile? κ'.fd with
  | none => exact (hdrop ip).ret _
  | some f =>
    refine (KernelRel.onFd _).bind fun _ => KernelRel.get_bind fun κ κ' hfd _ => ?_
    rw [hfd]
    cases Kernel.freeFd? κ'.fd p with
    | none => exact (L.fileclose f).bind fun _ => (hdrop ip).ret _
    | some fd =>
      exact (KernelRel.onFd _).bind fun _ =>
        (KernelRel.onFs ((L.iunlock ip).bind fun _ => L.endOp)).bind fun _ => (KernelRel.onFd _).ret _

lemma sysClose (p : P) (fd : ℤ) : SameCall P R may fun _ => Kernel.sysClose p fd := by
  rw [SameCall, Kernel.sysClose, Kernel.sysClose]
  cases fdSlot? fd with
  | none => exact Refines.pure _
  | some i =>
    refine KernelRel.get_bind fun κ κ' hfd _ => ?_
    rw [hfd]
    cases κ'.fd.ofile p i with
    | none => exact Refines.pure _
    | some f => exact (KernelRel.onFd _).bind fun _ => (L.fileclose f).ret _

omit [DecidableEq P] in
lemma fileread (f : Fin nfile) (n : ℤ) : SameCall P R may fun _ => Kernel.fileread f n := by
  refine KernelRel.get_bind fun κ κ' hfd _ => ?_
  rw [hfd]
  refine Refines.ite (Refines.pure _) ?_
  cases (κ'.fd.file f).type with
  | pipe | none => exact Refines.throw _
  | inode =>
    exact (KernelRel.onFs ((L.ilock _).bind fun _ => L.readi _ _ _)).bind fun r =>
      (KernelRel.onFd _).bind fun _ => (KernelRel.onFs (L.iunlock _)).ret _

omit [DecidableEq P] in
lemma sysRead (p : P) (fd n : ℤ) : SameCall P R may fun _ => Kernel.sysRead p fd n := by
  refine KernelRel.get_bind fun κ κ' hfd _ => ?_
  rw [hfd]
  cases κ'.fd.fd? p fd with
  | none => exact Refines.pure _
  | some f => exact (L.fileread f n).opt (Refines.pure _) fun _ => Refines.pure _

omit [DecidableEq P] in
lemma filewriteLoop (f : Fin nfile) (fuel : ℕ) (src : List UInt8) :
    SameCall P R may fun _ => Kernel.filewriteLoop f fuel src := by
  induction fuel generalizing src with
  | zero => exact Refines.pure _
  | succ fuel ih =>
    refine Refines.ite (Refines.pure _) (KernelRel.get_bind fun κ κ' hfd _ => ?_)
    rw [hfd]
    refine (KernelRel.onFs (L.writeRound _ _ _)).bind fun r => ?_
    have hstop : Refines (KernelRel P R) may .wild (pure false) (pure false) := Refines.pure _
    have htail := Refines.ite (c := r < 0) hstop (Refines.ite
      (c := r ≠ (src.take maxChunk).length) (Refines.throw (.panic .shortFilewrite))
        (ih (src.drop maxChunk)))
    exact Refines.ite ((KernelRel.onFd _).bind fun _ => htail) htail

omit [DecidableEq P] in
lemma sysWrite (p : P) (fd : ℤ) (mem : ℕ → UInt8) (n : ℤ) :
    SameCall P R may fun _ => Kernel.sysWrite p fd mem n := by
  refine KernelRel.get_bind fun κ κ' hfd _ => ?_
  rw [hfd]
  cases κ'.fd.fd? p fd with
  | none => exact Refines.pure _
  | some f =>
    refine KernelRel.get_bind fun κ κ' hfd _ => ?_
    rw [hfd]
    refine Refines.ite (Refines.pure _) ?_
    cases (κ'.fd.file f).type with
    | pipe | none => exact Refines.throw _
    | inode =>
      exact Refines.ite (Refines.pure _) ((L.filewriteLoop f _ _).bind fun b =>
        Refines.ite (Refines.pure _) (Refines.pure _))

lemma sysChdir (p : P) (path : List UInt8) : SameCall P R may fun _ => Kernel.sysChdir p path := by
  refine KernelRel.get_bind fun κ κ' _ hcwd => ?_
  rw [hcwd]
  refine (KernelRel.onFs L.beginOp).bind fun _ => (KernelRel.onFs (L.chdirInode _ path)).opt
    ((KernelRel.onFs L.endOp).ret _) fun ip => (KernelRel.onFs ((L.iput _).bind fun _ => L.endOp)).bind
    fun _ => Refines.bind (fun κ κ' h _ => ?_) fun _ => Refines.pure _
  exact ⟨_, rfl, h.fd, congrArg (Function.update · p ip) h.cwd, h.fs⟩

/-- **Every system call does the same on both layers.** -/
lemma exec (p : P) (c : Call) :
    Refines (KernelRel P R) may .wild (exec p c) (Col331.exec p c) := by
  have hcall : ∀ (x : Fin ninode → Kern σ ℤ) (y : Fin ninode → Kern τ ℤ),
      (∀ k, Refines R may .wild (x k) (y k)) → Refines (KernelRel P R) may .wild
        (do return (← Kernel.onFs (x ((← get).cwd p)), ([] : List UInt8)))
        (do return (← Kernel.onFs (y ((← get).cwd p)), ([] : List UInt8))) := by
    intro x y h
    refine KernelRel.get_bind fun κ κ' _ hcwd => ?_
    rw [hcwd]
    exact (KernelRel.onFs (h _)).ret _
  cases c with
  | «open» path omode => exact (L.sysOpen p path omode).ret _
  | close fd => exact (L.sysClose p fd).ret _
  | read fd n => exact L.sysRead p fd n
  | write fd mem n => exact (L.sysWrite p fd mem n).ret _
  | mkdir path => exact hcall _ _ fun k => L.sysCreate k path _ _ _
  | mknod path major minor => exact hcall _ _ fun k => L.sysCreate k path _ major minor
  | link old new => exact hcall _ _ fun k => L.sysLink k old new
  | unlink path => exact hcall _ _ fun k => L.sysUnlink k path
  | chdir path => exact (L.sysChdir p path).ret _

end LayerRefines

end Kernel

/-! ### The file system of `fs.c` -/

variable {V : Volume}

/-- **The file system of `fs.c` refines the abstract one**; the code may run out of blocks. -/
theorem fsRefines : LayerRefines (Rel (V := V)) (fun e => e = .panic .ballocOut) where
  beginOp := fun _ a h _ => ⟨a, rfl, h.disk, h.cache⟩
  endOp := fun _ a h _ => ⟨a, rfl, h.disk, h.cache⟩
  iget := sim_iget
  ialloc := sim_ialloc
  idup := sim_idup
  ilock := sim_ilock
  iunlock := sim_iunlock
  iput := sim_iput
  inum := sim_inum
  type := sim_type
  nlink := sim_nlink
  size := sim_size
  change := sim_change
  readi := sim_readi
  writei := sim_writei

end Col331
