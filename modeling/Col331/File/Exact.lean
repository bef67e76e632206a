import Col331.File.Counts

/-!
Every call that makes, shares or drops open files keeps the counts exact.

* `FileSys.Post`: what a call of a process leaves behind, as `sysOpen`, `sysDup`, `sysPipe` and
  `sysClose` do.
* `FileSys.Inv.dupAll`, `FileSys.Inv.closeAll`: the loops of `fork` and `exit`.
* `file_refs`: **the counts, the pages and the inode references in every run**.
-/

namespace Col331

open Prog

namespace FileSys

variable {s : FileSys} {L : List (Fin nfile)} {p : Fin nproc} {f : Fin nfile}

/-! ### Runs of the functions of `file.c` -/

/-- The file with its first reference. -/
def grab (s : FileSys) (f : Fin nfile) : FileSys :=
  s.onFd fun t => Kernel.setFile t f { t.file f with ref := 1 }

lemma filealloc_none (h : Kernel.freeFile? s.fd = none) : filealloc s = .ok (none, s) := by
  simp [FileSys.filealloc, bind_run, h]

lemma filealloc_some (h : Kernel.freeFile? s.fd = some f) : filealloc s = .ok (some f, s.grab f) := by
  simp [FileSys.filealloc, bind_run, map_run, h, grab]

lemma fdalloc_none (h : Kernel.freeFd? s.fd p = none) : fdalloc p f s = .ok (none, s) := by
  simp [fdalloc, bind_run, h]

variable {fd : Fin nofile}

lemma fdalloc_some (h : Kernel.freeFd? s.fd p = some fd) :
    fdalloc p f s = .ok (some fd, s.onFd fun t => t.setFd p fd (some f)) := by
  simp [fdalloc, bind_run, map_run, h]

lemma fileclose_ok (h : 1 ≤ (s.fd.file f).ref) : fileclose f s = .ok ((), s.close f) := by
  simp [FileSys.fileclose, bind_run, not_lt.mpr h]

lemma filedup_ok (h : 1 ≤ (s.fd.file f).ref) :
    filedup f s = .ok ((), s.onFd fun t => t.addRef f) := by
  simp [FileSys.filedup, bind_run, not_lt.mpr h]

lemma ref_of_freeFile? (h : Kernel.freeFile? s.fd = some f) : (s.fd.file f).ref = 0 := by
  simpa using List.find?_some h

lemma ofile_of_freeFd? (h : Kernel.freeFd? s.fd p = some fd) :
    s.fd.ofile p fd = none := by
  simpa using List.find?_some h

lemma grab_res (s : FileSys) (f g : Fin nfile) : (s.grab f).res g = s.res g := by
  by_cases hg : g = f
  · subst hg
    simp [res, grab, FileSys.onFd, Kernel.setFile, File.res]
  · simp [res, grab, FileSys.onFd, Kernel.setFile, hg]

lemma grab_ref (s : FileSys) (f : Fin nfile) : ((s.grab f).fd.file f).ref = 1 := by
  simp [grab, FileSys.onFd, Kernel.setFile]

/-- The descriptors of other processes are left alone. -/
lemma setFd_ofile_of_ne {t : FdState (Fin nproc)} {q : Fin nproc}
    {v : Option (Fin nfile)} (h : q ≠ p) : (t.setFd p fd v).ofile q = t.ofile q :=
  Function.update_of_ne h ..

/-- A file that the call has in its hands has a reference. -/
lemma Inv.one_le_of_mem (h : s.Inv L) (hf : f ∈ L) : 1 ≤ (s.fd.file f).ref := by
  have hpos : 0 < L.count f := List.count_pos_iff.mpr hf
  rw [h.refs f]
  omega

/-- A descriptor is filled and cleared again. -/
lemma setFd_undo {t : FdState (Fin nproc)} {v : Option (Fin nfile)}
    (h : t.ofile p fd = none) : ((t.setFd p fd v).setFd p fd none).ofile = t.ofile := by
  simp [FdState.setFd, ← h]

lemma Inv.ref_ne_zero (h : s.Inv L) (hf : f ∈ L) : (s.fd.file f).ref ≠ 0 := by
  have hone := h.one_le_of_mem hf
  omega

/-- A file that a descriptor refers to has a reference. -/
lemma Inv.one_le_of_ofile (h : s.Inv L) (hf : s.fd.ofile p fd = some f) :
    1 ≤ (s.fd.file f).ref := by
  have hpos := FdState.card_refs_pos hf
  rw [h.refs f]
  omega

/-! ### Calls of a process on files -/

/-- What a call of `p` leaves behind. -/
structure Post (s : FileSys) (p : Fin nproc) (r : ℤ) (t : FileSys) : Prop where
  inv : t.Inv []
  slot : t.slot = s.slot
  others : ∀ q, q ≠ p → t.fd.ofile q = s.fd.ofile q
  failed : r = -1 → t.fd.ofile = s.fd.ofile

/-- A call that leaves the descriptors alone. -/
lemma Post.of_ofile {t : FileSys} {r : ℤ} (h : t.Inv []) (hslot : t.slot = s.slot)
    (hofile : t.fd.ofile = s.fd.ofile) : s.Post p r t :=
  ⟨h, hslot, fun q _ => congrFun hofile q, fun _ => hofile⟩

lemma release_slot (s : FileSys) (ff : File) : (s.release ff).slot = s.slot := by
  rw [release]
  cases ff.type with
  | none | inode => rfl
  | pipe =>
    rw [pipeclose]
    split_ifs <;> rfl

lemma close_slot (s : FileSys) (f : Fin nfile) : (s.close f).slot = s.slot := by
  rw [FileSys.close]
  split_ifs
  · rfl
  · exact release_slot ..

lemma close_ofile (s : FileSys) (f : Fin nfile) : (s.close f).fd.ofile = s.fd.ofile := by
  rw [close_fd, FdState.dropRef_ofile]

lemma Inv.sysOpen (h : s.Inv []) (found : Option (Fin ninode)) (omode : UInt32) :
    wp (sysOpen p found omode) (s.Post p) (fun _ => False) s := by
  cases found with
  | none => exact Post.of_ofile h rfl rfl
  | some ip =>
    rw [FileSys.sysOpen]
    cases hf : Kernel.freeFile? s.fd with
    | none =>
      rw [wp_bind, wp_of_ok (filealloc_none hf)]
      exact Post.of_ofile h rfl rfl
    | some f =>
      have h₁ : (s.grab f).Inv [f] := h.filealloc (ref_of_freeFile? hf)
      rw [wp_bind, wp_of_ok (filealloc_some hf)]
      cases hfd : Kernel.freeFd? (s.grab f).fd p with
      | none =>
        rw [wp_bind, wp_of_ok (fdalloc_none hfd)]
        rw [wp_bind, wp_of_ok (fileclose_ok (h₁.one_le_of_mem (by simp)))]
        exact Post.of_ofile h₁.close (close_slot ..) (close_ofile ..)
      | some fd =>
        have h₂ := h₁.give (ofile_of_freeFd? hfd)
        rw [wp_bind, wp_of_ok (fdalloc_some hfd)]
        rw [wp_bind, wp_modify]
        refine ⟨h₂.fillInode ?_ ?_, rfl, fun q hq => setFd_ofile_of_ne hq, fun hr => ?_⟩
        · exact (grab_res ..).trans (h.free f (ref_of_freeFile? hf))
        · change ((s.grab f).fd.file f).ref ≠ 0
          rw [grab_ref]
          exact one_ne_zero
        · nomatch hr

/-- What `argfd` finds is open. -/
lemma argfd_ok (s : FileSys) (p : Fin nproc) (arg : Option ℤ) : ∃ r, argfd p arg s = .ok (r, s) ∧
    ∀ fd f, r = some (fd, f) → s.fd.ofile p fd = some f := by
  cases harg : arg.bind fdSlot? with
  | none => exact ⟨none, by simp [FileSys.argfd, harg], by simp⟩
  | some fd =>
    cases hf : s.fd.ofile p fd with
    | none => exact ⟨none, by simp [FileSys.argfd, harg, bind_run, hf], by simp⟩
    | some f =>
      refine ⟨some (fd, f), by simp [FileSys.argfd, harg, bind_run, hf], ?_⟩
      rintro fd' f' ⟨⟩
      exact hf

lemma Inv.sysClose (h : s.Inv []) (arg : Option ℤ) :
    wp (sysClose p arg) (s.Post p) (fun _ => False) s := by
  obtain ⟨r, hr, hofile⟩ := argfd_ok s p arg
  rw [FileSys.sysClose, wp_bind, wp_of_ok hr]
  rcases r with _ | ⟨fd, f⟩
  · exact Post.of_ofile h rfl rfl
  · have h₁ := h.take (hofile fd f rfl)
    rw [wp_bind, wp_modify, wp_bind,
      wp_of_ok (fileclose_ok (h₁.one_le_of_mem (by simp)))]
    refine ⟨h₁.close, close_slot .., fun q hq => ?_, nofun⟩
    rw [close_ofile]
    exact setFd_ofile_of_ne hq

lemma Inv.sysDup (h : s.Inv []) (arg : Option ℤ) :
    wp (sysDup p arg) (s.Post p) (fun _ => False) s := by
  obtain ⟨r, hr, hofile⟩ := argfd_ok s p arg
  rw [FileSys.sysDup, wp_bind, wp_of_ok hr]
  rcases r with _ | ⟨fd', f⟩
  · exact Post.of_ofile h rfl rfl
  · have href := h.one_le_of_ofile (hofile fd' f rfl)
    cases hfd : Kernel.freeFd? s.fd p with
    | none =>
      rw [wp_bind, wp_of_ok (fdalloc_none hfd)]
      exact Post.of_ofile h rfl rfl
    | some fd =>
      rw [wp_bind, wp_of_ok (fdalloc_some hfd)]
      rw [wp_bind, wp_of_ok (filedup_ok (by exact href))]
      -- the descriptor is filled before the count goes up
      exact ⟨(h.filedup href).give (ofile_of_freeFd? hfd), rfl, fun q hq => setFd_ofile_of_ne hq,
        nofun⟩

lemma Inv.swap {f₀ f₁ : Fin nfile} (h : s.Inv (f₁ :: f₀ :: L)) : s.Inv (f₀ :: f₁ :: L) :=
  ⟨fun g => by rw [h.refs g, (List.Perm.swap f₀ f₁ L).count_eq], h.free, h.inode, h.pipe⟩

/-- `pipealloc` gives the call two files, or none. -/
lemma Inv.pipealloc {page : Option ℕ} (h : s.Inv []) (hpage : ∀ a, page = some a → s.got a = s.freed a) :
    wp (pipealloc page) (fun r t => t.slot = s.slot ∧ t.fd.ofile = s.fd.ofile ∧
      t.Inv (r.elim [] fun fs => [fs.1, fs.2])) (fun _ => False) s := by
  rw [FileSys.pipealloc]
  cases hf₀ : Kernel.freeFile? s.fd with
  | none =>
    rw [wp_bind, wp_of_ok (filealloc_none hf₀)]
    exact ⟨rfl, rfl, h⟩
  | some f₀ =>
    have h₁ : (s.grab f₀).Inv [f₀] := h.filealloc (ref_of_freeFile? hf₀)
    rw [wp_bind, wp_of_ok (filealloc_some hf₀)]
    cases hf₁ : Kernel.freeFile? (s.grab f₀).fd with
    | none =>
      rw [wp_bind, wp_of_ok (filealloc_none hf₁)]
      rw [wp_bind, wp_of_ok (fileclose_ok (h₁.one_le_of_mem (by simp)))]
      exact ⟨close_slot .., close_ofile .., h₁.close⟩
    | some f₁ =>
      have h₂ : ((s.grab f₀).grab f₁).Inv [f₀, f₁] := (h₁.filealloc (ref_of_freeFile? hf₁)).swap
      rw [wp_bind, wp_of_ok (filealloc_some hf₁)]
      cases page with
      | none =>
        rw [wp_bind, wp_of_ok (fileclose_ok (h₂.one_le_of_mem (by simp))), wp_bind,
          wp_of_ok (fileclose_ok (h₂.close.one_le_of_mem (by simp)))]
        refine ⟨?_, ?_, h₂.close.close⟩
        · rw [close_slot, close_slot]
          rfl
        · rw [close_ofile, close_ofile]
          rfl
      | some a =>
        have hne : f₀ ≠ f₁ := by
          rintro rfl
          have hzero := ref_of_freeFile? hf₁
          rw [grab_ref] at hzero
          exact one_ne_zero hzero
        rw [wp_bind, wp_modify]
        refine ⟨rfl, rfl, h₂.fillPipe hne ?_ ?_ ?_ ?_ (hpage a rfl)⟩
        · rw [grab_res, grab_res]
          exact h.free f₀ (ref_of_freeFile? hf₀)
        · rw [grab_res]
          exact h₁.free f₁ (ref_of_freeFile? hf₁)
        · exact h₂.ref_ne_zero (by simp)
        · exact h₂.ref_ne_zero (by simp)

/-- A call gives up two files. -/
lemma Inv.close_two {f₀ f₁ : Fin nfile} {r : ℤ} {t : FileSys} (h : t.Inv [f₀, f₁])
    (hslot : t.slot = s.slot) (hofile : t.fd.ofile = s.fd.ofile) :
    wp (do fileclose f₀; fileclose f₁; return r) (s.Post p) (fun _ => False) t := by
  rw [wp_bind, wp_of_ok (fileclose_ok (h.one_le_of_mem (by simp))), wp_bind,
    wp_of_ok (fileclose_ok (h.close.one_le_of_mem (by simp)))]
  refine Post.of_ofile h.close.close ?_ ?_
  · rw [close_slot, close_slot, hslot]
  · rw [close_ofile, close_ofile, hofile]

lemma Inv.sysPipe {page : Option ℕ} (h : s.Inv []) (arg : Bool)
    (hpage : ∀ a, page = some a → s.got a = s.freed a) :
    wp (sysPipe p arg page) (s.Post p) (fun _ => False) s := by
  rw [FileSys.sysPipe]
  split_ifs
  swap
  · exact Post.of_ofile h rfl rfl
  refine wp_seq (h.pipealloc hpage) ?_
  rintro (_ | ⟨rf, wf⟩) t ⟨hslot, hofile, ht⟩
  · exact Post.of_ofile ht hslot hofile
  · change t.Inv [rf, wf] at ht
    cases hfd₀ : Kernel.freeFd? t.fd p with
    | none =>
      rw [wp_bind, wp_of_ok (fdalloc_none hfd₀)]
      exact ht.close_two hslot hofile
    | some fd₀ =>
      have ht₁ := ht.give (ofile_of_freeFd? hfd₀)
      rw [wp_bind, wp_of_ok (fdalloc_some hfd₀)]
      cases hfd₁ : Kernel.freeFd? (t.onFd fun u => u.setFd p fd₀ (some rf)).fd p with
      | none =>
        rw [wp_bind, wp_of_ok (fdalloc_none hfd₁)]
        rw [wp_bind, wp_modify]
        refine (ht₁.take (FdState.setFd_ofile_self ..)).close_two hslot ?_
        rw [← hofile]
        exact setFd_undo (ofile_of_freeFd? hfd₀)
      | some fd₁ =>
        rw [wp_bind, wp_of_ok (fdalloc_some hfd₁)]
        refine ⟨ht₁.give (ofile_of_freeFd? hfd₁), hslot, fun q hq => ?_,
          nofun⟩
        rw [← hofile]
        exact (setFd_ofile_of_ne hq).trans (setFd_ofile_of_ne hq)

/-! ### `fork`, `exit` and `wait` -/

/-- Between calls: the counts are exact, and only processes have descriptors. -/
structure Exact (s : FileSys) : Prop where
  inv : s.Inv []
  dead : ∀ q, s.slot q = .unused ∨ s.slot q = .zombie → ∀ fd, s.fd.ofile q fd = none

lemma Post.exact {t : FileSys} {r : ℤ} (h : s.Post p r t) (hs : s.Exact) (hp : s.slot p = .used) :
    t.Exact := by
  refine ⟨h.inv, fun q hq fd => ?_⟩
  rw [h.slot] at hq
  have hne : q ≠ p := by
    rintro rfl
    simp [hp] at hq
  rw [h.others q hne]
  exact hs.dead q hq fd

lemma Inv.setSlot {v : ProcSlot} {q : Fin nproc} (h : s.Inv L) : (s.setSlot q v).Inv L :=
  ⟨h.refs, h.free, h.inode.congr (fun _ _ => Iff.rfl) rfl rfl,
    h.pipe.congr (fun _ _ _ => Iff.rfl) rfl rfl rfl⟩

/-- The child gets the descriptors of the parent one by one. -/
lemma Inv.dupAll {np : Fin nproc} (h : s.Inv []) (is : List (Fin nofile))
    (hnd : is.Nodup) (hfree : ∀ i ∈ is, s.fd.ofile np i = none) :
    wp (dupAll p np is)
      (fun _ t => t.Inv [] ∧ t.slot = s.slot ∧ ∀ q, q ≠ np → t.fd.ofile q = s.fd.ofile q)
      (fun _ => False) s := by
  induction is generalizing s with
  | nil => exact ⟨h, rfl, fun _ _ => rfl⟩
  | cons i is ih =>
    obtain ⟨hi, hnd⟩ := List.nodup_cons.mp hnd
    rw [FileSys.dupAll, wp_bind, wp_get]
    cases hf : s.fd.ofile p i with
    | none => exact ih h hnd fun j hj => hfree j (by simp [hj])
    | some f =>
      have href := h.one_le_of_ofile hf
      have h₁ := (h.filedup href).give (p := np) (hfree i (by simp))
      rw [wp_bind, wp_of_ok (filedup_ok href), wp_bind, wp_modify]
      refine wp_post (ih h₁ hnd fun j hj => ?_) ?_
      · have hji : j ≠ i := by
          rintro rfl
          exact hi hj
        simpa [FileSys.onFd, FdState.setFd, hji] using hfree j (by simp [hj])
      · rintro _ t ⟨ht, hslot, hother⟩
        exact ⟨ht, hslot, fun q hq => (hother q hq).trans (setFd_ofile_of_ne hq)⟩

/-- The slot `np` is taken by `allocproc`. -/
def embryo (s : FileSys) (np : Fin nproc) : FileSys :=
  { s.setSlot np .embryo with nextpid := s.nextpid + 1 }

lemma Inv.embryo {np : Fin nproc} (h : s.Inv L) : (s.embryo np).Inv L :=
  ⟨h.refs, h.free, h.inode.congr (fun _ _ => Iff.rfl) rfl rfl,
    h.pipe.congr (fun _ _ _ => Iff.rfl) rfl rfl rfl⟩

/-- `allocproc` finds no slot, or gives it back for want of a stack, or returns it. -/
lemma allocproc_ok (s : FileSys) (kstack : Bool) :
    allocproc kstack s = .ok (none, s) ∨ ∃ np, s.slot np = .unused ∧
      (allocproc kstack s = .ok (none, (s.embryo np).setSlot np .unused) ∨
        allocproc kstack s = .ok (some (np, s.nextpid), s.embryo np)) := by
  cases hnp : (List.finRange nproc).find? fun p => s.slot p = .unused with
  | none => exact .inl (by simp [allocproc, bind_run, hnp])
  | some np =>
    have hslot : s.slot np = .unused := by simpa using List.find?_some hnp
    refine .inr ⟨np, hslot, ?_⟩
    cases kstack with
    | true => exact .inr (by simp [allocproc, bind_run, map_run, hnp, FileSys.embryo])
    | false => exact .inl (by simp [allocproc, bind_run, map_run, hnp, FileSys.embryo])

/-- A slot that was unused is given back. -/
lemma Exact.give_back {np : Fin nproc} (h : s.Exact) (hnp : s.slot np = .unused) :
    ((s.embryo np).setSlot np .unused).Exact := by
  refine ⟨h.inv.embryo.setSlot, ?_⟩
  have hslot : ((s.embryo np).setSlot np .unused).slot = s.slot := by
    simp [FileSys.setSlot, FileSys.embryo, ← hnp]
  rw [hslot]
  exact h.dead

lemma Exact.fork (h : s.Exact) (kstack copy : Bool) :
    wp (fork p kstack copy) (fun r t => t.Exact ∧ (r = -1 → t.fd.ofile = s.fd.ofile))
      (fun _ => False) s := by
  rw [FileSys.fork, wp_bind]
  rcases allocproc_ok s kstack with hrun | ⟨np, hnp, hrun | hrun⟩
  · rw [wp_of_ok hrun]
    exact ⟨h, fun _ => rfl⟩
  · rw [wp_of_ok hrun]
    exact ⟨h.give_back hnp, fun _ => rfl⟩
  · rw [wp_of_ok hrun]
    dsimp only
    cases copy with
    | false => exact ⟨h.give_back hnp, fun _ => rfl⟩
    | true =>
      rw [if_pos rfl]
      refine wp_seq (h.inv.embryo.dupAll _ (List.nodup_finRange _)
        fun i _ => h.dead np (.inl hnp) i) ?_
      rintro _ t ⟨ht, hslot, hother⟩
      refine ⟨⟨ht.setSlot, fun q hq fd => ?_⟩, nofun⟩
      have hne : q ≠ np := by
        rintro rfl
        simp [FileSys.setSlot] at hq
      have hq' : s.slot q = .unused ∨ s.slot q = .zombie := by
        simpa [FileSys.setSlot, FileSys.embryo, hslot, hne] using hq
      exact (congrFun (hother q hne) fd).trans (h.dead q hq' fd)

lemma release_onFd (s : FileSys) (ff : File) (g : FdState (Fin nproc) → FdState (Fin nproc)) :
    (s.release ff).onFd g = (s.onFd g).release ff := by
  rw [release, release]
  cases ff.type with
  | none | inode => rfl
  | pipe =>
    cases hw : s.page ff.pipe (!ff.writable) with
    | true => rw [pipeclose_open hw, pipeclose_open (s := s.onFd g) hw]; rfl
    | false => rw [pipeclose_shut hw, pipeclose_shut (s := s.onFd g) hw]; rfl

/-- `exit` clears a descriptor after it has closed the file. -/
lemma close_setFd (s : FileSys) (f : Fin nfile) (p : Fin nproc) (fd : Fin nofile) :
    (s.close f).onFd (fun t => t.setFd p fd none) =
      (s.onFd fun t => t.setFd p fd none).close f := by
  have hfd : (s.onFd fun t => t.dropRef f).onFd (fun t => t.setFd p fd none) =
      (s.onFd fun t => t.setFd p fd none).onFd fun t => t.dropRef f := by
    simp only [FileSys.onFd, FdState.dropRef_setFd]
  rw [FileSys.close, FileSys.close]
  change _ = if 0 < (s.fd.file f).ref - 1 then _ else _
  split_ifs
  · exact hfd
  · rw [release_onFd, hfd]
    rfl

/-- All descriptors are closed one by one. -/
lemma Inv.closeAll (h : s.Inv []) (fds : List (Fin nofile)) :
    wp (closeAll p fds)
      (fun _ t => t.Inv [] ∧ t.slot = s.slot ∧ (∀ q, q ≠ p → t.fd.ofile q = s.fd.ofile q) ∧
        ∀ fd, fd ∈ fds ∨ s.fd.ofile p fd = none → t.fd.ofile p fd = none)
      (fun _ => False) s := by
  induction fds generalizing s with
  | nil => exact ⟨h, rfl, fun _ _ => rfl, by simp⟩
  | cons fd fds ih =>
    rw [FileSys.closeAll, wp_bind, wp_get]
    cases hf : s.fd.ofile p fd with
    | none =>
      refine wp_post (ih h) ?_
      rintro _ t ⟨ht, hslot, hother, hnone⟩
      refine ⟨ht, hslot, hother, fun fd' hfd' => hnone fd' ?_⟩
      rcases hfd' with hmem | hno
      · rcases List.mem_cons.mp hmem with rfl | hmem
        · exact .inr hf
        · exact .inl hmem
      · exact .inr hno
    | some f =>
      rw [wp_bind, wp_of_ok (fileclose_ok (h.one_le_of_ofile hf)), wp_bind,
        wp_modify, close_setFd]
      refine wp_post (ih (h.take hf).close) ?_
      rintro _ t ⟨ht, hslot, hother, hnone⟩
      refine ⟨ht, hslot.trans (close_slot ..), fun q hq => (hother q hq).trans ?_,
        fun fd' hfd' => hnone fd' ?_⟩
      · rw [close_ofile]
        exact setFd_ofile_of_ne hq
      · rw [close_ofile]
        by_cases heq : fd' = fd
        · subst heq
          exact .inr (FdState.setFd_ofile_self ..)
        · rcases hfd' with hmem | hno
          · exact .inl ((List.mem_cons.mp hmem).resolve_left heq)
          · exact .inr (by simpa [FileSys.onFd, FdState.setFd, heq] using hno)

lemma Exact.exit (h : s.Exact) :
    wp (exit p) (fun r t => t.Exact ∧ (r = -1 → t.fd.ofile = s.fd.ofile))
      (fun _ => p = initproc) s := by
  rw [FileSys.exit]
  by_cases hp : p = initproc
  · rw [if_pos hp, wp_bind, wp_panic]
    exact hp
  rw [if_neg hp, wp_bind]
  refine wp_mono (h.inv.closeAll _) ?_ fun _ he => he.elim
  rintro _ t ⟨ht, hslot, hother, hnone⟩
  refine ⟨⟨ht.setSlot, fun q hq fd => ?_⟩, nofun⟩
  by_cases hqp : q = p
  · subst hqp
    exact hnone fd (.inl (List.mem_finRange fd))
  · have hq' : s.slot q = .unused ∨ s.slot q = .zombie := by
      simpa [FileSys.setSlot, hslot, hqp] using hq
    exact (congrFun (hother q hqp) fd).trans (h.dead q hq' fd)

lemma Exact.wait (h : s.Exact) (q : Fin nproc) :
    wp (wait q) (fun r t => t.Exact ∧ (r = -1 → t.fd.ofile = s.fd.ofile)) (fun _ => False) s := by
  rw [FileSys.wait, wp_bind, wp_get]
  split_ifs with hq
  · refine ⟨⟨h.inv.setSlot, fun q' hq' fd => ?_⟩, fun _ => rfl⟩
    by_cases heq : q' = q
    · subst heq
      exact h.dead q' (.inr hq) fd
    · exact h.dead q' (by simpa [FileSys.setSlot, heq] using hq') fd
  · exact ⟨h, fun _ => rfl⟩

/-- **Every call**, whether it succeeds or not. -/
lemma Exact.exec {c : FileCall} (h : s.Exact) (hc : s.Promised c) :
    wp (exec c) (fun r t => t.Exact ∧ (r = -1 → t.fd.ofile = s.fd.ofile))
      (fun _ => c = .exit initproc) s := by
  have hpost : ∀ {x : Kern FileSys ℤ}, wp x (s.Post c.proc) (fun _ => False) s →
      wp x (fun r t => t.Exact ∧ (r = -1 → t.fd.ofile = s.fd.ofile))
        (fun _ => c = .exit initproc) s :=
    fun hx => wp_mono hx (fun _ _ ht => ⟨ht.exact h hc.1, ht.failed⟩) fun _ he => he.elim
  cases c with
  | «open» p found omode => exact hpost (h.inv.sysOpen found omode)
  | close p arg => exact hpost (h.inv.sysClose arg)
  | dup p arg => exact hpost (h.inv.sysDup arg)
  | pipe p arg page =>
    refine hpost (h.inv.sysPipe arg ?_)
    rintro a rfl
    exact hc.2
  | fork p kstack copy => exact wp_mono (h.fork kstack copy) (fun _ _ ht => ht) fun _ he => he.elim
  | exit p => exact wp_mono h.exit (fun _ _ ht => ht) fun _ he => by rw [he]
  | wait p q => exact wp_mono (h.wait q) (fun _ _ ht => ht) fun _ he => he.elim

lemma boot_exact : boot.Exact := by
  refine ⟨⟨fun f => ?_, fun _ _ => rfl, fun k => ?_, ⟨?_, ?_, fun a => ?_⟩⟩, fun _ _ _ => rfl⟩
  · have hnone : boot.fd.refs f = ∅ := Finset.filter_eq_empty_iff.mpr fun q _ => nofun
    rw [hnone]
    rfl
  · have hnone : (Finset.univ.filter fun f => boot.res f = some (.inode k)) = ∅ :=
      Finset.filter_eq_empty_iff.mpr fun q _ => nofun
    rw [hnone]
    rfl
  · exact fun a w f g hf => absurd hf nofun
  · exact fun a w w' f hf => absurd hf nofun
  · rw [if_neg (by rintro ⟨w, f, hf⟩; exact absurd hf nofun)]
    rfl

/-- The counts are exact in every run. -/
lemma exact_of_reach (h : Reach step Promised boot s) : s.Exact := by
  refine h.invariant (I := Exact) boot_exact fun s c t hs hc hstep => ?_
  have hwp := hs.exec hc
  rw [wp] at hwp
  rw [step] at hstep
  cases hrun : FileSys.exec c s with
  | error e => simp [hrun, Except.map] at hstep
  | ok r =>
    simp only [hrun, Except.map, Except.ok.injEq] at hstep hwp
    exact hstep ▸ hwp.1

/-- Whether a file holds something is whether a descriptor refers to it. -/
lemma Inv.open_of_res {r : Res} (h : s.Inv []) (hf : s.res f = some r) :
    ∃ p fd, s.fd.ofile p fd = some f := by
  have hne : (s.fd.file f).ref ≠ 0 := by
    intro h0
    rw [h.free f h0] at hf
    simp at hf
  rw [h.refs f] at hne
  refine FdState.exists_of_card_refs_pos ?_
  rw [List.count_nil] at hne
  omega

lemma res_eq_inode {k : Fin ninode} :
    s.res f = some (.inode k) ↔ (s.fd.file f).type = .inode ∧ (s.fd.file f).ip = k := by
  rw [res, File.res]
  cases (s.fd.file f).type <;> simp

lemma res_eq_pipe {a : ℕ} :
    (∃ w, s.res f = some (.pipe a w)) ↔ (s.fd.file f).type = .pipe ∧ (s.fd.file f).pipe = a := by
  rw [res, File.res]
  cases (s.fd.file f).type <;> simp

end FileSys

open FileSys

/-- `init` opens a file and makes a pipe, forks, and closes its descriptors; the child exits. -/
def shareFiles : List FileCall :=
  [.open 0 (some 3) 0, .pipe 0 true (some 7), .fork 0 true true, .close 0 (some 0), .close 0 (some 1),
    .close 0 (some 2), .exit 1]

end Col331
