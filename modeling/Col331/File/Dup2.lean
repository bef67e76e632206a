import Col331.File.Table

/-!
`sys_dup2` of `sysfile.c`, against what `dup2` is for.

* `dup2Spec`: the intended effect on the tables, and `dup2Spec_consistent`: it keeps every
  count equal to the number of descriptors.
* `sysDup2`: the code.  It closes when `newfd` is free instead of when it is in use, and through
  a pointer that `argfd` has then not set; `junk` is what the uninitialised `f2` holds.
* `sysDup2_meets_iff`: the code does what it should exactly when `oldfd` is not open.
-/

namespace Col331

open FdState Prog

variable {P : Type} [DecidableEq P]

/-! ### The intended effect -/

/-- Free descriptor `fd`: one `fileclose` of what it referred to, nothing if it was free. -/
def FdState.closeFd (s : FdState P) (p : P) (fd : Fin nofile) : FdState P :=
  match s.ofile p fd with
  | none => s
  | some g => (s.setFd p fd none).dropRef g

/-- **What `dup2(oldfd, newfd)` is for**: the value returned and the tables afterwards. -/
def dup2Spec (s : FdState P) (p : P) (oldfd newfd : ℤ) : ℤ × FdState P :=
  match s.fd? p oldfd, fdSlot? newfd with
  | some f, some fd =>
    if oldfd = newfd then (newfd, s)
    else (newfd, ((s.closeFd p fd).setFd p fd (some f)).addRef f)
  | _, _ => (-1, s)

lemma closeFd_ofile_self (s : FdState P) (p : P) (fd : Fin nofile) :
    (s.closeFd p fd).ofile p fd = none := by
  rw [closeFd]
  split <;> simp [*]

/-! ### The code -/

/-- `proc->ofile[fd]` for any `int` index: outside the array it is some other word of memory. -/
def ofileAt (p : P) (fd : ℤ) : Kern (FdState P) (Option (Fin nfile)) := do
  let s ← get
  match fdSlot? fd with
  | none => throw .wild
  | some i => return s.ofile p i

/-- `proc->ofile[fd] = f` for any `int` index. -/
def setOfile (p : P) (fd : ℤ) (f : Fin nfile) : Kern (FdState P) Unit := do
  let s ← get
  match fdSlot? fd with
  | none => throw .wild
  | some i => set (s.setFd p i (some f))

/-- `fileclose` through a pointer that need not be one of the file table. -/
def filecloseAt : Option (Fin nfile) → Kern (FdState P) Unit
  | none => throw .wild
  | some f => fileclose f

/-- `sys_dup2`. -/
def sysDup2 (p : P) (junk : Option (Fin nfile)) (args : ℕ → Option ℤ) : Kern (FdState P) ℤ := do
  match ← argfd p args 0 with
  | none => return -1
  | some f1 =>
    match args 1 with
    | none => return -1
    | some fd1 =>
      if (← ofileAt p fd1) = none then
        -- `argfd(1, &fd1, &f2)`: its result is ignored, and it leaves `f2` alone when it fails
        let f2 := (← argfd p args 1).or junk
        filecloseAt f2
        if some f1 = f2 then return fd1
      setOfile p fd1 f1
      filedup f1
      return fd1

/-- The two `int` arguments of a `dup2` call. -/
def dup2Args (oldfd newfd : ℤ) : ℕ → Option ℤ
  | 0 => some oldfd
  | 1 => some newfd
  | _ => none

lemma sysDup2_run_of_not_open {s : FdState P} {p : P} {junk : Option (Fin nfile)} {oldfd newfd : ℤ}
    (h : s.fd? p oldfd = none) : sysDup2 p junk (dup2Args oldfd newfd) s = .ok (-1, s) := by
  have harg : argfd p (dup2Args oldfd newfd) 0 s = .ok (none, s) := by rw [argfd_run rfl, h]
  rw [sysDup2, bind_ok harg]
  rfl

section Open

/- The descriptor `oldfd` is open, on the file `f1`. -/
variable {s : FdState P} {p : P} {junk : Option (Fin nfile)} {oldfd newfd : ℤ} {f1 : Fin nfile}
  (hold : s.fd? p oldfd = some f1)

include hold

lemma sysDup2_run_open :
    sysDup2 p junk (dup2Args oldfd newfd) s =
      (do
        if (← ofileAt p newfd) = none then
          let f2 := (← argfd p (dup2Args oldfd newfd) 1).or junk
          filecloseAt f2
          if some f1 = f2 then return newfd
        setOfile p newfd f1
        filedup f1
        return newfd : Kern (FdState P) ℤ) s := by
  have harg : argfd p (dup2Args oldfd newfd) 0 s = .ok (some f1, s) := by rw [argfd_run rfl, hold]
  rw [sysDup2, bind_ok harg]
  rfl

/-- `newfd` outside the table: the code reads past `ofile`. -/
lemma sysDup2_run_of_range (hnew : fdSlot? newfd = none) :
    sysDup2 p junk (dup2Args oldfd newfd) s = .error .wild := by
  have hat : ofileAt p newfd s = .error .wild := by simp [ofileAt, bind_run, hnew]
  rw [sysDup2_run_open hold, bind_error hat]

variable {fd : Fin nofile} (hnew : fdSlot? newfd = some fd)

include hnew

/-- `newfd` in use: it is overwritten, and what it referred to keeps its count. -/
lemma sysDup2_run_of_busy {g : Fin nfile} (hbusy : s.ofile p fd = some g)
    (hf1 : 1 ≤ (s.file f1).ref) :
    sysDup2 p junk (dup2Args oldfd newfd) s =
      .ok (newfd, (s.setFd p fd (some f1)).addRef f1) := by
  have hat : ofileAt p newfd s = .ok (some g, s) := by simp [ofileAt, bind_run, hnew, hbusy]
  have hset : setOfile p newfd f1 s = .ok ((), s.setFd p fd (some f1)) := by
    simp [setOfile, bind_run, hnew]
  have hdup : filedup f1 (s.setFd p fd (some f1)) =
      .ok ((), (s.setFd p fd (some f1)).addRef f1) := filedup_run hf1
  rw [sysDup2_run_open hold, bind_ok hat]
  simp [bind_run, map_run, hset, hdup]

/-- `newfd` free: the code first closes whatever file `f2` happens to point to. -/
lemma sysDup2_run_of_free (hfree : s.ofile p fd = none) :
    sysDup2 p junk (dup2Args oldfd newfd) s =
      (do
        filecloseAt junk
        if some f1 = junk then return newfd
        setOfile p newfd f1
        filedup f1
        return newfd : Kern (FdState P) ℤ) s := by
  have hat : ofileAt p newfd s = .ok (none, s) := by simp [ofileAt, bind_run, hnew, hfree]
  have hfd : s.fd? p newfd = none := by
    rw [fdSlot?] at hnew
    rw [FdState.fd?]
    split_ifs at hnew ⊢ with h
    rw [Option.some.injEq] at hnew
    rw [hnew, hfree]
  have harg : argfd p (dup2Args oldfd newfd) 1 s = .ok (none, s) := by rw [argfd_run rfl, hfd]
  rw [sysDup2_run_open hold, bind_ok hat, if_pos rfl, bind_ok harg, Option.none_or]

end Open

/-! ### The code against the intended effect -/

variable [Fintype P]

lemma FdState.Consistent.closeFd {s : FdState P} (hs : s.Consistent) (p : P) (fd : Fin nofile) :
    (s.closeFd p fd).Consistent := by
  rw [FdState.closeFd]
  split
  · exact hs
  · next g hg => exact hs.close hg

/-- The intended effect keeps the counts exact. -/
lemma dup2Spec_consistent {s : FdState P} (hs : s.Consistent) (p : P) (oldfd newfd : ℤ) :
    (dup2Spec s p oldfd newfd).2.Consistent := by
  rw [dup2Spec]
  split
  · split_ifs
    · exact hs
    · exact (hs.closeFd p _).open (closeFd_ofile_self s p _) _
  · exact hs

/-- A call did what `dup2` is for, and the counts are still exact. -/
def Dup2Meets (s : FdState P) (p : P) (oldfd newfd : ℤ)
    (r : Except Stop (ℤ × FdState P)) : Prop :=
  r = .ok (dup2Spec s p oldfd newfd) ∧ (dup2Spec s p oldfd newfd).2.Consistent

section Fails

variable {s : FdState P} {p : P} {oldfd newfd : ℤ} {f1 : Fin nfile} {fd : Fin nofile}

omit [DecidableEq P] [Fintype P] in
lemma fd?_eq_some_iff {f : Fin nfile} :
    s.fd? p oldfd = some f ↔ ∃ fd, fdSlot? oldfd = some fd ∧ s.ofile p fd = some f := by
  rw [FdState.fd?, fdSlot?]
  split_ifs with h <;> simp

/-- The count of a file other than `oldfd`'s after the intended effect: one less if `newfd`
referred to it. -/
lemma dup2Spec_ref (hs : s.Consistent) (hold : s.fd? p oldfd = some f1)
    (hnew : fdSlot? newfd = some fd) (hne : oldfd ≠ newfd) (f : Fin nfile) :
    ((dup2Spec s p oldfd newfd).2.file f).ref =
      (s.file f).ref - (if s.ofile p fd = some f then 1 else 0) + if f = f1 then 1 else 0 := by
  rw [dup2Spec, hold, hnew]
  simp only [if_neg hne, addRef_ref, setFd_file]
  rw [closeFd]
  split
  · next h => simp [h]
  · next g h =>
      have hg : 1 ≤ ((s.setFd p fd none).file g).ref := hs.one_le_ref h
      rw [dropRef_ref _ hg, setFd_file, h]
      by_cases hfg : f = g
      · simp [hfg]
      · have hgf : ¬ g = f := fun h => hfg h.symm
        simp [hfg, hgf]

omit [Fintype P] in
/-- After the intended effect `newfd` refers to the file of `oldfd`. -/
lemma dup2Spec_ofile (hold : s.fd? p oldfd = some f1) (hnew : fdSlot? newfd = some fd)
    (hne : oldfd ≠ newfd) : (dup2Spec s p oldfd newfd).2.ofile p fd = some f1 := by
  rw [dup2Spec, hold, hnew]
  simp [if_neg hne]

/-- With `oldfd` open the code never does what `dup2` is for, whatever the uninitialised
pointer holds. -/
lemma not_dup2Meets_of_open (hs : s.Consistent) (hold : s.fd? p oldfd = some f1)
    (junk : Option (Fin nfile)) :
    ¬ Dup2Meets s p oldfd newfd (sysDup2 p junk (dup2Args oldfd newfd) s) := by
  rintro ⟨hrun, -⟩
  obtain ⟨fd0, hfd0, hof0⟩ := fd?_eq_some_iff.mp hold
  have hf1 : 1 ≤ (s.file f1).ref := hs.one_le_ref hof0
  cases hnew : fdSlot? newfd with
  | none =>
    rw [sysDup2_run_of_range hold hnew] at hrun
    nomatch hrun
  | some fd =>
    cases hfd : s.ofile p fd with
    | some g =>
      -- `newfd` in use: its file keeps a reference too many
      rw [sysDup2_run_of_busy hold hnew hfd hf1, Except.ok.injEq] at hrun
      by_cases hne : oldfd = newfd
      · have hspec : dup2Spec s p oldfd newfd = (newfd, s) := by
          rw [dup2Spec, hold, hnew]
          simp [hne]
        have h := congrArg (fun r => (r.2.file f1).ref) (hrun.trans hspec)
        simp [addRef_ref] at h
      · have h := congrArg (fun r => (r.2.file g).ref) hrun
        simp only [dup2Spec_ref hs hold hnew hne, hfd, addRef_ref, setFd_file, if_pos] at h
        omega
    | none =>
      have hne : oldfd ≠ newfd := by
        rintro rfl
        rw [hnew, Option.some.injEq] at hfd0
        rw [hfd0, hof0] at hfd
        nomatch hfd
      rw [sysDup2_run_of_free hold hnew hfd] at hrun
      cases junk with
      | none =>
        rw [bind_error (show filecloseAt none s = .error .wild from rfl)] at hrun
        nomatch hrun
      | some g =>
        by_cases hg : (s.file g).ref < 1
        · have hpanic : filecloseAt (some g) s = .error (.panic .fileclose) :=
            fileclose_panic hg
          rw [bind_error hpanic] at hrun
          nomatch hrun
        · have hg1 : 1 ≤ (s.file g).ref := not_lt.mp hg
          have hclose : filecloseAt (some g) s = .ok ((), s.dropRef g) := fileclose_run hg1
          rw [bind_ok hclose] at hrun
          by_cases hfg : f1 = g
          · -- the stray pointer is `oldfd`'s file: the call returns before installing it
            rw [if_pos (by rw [hfg])] at hrun
            rw [pure_run, Except.ok.injEq] at hrun
            have h := congrArg (fun r => r.2.ofile p fd) hrun
            simp only [dup2Spec_ofile hold hnew hne, dropRef_ofile, hfd] at h
            nomatch h
          · -- another file loses a reference it should keep
            have hset : setOfile p newfd f1 (s.dropRef g) =
                .ok ((), (s.dropRef g).setFd p fd (some f1)) := by
              simp [setOfile, bind_run, hnew]
            have hdup := filedup_run (s := (s.dropRef g).setFd p fd (some f1)) (f := f1)
              (by rw [setFd_file, dropRef_ref s hg1, if_neg hfg, sub_zero]; exact hf1)
            rw [if_neg (by simpa using hfg), bind_ok hset, bind_ok hdup,
              pure_run, Except.ok.injEq] at hrun
            have h := congrArg (fun r => (r.2.file g).ref) hrun
            simp only [dup2Spec_ref hs hold hnew hne, hfd, addRef_ref, setFd_file,
              dropRef_ref s hg1, if_pos] at h
            simp at h

end Fails

/-- **When `sys_dup2` keeps the tables exact**: exactly when `oldfd` is not open. -/
theorem sysDup2_meets_iff (s : FdState P) (hs : s.Consistent) (p : P) (junk : Option (Fin nfile))
    (oldfd newfd : ℤ) :
    Dup2Meets s p oldfd newfd (sysDup2 p junk (dup2Args oldfd newfd) s) ↔
      s.fd? p oldfd = none := by
  constructor
  · intro h
    by_contra hopen
    obtain ⟨f1, hf1⟩ := Option.ne_none_iff_exists'.mp hopen
    exact not_dup2Meets_of_open hs hf1 junk h
  · intro h
    refine ⟨?_, dup2Spec_consistent hs p oldfd newfd⟩
    rw [sysDup2_run_of_not_open h, dup2Spec, h]

/-- One process with descriptor 0 on file 0 and descriptor 1 on file 1. -/
def twoOpen : FdState Unit where
  file f := ⟨if f.val < 2 then .inode else .none, if f.val < 2 then 1 else 0, true, true, 0, 0, 0⟩
  ofile _ fd := if fd = 0 then some 0 else if fd = 1 then some 1 else none
  released := []

lemma twoOpen_consistent : twoOpen.Consistent := by
  unfold FdState.Consistent
  decide +kernel

theorem sysDup2_meets_twoOpen :
    twoOpen.Consistent ∧
      Dup2Meets twoOpen () 5 1 (sysDup2 () none (dup2Args 5 1) twoOpen) :=
  ⟨twoOpen_consistent, (sysDup2_meets_iff twoOpen twoOpen_consistent () none 5 1).mpr (by decide)⟩

/-- `dup2(0, 1)` with both descriptors open, as the program `dup2.c` calls it: the file that
descriptor 1 referred to is never closed. -/
theorem sysDup2_leaks_twoOpen :
    twoOpen.Consistent ∧
      ¬ Dup2Meets twoOpen () 0 1 (sysDup2 () none (dup2Args 0 1) twoOpen) := by
  have hold : twoOpen.fd? () 0 = some 0 := by decide
  exact ⟨twoOpen_consistent, not_dup2Meets_of_open twoOpen_consistent hold none⟩

end Col331
