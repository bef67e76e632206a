import Col331.Fs.Layer
import Col331.Fs.Steady

/-!
Every file-system call keeps the kernel steady.

* `Steady.sysOpen`, `Steady.sysClose`, `Steady.sysChdir`, `Steady.exitFs`: the calls that open and close
  files and move processes.
* `Steady.exec`: a call that follows relative paths from linked directories only.
* `exitFs`: what `exit` does to files.
-/

namespace Col331

open InodeLayer Function Prog

variable {V : Volume} {P : Type}

/-- A file that is not open on an inode is closed without further ado. -/
lemma fileclose_run_none {κ : Kernel P (Afs V)} {f : Fin nfile} (href : (κ.fd.file f).ref = 1)
    (htype : (κ.fd.file f).type ≠ .inode) :
    Kernel.fileclose f κ = .ok ((), { κ with fd := κ.fd.dropRef f }) := by
  have h1 : ¬ (κ.fd.file f).ref < 1 := by omega
  simp only [Kernel.fileclose, bind_run, get_run]
  rw [if_neg h1]
  simp [bind_run, Kernel.onFd, htype]

variable [Fintype P] [DecidableEq P] {live : P → Bool} {κ : Kernel P (Afs V)}

namespace Steady

variable (h : Steady live κ) {p : P} {path : List UInt8}

include h

omit [DecidableEq P] in
/-- A file that is not open on an inode changes into another such. -/
lemma of_fd {f : Fin nfile} {file : File} (hold : (κ.fd.file f).type ≠ .inode)
    (hnew : file.type = .none) {s : FdState P} (hs : s.file = update κ.fd.file f file) :
    Stays live κ { κ with fd := s } := by
  refine ⟨⟨h.good, fun k => ?_, fun g => ?_, fun g hg hw => ?_⟩, rfl, fun _ _ => rfl⟩
  · have hsum := sum_update κ.fd.file (fun x => x.refTo k) f file
    have h1 : (κ.fd.file f).refTo k = 0 := if_neg fun h0 => hold h0.1
    have h2 : file.refTo k = 0 := if_neg fun h0 => absurd (hnew.symm.trans h0.1) (by simp)
    rw [h.refs, fileRefs, fileRefs]
    rw [hs, hsum, h1, h2, sub_zero, add_zero]
  · dsimp only
    rw [hs]
    by_cases hgf : g = f
    · subst hgf
      rw [update_self, hnew]
      exact ⟨by simp, by simp⟩
    · rw [update_of_ne hgf]
      exact h.file g
  · dsimp only at hg hw ⊢
    rw [hs] at hg hw ⊢
    have hgf : g ≠ f := fun h0 => by
      rw [h0, update_self, hnew] at hg
      cases hg
    rw [update_of_ne hgf] at hg hw ⊢
    exact h.writable g hg hw

omit [DecidableEq P] in
/-- A file is opened on an inode that the call holds. -/
lemma of_open {f : Fin nfile} {ip : Fin ninode} {i : ℕ} {a : Afs V} {s : FdState P} {file : File}
    (hg : Good κ.fs.slot κ.fs.types [⟨ip, i, true⟩] a) (hold : (κ.fd.file f).type ≠ .inode)
    (hs : s.file = update κ.fd.file f file) (htype : file.type = .inode) (hip : file.ip = ip)
    (href : 0 < file.ref) (hw : (a.node i).type = tDir → file.writable = false) :
    Stays live κ { κ with fd := s, fs := a } := by
  have hrefs : ∀ k, (a.slot k).ref = (κ.fs.slot k).ref + file.refTo k := by
    intro k
    rw [hg.holds.ref k, File.refTo]
    by_cases hk : ip = k
    · simp [hip, htype, hk]
    · simp [hip, htype, hk]
  have hinum : (a.slot ip).inum = i := (hg.holds.mem _ (List.mem_singleton.mpr rfl)).1
  refine ⟨⟨hg.rebase, fun k => ?_, fun g => ?_, fun g hgt hgw => ?_⟩, rfl, fun q hq => ?_⟩
  · have hsum := sum_update κ.fd.file (fun x => x.refTo k) f file
    have h1 : (κ.fd.file f).refTo k = 0 := if_neg fun h0 => hold h0.1
    rw [fileRefs]
    rw [hs, hsum, h1, hrefs, h.refs, fileRefs]
    ring
  · dsimp only
    rw [hs]
    by_cases hgf : g = f
    · subst hgf
      rw [update_self, htype]
      exact ⟨by simp, fun _ => href⟩
    · rw [update_of_ne hgf]
      exact h.file g
  · dsimp only at hgt hgw ⊢
    rw [hs] at hgt hgw ⊢
    by_cases hgf : g = f
    · subst hgf
      rw [update_self] at hgw ⊢
      rw [hip, Afs.types, hinum]
      intro h0
      rw [hw h0] at hgw
      cases hgw
    · rw [update_of_ne hgf] at hgt hgw ⊢
      have hpos := h.pos_file hgt
      rw [Afs.types, (hg.holds.kept _ hpos).1, hg.kept _ hpos]
      exact h.writable g hgt hgw
  · exact (hg.holds.kept _ (h.pos_cwd hq)).1

/-- **`sys_open`.** -/
lemma sysOpen (hr : Roomy V κ.fs.node) (hcwd : Does.CwdLinked V κ.fs.slot κ.fs.node (κ.cwd p) path)
    (omode : UInt32) : wp (Kernel.sysOpen p path omode)
      (fun _ κ' => Stays live κ κ' ∧ (κ.fd.Consistent → κ'.fd.Consistent)) Stop.Tame κ := by
  rw [Kernel.sysOpen, wp_bind, wp_get, wp_bind, Kernel.wp_onFs]
  change wp (Kernel.onFs (openInode (κ.cwd p) path omode) >>= _) _ _ κ
  rw [wp_bind, Kernel.wp_onFs]
  refine wp_post (Does.openInode h.ready hr hcwd omode κ.fs h.good.holds rfl) ?_
  rintro (_ | ip) a ⟨τ, ⟨hready, hres⟩, ha⟩
  · subst hres
    exact ⟨h.of_good (hready.good ha), id⟩
  obtain ⟨i, rfl, hi, hdir⟩ := hres
  have hnl := hready.links.nlink_ne_zero hi
  -- the inode is given back when there is no room for the file
  have hput : wp (do iunlockput ip; endOp : Kern (Afs V) Unit)
      (fun _ a' => Good κ.fs.slot κ.fs.types [] a') Stop.Tame a := by
    refine wp_seq (Does.iunlockput hnl a ha rfl) ?_
    rintro _ a' ⟨_, ⟨rfl, hn⟩, ha'⟩
    refine Ready.good (hn ▸ hready.refs nofun fun t ht _ => ?_) ha'
    rw [List.mem_singleton.mp ht]
    exact .inr hnl
  rw [wp_bind, wp_get]
  cases hfree : Kernel.freeFile? κ.fd with
  | none =>
    rw [wp_bind, Kernel.wp_onFs]
    exact wp_post hput fun _ a' ha' => ⟨h.of_good ha', id⟩
  | some f =>
    have href : (κ.fd.file f).ref = 0 := by simpa using List.find?_some hfree
    have hold : (κ.fd.file f).type ≠ .inode := fun h0 => by
      have := (h.file f).2 h0
      omega
    rw [wp_bind]
    change wp (get >>= _) _ _ { κ with
      fs := a, fd := Kernel.setFile κ.fd f { κ.fd.file f with ref := 1 } }
    rw [wp_bind, wp_get]
    cases hfd : Kernel.freeFd? (Kernel.setFile κ.fd f { κ.fd.file f with ref := 1 }) p with
    | none =>
      rw [wp_bind, wp_of_ok (fileclose_run_none (by dsimp only; rw [setFile_self])
        (by dsimp only; rw [setFile_self]; exact hold)), wp_bind, Kernel.wp_onFs]
      refine wp_post hput fun _ a' ha' => ?_
      have hfile : ((Kernel.setFile κ.fd f { κ.fd.file f with ref := 1 }).dropRef f).file =
          update κ.fd.file f { κ.fd.file f with ref := 0, type := .none } := by
        rw [FdState.dropRef, setFile_self, if_neg (by simp)]
        exact update_idem ..
      have hs := h.of_good ha'
      refine ⟨hs.trans (hs.steady.of_fd hold rfl hfile), fun hc g => ?_⟩
      rw [hfile, FdState.refs_dropRef]
      change _ = ((κ.fd.refs g).card : ℤ)
      rw [← hc g]
      by_cases hg : g = f
      · rw [hg, update_self, href]
      · rw [update_of_ne hg]
    | some fd =>
      have hnone : κ.fd.ofile p fd = none := by
        have hfind := List.find?_some hfd
        exact of_decide_eq_true hfind
      rw [wp_bind]
      change wp (Kernel.onFs _ >>= _) _ _ { κ with
        fs := a, fd := (Kernel.setFile κ.fd f { κ.fd.file f with ref := 1 }).setFd p fd (some f) }
      rw [wp_bind, Kernel.wp_onFs]
      refine wp_seq (Does.iunlock (List.mem_singleton.mpr rfl) a ha rfl) ?_
      rintro _ a' ⟨_, ⟨rfl, hn⟩, ha'⟩
      change wp (Pure.pure () : Kern (Afs V) Unit) _ _ _
      rw [wp_pure, wp_bind]
      have hg : Good κ.fs.slot κ.fs.types [⟨ip, i, true⟩] a' := Ready.good (hn ▸ hready) ha'
      refine ⟨h.of_open hg hold (update_idem ..) rfl rfl ?_ fun h0 => ?_, fun hc g => ?_⟩
      · simp
      · rw [hn] at h0
        rw [hdir h0]
        exact (by decide : decide (oRdonly &&& oWronly ≠ 0 ∨ oRdonly &&& oRdwr ≠ 0) = false)
      · have hcard := FdState.refs_setFd_some
          (s := Kernel.setFile κ.fd f { κ.fd.file f with ref := 1 }) hnone f g
        have hsame : (Kernel.setFile κ.fd f { κ.fd.file f with ref := 1 }).refs g = κ.fd.refs g := rfl
        change _ = ((((Kernel.setFile κ.fd f
          { κ.fd.file f with ref := 1 }).setFd p fd (some f)).refs g).card : ℤ)
        rw [hcard, hsame]
        push_cast
        rw [← hc g]
        by_cases hgf : g = f
        · subst hgf
          rw [setFile_self, FdState.setFd_file, setFile_self, if_pos rfl, href]
          rfl
        · rw [setFile_of_ne _ _ hgf, FdState.setFd_file, setFile_of_ne _ _ hgf, if_neg hgf, add_zero]

/-- Descriptors are not references to inodes. -/
lemma of_setFd (fd : Fin nofile) (v : Option (Fin nfile)) :
    Stays live κ { κ with fd := κ.fd.setFd p fd v } :=
  ⟨⟨h.good, h.refs, h.file, h.writable⟩, rfl, fun _ _ => rfl⟩

/-- **`sys_close`.** -/
lemma sysClose (fd : ℤ) : wp (Kernel.sysClose p fd)
    (fun _ κ' => Stays live κ κ' ∧ (κ.fd.Consistent → κ'.fd.Consistent)) Stop.Tame κ := by
  rw [Kernel.sysClose]
  cases fdSlot? fd with
  | none => exact ⟨h.stays, id⟩
  | some i =>
    rw [wp_bind, wp_get]
    cases hf : κ.fd.ofile p i with
    | none => exact ⟨h.stays, id⟩
    | some f =>
      rw [wp_bind]
      have hs : Stays live κ { κ with fd := κ.fd.setFd p i none } := h.of_setFd i none
      refine wp_seq hs.steady.fileclose ?_
      rintro _ κ' ⟨hs', hfd⟩
      exact ⟨hs.trans hs', fun hc => hfd ▸ hc.close hf⟩

omit [DecidableEq P] in
lemma sysRead (fd n : ℤ) : wp (Kernel.sysRead p fd n)
    (fun _ κ' => Stays live κ κ' ∧ (κ.fd.Consistent → κ'.fd.Consistent)) Stop.Tame κ := by
  rw [Kernel.sysRead, wp_bind, wp_get]
  cases κ.fd.fd? p fd with
  | none => exact ⟨h.stays, id⟩
  | some f =>
    refine wp_seq (h.fileread n) ?_
    rintro (_ | bs) κ' ⟨hs, hsame⟩
    · exact ⟨hs, hsame.consistent⟩
    · exact ⟨hs, hsame.consistent⟩

omit [DecidableEq P] in
lemma sysWrite (fd : ℤ) (mem : ℕ → UInt8) (n : ℤ) : wp (Kernel.sysWrite p fd mem n)
    (fun _ κ' => Stays live κ κ' ∧ (κ.fd.Consistent → κ'.fd.Consistent)) Stop.Tame κ := by
  rw [Kernel.sysWrite, wp_bind, wp_get]
  cases κ.fd.fd? p fd with
  | none => exact ⟨h.stays, id⟩
  | some f =>
    refine wp_post (h.filewrite mem n) ?_
    rintro _ κ' ⟨hs, hsame⟩
    exact ⟨hs, hsame.consistent⟩

/-! ### Current directories -/

omit h [Fintype P] [DecidableEq P] in
lemma homeRef_some (k c : Fin ninode) : homeRef k (some c) = if c = k then 1 else 0 := by
  rw [homeRef]
  simp

omit h [Fintype P] [DecidableEq P] in
/-- The references without that of a current directory. -/
lemma baseOf_eq (c k : Fin ninode) : (baseOf κ c k).ref = (κ.fs.slot k).ref - homeRef k (some c) ∧
    (baseOf κ c k).inum = (κ.fs.slot k).inum := by
  rw [homeRef_some]
  by_cases hk : k = c
  · rw [hk, baseOf, update_self, if_pos rfl]
    exact ⟨rfl, rfl⟩
  · rw [baseOf, update_of_ne hk, if_neg (Ne.symm hk), sub_zero]
    exact ⟨rfl, rfl⟩

/-- The open files still refer to their inodes when process `p` has left its directory. -/
lemma pos_file_baseOf (hp : live p = true) {f : Fin nfile} (hf : (κ.fd.file f).type = .inode) :
    0 < (baseOf κ (κ.cwd p) (κ.fd.file f).ip).ref := by
  have hone : (κ.fd.file f).refTo (κ.fd.file f).ip = 1 := if_pos ⟨hf, rfl⟩
  have hle := le_fileRefs κ.fd f (κ.fd.file f).ip
  have hrest : cwdRefs (update live p false) κ.cwd (κ.fd.file f).ip = _ := cwdRefs_exit hp _
  have hnn : 0 ≤ cwdRefs (update live p false) κ.cwd (κ.fd.file f).ip := cwdRefs_nonneg _
  rw [(baseOf_eq _ _).1, h.refs]
  omega

/-- What is left of the invariant when process `p` has left its directory, and the call holds `τ`. -/
lemma of_left (hp : live p = true) {τ : List Ref} {a : Afs V}
    (hg : Good (baseOf κ (κ.cwd p)) κ.fs.types τ a) {live' : P → Bool} {cwd' : P → Fin ninode}
    (hcwd : ∀ k, cwdRefs live' cwd' k =
      cwdRefs live κ.cwd k - homeRef k (some (κ.cwd p)) + τ.countP (·.slot = k)) :
    Steady live' { κ with fs := a, cwd := cwd' } := by
  refine ⟨hg.rebase, fun k => ?_, h.file, fun f hf hw => ?_⟩
  · dsimp only
    rw [hg.holds.ref, hcwd, (baseOf_eq _ _).1, h.refs]
    ring
  · have hpos := h.pos_file_baseOf hp hf
    rw [Afs.types, (hg.holds.kept _ hpos).1, hg.kept _ hpos]
    exact h.writable f hf hw

/-- **`sys_chdir`.** -/
lemma sysChdir (hp : live p = true)
    (hcwd : Does.CwdLinked V κ.fs.slot κ.fs.node (κ.cwd p) path) :
    wp (Kernel.sysChdir p path) (fun _ κ' => Steady live κ' ∧ κ'.fd = κ.fd) Stop.Tame κ := by
  rw [Kernel.sysChdir, wp_bind, wp_get, wp_bind, Kernel.wp_onFs]
  change wp (Kernel.onFs (Kernel.chdirInode (κ.cwd p) path) >>= _) _ _ κ
  rw [wp_bind, Kernel.wp_onFs]
  refine wp_post (Does.chdirInode h.ready hcwd κ.fs h.good.holds rfl) ?_
  rintro (_ | ip) a ⟨τ, ⟨hready, hres⟩, ha⟩
  · subst hres
    exact ⟨(h.of_good (hready.good ha)).steady, rfl⟩
  obtain ⟨i, rfl, -⟩ := hres
  rw [wp_bind, Kernel.wp_onFs]
  refine wp_seq ((hready.good ha).take (h.pos_cwd hp)).iput ?_
  intro _ a' ha'
  refine ⟨h.of_left hp ha' fun k => ?_, rfl⟩
  rw [cwdRefs_update hp, homeRef_some k ip]
  by_cases hk : ip = k <;> simp [hk]

end Steady

/-! ### `exit` -/

section Exit

variable {σ : Type} [InodeLayer σ]

/-- The loop of `exit` that closes all open files. -/
def closeAll (p : P) : List (Fin nofile) → Kern (Kernel P σ) Unit
  | [] => return
  | fd :: fds => do
    match (← get).fd.ofile p fd with
    | none => closeAll p fds
    | some f =>
      Kernel.fileclose f
      Kernel.onFd fun s => s.setFd p fd none
      closeAll p fds

/-- What `exit` does to files; the current directory of a process that has exited means nothing. -/
def exitFs (p : P) : Kern (Kernel P σ) Unit := do
  closeAll p (List.finRange nofile)
  let cwd := (← get).cwd p
  Kernel.onFs do
    beginOp
    iput cwd
    endOp

end Exit

namespace Steady

variable (h : Steady live κ) {p : P}

include h

lemma closeAll (fds : List (Fin nofile)) : wp (closeAll p fds)
    (fun _ κ' => Stays live κ κ' ∧ (κ.fd.Consistent → κ'.fd.Consistent)) Stop.Tame κ := by
  induction fds generalizing κ with
  | nil => exact ⟨h.stays, id⟩
  | cons fd fds ih =>
    rw [Col331.closeAll, wp_bind, wp_get]
    cases hf : κ.fd.ofile p fd with
    | none => exact ih h
    | some f =>
      refine wp_seq h.fileclose ?_
      rintro _ κ₁ ⟨hs₁, hfd⟩
      have hs₂ := hs₁.trans (hs₁.steady.of_setFd (p := p) fd none)
      rw [wp_bind]
      change wp (Col331.closeAll p fds) _ _ { κ₁ with fd := κ₁.fd.setFd p fd none }
      refine wp_post (ih hs₂.steady) ?_
      rintro _ κ' ⟨hs', hc'⟩
      refine ⟨hs₂.trans hs', fun hc => hc' ?_⟩
      rw [hfd, FdState.dropRef_setFd]
      exact hc.close hf

/-- **`exit`.** -/
lemma exitFs (hp : live p = true) : wp (exitFs p)
    (fun _ κ' => Steady (update live p false) κ' ∧ (κ.fd.Consistent → κ'.fd.Consistent))
    Stop.Tame κ := by
  rw [Col331.exitFs]
  refine wp_seq (h.closeAll _) ?_
  rintro _ κ₁ ⟨hs₁, hc₁⟩
  have h₁ := hs₁.steady
  rw [wp_bind, wp_get]
  rw [Kernel.wp_onFs]
  refine wp_post (h₁.good.take (h₁.pos_cwd hp)).iputOp ?_
  intro _ a ha
  have hleft : Steady (update live p false) { κ₁ with fs := a, cwd := κ₁.cwd } := by
    refine h₁.of_left hp ha fun k => ?_
    rw [cwdRefs_exit hp]
    simp
  exact ⟨hleft, hc₁⟩

end Steady

/-! ### Calls -/

/-- The paths that a call follows. -/
def Call.paths : Call → List (List UInt8)
  | .open path _ => [path]
  | .close _ | .read _ _ | .write _ _ _ => []
  | .mkdir path => [path]
  | .mknod path _ _ => [path]
  | .link old new => [old, new]
  | .unlink path => [path]
  | .chdir path => [path]

/-- A call other than `chdir`. -/
def Call.stationary : Call → Bool
  | .chdir _ => false
  | _ => true

namespace Steady

variable (h : Steady live κ) {p : P} {c : Call}

include h

/-- **Every call** that follows relative paths from linked directories only. -/
lemma exec (hr : Roomy V κ.fs.node) (hp : live p = true)
    (hc : ∀ path ∈ c.paths, path.headD 0 ≠ slash →
      (dirsOf V κ.fs.node).Linked (κ.fs.slot (κ.cwd p)).inum) :
    wp (exec p c) (fun _ κ' => Steady live κ' ∧ (κ.fd.Consistent → κ'.fd.Consistent) ∧
      (c.stationary = true → Stays live κ κ')) Stop.Tame κ := by
  have hcwd : ∀ path ∈ c.paths, Does.CwdLinked V κ.fs.slot κ.fs.node (κ.cwd p) path :=
    fun path hpath hrel => ⟨h.pos_cwd hp, hc path hpath hrel⟩
  -- a call that only works on the file system
  have hfs : ∀ {x : Kern (Afs V) ℤ},
      wp (Kernel.onFs x) (fun _ κ' => Stays live κ κ' ∧ κ'.fd = κ.fd) Stop.Tame κ →
      wp (do return (← Kernel.onFs x, [])) (fun (_ : ℤ × List UInt8) κ' => Steady live κ' ∧
        (κ.fd.Consistent → κ'.fd.Consistent) ∧ (c.stationary = true → Stays live κ κ')) Stop.Tame κ := by
    intro x hx
    refine wp_seq hx ?_
    rintro r κ' ⟨hs, hfd⟩
    exact ⟨hs.steady, fun hcon => hfd ▸ hcon, fun _ => hs⟩
  have hmono : ∀ {α : Type} {x : Kern (Kernel P (Afs V)) α} {f : α → ℤ × List UInt8},
      wp x (fun _ κ' => Stays live κ κ' ∧ (κ.fd.Consistent → κ'.fd.Consistent)) Stop.Tame κ →
      wp (do return f (← x)) (fun (_ : ℤ × List UInt8) κ' => Steady live κ' ∧
        (κ.fd.Consistent → κ'.fd.Consistent) ∧ (c.stationary = true → Stays live κ κ')) Stop.Tame κ := by
    intro α x f hx
    refine wp_seq hx ?_
    rintro r κ' ⟨hs, hcon⟩
    exact ⟨hs.steady, hcon, fun _ => hs⟩
  cases c with
  | «open» path omode => exact hmono (h.sysOpen hr (hcwd path (List.mem_singleton.mpr rfl)) omode)
  | close fd => exact hmono (h.sysClose fd)
  | read fd n =>
    refine wp_post (h.sysRead fd n) ?_
    rintro r κ' ⟨hs, hcon⟩
    exact ⟨hs.steady, hcon, fun _ => hs⟩
  | write fd mem n => exact hmono (h.sysWrite fd mem n)
  | mkdir path =>
    exact hfs (h.onFs_does (Does.sysCreate h.ready hr (hcwd path (List.mem_singleton.mpr rfl))
      (by decide) 0 0))
  | mknod path major minor =>
    exact hfs (h.onFs_does (Does.sysCreate h.ready hr (hcwd path (List.mem_singleton.mpr rfl))
      (by decide) major minor))
  | link old new =>
    exact hfs (h.onFs_does (Does.sysLink h.ready hr (hcwd old (.head _))
      (hcwd new (.tail _ (List.mem_singleton.mpr rfl)))))
  | unlink path =>
    exact hfs (h.onFs_ends (Ends.sysUnlink h.ready (hcwd path (List.mem_singleton.mpr rfl))))
  | chdir path =>
    refine wp_seq (h.sysChdir hp (hcwd path (List.mem_singleton.mpr rfl))) ?_
    rintro r κ' ⟨hs, hfd⟩
    exact ⟨hs, fun hcon => hfd ▸ hcon, nofun⟩

end Steady

/-! ### The code -/

section Refine

variable {σ τ : Type} [InodeLayer σ] [InodeLayer τ] {R : σ → τ → Prop} {may : Stop → Prop}

omit [Fintype P] in
lemma LayerRefines.closeAll (L : LayerRefines R may) (p : P) (fds : List (Fin nofile)) :
    Refines (KernelRel P R) may .wild (closeAll p fds : Kern (Kernel P σ) _)
      (Col331.closeAll p fds : Kern (Kernel P τ) _) := by
  induction fds with
  | nil => exact Refines.pure _
  | cons fd fds ih =>
    refine KernelRel.get_bind fun κ κ' hfd _ => ?_
    rw [hfd]
    cases κ'.fd.ofile p fd with
    | none => exact ih
    | some f => exact (L.fileclose f).bind fun _ => (KernelRel.onFd _).bind fun _ => ih

omit [Fintype P] in
lemma LayerRefines.exitFs (L : LayerRefines R may) (p : P) :
    Refines (KernelRel P R) may .wild (exitFs p : Kern (Kernel P σ) _)
      (Col331.exitFs p : Kern (Kernel P τ) _) := by
  refine (L.closeAll p _).bind fun _ => KernelRel.get_bind fun κ κ' _ hcwd => ?_
  rw [hcwd]
  exact KernelRel.onFs (L.beginOp.bind fun _ => (L.iput _).bind fun _ => L.endOp)

end Refine

end Col331
