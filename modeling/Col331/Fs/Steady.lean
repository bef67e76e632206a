import Col331.Fs.Create

/-!
What holds of the kernel between file-system calls.

* `Steady live κ`: the link counts match the directory tree, every reference to the inode cache is
  that of an open file or of the current directory of a live process, and no directory is open for
  writing.
* `Steady.sysOpen`, `Steady.fileclose`, `Steady.fileread`, `Steady.filewrite`, `Steady.sysChdir` and
  the rest: the calls keep it.
-/

namespace Col331

open InodeLayer Function Prog

/-- A sum over a table in which one entry is changed. -/
lemma sum_update {ι α : Type} [Fintype ι] [DecidableEq ι] (F : ι → α) (g : α → ℤ) (i : ι) (v : α) :
    ∑ x, g (update F i v x) = ∑ x, g (F x) - g (F i) + g v := by
  have hcomp : ∀ x, g (update F i v x) = update (fun x => g (F x)) i (g v) x :=
    fun x => apply_update (fun _ => g) F i v x
  simp only [hcomp]
  rw [Finset.sum_update_of_mem (Finset.mem_univ i),
    ← Finset.sum_sdiff (Finset.subset_univ {i}), Finset.sum_singleton]
  ring

variable {V : Volume} {P : Type}

/-! ### References -/

/-- The reference of a file to entry `k` of the inode cache. -/
def File.refTo (f : File) (k : Fin ninode) : ℤ := if f.type = .inode ∧ f.ip = k then 1 else 0

lemma File.refTo_nonneg (f : File) (k : Fin ninode) : 0 ≤ f.refTo k := by
  rw [File.refTo]
  split_ifs <;> decide

/-- The references of the open files to entry `k`. -/
def fileRefs (s : FdState P) (k : Fin ninode) : ℤ := ∑ f, (s.file f).refTo k

/-- The current directory of a live process. -/
def home (live : P → Bool) (cwd : P → Fin ninode) (p : P) : Option (Fin ninode) :=
  if live p then some (cwd p) else none

/-- The reference of a current directory to entry `k`. -/
def homeRef (k : Fin ninode) (c : Option (Fin ninode)) : ℤ := if c = some k then 1 else 0

lemma homeRef_nonneg (k : Fin ninode) (c : Option (Fin ninode)) : 0 ≤ homeRef k c := by
  rw [homeRef]
  split_ifs <;> decide

/-- The references of the current directories to entry `k`. -/
def cwdRefs [Fintype P] (live : P → Bool) (cwd : P → Fin ninode) (k : Fin ninode) : ℤ :=
  ∑ p, homeRef k (home live cwd p)

@[simp] lemma setFile_self (s : FdState P) (f : Fin nfile) (file : File) :
    (Kernel.setFile s f file).file f = file := update_self ..

lemma setFile_of_ne (s : FdState P) {f g : Fin nfile} (file : File) (h : g ≠ f) :
    (Kernel.setFile s f file).file g = s.file g := update_of_ne h ..

lemma fileRefs_setFile (s : FdState P) (f : Fin nfile) (file : File) (k : Fin ninode) :
    fileRefs (Kernel.setFile s f file) k = fileRefs s k - (s.file f).refTo k + file.refTo k :=
  sum_update s.file (fun x => x.refTo k) f file

lemma le_fileRefs (s : FdState P) (f : Fin nfile) (k : Fin ninode) : (s.file f).refTo k ≤ fileRefs s k :=
  Finset.single_le_sum (f := fun f => (s.file f).refTo k) (fun f _ => (s.file f).refTo_nonneg k)
    (Finset.mem_univ f)

/-- What `fileclose` leaves of the references. -/
lemma fileRefs_dropRef (s : FdState P) (f : Fin nfile) (k : Fin ninode) :
    fileRefs (s.dropRef f) k = fileRefs s k - if 0 < (s.file f).ref - 1 then 0 else (s.file f).refTo k := by
  rw [FdState.dropRef]
  split_ifs with h
  · have := sum_update s.file (fun x => x.refTo k) f { s.file f with ref := (s.file f).ref - 1 }
    rw [fileRefs]
    simp only at this ⊢
    rw [this]
    change _ - _ + (s.file f).refTo k = _
    rw [sub_add_cancel, sub_zero]
    rfl
  · have := sum_update s.file (fun x => x.refTo k) f { s.file f with ref := 0, type := .none }
    rw [fileRefs]
    simp only at this ⊢
    rw [this]
    have hnone : File.refTo { s.file f with ref := 0, type := .none } k = 0 :=
      if_neg fun h => absurd h.1 (by simp)
    rw [hnone, add_zero]
    rfl

section Cwd

variable [Fintype P] {live : P → Bool} {cwd : P → Fin ninode}

lemma cwdRefs_nonneg (k : Fin ninode) : 0 ≤ cwdRefs live cwd k :=
  Finset.sum_nonneg fun _ _ => homeRef_nonneg k _

lemma one_le_cwdRefs {p : P} (hp : live p = true) : 1 ≤ cwdRefs live cwd (cwd p) := by
  have hone : homeRef (cwd p) (home live cwd p) = 1 := by
    rw [homeRef, home, if_pos hp, if_pos rfl]
  rw [← hone]
  exact Finset.single_le_sum (f := fun q => homeRef (cwd p) (home live cwd q))
    (fun q _ => homeRef_nonneg _ _) (Finset.mem_univ p)

variable [DecidableEq P]

/-- A live process changes its current directory. -/
lemma cwdRefs_update {p : P} (hp : live p = true) (c k : Fin ninode) :
    cwdRefs live (update cwd p c) k =
      cwdRefs live cwd k - homeRef k (some (cwd p)) + homeRef k (some c) := by
  have hhome : home live (update cwd p c) = update (home live cwd) p (some c) := by
    funext q
    by_cases hq : q = p
    · subst hq
      rw [update_self, home, if_pos hp, update_self]
    · rw [update_of_ne hq, home, home, update_of_ne hq]
  have hp' : home live cwd p = some (cwd p) := if_pos hp
  rw [cwdRefs, hhome, sum_update (home live cwd) (homeRef k) p (some c), hp']
  rfl

/-- A process is no longer there. -/
lemma cwdRefs_exit {p : P} (hp : live p = true) (k : Fin ninode) :
    cwdRefs (update live p false) cwd k = cwdRefs live cwd k - homeRef k (some (cwd p)) := by
  have hhome : home (update live p false) cwd = update (home live cwd) p none := by
    funext q
    by_cases hq : q = p
    · subst hq
      rw [update_self, home, update_self, if_neg Bool.false_ne_true]
    · rw [update_of_ne hq, home, home, update_of_ne hq]
  have hp' : home live cwd p = some (cwd p) := if_pos hp
  rw [cwdRefs, hhome, sum_update (home live cwd) (homeRef k) p none, hp']
  change _ - _ + 0 = _
  rw [add_zero]
  rfl

end Cwd

/-! ### The invariant -/

/-- The types of the inodes that the cache holds. -/
abbrev Afs.types (a : Afs V) (k : Fin ninode) : Int16 := (a.node (a.slot k).inum).type

/-- **Between calls**, with the processes `live`. -/
structure Steady [Fintype P] (live : P → Bool) (κ : Kernel P (Afs V)) : Prop where
  good : Good κ.fs.slot κ.fs.types [] κ.fs
  refs : ∀ k, (κ.fs.slot k).ref = fileRefs κ.fd k + cwdRefs live κ.cwd k
  file : ∀ f, (κ.fd.file f).type ≠ .pipe ∧ ((κ.fd.file f).type = .inode → 0 < (κ.fd.file f).ref)
  writable : ∀ f, (κ.fd.file f).type = .inode → (κ.fd.file f).writable = true →
    κ.fs.types (κ.fd.file f).ip ≠ tDir

/-- One kernel state after another, in which the live processes are where they were. -/
structure Stays [Fintype P] (live : P → Bool) (κ κ' : Kernel P (Afs V)) : Prop where
  steady : Steady live κ'
  cwd : κ'.cwd = κ.cwd
  inum : ∀ p, live p = true → (κ'.fs.slot (κ.cwd p)).inum = (κ.fs.slot (κ.cwd p)).inum

variable [Fintype P] {live : P → Bool} {κ : Kernel P (Afs V)}

/-- The descriptors and the reference counts of the files are the same. -/
def SameRefs (s s' : FdState P) : Prop := s'.ofile = s.ofile ∧ ∀ f, (s'.file f).ref = (s.file f).ref

lemma SameRefs.consistent {s s' : FdState P} (h : SameRefs s s') (hs : s.Consistent) :
    s'.Consistent := by
  intro f
  rw [h.2 f, hs f, FdState.refs, FdState.refs, h.1]

omit [Fintype P] in
lemma SameRefs.trans {s s₁ s₂ : FdState P} (h : SameRefs s s₁) (h' : SameRefs s₁ s₂) :
    SameRefs s s₂ := ⟨h'.1.trans h.1, fun f => (h'.2 f).trans (h.2 f)⟩

omit [Fintype P] in
lemma sameRefs_setFile (s : FdState P) (f : Fin nfile) {file : File} (h : file.ref = (s.file f).ref) :
    SameRefs s (Kernel.setFile s f file) := by
  refine ⟨rfl, fun g => ?_⟩
  by_cases hg : g = f
  · subst hg
    rw [setFile_self, h]
  · rw [setFile_of_ne s file hg]

lemma Stays.trans {κ₁ κ₂ : Kernel P (Afs V)} (h : Stays live κ κ₁) (h' : Stays live κ₁ κ₂) :
    Stays live κ κ₂ := by
  refine ⟨h'.steady, h'.cwd.trans h.cwd, fun p hp => ?_⟩
  have := h'.inum p hp
  rw [h.cwd] at this
  exact this.trans (h.inum p hp)

namespace Steady

lemma stays (h : Steady live κ) : Stays live κ κ := ⟨h, rfl, fun _ _ => rfl⟩

variable (h : Steady live κ) {f : Fin nfile}

include h

lemma ready : Ready V κ.fs.slot κ.fs.types [] κ.fs.node := h.good.ready

lemma pos_file (hf : (κ.fd.file f).type = .inode) : 0 < (κ.fs.slot (κ.fd.file f).ip).ref := by
  have hone : (κ.fd.file f).refTo (κ.fd.file f).ip = 1 := if_pos ⟨hf, rfl⟩
  have hle := le_fileRefs κ.fd f (κ.fd.file f).ip
  have hnn : 0 ≤ cwdRefs live κ.cwd (κ.fd.file f).ip := cwdRefs_nonneg _
  rw [h.refs]
  omega

lemma pos_cwd {p : P} (hp : live p = true) : 0 < (κ.fs.slot (κ.cwd p)).ref := by
  have hle : 1 ≤ cwdRefs live κ.cwd (κ.cwd p) := one_le_cwdRefs hp
  have hnn : 0 ≤ fileRefs κ.fd (κ.cwd p) := Finset.sum_nonneg fun f _ => File.refTo_nonneg _ _
  rw [h.refs]
  omega

/-- The file system changes, the references stay. -/
lemma of_fs {a : Afs V} (hg : Good a.slot a.types [] a)
    (href : ∀ k, (a.slot k).ref = (κ.fs.slot k).ref)
    (hkept : ∀ k, 0 < (κ.fs.slot k).ref → (a.slot k).inum = (κ.fs.slot k).inum ∧
      (a.node (κ.fs.slot k).inum).type = κ.fs.types k) : Stays live κ { κ with fs := a } := by
  refine ⟨⟨hg, fun k => (href k).trans (h.refs k), h.file, fun f hf hw => ?_⟩, rfl,
    fun p hp => (hkept _ (h.pos_cwd hp)).1⟩
  obtain ⟨h1, h2⟩ := hkept _ (h.pos_file hf)
  have := h.writable f hf hw
  rw [Afs.types] at this ⊢
  rw [h1, h2]
  exact this

lemma of_good {a : Afs V} (hg : Good κ.fs.slot κ.fs.types [] a) : Stays live κ { κ with fs := a } :=
  h.of_fs hg.rebase (fun k => by rw [hg.holds.ref k]; simp)
    fun k hk => ⟨(hg.holds.kept k hk).1, hg.kept k hk⟩

/-- A call that changes the file system only. -/
lemma onFs_ends {α : Type} {x : Kern (Afs V) α}
    (hx : Ends κ.fs.slot κ.fs.types [] κ.fs.node x fun _ τ' => τ' = []) :
    wp (Kernel.onFs x) (fun _ κ' => Stays live κ κ' ∧ κ'.fd = κ.fd) Stop.Tame κ := by
  rw [Kernel.wp_onFs]
  refine wp_post (hx κ.fs h.good.holds rfl) ?_
  rintro r a ⟨_, rfl, hg⟩
  exact ⟨h.of_good hg, rfl⟩

lemma onFs_does {α : Type} {x : Kern (Afs V) α}
    (hx : Does κ.fs.slot [] κ.fs.node x
      fun _ τ' n' => τ' = [] ∧ Ready V κ.fs.slot κ.fs.types [] n') :
    wp (Kernel.onFs x) (fun _ κ' => Stays live κ κ' ∧ κ'.fd = κ.fd) Stop.Tame κ :=
  h.onFs_ends (Ends.of_does (hx.mono fun _ _ _ hr => ⟨hr.1, by rw [hr.1]; exact hr.2⟩))

/-! ### Files -/

/-- A field of a file changes that no reference depends on. -/
lemma setFile_off (off : UInt32) :
    Stays live κ { κ with fd := Kernel.setFile κ.fd f { κ.fd.file f with off := off } } := by
  have hfile : ∀ g, ∃ o, (Kernel.setFile κ.fd f { κ.fd.file f with off := off }).file g =
      { κ.fd.file g with off := o } := by
    intro g
    by_cases hg : g = f
    · subst hg
      exact ⟨off, setFile_self ..⟩
    · exact ⟨_, setFile_of_ne _ _ hg⟩
  refine ⟨⟨h.good, fun k => ?_, fun g => ?_, fun g hg hw => ?_⟩, rfl, fun _ _ => rfl⟩
  · rw [h.refs, fileRefs_setFile]
    change _ = _ - (κ.fd.file f).refTo k + (κ.fd.file f).refTo k + _
    rw [sub_add_cancel]
  · obtain ⟨o, ho⟩ := hfile g
    rw [ho]
    exact h.file g
  · obtain ⟨o, ho⟩ := hfile g
    rw [ho] at hg hw ⊢
    exact h.writable g hg hw

/-- **`fileclose`**: the last reference to a file gives that to its inode back. -/
lemma fileclose : wp (Kernel.fileclose f)
    (fun _ κ' => Stays live κ κ' ∧ κ'.fd = κ.fd.dropRef f) Stop.Tame κ := by
  rw [Kernel.fileclose, wp_bind, wp_get]
  dsimp only
  split_ifs with href hlast
  · exact (by decide : Stop.Tame (.panic .fileclose))
  · -- the inode is given back
    obtain ⟨h1, htype⟩ := hlast
    set ip := (κ.fd.file f).ip with hip
    have hpos : 0 < (κ.fs.slot ip).ref := h.pos_file htype
    rw [wp_bind]
    change wp (Kernel.onFs _) _ _ { κ with fd := κ.fd.dropRef f }
    rw [Kernel.wp_onFs]
    refine wp_post (h.good.take hpos).iputOp ?_
    intro _ a ha
    have hrefs : ∀ k, (a.slot k).ref = (κ.fs.slot k).ref - (κ.fd.file f).refTo k := by
      intro k
      rw [ha.holds.ref k]
      by_cases hk : k = ip
      · rw [hk, update_self, File.refTo, if_pos ⟨htype, rfl⟩]
        simp
      · rw [update_of_ne hk, File.refTo, if_neg fun h0 => hk h0.2.symm]
        simp
    have hbase : ∀ k, 0 < (a.slot k).ref → 0 < (κ.fs.slot k).ref ∧
        (a.slot k).inum = (κ.fs.slot k).inum ∧ (a.node (κ.fs.slot k).inum).type = κ.fs.types k := by
      intro k hk
      have hkb : 0 < (update κ.fs.slot ip
          { κ.fs.slot ip with ref := (κ.fs.slot ip).ref - 1 } k).ref := by
        have := ha.holds.ref k
        simp only [List.countP_nil, Nat.cast_zero, add_zero] at this
        rwa [← this]
      have h2 := (ha.holds.kept k hkb).1
      have h3 := ha.kept k hkb
      by_cases hki : k = ip
      · subst hki
        rw [update_self] at h2 h3
        exact ⟨hpos, h2, h3⟩
      · rw [update_of_ne hki] at h2 h3 hkb
        exact ⟨hkb, h2, h3⟩
    have hf : (κ.fd.dropRef f).file = update κ.fd.file f
        { κ.fd.file f with ref := 0, type := .none } := by
      rw [FdState.dropRef, if_neg (by omega)]
    have hsteady : Steady live { κ with fd := κ.fd.dropRef f, fs := a } := by
      have href' : ∀ k, (a.slot k).ref = fileRefs (κ.fd.dropRef f) k + cwdRefs live κ.cwd k := by
        intro k
        rw [hrefs, h.refs, fileRefs_dropRef, if_neg (by omega)]
        ring
      refine ⟨ha.rebase, href', fun g => ?_, fun g hg hw => ?_⟩
      · dsimp only
        rw [hf]
        by_cases hgf : g = f
        · subst hgf
          rw [update_self]
          exact ⟨by simp, by simp⟩
        · rw [update_of_ne hgf]
          exact h.file g
      · dsimp only at hg hw ⊢
        rw [hf] at hg hw ⊢
        have hgf : g ≠ f := fun h0 => by
          rw [h0, update_self] at hg
          cases hg
        rw [update_of_ne hgf] at hg hw ⊢
        -- the other file still refers to its inode
        have hone : (κ.fd.dropRef f).file g = κ.fd.file g := by rw [hf, update_of_ne hgf]
        have hle := le_fileRefs (κ.fd.dropRef f) g (κ.fd.file g).ip
        rw [hone, File.refTo, if_pos ⟨hg, rfl⟩] at hle
        have hnn : 0 ≤ cwdRefs live κ.cwd (κ.fd.file g).ip := cwdRefs_nonneg _
        obtain ⟨-, h2, h3⟩ := hbase (κ.fd.file g).ip (by rw [href']; omega)
        have := h.writable g hg hw
        rw [Afs.types] at this ⊢
        rw [h2, h3]
        exact this
    refine ⟨⟨hsteady, rfl, fun p hp => ?_⟩, rfl⟩
    exact (hbase _ (hsteady.pos_cwd hp)).2.1
  · -- other references to the file are left, or it has no inode
    rw [wp_bind]
    have hf : ∀ g, ((κ.fd.dropRef f).file g).type ≠ .pipe ∧
        (((κ.fd.dropRef f).file g).type = .inode → 0 < ((κ.fd.dropRef f).file g).ref ∧
          (κ.fd.file g).type = .inode ∧ ((κ.fd.dropRef f).file g).ip = (κ.fd.file g).ip ∧
          ((κ.fd.dropRef f).file g).writable = (κ.fd.file g).writable) := by
      intro g
      rw [FdState.dropRef]
      by_cases hgf : g = f
      · subst hgf
        split_ifs with hmore
        · dsimp only
          rw [update_self]
          exact ⟨(h.file g).1, fun hg => ⟨hmore, hg, rfl, rfl⟩⟩
        · dsimp only
          rw [update_self]
          exact ⟨by simp, (by simp)⟩
      · split_ifs
        all_goals
          dsimp only
          rw [update_of_ne hgf]
          exact ⟨(h.file g).1, fun hg => ⟨(h.file g).2 hg, hg, rfl, rfl⟩⟩
    refine ⟨⟨⟨h.good, fun k => ?_, fun g => ⟨(hf g).1, fun hg => ((hf g).2 hg).1⟩, fun g hg hw => ?_⟩,
      rfl, fun _ _ => rfl⟩, rfl⟩
    · rw [h.refs, fileRefs_dropRef]
      split_ifs with hmore
      · rw [sub_zero]
      · have h1 : (κ.fd.file f).ref = 1 := by omega
        rw [File.refTo, if_neg fun h0 => hlast ⟨h1, h0.1⟩, sub_zero]
    · obtain ⟨-, h1, h2, h3⟩ := (hf g).2 hg
      rw [h2]
      exact h.writable g h1 (h3 ▸ hw)

/-! ### Reading and writing -/

/-- The base without the reference of file `f`. -/
abbrev baseOf (κ : Kernel P (Afs V)) (ip : Fin ninode) : Fin ninode → Slot :=
  update κ.fs.slot ip { κ.fs.slot ip with ref := (κ.fs.slot ip).ref - 1 }

/-- A call works on the inode of an open file, and holds on to it. -/
lemma of_held {ip : Fin ninode} (hpos : 0 < (κ.fs.slot ip).ref) {a : Afs V} {v : Bool}
    (hh : Holds (baseOf κ ip) [⟨ip, (κ.fs.slot ip).inum, v⟩] a)
    (hr : Ready V (baseOf κ ip) κ.fs.types [⟨ip, (κ.fs.slot ip).inum, v⟩] a.node)
    (htype : ∀ i, (a.node i).type = (κ.fs.node i).type) : Stays live κ { κ with fs := a } := by
  refine h.of_fs (hr.good hh).rebase (fun k => ?_) fun k hk => ⟨?_, htype _⟩
  · rw [hh.ref]
    by_cases hk : k = ip
    · subst hk
      simp
    · simp [update_of_ne hk, Ne.symm hk]
  · by_cases hki : k = ip
    · subst hki
      exact (hh.mem _ (List.mem_singleton.mpr rfl)).1
    · have hb : (baseOf κ ip k) = κ.fs.slot k := update_of_ne hki ..
      have := (hh.kept k (by rw [hb]; exact hk)).1
      rwa [hb] at this

/-- **`fileread`.** -/
lemma fileread (n : ℤ) : wp (Kernel.fileread f n)
    (fun _ κ' => Stays live κ κ' ∧ SameRefs κ.fd κ'.fd) Stop.Tame κ := by
  rw [Kernel.fileread, wp_bind, wp_get]
  dsimp only
  split_ifs with hread
  · exact ⟨h.stays, rfl, fun _ => rfl⟩
  cases htype : (κ.fd.file f).type with
  | pipe => exact absurd htype (h.file f).1
  | none => exact (by decide : Stop.Tame (.panic .fileread))
  | inode =>
    have hpos := h.pos_file htype
    have hready := h.ready.take hpos
    rw [wp_bind, Kernel.wp_onFs]
    refine wp_seq (Does.ilock (.inr (hready.live _ (List.mem_singleton.mpr rfl))) κ.fs
      (h.good.holds.take hpos) rfl) ?_
    rintro _ a ⟨_, ⟨rfl, hn⟩, ha⟩
    refine wp_post (ha.readi (List.mem_singleton.mpr rfl) _ _) ?_
    rintro r a' rfl
    rw [wp_bind]
    set κ₂ : Kernel P (Afs V) := { κ with fs := a', fd := Kernel.setFile κ.fd f { κ.fd.file f with
      off := (κ.fd.file f).off + UInt32.ofNat (r.getD []).length } } with hκ₂
    change wp (Kernel.onFs _ >>= _) _ _ κ₂
    rw [wp_bind, Kernel.wp_onFs]
    refine wp_post (ha.iunlock (ha.pos (List.mem_singleton.mpr rfl))) ?_
    rintro _ a₃ ⟨ha₃, hn₃⟩
    have hn₃' : a₃.node = κ.fs.node := hn₃.trans hn
    have hs₃ := h.of_held hpos ha₃ (by rw [hn₃']; exact hready.lock) (fun i => by rw [hn₃'])
    exact ⟨hs₃.trans (hs₃.steady.setFile_off _), sameRefs_setFile _ _ rfl⟩

/-- **The loop of `filewrite`**, by induction on the rounds left. -/
lemma filewriteLoop (fuel : ℕ) (src : List UInt8) (htype : (κ.fd.file f).type = .inode)
    (hwritable : (κ.fd.file f).writable = true) : wp (Kernel.filewriteLoop f fuel src)
    (fun _ κ' => Stays live κ κ' ∧ SameRefs κ.fd κ'.fd) Stop.Tame κ := by
  induction fuel generalizing κ src with
  | zero =>
    rw [Kernel.filewriteLoop]
    exact ⟨h.stays, rfl, fun _ => rfl⟩
  | succ fuel ih =>
    rw [Kernel.filewriteLoop]
    split_ifs
    · exact ⟨h.stays, rfl, fun _ => rfl⟩
    rw [wp_bind, wp_get]
    have hpos := h.pos_file htype
    rw [wp_bind, Kernel.wp_onFs]
    refine wp_post (Does.writeRound (h.writable f htype hwritable) (h.ready.take hpos) _ _ κ.fs
      (h.good.holds.take hpos) rfl) ?_
    rintro r a ⟨_, ⟨rfl, hr, hty⟩, ha⟩
    have hs₁ : Stays live κ { κ with fs := a } := h.of_held hpos ha hr hty
    -- what is left after the offset is set
    have hrest : ∀ κ₂ : Kernel P (Afs V), Stays live κ κ₂ → SameRefs κ.fd κ₂.fd →
        (κ₂.fd.file f).type = .inode → (κ₂.fd.file f).writable = true →
        wp (if r < 0 then Pure.pure false
          else if r ≠ (src.take maxChunk).length then Col331.panic .shortFilewrite
          else Kernel.filewriteLoop f fuel (src.drop maxChunk) : Kern (Kernel P (Afs V)) Bool)
          (fun _ κ' => Stays live κ κ' ∧ SameRefs κ.fd κ'.fd) Stop.Tame κ₂ := by
      intro κ₂ hs₂ hsame ht₂ hw₂
      split_ifs
      · exact ⟨hs₂, hsame⟩
      · exact (by decide : Stop.Tame (.panic .shortFilewrite))
      · refine wp_post (ih hs₂.steady _ ht₂ hw₂) ?_
        rintro _ κ₃ ⟨hs₃, hsame₃⟩
        exact ⟨hs₂.trans hs₃, hsame.trans hsame₃⟩
    by_cases hr0 : 0 < r
    · rw [if_pos hr0, wp_bind]
      refine hrest _ (hs₁.trans (hs₁.steady.setFile_off _)) (sameRefs_setFile _ _ rfl) ?_ ?_
      · dsimp only
        rw [setFile_self]
        exact htype
      · dsimp only
        rw [setFile_self]
        exact hwritable
    · rw [if_neg hr0]
      exact hrest _ hs₁ ⟨rfl, fun _ => rfl⟩ htype hwritable

/-- **`filewrite`.** -/
lemma filewrite (mem : ℕ → UInt8) (n : ℤ) : wp (Kernel.filewrite f mem n)
    (fun _ κ' => Stays live κ κ' ∧ SameRefs κ.fd κ'.fd) Stop.Tame κ := by
  rw [Kernel.filewrite, wp_bind, wp_get]
  by_cases hw : (κ.fd.file f).writable = false
  · rw [if_pos hw]
    exact ⟨h.stays, rfl, fun _ => rfl⟩
  rw [if_neg hw]
  cases htype : (κ.fd.file f).type with
  | pipe => exact absurd htype (h.file f).1
  | none => exact (by decide : Stop.Tame (.panic .filewrite))
  | inode =>
    by_cases hn : n < 0
    · rw [if_pos hn]
      exact ⟨h.stays, rfl, fun _ => rfl⟩
    rw [if_neg hn]
    refine wp_seq (h.filewriteLoop n.toNat _ htype (by simpa using hw)) ?_
    intro b κ' hκ'
    split_ifs
    · exact hκ'
    · exact hκ'

end Steady

end Col331
