import Col331.Fs.Exec
import Col331.Fs.Image
import Col331.Logic.Reach

/-!
Runs of file-system calls.

* `Machine`, `Machine.step`: the kernel and the processes that have not exited; a process makes a
  call or exits.
* `Booted`: a well-formed disk, with every process in the root directory and no open files.
* `FollowsLinks`: the condition that no call follows a relative path from a directory that has been
  removed.
* `nlink_of_reach`, `tree_of_reach`, `no_dangling_of_reach`, `no_leak_of_reach`: link counts, the
  directory tree, locks of allocated inodes only, and no inode without a name, in every run.
* `refs_of_reach`: the reference counts of files and inodes, in every run.
* `chdir_dangling`, `create_leaks`: what becomes of a process in a directory that has been removed.
-/

namespace Col331

variable {V : Volume} {P : Type}

/-- The kernel, and the processes that have not exited. -/
structure Machine (P σ : Type) where
  kernel : Kernel P σ
  live : P → Bool

/-- What a process does. -/
inductive Act (P : Type) where
  | call (p : P) (c : Call)
  | exit (p : P)

/-- The process that acts. -/
def Act.proc : Act P → P
  | .call p _ => p
  | .exit p => p

/-- The paths it follows. -/
def Act.paths : Act P → List (List UInt8)
  | .call _ c => c.paths
  | .exit _ => []

/-- One call, or `exit`. -/
def Machine.step [DecidableEq P] (m : Machine P (Fs V)) : Act P → Except Stop (Machine P (Fs V))
  | .call p c => (exec p c m.kernel).map fun r => ⟨r.2, m.live⟩
  | .exit p => (exitFs p m.kernel).map fun r => ⟨r.2, Function.update m.live p false⟩

/-- **A well-formed image**, mounted: the link counts match the directory tree, every allocated inode
has a name; every process is in the root directory, and no file is open. -/
structure Booted [Fintype P] [DecidableEq P] (m : Machine P (Fs V)) : Prop where
  ok : m.kernel.fs.Ok
  links : Links V m.kernel.fs.nodes
  named : ∀ i ∈ (dirsOf V m.kernel.fs.nodes).alloc, (dirsOf V m.kernel.fs.nodes).Linked i
  files : ∀ f, (m.kernel.fd.file f).ref = 0 ∧ (m.kernel.fd.file f).type = .none
  fds : ∀ p fd, m.kernel.fd.ofile p fd = none
  live : ∀ p, m.live p = true
  refs : ∀ k, (m.kernel.fs.inode k).ref = (Finset.univ.filter fun p => m.kernel.cwd p = k).card
  cwd : ∀ p, (m.kernel.fs.inode (m.kernel.cwd p)).inum = rootino

/-- A live process acts, and it follows relative paths from a directory that is still linked only. -/
def FollowsLinks (m : Machine P (Fs V)) (a : Act P) : Prop :=
  m.live a.proc = true ∧ ∀ path ∈ a.paths, path.headD 0 ≠ slash →
    (dirsOf V m.kernel.fs.nodes).Linked (m.kernel.fs.inode (m.kernel.cwd a.proc)).inum

variable [Fintype P]

/-- What holds of the machine between actions. -/
structure Sane (m : Machine P (Fs V)) (κ : Kernel P (Afs V)) : Prop where
  rel : KernelRel P Rel m.kernel κ
  steady : Steady m.live κ
  fds : m.kernel.fd.Consistent

namespace Sane

variable {m : Machine P (Fs V)} {κ : Kernel P (Afs V)} (h : Sane m κ)

include h

lemma node {i : ℕ} (hi : i < V.ninodes) : κ.fs.node i = m.kernel.fs.nodes i := h.rel.fs.node_eq hi

/-- The directories on disk. -/
lemma dirsOf_eq : dirsOf V κ.fs.node = dirsOf V m.kernel.fs.nodes :=
  dirsOf_congr (fun i hi => by rw [h.node hi]) fun i hi j => by rw [h.node hi]

lemma links : Links V m.kernel.fs.nodes :=
  h.steady.good.links.congr (fun i hi => by rw [h.node hi]) (fun i hi j => by rw [h.node hi])
    fun i hi => by rw [h.node hi]

lemma roomy : Roomy V κ.fs.node := fun _ hi =>
  h.steady.good.links.toInt_nlink_add_one h.rel.fs hi

lemma inum_cwd {p : P} (hp : m.live p = true) :
    (κ.fs.slot (κ.cwd p)).inum = (m.kernel.fs.inode (m.kernel.cwd p)).inum := by
  have hpos := h.steady.pos_cwd hp
  rw [h.rel.fs.ref] at hpos
  rw [(h.rel.fs.fields hpos).1, h.rel.cwd]

/-- An allocated inode is linked or referred to. -/
lemma alloc_iff {i : ℕ} (hi : i < V.ninodes) : (m.kernel.fs.nodes i).type ≠ 0 ↔
    (dirsOf V m.kernel.fs.nodes).Linked i ∨
      ∃ k, 0 < (m.kernel.fs.inode k).ref ∧ (m.kernel.fs.inode k).inum = i := by
  constructor
  · intro htype
    by_cases hl : (dirsOf V m.kernel.fs.nodes).Linked i
    · exact .inl hl
    · have h0 := (h.links.nlink_eq_zero_iff ⟨hi, htype⟩).mpr hl
      rw [← h.node hi] at h0 htype
      obtain ⟨k, hk, hki, -⟩ := h.steady.good.zombie i ⟨hi, htype⟩ h0
      rw [h.rel.fs.ref] at hk
      exact .inr ⟨k, hk, (h.rel.fs.fields hk).1 ▸ hki⟩
  · rintro (hl | ⟨k, hk, rfl⟩)
    · exact (h.links.type_of_linked hl).2
    · rw [← h.node hi, ← (h.rel.fs.fields hk).1]
      exact h.steady.good.live k (by rw [h.rel.fs.ref]; exact hk)

variable [DecidableEq P]

/-- **One action.** -/
lemma step {a : Act P} (ha : FollowsLinks m a) :
    (∀ m', m.step a = .ok m' → ∃ κ', Sane m' κ' ∧
      (∀ p c, a = .call p c → c.stationary = true → m'.live = m.live ∧ Stays m.live κ κ')) ∧
    ∀ e, m.step a = .error e → e ≠ .panic .ilockNoType ∧ e ≠ .panic .unlinkNlink := by
  -- what a stop can be
  have hstop : ∀ e : Stop, e.Tame ∨ e = .panic .ballocOut →
      e ≠ .panic .ilockNoType ∧ e ≠ .panic .unlinkNlink := by
    rintro e (he | rfl)
    · simp only [Stop.Tame, List.mem_cons, List.not_mem_nil, not_or] at he
      exact ⟨he.2.2.2.1, he.2.2.2.2.1⟩
    · exact ⟨by decide, by decide⟩
  obtain ⟨hlive, hpaths⟩ := ha
  cases a with
  | call p c =>
    have hlive : m.live p = true := hlive
    have hc : ∀ path ∈ c.paths, path.headD 0 ≠ slash →
        (dirsOf V κ.fs.node).Linked (κ.fs.slot (κ.cwd p)).inum := by
      intro path hpath hrel
      rw [h.dirsOf_eq, h.inum_cwd hlive]
      exact hpaths path hpath hrel
    have hwp := (fsRefines.exec p c).wp h.rel (h.steady.exec h.roomy hlive hc) (by decide)
    rcases hrun : exec p c m.kernel with e | ⟨r, κ₁⟩
    · rw [Prog.wp_of_error hrun] at hwp
      simp only [Machine.step, hrun, Except.map]
      exact ⟨nofun, fun e' he => Except.error.inj he ▸ hstop e hwp⟩
    · rw [Prog.wp_of_ok hrun] at hwp
      obtain ⟨κ', hrel, hs, hcon, hst⟩ := hwp
      simp only [Machine.step, hrun, Except.map]
      refine ⟨fun m' hm => ?_, nofun⟩
      cases hm
      refine ⟨κ', ⟨hrel, hs, ?_⟩, fun p' c' heq hstat => ⟨rfl, hst ?_⟩⟩
      · dsimp only
        rw [hrel.fd]
        exact hcon (h.rel.fd ▸ h.fds)
      · obtain ⟨-, rfl⟩ := Act.call.inj heq
        exact hstat
  | exit p =>
    have hlive : m.live p = true := hlive
    have hwp := (fsRefines.exitFs p).wp h.rel (h.steady.exitFs hlive) (by decide)
    rcases hrun : exitFs p m.kernel with e | ⟨r, κ₁⟩
    · rw [Prog.wp_of_error hrun] at hwp
      simp only [Machine.step, hrun, Except.map]
      exact ⟨nofun, fun e' he => Except.error.inj he ▸ hstop e hwp⟩
    · rw [Prog.wp_of_ok hrun] at hwp
      obtain ⟨κ', hrel, hs, hcon⟩ := hwp
      simp only [Machine.step, hrun, Except.map]
      refine ⟨fun m' hm => ?_, nofun⟩
      cases hm
      refine ⟨κ', ⟨hrel, hs, ?_⟩, nofun⟩
      rw [hrel.fd]
      exact hcon (h.rel.fd ▸ h.fds)

end Sane

/-! ### Runs -/

section Runs

variable [DecidableEq P] {m₀ m : Machine P (Fs V)}

/-- Nothing is open on a machine that has been booted. -/
lemma Booted.sane (h : Booted m₀) :
    Sane m₀ ⟨m₀.kernel.fd, m₀.kernel.cwd, m₀.kernel.fs.abs⟩ := by
  have hrel := h.ok.rel
  have hlinked : ∀ k, 0 < (m₀.kernel.fs.inode k).ref → (m₀.kernel.fs.inode k).inum = rootino := by
    intro k hk
    rw [h.refs k] at hk
    obtain ⟨p, hp⟩ := Finset.card_pos.mp (by exact_mod_cast hk)
    rw [← (Finset.mem_filter.mp hp).2]
    exact h.cwd p
  have hholds : Holds m₀.kernel.fs.abs.slot [] m₀.kernel.fs.abs := by
    refine ⟨fun _ => by simp, fun k => ?_, fun _ _ => ⟨rfl, id⟩, (by simp),
      fun k hk => ?_, fun k l hk hl heq => ?_⟩
    · rw [hrel.ref]
      exact hrel.cache.nonneg k
    · rw [hrel.ref] at hk
      rw [(hrel.fields hk).1]
      exact hrel.cache.inum k hk
    · rw [hrel.ref] at hk hl
      rw [(hrel.fields hk).1, (hrel.fields hl).1] at heq
      exact hrel.cache.uniq k l hk hl heq
  refine ⟨⟨rfl, rfl, hrel⟩, ⟨⟨hholds, h.links, fun k hk => ?_, fun _ _ => rfl, fun i hi h0 => ?_⟩,
    fun k => ?_, fun f => ?_, fun f hf => ?_⟩, fun f => ?_⟩
  · rw [hrel.ref] at hk
    rw [(hrel.fields hk).1, hlinked k hk]
    exact (h.links.type_of_linked (.inl rfl)).2
  · exact absurd h0 (h.links.nlink_ne_zero (h.named i hi))
  · have hfiles : fileRefs m₀.kernel.fd k = 0 := Finset.sum_eq_zero fun f _ =>
      if_neg fun h0 => absurd ((h.files f).2.symm.trans h0.1) (by simp)
    have hcwds : cwdRefs m₀.live m₀.kernel.cwd k =
        (Finset.univ.filter fun p => m₀.kernel.cwd p = k).card := by
      rw [cwdRefs, Finset.card_filter]
      push_cast
      refine Finset.sum_congr rfl fun p _ => ?_
      rw [homeRef, home, if_pos (h.live p)]
      simp
    rw [hrel.ref, hfiles, hcwds, h.refs k, zero_add]
  · rw [(h.files f).2]
    exact ⟨by simp, by simp⟩
  · rw [(h.files f).2] at hf
    cases hf
  · have hnone : m₀.kernel.fd.refs f = ∅ := by
      ext q
      simp [FdState.mem_refs, h.fds]
    rw [(h.files f).1, hnone]
    rfl

/-- The machine stays sane along a run that follows links. -/
lemma sane_of_reach (h₀ : Booted m₀) (h : Reach Machine.step FollowsLinks m₀ m) : ∃ κ, Sane m κ := by
  refine h.invariant (I := fun m => ∃ κ, Sane m κ) ⟨_, h₀.sane⟩ ?_
  rintro _ a m' ⟨κ, hs⟩ ha hstep
  obtain ⟨κ', hs', -⟩ := (hs.step ha).1 m' hstep
  exact ⟨κ', hs'⟩

/-- A live process makes a call other than `chdir`, by absolute paths. -/
def Absolute (m : Machine P (Fs V)) : Act P → Prop
  | .call p c => m.live p = true ∧ c.stationary = true ∧ ∀ path ∈ c.paths, path.headD 0 = slash
  | .exit _ => False

omit [Fintype P] [DecidableEq P] in
lemma Absolute.followsLinks {a : Act P} (h : Absolute m a) : FollowsLinks m a := by
  cases a with
  | call p c => exact ⟨h.1, fun path hpath hrel => absurd (h.2.2 path hpath) hrel⟩
  | exit p => exact absurd h not_false

/-- **Link counts match the directory tree in every run** of calls by absolute paths: the count of an
allocated inode is the number of entries that are links to it; an inode is allocated exactly as long
as it is linked or referred to; and `sys_unlink` finds no link count below 1. -/
theorem nlink_of_reach (h₀ : Booted m₀) (h : Reach Machine.step Absolute m₀ m) :
    (∀ i < V.ninodes, (m.kernel.fs.nodes i).type ≠ 0 → (m.kernel.fs.nodes i).nlink.toInt =
      ((dirsOf V m.kernel.fs.nodes).counted i).ncard) ∧
    (∀ i < V.ninodes, (m.kernel.fs.nodes i).type ≠ 0 ↔ (dirsOf V m.kernel.fs.nodes).Linked i ∨
      ∃ k, 0 < (m.kernel.fs.inode k).ref ∧ (m.kernel.fs.inode k).inum = i) ∧
    ∀ a, Absolute m a → m.step a ≠ .error (.panic .unlinkNlink) := by
  obtain ⟨κ, hs⟩ := sane_of_reach h₀ (h.mono fun _ _ ha => ha.followsLinks)
  exact ⟨fun i hi htype => hs.links.nlink i ⟨hi, htype⟩, fun i hi => hs.alloc_iff hi,
    fun a ha he => ((hs.step ha.followsLinks).2 _ he).2 rfl⟩

/-- A live process makes a call other than `chdir`. -/
def InPlace (m : Machine P (Fs V)) : Act P → Prop
  | .call p c => m.live p = true ∧ c.stationary = true
  | .exit _ => False

/-- Processes that make no other calls stay in the root directory. -/
lemma rooted_of_reach (h₀ : Booted m₀) (h : Reach Machine.step InPlace m₀ m) :
    ∃ κ, Sane m κ ∧ ∀ p, m.live p = true → (κ.fs.slot (κ.cwd p)).inum = rootino := by
  refine h.invariant (I := fun m => ∃ κ, Sane m κ ∧ ∀ p, m.live p = true →
    (κ.fs.slot (κ.cwd p)).inum = rootino) ?_ ?_
  · exact ⟨_, h₀.sane, fun p hp => (h₀.sane.inum_cwd hp).trans (h₀.cwd p)⟩
  · rintro m a m' ⟨κ, hs, hroot⟩ ha hstep
    cases a with
    | exit p => exact absurd ha not_false
    | call p c =>
      have hfollow : FollowsLinks m (.call p c) := by
        refine ⟨ha.1, fun _ _ _ => .inl ?_⟩
        change (m.kernel.fs.inode (m.kernel.cwd p)).inum = rootino
        rw [← hs.inum_cwd ha.1]
        exact hroot p ha.1
      obtain ⟨κ', hs', hstays⟩ := (hs.step hfollow).1 m' hstep
      obtain ⟨hlive, hst⟩ := hstays p c rfl ha.2
      refine ⟨κ', hs', fun q hq => ?_⟩
      rw [hlive] at hq
      rw [hst.cwd, hst.inum q hq]
      exact hroot q hq

/-- **The directories form a tree in every run**: no directory has two entries with one name, its first
two are `.` and `..`; it is named by one other entry at most, in the directory that its `..` names;
and no directory is below itself. -/
theorem tree_of_reach (h₀ : Booted m₀) (h : Reach Machine.step InPlace m₀ m) :
    (∀ d < V.ninodes, (m.kernel.fs.nodes d).type = tDir →
      (∀ j j' i i' x x', (m.kernel.fs.nodes d).entry j = some (i, x) →
        (m.kernel.fs.nodes d).entry j' = some (i', x') → namecmp x x' = 0 → j = j') ∧
      (m.kernel.fs.nodes d).entry 0 = some (d, dot) ∧
      ∃ p, (m.kernel.fs.nodes d).entry 1 = some (p, dotdot)) ∧
    (∀ i < V.ninodes, (m.kernel.fs.nodes i).type = tDir → ∀ d j,
      (dirsOf V m.kernel.fs.nodes).Plain d j i → (m.kernel.fs.nodes i).entry 1 = some (d, dotdot) ∧
        ∀ d' j', (dirsOf V m.kernel.fs.nodes).Plain d' j' i → d = d' ∧ j = j') ∧
    ∀ d, ¬ Relation.TransGen (fun d i => ∃ j, (dirsOf V m.kernel.fs.nodes).Plain d j i) d d := by
  obtain ⟨κ, hs, -⟩ := rooted_of_reach h₀ h
  have hT := hs.links.tree
  refine ⟨fun d hd htype => ⟨fun j j' i i' x x' hx hx' hcmp => ?_, ?_, ?_⟩,
    fun i hi htype d j hp => ⟨?_, fun d' j' hp' => ?_⟩, hT.acyclic⟩
  · rw [namecmp_eq_zero_iff, Node.cstr_of_entry hx, Node.cstr_of_entry hx'] at hcmp
    subst hcmp
    exact hT.names d j j' i i' x ((ent_dirsOf hd j).trans hx) ((ent_dirsOf hd j').trans hx')
  · exact (ent_dirsOf hd 0).symm.trans (hT.self d ⟨hd, htype⟩)
  · obtain ⟨p, hp⟩ := hT.up d ⟨hd, htype⟩
    exact ⟨p, (ent_dirsOf hd 1).symm.trans hp⟩
  · exact (ent_dirsOf hi 1).symm.trans (hT.parent d j i hp ⟨hi, htype⟩)
  · exact hT.single d j d' j' i hp hp' ⟨hi, htype⟩

/-- **No dangling entry is followed** in a run in which relative paths start from linked directories
only: `ilock` always finds an allocated inode. -/
theorem no_dangling_of_reach (h₀ : Booted m₀) (h : Reach Machine.step FollowsLinks m₀ m) {a : Act P}
    (ha : FollowsLinks m a) : m.step a ≠ .error (.panic .ilockNoType) := by
  obtain ⟨κ, hs⟩ := sane_of_reach h₀ h
  exact fun he => ((hs.step ha).2 _ he).1 rfl

/-- **No inode is leaked** in such a run: when nothing is open and every process is in the root
directory, every allocated inode is reached from there. -/
theorem no_leak_of_reach (h₀ : Booted m₀) (h : Reach Machine.step FollowsLinks m₀ m)
    (hclosed : ∀ p fd, m.kernel.fd.ofile p fd = none)
    (hcwd : ∀ p, m.live p = true → (m.kernel.fs.inode (m.kernel.cwd p)).inum = rootino) {i : ℕ}
    (hi : i < V.ninodes) (htype : (m.kernel.fs.nodes i).type ≠ 0) :
    Relation.ReflTransGen (fun d i => ∃ j x, (m.kernel.fs.nodes d).entry j = some (i, x)) rootino i := by
  obtain ⟨κ, hs⟩ := sane_of_reach h₀ h
  -- no file is in use, so all references are those of current directories
  have hfile : ∀ f, (κ.fd.file f).type ≠ .inode := by
    intro f hf
    have hpos := (hs.steady.file f).2 hf
    rw [← hs.rel.fd, hs.fds f, FdState.refs, Finset.filter_eq_empty_iff.mpr
      fun q _ => by rw [hclosed]; simp] at hpos
    cases hpos
  have hlinked : (dirsOf V m.kernel.fs.nodes).Linked i := by
    rcases (hs.alloc_iff hi).mp htype with hl | ⟨k, hk, rfl⟩
    · exact hl
    · left
      rw [← hs.rel.fs.ref, hs.steady.refs] at hk
      have hzero : fileRefs κ.fd k = 0 :=
        Finset.sum_eq_zero fun f _ => if_neg fun h0 => hfile f h0.1
      rw [hzero, zero_add] at hk
      obtain ⟨p, -, hp⟩ := Finset.exists_lt_of_sum_lt (f := fun _ : P => (0 : ℤ))
        (by simpa [cwdRefs] using hk)
      have hhome : home m.live κ.cwd p = some k := by_contra fun hne => by
        rw [homeRef, if_neg hne] at hp
        exact lt_irrefl _ hp
      rw [home] at hhome
      split_ifs at hhome with hlive
      rw [← Option.some.inj hhome, ← hs.rel.cwd]
      exact hcwd p hlive
  refine Relation.ReflTransGen.mono ?_ _ _ (hs.links.tree.reachable hlinked)
  rintro d i' ⟨j, x, hx⟩
  exact ⟨j, x, (lt_of_ent_dirsOf hx).2⟩

/-- **Every reference is accounted for** in such a run: an entry of the inode cache counts the open files
on it and the live processes in it, and an open file its descriptors.  No directory is open for
writing, and the disk is in good order. -/
theorem refs_of_reach (h₀ : Booted m₀) (h : Reach Machine.step FollowsLinks m₀ m) :
    (∀ k, (m.kernel.fs.inode k).ref = fileRefs m.kernel.fd k + cwdRefs m.live m.kernel.cwd k) ∧
    m.kernel.fd.Consistent ∧
    (∀ f, (m.kernel.fd.file f).type = .inode → (m.kernel.fd.file f).writable = true →
      (m.kernel.fs.nodes (m.kernel.fs.inode (m.kernel.fd.file f).ip).inum).type ≠ tDir) ∧
    m.kernel.fs.Ok := by
  obtain ⟨κ, hs⟩ := sane_of_reach h₀ h
  have hrel := hs.rel.fs
  refine ⟨fun k => ?_, hs.fds, fun f htype hw => ?_, hrel.ok⟩
  · rw [← hrel.ref, hs.steady.refs, hs.rel.fd, hs.rel.cwd]
  · rw [hs.rel.fd] at htype hw ⊢
    have hk := hs.steady.pos_file htype
    rw [hrel.ref] at hk
    rw [← hs.node (hrel.cache.inum _ hk), ← (hrel.fields hk).1]
    exact hs.steady.writable f htype hw

end Runs

/-! ### A machine -/

/-- No open files. -/
def noFiles (P : Type) : FdState P := ⟨fun _ => ⟨.none, 0, false, false, 0, 0, 0⟩, fun _ _ => none, []⟩

/-- One process on the disk that `mkfs` makes of no files. -/
def mkfsMachine : Machine (Fin 1) (Fs mkfsVolume) :=
  ⟨⟨noFiles _, fun _ => 0, boot mkfsVolume (mkfsDisk []) [(rootino, 1)]⟩, fun _ => true⟩

lemma entry_mkfsRoot (j : ℕ) : (mkfsRoot []).entry j =
    if j = 0 then some (rootino, dot) else if j = 1 then some (rootino, dotdot) else none := by
  by_cases hj : j < 32
  · have hall : ∀ j < 32, (mkfsRoot []).entry j =
        if j = 0 then some (rootino, dot) else if j = 1 then some (rootino, dotdot) else none := by
      decide +kernel
    exact hall j hj
  · rw [Node.entry_of_length_le, if_neg (by omega), if_neg (by omega)]
    simp only [mkfsRoot, List.length_map, List.length_range, direntSize, dirsiz, bsize]
    omega

lemma nodes_mkfsMachine {i : ℕ} (hi : i < mkfsVolume.ninodes) :
    mkfsMachine.kernel.fs.nodes i = if i = rootino then mkfsRoot [] else Node.free :=
  node_mkfsDisk [] hi

lemma dirsOf_mkfsMachine :
    dirsOf mkfsVolume mkfsMachine.kernel.fs.nodes = Dirs.bare rootino dot dotdot := by
  have hroot : rootino < mkfsVolume.ninodes := mkfsVolume.rootIno
  refine Dirs.ext rfl rfl rfl ?_ ?_ ?_
  · ext i
    change i < _ ∧ _ ↔ i = rootino
    constructor
    · rintro ⟨hi, htype⟩
      by_contra hne
      rw [nodes_mkfsMachine hi, if_neg hne] at htype
      exact htype rfl
    · rintro rfl
      rw [nodes_mkfsMachine hroot, if_pos rfl]
      exact ⟨hroot, by decide⟩
  · ext i
    change i < _ ∧ _ ↔ i = rootino
    constructor
    · rintro ⟨hi, htype⟩
      by_contra hne
      rw [nodes_mkfsMachine hi, if_neg hne] at htype
      nomatch htype
    · rintro rfl
      rw [nodes_mkfsMachine hroot, if_pos rfl]
      exact ⟨hroot, rfl⟩
  · funext d j
    simp only [dirsOf, Dirs.bare]
    by_cases hd : d = rootino
    · rw [hd, if_pos hroot, if_pos rfl, nodes_mkfsMachine hroot, if_pos rfl, entry_mkfsRoot]
    · rw [if_neg hd]
      split_ifs with hlt
      · rw [nodes_mkfsMachine hlt, if_neg hd, Node.entry_of_not_dir (by decide)]
      · rfl

lemma mkfsMachine_booted : Booted mkfsMachine := by
  have hdots : dot ≠ dotdot := by decide
  have hG := dirsOf_mkfsMachine
  refine ⟨boot_ok (mkfsDisk_ok []) (by decide) (by decide), ?_, ?_, fun _ => ⟨rfl, rfl⟩, fun _ _ => rfl,
    fun _ => rfl, by decide +kernel, fun _ => rfl⟩
  · refine Links.of_dirsOf hG (Dirs.tree_bare hdots) fun i hi => ?_
    have hi : i = rootino := hi
    rw [hi, Dirs.counted_bare hdots, Set.ncard_singleton, nodes_mkfsMachine mkfsVolume.rootIno, if_pos rfl]
    rfl
  · intro i hi
    rw [hG] at hi ⊢
    exact Dirs.linked_bare.mpr hi

/-! ### Link counts, in a run -/

instance [DecidableEq P] (m : Machine P (Fs V)) (a : Act P) : Decidable (Absolute m a) := by
  cases a
  · exact inferInstanceAs (Decidable (_ ∧ _ ∧ _))
  · exact inferInstanceAs (Decidable False)

/-- A file is created and linked, and one of its names is removed. -/
theorem nlink_of_reach_unlink : ∃ m : Machine (Fin 1) (Fs mkfsVolume), Booted mkfsMachine ∧
    Reach Machine.step Absolute mkfsMachine m ∧
    (∀ i < mkfsVolume.ninodes, (m.kernel.fs.nodes i).type ≠ 0 → (m.kernel.fs.nodes i).nlink.toInt =
      ((dirsOf mkfsVolume m.kernel.fs.nodes).counted i).ncard) ∧
    (∀ i < mkfsVolume.ninodes, (m.kernel.fs.nodes i).type ≠ 0 ↔
      (dirsOf mkfsVolume m.kernel.fs.nodes).Linked i ∨
        ∃ k, 0 < (m.kernel.fs.inode k).ref ∧ (m.kernel.fs.inode k).inum = i) ∧
    ∀ a, Absolute m a → m.step a ≠ .error (.panic .unlinkNlink) := by
  obtain ⟨m, hreach, -⟩ : ∃ m : Machine (Fin 1) (Fs mkfsVolume),
      Reach Machine.step Absolute mkfsMachine m ∧ True :=
    Reach.of_test [.call 0 (.open [slash, 98] oCreate), .call 0 (.link [slash, 98] [slash, 99]),
      .call 0 (.unlink [slash, 98])] (by decide +kernel)
  exact ⟨m, mkfsMachine_booted, hreach, nlink_of_reach mkfsMachine_booted hreach⟩

/-- A file is created, and open. -/
theorem refs_of_reach_open : ∃ m : Machine (Fin 1) (Fs mkfsVolume),
    (m.kernel.fd.file 0).type = .inode ∧ m.kernel.fd.Consistent := by
  obtain ⟨m, hreach, hval⟩ : ∃ m : Machine (Fin 1) (Fs mkfsVolume),
      Reach Machine.step Absolute mkfsMachine m ∧ (m.kernel.fd.file 0).type = .inode :=
    Reach.of_test [.call 0 (.open [slash, 98] oCreate)] (by decide +kernel)
  have hfollow := hreach.mono fun _ _ ha => ha.followsLinks
  exact ⟨m, hval, (refs_of_reach mkfsMachine_booted hfollow).2.1⟩

/-! ### Directories, in a run -/

instance [DecidableEq P] (m : Machine P (Fs V)) (a : Act P) : Decidable (InPlace m a) := by
  cases a
  · exact inferInstanceAs (Decidable (_ ∧ _))
  · exact inferInstanceAs (Decidable False)

/-- Two directories are made, one in the other, by a relative path. -/
theorem tree_of_reach_mkdir : ∃ m : Machine (Fin 1) (Fs mkfsVolume), Booted mkfsMachine ∧
    Reach Machine.step InPlace mkfsMachine m ∧ (m.kernel.fs.nodes 3).type = tDir ∧
    ∀ d, ¬ Relation.TransGen (fun d i => ∃ j, (dirsOf mkfsVolume m.kernel.fs.nodes).Plain d j i) d d := by
  obtain ⟨m, hreach, hdir⟩ : ∃ m : Machine (Fin 1) (Fs mkfsVolume),
      Reach Machine.step InPlace mkfsMachine m ∧ (m.kernel.fs.nodes 3).type = tDir :=
    Reach.of_test [.call 0 (.mkdir [97]), .call 0 (.mkdir [97, slash, 98])] (by decide +kernel)
  exact ⟨m, mkfsMachine_booted, hreach, hdir, (tree_of_reach mkfsMachine_booted hreach).2.2⟩

/-! ### Removed directories -/

/-- A live process acts. -/
def Acts (m : Machine P (Fs V)) (a : Act P) : Prop := m.live a.proc = true

instance (m : Machine P (Fs V)) (a : Act P) : Decidable (Acts m a) := inferInstanceAs (Decidable (_ = _))

/-- The process makes `/a` and `/a/b`, goes to `/a/b` and removes both; the directory that it is in is
kept, but its entry `..` names an inode that is free.  To follow it stops the kernel. -/
theorem chdir_dangling : ∃ m : Machine (Fin 1) (Fs mkfsVolume), Booted mkfsMachine ∧
    Reach Machine.step Acts mkfsMachine m ∧ Acts m (.call 0 (.chdir dotdot)) ∧
    m.step (.call 0 (.chdir dotdot)) = .error (.panic .ilockNoType) := by
  obtain ⟨m, hreach, hlive, hstop⟩ : ∃ m : Machine (Fin 1) (Fs mkfsVolume),
      Reach Machine.step Acts mkfsMachine m ∧ m.live 0 = true ∧
        stopsWith (.panic .ilockNoType) (m.step (.call 0 (.chdir dotdot))) = true :=
    Reach.of_test [.call 0 (.mkdir [slash, 97]), .call 0 (.mkdir [slash, 97, slash, 98]),
      .call 0 (.chdir [slash, 97, slash, 98]), .call 0 (.unlink [slash, 97, slash, 98]),
      .call 0 (.unlink [slash, 97])] (by decide +kernel)
  exact ⟨m, mkfsMachine_booted, hreach, hlive, stopsWith_eq_true hstop⟩

/-- A process in a directory follows a relative path. -/
theorem no_dangling_of_reach_mkdir : ∃ m : Machine (Fin 1) (Fs mkfsVolume), Booted mkfsMachine ∧
    Reach Machine.step FollowsLinks mkfsMachine m ∧ FollowsLinks m (.call 0 (.chdir dotdot)) ∧
    m.step (.call 0 (.chdir dotdot)) ≠ .error (.panic .ilockNoType) := by
  have hfollow : FollowsLinks mkfsMachine (.call 0 (.chdir dotdot)) := ⟨rfl, fun _ _ _ => .inl rfl⟩
  exact ⟨mkfsMachine, mkfsMachine_booted, .init, hfollow,
    no_dangling_of_reach mkfsMachine_booted .init hfollow⟩

/-- The process makes `/a`, goes there and removes it; then it creates a file in it, closes it and
goes back to the root directory.  The directory is freed with the entry in it, and the file, which has
a link count of 1, is not to be reached any more. -/
theorem create_leaks : ∃ m : Machine (Fin 1) (Fs mkfsVolume), Booted mkfsMachine ∧
    Reach Machine.step Acts mkfsMachine m ∧ (∀ p fd, m.kernel.fd.ofile p fd = none) ∧
    (∀ p, m.live p = true → (m.kernel.fs.inode (m.kernel.cwd p)).inum = rootino) ∧
    ∃ i < mkfsVolume.ninodes, (m.kernel.fs.nodes i).type ≠ 0 ∧ i ≠ rootino ∧
      ¬ Relation.ReflTransGen (fun d i => ∃ j x, (m.kernel.fs.nodes d).entry j = some (i, x))
        rootino i := by
  obtain ⟨m, hrun, hclosed, hcwd, htype, hlen, hroot⟩ : ∃ m : Machine (Fin 1) (Fs mkfsVolume),
      Reach Machine.step Acts mkfsMachine m ∧ (∀ p fd, m.kernel.fd.ofile p fd = none) ∧
      (∀ p, m.live p = true → (m.kernel.fs.inode (m.kernel.cwd p)).inum = rootino) ∧
      (m.kernel.fs.nodes 3).type ≠ 0 ∧ (m.kernel.fs.nodes rootino).content.length = bsize ∧
      ∀ j < 32, ((m.kernel.fs.nodes rootino).entry j).all (fun e => e.1 = rootino) = true :=
    Reach.of_test [.call 0 (.mkdir [slash, 97]), .call 0 (.chdir [slash, 97]),
      .call 0 (.unlink [slash, 97]), .call 0 (.open [102] oCreate), .call 0 (.close 0),
      .call 0 (.chdir [slash])] (by decide +kernel)
  refine ⟨m, mkfsMachine_booted, hrun, hclosed, hcwd, 3, by decide, htype, by decide, fun hreach => ?_⟩
  -- the entries of the root directory lead to itself
  have hstay : ∀ i, Relation.ReflTransGen (fun d i => ∃ j x,
      (m.kernel.fs.nodes d).entry j = some (i, x)) rootino i → i = rootino := by
    intro i hi
    induction hi with
    | refl => rfl
    | tail _ hs ih =>
      obtain ⟨j, x, hx⟩ := hs
      rw [ih] at hx
      have hj := (Node.lt_of_entry hx).2
      rw [hlen] at hj
      simp only [direntSize, dirsiz, bsize] at hj
      have hall := hroot j (by omega)
      rw [hx] at hall
      simpa using hall
  exact nomatch hstay 3 hreach

/-- A file is created by a relative path, and closed; it is reached from the root directory. -/
theorem no_leak_of_reach_close : ∃ m : Machine (Fin 1) (Fs mkfsVolume), Booted mkfsMachine ∧
    Reach Machine.step FollowsLinks mkfsMachine m ∧ (m.kernel.fs.nodes 2).type ≠ 0 ∧
    Relation.ReflTransGen (fun d i => ∃ j x, (m.kernel.fs.nodes d).entry j = some (i, x))
      rootino 2 := by
  have hrun : (match mkfsMachine.step (.call 0 (.open [102] oCreate)) with
    | .ok m₁ => m₁.live 0 && match m₁.step (.call 0 (.close 0)) with
      | .ok m => decide (∀ p fd, m.kernel.fd.ofile p fd = none) &&
          (decide (∀ p, m.live p = true → (m.kernel.fs.inode (m.kernel.cwd p)).inum = rootino) &&
          decide ((m.kernel.fs.nodes 2).type ≠ 0))
      | .error _ => false
    | .error _ => false) = true := by decide +kernel
  rcases h₁ : mkfsMachine.step (.call 0 (.open [102] oCreate)) with e | m₁
  · rw [h₁] at hrun
    exact nomatch hrun
  rcases h₂ : m₁.step (.call 0 (.close 0)) with e | m
  · simp [h₁, h₂] at hrun
  · simp only [h₁, h₂, Bool.and_eq_true, decide_eq_true_eq] at hrun
    obtain ⟨hlive, hclosed, hcwd, htype⟩ := hrun
    have hfollow : FollowsLinks m₁ (.call 0 (.close 0)) :=
      ⟨hlive, fun _ hpath => absurd hpath (by simp [Act.paths, Call.paths])⟩
    have hreach : Reach Machine.step FollowsLinks mkfsMachine m :=
      .next _ (.next _ .init ⟨rfl, fun _ _ _ => .inl rfl⟩ h₁) hfollow h₂
    exact ⟨m, mkfsMachine_booted, hreach, htype,
      no_leak_of_reach mkfsMachine_booted hreach hclosed hcwd (by decide) htype⟩

end Col331
