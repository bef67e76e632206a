import Col331.Fs.Image
import Col331.Fs.Layer
import Col331.Fs.Safe
import Col331.Logic.Reach

/-!
Block ownership over whole runs.

* `Op`, `Op.run`: the operations on inodes and directories; `Op.Proper` is what their callers
  promise: they work on inodes that they hold, and have locked where that is asked for, and change
  directories by `create`, `link` and `unlink` only.
* `op_refines`: each operation does what the abstract file system does.
* `owns_of_reach`: from a disk in good order, all of whose directory entries name inodes of the
  inode table, such operations lead to disks in good order only.
* `unlink_breaks_map`: an entry that names no inode of the table breaks the free map.
-/

namespace Col331

open Prog

variable {V : Volume}

/-- An operation with its arguments. -/
inductive Op where
  | ialloc (type : Int16)
  | ilock (k : Fin ninode)
  | iunlock (k : Fin ninode)
  | writei (k : Fin ninode) (src : List UInt8) (off : ℕ)
  | itrunc (k : Fin ninode)
  | iput (k : Fin ninode)
  | create (cwd : Fin ninode) (path : List UInt8) (type major minor : Int16)
  | link (cwd : Fin ninode) (old new : List UInt8)
  | unlink (cwd : Fin ninode) (path : List UInt8)

/-- What an operation does to the file system. -/
def Op.run : Op → Kern (Fs V) Unit
  | .ialloc type => (fun _ => ()) <$> Fs.ialloc type
  | .ilock k => Fs.ilock k
  | .iunlock k => Fs.iunlock k
  | .writei k src off => (fun _ => ()) <$> Fs.writei k src off
  | .itrunc k => Fs.itrunc k
  | .iput k => Fs.iput k
  | .create cwd path type major minor => (fun _ => ()) <$> Col331.create cwd path type major minor
  | .link cwd old new => (fun _ => ()) <$> sysLink cwd old new
  | .unlink cwd path => (fun _ => ()) <$> sysUnlink cwd path

/-- What its caller promises. -/
def Op.Proper (s : Fs V) : Op → Prop
  | .ialloc _ => True
  | .ilock k => 0 < (s.inode k).ref
  | .iunlock k => 0 < (s.inode k).ref
  | .writei k _ _ => 0 < (s.inode k).ref ∧ (s.inode k).valid = true ∧ (s.inode k).d.type ≠ tDir
  | .itrunc k => 0 < (s.inode k).ref ∧ (s.inode k).valid = true
  | .iput k => 0 < (s.inode k).ref
  | .create cwd path _ _ _ => path.headD 0 ≠ slash → 0 < (s.inode cwd).ref
  | .link cwd old new => (old.headD 0 ≠ slash → 0 < (s.inode cwd).ref) ∧
      (new.headD 0 ≠ slash → 0 < (s.inode cwd).ref)
  | .unlink cwd path => path.headD 0 ≠ slash → 0 < (s.inode cwd).ref

/-- The state after an operation. -/
def opStep (s : Fs V) (op : Op) : Except Stop (Fs V) := (op.run s).map Prod.snd

/-- The same on the abstract file system. -/
def Op.spec : Op → Kern (Afs V) Unit
  | .ialloc type => (fun _ => ()) <$> Afs.ialloc type
  | .ilock k => Afs.ilock k
  | .iunlock k => Afs.iunlock k
  | .writei k src off => (fun _ => ()) <$> Afs.writei k src off
  | .itrunc k => Afs.itrunc k
  | .iput k => Afs.iput k
  | .create cwd path type major minor => (fun _ => ()) <$> Col331.create cwd path type major minor
  | .link cwd old new => (fun _ => ()) <$> sysLink cwd old new
  | .unlink cwd path => (fun _ => ()) <$> sysUnlink cwd path

lemma op_refines (op : Op) : Sim (op.run : Kern (Fs V) Unit) op.spec := by
  cases op with
  | ialloc type => exact (sim_ialloc type).map _
  | ilock k => exact sim_ilock k
  | iunlock k => exact sim_iunlock k
  | writei k src off => exact (sim_writei k src off).map _
  | itrunc k => exact sim_itrunc k
  | iput k => exact sim_iput k
  | create cwd path type major minor => exact (fsRefines.create cwd path type major minor).map _
  | link cwd old new => exact (fsRefines.sysLink cwd old new).map _
  | unlink cwd path => exact (fsRefines.sysUnlink cwd path).map _

/-! ### One operation -/

lemma Safe.rebase {base : Fin ninode → Slot} {τ : List Ref} {a : Afs V} (h : Safe base τ a) :
    Safe a.slot [] a := ⟨h.holds.rebase, h.range⟩

/-- The references are all in the base again. -/
lemma Uses.rebase {α : Type} {base : Fin ninode → Slot} {τ : List Ref} {x : Kern (Afs V) α}
    {Q : α → List Ref → Prop} (h : Uses base τ x Q) {a : Afs V} (ha : Safe base τ a) :
    wp x (fun _ a' => Safe a'.slot [] a') Stop.Sound a := by
  refine wp_post (h a ha) ?_
  rintro _ a' ⟨τ', -, ha'⟩
  exact ha'.rebase

section Held

variable {base : Fin ninode → Slot} {τ : List Ref} {a : Afs V} {k : Fin ninode} {i : ℕ}

/-- Files and devices have no entries. -/
lemma Safe.writei (ha : Safe base τ a) (ht : ⟨k, i, true⟩ ∈ τ) (htype : (a.node i).type ≠ tDir)
    (src : List UInt8) (off : ℕ) :
    wp (Afs.writei k src off) (fun _ a' => Safe base τ a') Stop.Sound a := by
  by_cases hdev : (a.node i).type = tDev
  · rw [Afs.writei, wp_bind, wp_of_ok (ha.holds.held ht), if_pos hdev]
    exact ha
  · refine wp_mono (ha.holds.writei ht hdev src off) ?_ fun _ => Stop.Tame.sound
    rintro _ a' (⟨-, rfl⟩ | ⟨-, -, rfl⟩)
    · exact ha
    · exact ha.setNode fun j i' x hx => absurd (Node.lt_of_entry hx).1 htype

/-- Nor does an empty directory. -/
lemma Safe.itrunc (ha : Safe base τ a) (ht : ⟨k, i, true⟩ ∈ τ) :
    wp (Afs.itrunc k) (fun _ a' => Safe base τ a') Stop.Sound a := by
  rw [Afs.itrunc, wp_bind, wp_of_ok (ha.holds.held ht), wp_modify]
  refine ha.setNode fun j i' x hx => ?_
  rw [Node.entry_of_length_le (Nat.zero_le _)] at hx
  nomatch hx

end Held

/-- **One operation**, on the abstract file system. -/
lemma spec_safe {s : Fs V} {a : Afs V} (h : Rel s a) (ha : Safe a.slot [] a) (op : Op)
    (hp : op.Proper s) : wp op.spec (fun _ a' => Safe a'.slot [] a') Stop.Sound a := by
  have href : ∀ k, 0 < (s.inode k).ref → 0 < (a.slot k).ref := fun k hk => by rwa [h.ref]
  -- an operation on an inode that is held works on a reference taken from the base
  have htake : ∀ k, 0 < (s.inode k).ref →
      Safe (Function.update a.slot k { a.slot k with ref := (a.slot k).ref - 1 })
        [⟨k, (a.slot k).inum, (a.slot k).valid⟩] a := fun k hk =>
    ⟨ha.holds.take (href k hk), ha.range⟩
  cases op with
  | ialloc type =>
    rw [Op.spec, wp_map]
    exact (Uses.ialloc type).rebase ha
  | ilock k => exact Uses.ilock.rebase (htake k hp)
  | iunlock k => exact (Uses.iunlock (List.mem_singleton.mpr rfl)).rebase (htake k hp)
  | iput k => exact Uses.iput.rebase (htake k hp)
  | writei k src off =>
    obtain ⟨hk, hv, htype⟩ := hp
    have ha' := htake k hk
    rw [(h.fields hk).2.2, hv] at ha'
    have hnode : (a.node (a.slot k).inum).type ≠ tDir := by
      rw [← Afs.nodeOf, (h.nodeOf hk hv).1.type]
      exact htype
    rw [Op.spec, wp_map]
    exact wp_post (ha'.writei (List.mem_singleton.mpr rfl) hnode src off)
      fun _ _ hs => hs.rebase
  | itrunc k =>
    obtain ⟨hk, hv⟩ := hp
    have ha' := htake k hk
    rw [(h.fields hk).2.2, hv] at ha'
    exact wp_post (ha'.itrunc (List.mem_singleton.mpr rfl)) fun _ _ hs => hs.rebase
  | create cwd path type major minor =>
    rw [Op.spec, wp_map]
    exact (Uses.create (fun hr => href cwd (hp hr)) type major minor).rebase ha
  | link cwd old new =>
    rw [Op.spec, wp_map]
    exact (Uses.sysLink (fun hr => href cwd (hp.1 hr)) fun hr => href cwd (hp.2 hr)).rebase ha
  | unlink cwd path =>
    rw [Op.spec, wp_map]
    exact (Uses.sysUnlink fun hr => href cwd (hp hr)).rebase ha

/-! ### Runs -/

/-- The file system is in good order, and its directory entries name inodes of the table. -/
def Sound (s : Fs V) : Prop := ∃ a, Rel s a ∧ Safe a.slot [] a

lemma sound_of_ok {s : Fs V} (h : s.Ok) (hrange : ∀ i < V.ninodes, (s.nodes i).InRange V) :
    Sound s := by
  have hc := h.rel.cache
  refine ⟨s.abs, h.rel, ⟨fun _ => by simp, fun k => ?_, fun _ _ => ⟨rfl, id⟩,
    nofun, fun k hk => ?_, fun k l hk hl heq => ?_⟩, hrange⟩
  · rw [h.rel.ref]
    exact hc.nonneg k
  · rw [h.rel.ref] at hk
    rw [(h.rel.fields hk).1]
    exact hc.inum k hk
  · rw [h.rel.ref] at hk hl
    rw [(h.rel.fields hk).1, (h.rel.fields hl).1] at heq
    exact hc.uniq k l hk hl heq

/-- **One operation** keeps the file system in good order, and stops neither in `bfree` nor in
`bmap`. -/
lemma op_sound {s : Fs V} (h : Sound s) (op : Op) (hp : op.Proper s) :
    wp op.run (fun _ s' => Sound s') (fun e => e ≠ .panic .freeingFree ∧ e ≠ .panic .bmapRange)
      s := by
  obtain ⟨a, hrel, ha⟩ := h
  refine wp_mono ((op_refines op).wp hrel (spec_safe hrel ha op hp) (by decide)) ?_ ?_
  · rintro _ s' ⟨a', hrel', ha'⟩
    exact ⟨a', hrel', ha'⟩
  · rintro e (he | rfl)
    · simp only [Stop.Sound, List.mem_cons, List.not_mem_nil, not_or] at he
      exact ⟨he.2.1, he.2.2.1⟩
    · exact ⟨by decide, by decide⟩

/-- **Block ownership is kept by every run**: the block numbers in allocated inodes are data blocks,
none is stored twice, the free map marks exactly the metadata and these, and every file has exactly
the blocks its size asks for.  So `bfree` finds no free block and `bmap` no block out of range. -/
theorem owns_of_reach {s₀ s : Fs V} (h₀ : s₀.Ok)
    (hrange : ∀ i < V.ninodes, (s₀.nodes i).InRange V) (h : Reach opStep Op.Proper s₀ s) :
    DiskOk V s.blocks ∧ ∀ op : Op, op.Proper s → ∀ e, op.run s = .error e →
      e ≠ .panic .freeingFree ∧ e ≠ .panic .bmapRange := by
  have hs : Sound s := by
    refine h.invariant (sound_of_ok h₀ hrange) fun s op s' hs hp hrun => ?_
    have hop := op_sound hs op hp
    rcases hr : op.run s with e | ⟨u, s₁⟩
    · rw [opStep, hr] at hrun
      exact absurd hrun (by simp [Except.map])
    · rw [opStep, hr] at hrun
      rw [wp_of_ok hr] at hop
      exact Except.ok.inj hrun ▸ hop
  obtain ⟨a, hrel, -⟩ := id hs
  exact ⟨hrel.ok.disk, fun op hp e he => (wp_of_error he).mp (op_sound hs op hp)⟩

/-! ### Disks -/

/-- The entries of the root directory of a new disk name the root directory. -/
lemma mkfsRoot_inRange : (mkfsRoot []).InRange mkfsVolume := by
  intro j i x hx
  have hlen := (Node.lt_of_entry hx).2
  have hj : j < 32 := by
    simp only [mkfsRoot, List.length_map, List.length_range, direntSize, dirsiz, bsize] at hlen
    omega
  have hall : ∀ j < 32, ((mkfsRoot []).entry j).all (fun e => e.1 < mkfsVolume.ninodes) = true := by
    decide +kernel
  have := hall j hj
  rw [hx] at this
  simpa using this

/-- A file is created on a new disk. -/
theorem owns_of_reach_create : ∃ s, Reach opStep Op.Proper (boot mkfsVolume (mkfsDisk []) []) s ∧
    DiskOk mkfsVolume s.blocks ∧ ∀ op : Op, op.Proper s → ∀ e, op.run s = .error e →
      e ≠ .panic .freeingFree ∧ e ≠ .panic .bmapRange := by
  have hrun : (match opStep (boot mkfsVolume (mkfsDisk []) []) (.create 0 [slash, 102] tFile 0 0) with
    | .ok _ => true
    | .error _ => false) = true := by decide +kernel
  rcases hs : opStep (boot mkfsVolume (mkfsDisk []) []) (.create 0 [slash, 102] tFile 0 0) with e | s
  · rw [hs] at hrun
    exact nomatch hrun
  · have hreach : Reach opStep Op.Proper (boot mkfsVolume (mkfsDisk []) []) s :=
      .next (.create 0 [slash, 102] tFile 0 0) .init (fun h => absurd rfl h) hs
    refine ⟨s, hreach, owns_of_reach (boot_ok (mkfsDisk_ok []) (by decide) (by decide)) (fun i hi => ?_)
      hreach⟩
    have hnode : (boot mkfsVolume (mkfsDisk []) []).nodes i = _ := node_mkfsDisk [] hi
    rw [hnode]
    split_ifs
    · exact mkfsRoot_inRange
    · exact inRange_free

/-- The entry `x` names inode 208, where the inode table has ended and the free map begins: to take
a link from it is to clear the bit of block 48, a block of the inode table. -/
theorem unlink_breaks_map :
    (boot mkfsVolume (mkfsDisk [⟨208, strncpy [120] dirsiz⟩]) []).Ok ∧
    ∃ s, opStep (boot mkfsVolume (mkfsDisk [⟨208, strncpy [120] dirsiz⟩]) [])
        (.unlink 0 [slash, 120]) = .ok s ∧
      48 < mkfsVolume.nmeta ∧ used mkfsVolume s.blocks 48 = false ∧ ¬ DiskOk mkfsVolume s.blocks := by
  have hrun : (match opStep (boot mkfsVolume (mkfsDisk [⟨208, strncpy [120] dirsiz⟩]) [])
      (.unlink 0 [slash, 120]) with
    | .ok s => !used mkfsVolume s.blocks 48
    | .error _ => false) = true := by decide +kernel
  refine ⟨boot_ok (mkfsDisk_ok _) (by decide) (by decide), ?_⟩
  rcases hs : opStep (boot mkfsVolume (mkfsDisk [⟨208, strncpy [120] dirsiz⟩]) [])
      (.unlink 0 [slash, 120]) with e | s
  · rw [hs] at hrun
    exact nomatch hrun
  · rw [hs] at hrun
    have hfree : used mkfsVolume s.blocks 48 = false := by simpa using hrun
    refine ⟨s, rfl, by decide, hfree, fun hok => ?_⟩
    rw [(hok.owns.map 48 (by decide)).mpr (.inl (by decide))] at hfree
    nomatch hfree

end Col331
