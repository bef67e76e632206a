import Col331.Mkfs.Bounds

/-!
Holes in the images of `mkfs`.

The blocks of the root directory are handed out as entries are appended, and its size is rounded up to
the next block afterwards.

* `NoHoles s`: every block below the size of an inode that `mkfs` wrote has an address.
* `bmap_still`, `readi_still`, `dirlookup_still`: on such an inode the kernel reads without `balloc`.
* `noHoles_iff`: up to 206 files, there is no hole exactly if the last block of the directory is
  partly filled.
* `hole_of_long`: from 207 files on, inode 208 lies in the block of the free map, which is written last.
* `mkfs_noHoles`: the two together.
-/

namespace Col331

open Prog

/-! ### Reading without `balloc` -/

namespace Fs

variable {V : Volume} {s : Fs V} {k : Fin ninode}

/-- The inode in entry `k` has a block for every index below its size. -/
def Solid (s : Fs V) (k : Fin ninode) : Prop :=
  ∀ bn < nblk (s.inode k).d.size.toNat, (s.inode k).d.blockAt s.blocks (.data bn) ≠ 0

/-- A block that is there is found. -/
lemma bmap_still {bn : ℕ} (h : (s.inode k).d.blockAt s.blocks (.data bn) ≠ 0) :
    bmap k bn s = .ok ((s.inode k).d.blockAt s.blocks (.data bn), s) := by
  have hslot : ∀ i, (s.inode k).d.addrs i ≠ 0 → slotBlock k i s = .ok (((s.inode k).d.addrs i).toNat, s) := by
    intro i hi
    rw [slotBlock, bind_ok (get_run s), if_neg hi, pure_run]
  rw [bmap]
  by_cases hdir : bn < ndirect
  · rw [blockAt_direct hdir] at h ⊢
    rw [dif_pos hdir]
    exact hslot _ fun h0 => h (by rw [h0]; rfl)
  · have hmax : bn < maxfile := by
      by_contra hmax
      exact h (blockAt_of_maxfile_le (not_lt.mp hmax))
    have hind : (s.inode k).d.ind ≠ 0 := fun h0 => h (blockAt_of_ind_eq_zero hdir h0)
    rw [blockAt_entry hdir hmax hind] at h ⊢
    have hentry : entry (s.blocks (s.inode k).d.ind.toNat) (bn - ndirect) ≠ 0 :=
      fun h0 => h (by rw [h0]; rfl)
    rw [dif_neg hdir, if_pos (by simp only [maxfile] at hmax; omega),
      bind_ok (hslot _ hind), entryBlock]
    change (if entry (s.blocks (s.inode k).d.ind.toNat) (bn - ndirect) = 0 then _ else _ :
      Kern (Fs V) ℕ) s = _
    rw [if_neg hentry, pure_run]
    rfl

lemma readLoop_still (h : Solid s k) : ∀ (fuel off n : ℕ), off + n ≤ (s.inode k).d.size.toNat →
    wp (readLoop k fuel off n) (fun _ s' => s' = s) (fun _ => False) s := by
  intro fuel
  induction fuel with
  | zero => exact fun _ _ _ => rfl
  | succ fuel ih =>
    intro off n hle
    rw [readLoop]
    by_cases hn : n = 0
    · rw [if_pos hn]
      exact rfl
    · have hbn : off / bsize < nblk (s.inode k).d.size.toNat := by
        rw [lt_nblk_iff]
        simp only [bsize]
        omega
      rw [if_neg hn, wp_bind, wp_of_ok (bmap_still (h _ hbn))]
      simp only [bread, wp_bind, wp_get, wp_pure]
      refine wp_post (ih _ _ ?_) fun _ _ h' => h'
      omega

/-- **`readi` does not write** to a disk without holes. -/
lemma readi_still (h : Solid s k) (hdev : (s.inode k).d.type ≠ tDev) (off n : ℕ) :
    wp (Fs.readi k off n) (fun _ s' => s' = s) (fun _ => False) s := by
  simp only [Fs.readi, wp_bind, wp_get]
  rw [if_neg hdev]
  by_cases hout : off > (s.inode k).d.size.toNat ∨ 2 ^ 32 ≤ off + n
  · rw [if_pos hout]
    exact rfl
  · rw [if_neg hout, wp_map]
    refine readLoop_still h _ _ _ ?_
    split_ifs <;> omega

lemma iget_blocks (i : ℕ) (s : Fs V) :
    wp (iget i) (fun _ s' => s'.blocks = s.blocks) (fun e => e = .panic .igetNone) s := by
  rw [iget, wp_bind, wp_get]
  split
  · exact rfl
  · split
    · exact rfl
    · exact rfl

/-- **`dirlookup` does not write** to a disk without holes. -/
lemma dirlookup_still (h : Solid s k) (hdev : (s.inode k).d.type ≠ tDev) (name : List UInt8) :
    wp (dirlookup (σ := Fs V) k name) (fun _ s' => s'.blocks = s.blocks)
      (fun e => e ≠ .panic .ballocOut) s := by
  have hread : ∀ off, wp (readDirent (σ := Fs V) .dirlinkRead k off) (fun _ s' => s' = s)
      (fun e => e ≠ .panic .ballocOut) s := by
    intro off
    rw [readDirent, wp_bind]
    refine wp_mono (readi_still h hdev off direntSize) ?_ fun _ he => he.elim
    rintro r _ rfl
    rcases r with _ | bs
    · exact (by decide : (Stop.panic .dirlinkRead : Stop) ≠ .panic .ballocOut)
    · dsimp only
      split_ifs
      · exact rfl
      · exact (by decide : (Stop.panic .dirlinkRead : Stop) ≠ .panic .ballocOut)
  have hloop : ∀ offs : List ℕ, wp (lookupLoop (σ := Fs V) k name offs)
      (fun _ s' => s'.blocks = s.blocks) (fun e => e ≠ .panic .ballocOut) s := by
    intro offs
    induction offs with
    | nil => exact rfl
    | cons off offs ih =>
      rw [lookupLoop]
      refine wp_seq (hread off) ?_
      rintro de _ rfl
      split_ifs
      · exact ih
      · rw [wp_bind]
        refine wp_mono (iget_blocks _ _) (fun _ _ h' => h') ?_
        rintro _ rfl
        exact (by decide : (Stop.panic .igetNone : Stop) ≠ .panic .ballocOut)
      · exact ih
  rw [dirlookup, wp_bind]
  change wp (if (s.inode k).d.type ≠ tDir then _ else _) _ _ s
  split_ifs
  · exact (by decide : (Stop.panic .dirlookupNotDir : Stop) ≠ .panic .ballocOut)
  · rw [wp_bind]
    exact hloop _

end Fs

namespace Mkfs

variable {args : List Arg} {s : State} {β : Disk}

/-- **Every block below the size of an inode has an address.** -/
def NoHoles (s : State) : Prop :=
  ∀ i ∈ s.inodes, ∀ bn < nblk (dino mkfsVolume s.blocks i).size.toNat,
    (dino mkfsVolume s.blocks i).blockAt s.blocks (.data bn) ≠ 0

/-! ### Up to 206 files -/

lemma nblk_roundUp (n : ℕ) : nblk (roundUp n) = n / bsize + 1 := by
  simp only [nblk, roundUp, bsize]
  omega

/-- Only the root directory can have a hole, behind its last entry. -/
lemma noHoles_iff (h : Image args s β) (hn : args.length ≤ 206)
    (hmem : ∀ i, i ∈ s.inodes ↔ 1 ≤ i ∧ i < args.length + 2) :
    NoHoles s ↔ (args.length + 2) % 32 ≠ 0 := by
  have hroot : rootino ∈ s.inodes := (hmem _).mpr (by simp only [rootino]; omega)
  have hblk : nblk (direntSize * (args.length + 2)) =
      (args.length + 2) / 32 + if (args.length + 2) % 32 = 0 then 0 else 1 := by
    simp only [nblk, direntSize, dirsiz, bsize]
    split_ifs <;> omega
  have hdiv : direntSize * (args.length + 2) / bsize = (args.length + 2) / 32 := by
    simp only [direntSize, dirsiz, bsize]
    omega
  constructor
  · intro hno hmod
    have h1 := (hmem _).mp hroot
    have hhole := hno rootino hroot ((args.length + 2) / 32) (by
      rw [h.size hn h1.1 h1.2, if_pos rfl, nblk_roundUp, hdiv]
      omega)
    rw [(h.shape (h.alloc hn h1.1 h1.2)).data, laid_root_length, hblk, if_pos hmod] at hhole
    omega
  · intro hmod i hi bn hbn
    obtain ⟨h1, hlt⟩ := (hmem i).mp hi
    rw [h.size hn h1 hlt] at hbn
    rw [(h.shape (h.alloc hn h1 hlt)).data]
    split_ifs at hbn with hi1
    · rw [hi1, laid_root_length, hblk, if_neg hmod]
      rwa [nblk_roundUp, hdiv] at hbn
    · exact hbn

/-! ### From 207 files on -/

/-- The byte of an array whose bits are known. -/
lemma byte_eq_of_bits {N : ℕ} {b : Bytes N} {j v : ℕ} (hv : v < 256)
    (h : ∀ i < 8, b.bit (8 * j + i) = v.testBit i) : (b.byte j).toNat = v := by
  refine Nat.eq_of_testBit_eq fun i => ?_
  by_cases hi : i < 8
  · have hbit := h i hi
    rw [Bytes.bit] at hbit
    have hdiv : (8 * j + i) / 8 = j := by omega
    have hmod : (8 * j + i) % 8 = i := by omega
    rwa [hdiv, hmod] at hbit
  · have hpow : 2 ^ 8 ≤ 2 ^ i := Nat.pow_le_pow_right (by decide) (by omega)
    have hlt : (b.byte j).toNat < 256 := (b.byte j).toNat_lt
    rw [Nat.testBit_lt_two_pow (by omega), Nat.testBit_lt_two_pow (by omega)]

/-- The free map, byte by byte. -/
lemma byte_map {b : Block} {f : ℕ} (h : ∀ c, b.bit c = decide (c < f)) (j : ℕ) :
    (b.byte j).toNat = 2 ^ min 8 (f - 8 * j) - 1 := by
  have hpow : 2 ^ min 8 (f - 8 * j) ≤ 2 ^ 8 :=
    Nat.pow_le_pow_right (by decide) (Nat.min_le_left _ _)
  refine byte_eq_of_bits (by omega) fun i hi => ?_
  rw [h, Nat.testBit_two_pow_sub_one]
  exact decide_eq_decide.mpr (by omega)

/-- A free map is not an inode without holes: its first bits are all set, or its addresses are
zero. -/
lemma hole_of_map {b : Block} {blocks : Disk} {f : ℕ} (h : ∀ c, b.bit c = decide (c < f))
    (hf : 64 < f) : ∃ bn < nblk (dinodeAt b 0).size.toNat, (dinodeAt b 0).blockAt blocks (.data bn) = 0 := by
  have hbyte := byte_map h
  have hsize : (dinodeAt b 0).size.toNat = ((b.byte 8).toNat + 256 * (b.byte 9).toNat +
      65536 * (b.byte 10).toNat + 16777216 * (b.byte 11).toNat) % 2 ^ 32 := UInt32.toNat_ofNat'
  have haddr : (dinodeAt b 0).addrs 0 = UInt32.ofNat ((b.byte 12).toNat + 256 * (b.byte 13).toNat +
      65536 * (b.byte 14).toNat + 16777216 * (b.byte 15).toNat) := rfl
  rw [hbyte, hbyte, hbyte, hbyte] at hsize haddr
  by_cases hlong : 96 ≤ f
  · -- the size is the largest number, far behind the largest file
    have h8 : ∀ j < 12, min 8 (f - 8 * j) = 8 := fun j hj => by omega
    rw [h8 8 (by decide), h8 9 (by decide), h8 10 (by decide), h8 11 (by decide)] at hsize
    refine ⟨maxfile, ?_, blockAt_of_maxfile_le le_rfl⟩
    rw [hsize]
    decide
  · -- the size is not zero, and the first address is
    have h0 : ∀ j, 12 ≤ j → min 8 (f - 8 * j) = 0 := fun j hj => by omega
    rw [h0 12 (by decide), h0 13 (by decide), h0 14 (by decide), h0 15 (by decide)] at haddr
    refine ⟨0, ?_, ?_⟩
    · rw [lt_nblk_iff, Nat.zero_mul, hsize]
      have hpos : 2 ≤ 2 ^ min 8 (f - 8 * 8) :=
        Nat.pow_le_pow_right (by decide : 0 < 2) (by omega : 1 ≤ min 8 (f - 8 * 8))
      have hle : ∀ j, 2 ^ min 8 (f - 8 * j) ≤ 2 ^ 8 := fun j =>
        Nat.pow_le_pow_right (by decide) (Nat.min_le_left _ _)
      have h8 := hle 8
      have h9 := hle 9
      have h10 := hle 10
      have h11 := hle 11
      rw [Nat.mod_eq_of_lt (by omega)]
      omega
    · rw [blockAt_direct (by decide)]
      have hzero : (dinodeAt b 0).addrs ⟨0, Nat.lt_succ_of_lt (by decide)⟩ = 0 := haddr
      rw [hzero]
      rfl

lemma rsect_keeps (b : ℕ) : Keeps State.freeblock (rsect b) :=
  Keeps.get_bind fun _ => (Keeps.pure _).ite (Keeps.throw _)

lemma wsect_keeps (b : ℕ) (v : Block) : Keeps State.freeblock (wsect b v) :=
  Keeps.modify fun _ => rfl

/-- The last write of `mkfs` is that of the free map. -/
lemma finish_map {s₁ : State} {u : Unit} (h : finish s₁ = .ok (u, s)) (c : ℕ) :
    (s.blocks mkfsVolume.bmapstart).bit c = decide (c < s₁.freeblock) := by
  have hread : ∀ i, Keeps State.freeblock (rinode i) := fun i =>
    (rsect_keeps _).bind fun _ => Keeps.pure _
  have hwrite : ∀ i d, Keeps State.freeblock (winode i d) := fun i d =>
    (rsect_keeps _).bind fun _ => (wsect_keeps _ _).bind fun _ => Keeps.modify fun _ => rfl
  rw [finish] at h
  obtain ⟨d, s₂, h₂, h⟩ := bind_eq_ok h
  obtain ⟨_, s₃, h₃, h⟩ := bind_eq_ok h
  have hfb : s₃.freeblock = s₁.freeblock :=
    ((wp_of_ok h₃).mp (hwrite _ _ s₂)).trans ((wp_of_ok h₂).mp (hread _ s₁))
  rw [bind_ok (get_run s₃), balloc] at h
  obtain ⟨_, s₄, hassert, h⟩ := bind_eq_ok h
  obtain ⟨hlt, rfl⟩ := (wp_of_ok hassert).mp (assert_spec _ s₃)
  rw [wsect, modify_run] at h
  simp only [Except.ok.injEq, Prod.mk.injEq] at h
  obtain ⟨-, rfl⟩ := h
  have hsector : sector mkfsVolume.bmapstart = mkfsVolume.bmapstart := sector_of_lt (by decide)
  dsimp only
  rw [hsector, Function.update_self, bit_balloc _ hlt.le, hfb]

/-- The blocks handed out for the first 206 files. -/
lemma freeblock_of_long {s₀ s₁ : State} (h₀ : Built s₀ (laid [])) (hc₀ : Counted s₀)
    (hfi₀ : s₀.freeinode = 2) (hn : 206 ≤ args.length) {u : Unit}
    (hloop : args.forM addFile s₀ = .ok (u, s₁)) : 64 < s₁.freeblock := by
  have hlen : (args.take 206).length = 206 := by rw [List.length_take]; omega
  rw [← List.take_append_drop 206 args, List.forM_eq_forM, List.forM_append,
    ← List.forM_eq_forM] at hloop
  obtain ⟨_, s', hfirst, hrest⟩ := bind_eq_ok hloop
  obtain ⟨hfb, -⟩ := (wp_of_ok hfirst).mp (files_spec h₀ hc₀ hfi₀ hlen.le)
  obtain ⟨hc, -, -⟩ := (wp_of_ok hfirst).mp (files_counted hc₀ _)
  obtain ⟨-, -, hmono⟩ := (wp_of_ok hrest).mp (files_counted hc _)
  have hroot : Fs.blocksFor (nblk (laid (args.take 206) rootino).content.length) ≤
      total (laid (args.take 206)) :=
    Finset.single_le_sum (f := fun i => Fs.blocksFor (nblk (laid (args.take 206) i).content.length))
      (fun _ _ => Nat.zero_le _) (Finset.mem_range.mpr (by decide : rootino < view.ninodes))
  rw [laid_root_length, hlen] at hroot
  have hseven : Fs.blocksFor (nblk (direntSize * (206 + 2))) = 7 := by decide
  have hnm : view.nmeta = 59 := rfl
  omega

/-- **With 207 files or more there is a hole**, in inode 208. -/
lemma hole_of_long {u : Unit} (hn : 207 ≤ args.length) (h : mkfs args start = .ok (u, s)) :
    ¬ NoHoles s := by
  obtain ⟨s₀, s₁, ⟨h₀, hc₀, hfi₀⟩, hloop, hfinish⟩ := mkfs_parts h
  have hf := freeblock_of_long h₀ hc₀ hfi₀ (by omega) hloop
  obtain ⟨bn, hbn, hzero⟩ := @hole_of_map _ s.blocks _ (finish_map hfinish) hf
  intro hno
  exact hno 208 ((mkfs_inodes h 208).mpr (by omega)) bn hbn hzero

/-! ### The images of `mkfs` -/

/-- Entry `k` of the inode cache holds an inode that `mkfs` wrote. -/
structure Holds (s : State) (σ : Fs mkfsVolume) (k : Fin ninode) : Prop where
  blocks : σ.blocks = s.blocks
  mem : (σ.inode k).inum ∈ s.inodes
  copy : (σ.inode k).d = dino mkfsVolume s.blocks (σ.inode k).inum
  type : (σ.inode k).d.type ≠ tDev

/-- **An image of `mkfs` has no holes exactly if** there are at most 206 files and the last block of
the root directory is partly filled.  On an image without holes `readi` and `dirlookup` do not call
`balloc`. -/
theorem mkfs_noHoles {u : Unit} (h : mkfs args start = .ok (u, s)) :
    (NoHoles s ↔ args.length ≤ 206 ∧ (args.length + 2) % 32 ≠ 0) ∧
    (NoHoles s → ∀ σ k, Holds s σ k →
      (∀ off n, wp (Fs.readi k off n) (fun _ σ' => σ' = σ) (fun _ => False) σ) ∧
      ∀ name, wp (dirlookup k name) (fun _ σ' => σ'.blocks = σ.blocks)
        (fun e => e ≠ .panic .ballocOut) σ) := by
  refine ⟨⟨fun hno => ?_, fun hn => ?_⟩, fun hno σ k hk => ?_⟩
  · have hn : args.length ≤ 206 := by
      by_contra hlong
      exact hole_of_long (by omega) h hno
    obtain ⟨β, himage⟩ := mkfs_image hn h
    exact ⟨hn, (noHoles_iff himage hn (mkfs_inodes h)).mp hno⟩
  · obtain ⟨β, himage⟩ := mkfs_image hn.1 h
    exact (noHoles_iff himage hn.1 (mkfs_inodes h)).mpr hn.2
  · have hsolid : Fs.Solid σ k := by
      intro bn hbn
      rw [hk.copy] at hbn ⊢
      rw [hk.blocks]
      exact hno _ hk.mem bn hbn
    exact ⟨Fs.readi_still hsolid hk.type, Fs.dirlookup_still hsolid hk.type⟩

/-- The image with one empty file. -/
theorem mkfs_noHoles_one : ∃ s, mkfs [emptyFile] start = .ok ((), s) ∧ NoHoles s := by
  obtain ⟨s, hrun⟩ := @mkfs_empty 1 (by decide)
  exact ⟨s, hrun, (mkfs_noHoles hrun).1.mpr (by decide)⟩

/-- **With 30 files the root directory has a hole**: its 32 entries fill one block, and its size says
two. -/
theorem mkfs_hole : ∃ s, mkfs (List.replicate 30 emptyFile) start = .ok ((), s) ∧
    (dino mkfsVolume s.blocks rootino).size.toNat = 1024 ∧
    (dino mkfsVolume s.blocks rootino).blockAt s.blocks (.data 1) = 0 ∧ ¬ NoHoles s := by
  obtain ⟨s, hrun⟩ := @mkfs_empty 30 (by decide)
  obtain ⟨β, himage⟩ := mkfs_image (by decide) hrun
  have hsize := himage.size (by decide) (i := rootino) (by decide) (by decide)
  have hal := himage.alloc (by decide) (i := rootino) (by decide) (by decide)
  have hshape := himage.shape hal
  rw [laid_root_length, List.length_replicate] at hshape
  refine ⟨s, hrun, hsize.trans (by decide), ?_, fun hno => ?_⟩
  · by_contra hne
    exact absurd ((hshape.data 1).mp hne) (by decide)
  · exact (noHoles_iff himage (by decide) (mkfs_inodes hrun)).mp hno (by decide)

end Mkfs

end Col331
