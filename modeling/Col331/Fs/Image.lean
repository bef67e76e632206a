import Col331.Fs.Dir
import Col331.Fs.Ok

/-!
Disk images, built as `mkfs` lays them out.

* `mkfsVolume`: the layout `mkfs` computes for `FSSIZE` blocks and 200 inodes.
* `image V T top data`: the disk with inode table `T`, the blocks below `top` marked in the free
  map, and everything else as in `data`.
* `rootImage`: a disk whose only file with content is the root directory, in one block;
  `rootImage_ok` says that it is in good order.
-/

namespace Col331

variable {V : Volume}

/-- What `mkfs` writes into the super block. -/
def mkfsVolume : Volume where
  size := fssize
  nblocks := 941
  ninodes := 200
  nlog := logSize
  logstart := 2
  inodestart := 32
  bmapstart := 58
  devsw _ := none
  logEnd := by decide
  inodeEnd := by decide
  bmapEnd := by decide
  rootIno := by decide
  inums := by decide
  fits := by decide

/-! ### The areas of an image -/

/-- The block of inodes that starts with inode `i`. -/
def inodeBlock (T : ℕ → Dinode) (i : ℕ) : Block := fun j => (T (i + j / 64)).byte (j % 64)

/-- The block of the free map that marks the blocks below `top`. -/
def mapBlock (top : ℕ) : Block := fun j => UInt8.ofNat (2 ^ min 8 (top - 8 * j) - 1)

/-- The disk with inode table `T` on which the blocks below `top` are used. -/
def image (V : Volume) (T : ℕ → Dinode) (top : ℕ) (data : Disk) : Disk := fun b =>
  if V.inodestart ≤ b ∧ b < V.bmapstart then inodeBlock T ((b - V.inodestart) * ipb)
  else if b = V.bmapstart then mapBlock top
  else data b

section Areas

variable {T : ℕ → Dinode} {top : ℕ} {data : Disk}

lemma dino_image {i : ℕ} (hi : i < V.ninodes) : dino V (image V T top data) i = T i := by
  have hlt := V.iblock_lt hi
  have hle : V.inodestart ≤ V.iblock i := Nat.le_add_left _ _
  rw [dino, image, if_pos ⟨hle, hlt⟩]
  refine dinodeAt_of_bytes fun j hj => ?_
  have hin : 64 * (i % ipb) + j < bsize := by simp only [ipb, bsize] at *; omega
  rw [Bytes.byte, dif_pos hin, inodeBlock]
  dsimp only
  congr 1
  · congr 1
    simp only [Volume.iblock, ipb, bsize] at *
    omega
  · omega

lemma used_image {b : ℕ} (hb : b < V.size) : used V (image V T top data) b = decide (b < top) := by
  have hfits := V.fits
  rw [used, V.bblock_eq hb, image, if_neg (by omega), if_pos rfl, Bytes.bit, Bytes.byte]
  simp only [bpb, bsize, fssize] at *
  have hmod : b % (512 * 8) = b := Nat.mod_eq_of_lt (by omega)
  rw [hmod, dif_pos (by omega), mapBlock]
  dsimp only
  have hpow : 2 ^ min 8 (top - 8 * (b / 8)) ≤ 2 ^ 8 :=
    Nat.pow_le_pow_right (by decide) (Nat.min_le_left _ _)
  rw [UInt8.toNat_ofNat_of_lt' (by simp only [UInt8.size]; omega), Nat.testBit_two_pow_sub_one]
  exact decide_eq_decide.mpr (by omega)

lemma image_data {b : ℕ} (hb : V.nmeta ≤ b) : image V T top data b = data b := by
  have hlt := V.bmapstart_lt_nmeta
  rw [image, if_neg (by omega), if_neg (by omega)]

end Areas

/-! ### A disk with a root directory -/

/-- The root directory, in the first data block. -/
def rootDinode (V : Volume) : Dinode where
  type := tDir
  major := 0
  minor := 0
  nlink := 1
  size := 512
  addrs i := if i = 0 then UInt32.ofNat V.nmeta else 0

/-- The inode table with the root directory and, next to it, the inodes `file`. -/
def rootTable (V : Volume) (file : ℕ → Dinode) (i : ℕ) : Dinode :=
  if i = rootino then rootDinode V else file i

/-- The disk with that inode table and `root` as the content of the root directory. -/
def rootImage (V : Volume) (file : ℕ → Dinode) (root : Block) : Disk :=
  image V (rootTable V file) (V.nmeta + 1) fun b =>
    if b = V.nmeta then root else Bytes.zero bsize

/-- A block of a directory. -/
def dirBlock (entries : List Dirent) : Block := fun j => (entries.flatMap Dirent.bytes).getD j 0

section Root

variable {file : ℕ → Dinode} {root : Block}

lemma toNat_nmeta : (UInt32.ofNat V.nmeta).toNat = V.nmeta := by
  have h := V.nmeta_le
  have hfits := V.fits
  refine UInt32.toNat_ofNat_of_lt' ?_
  simp only [UInt32.size, fssize] at *
  omega

/-- The block of the root directory is the only one stored in an inode. -/
lemma blockAt_rootImage (hfile : ∀ i j, (file i).addrs j = 0) {i : ℕ} (hi : i < V.ninodes)
    (p : Place) : (dino V (rootImage V file root) i).blockAt (rootImage V file root) p =
      if i = rootino ∧ p = .data 0 then V.nmeta else 0 := by
  rw [rootImage, dino_image hi, rootTable]
  by_cases hroot : i = rootino
  · rw [if_pos hroot]
    cases p with
    | indirect => simp [Dinode.blockAt, Dinode.ind, rootDinode]
    | data bn =>
      by_cases hbn : bn < ndirect
      · rw [blockAt_direct hbn]
        by_cases h0 : bn = 0
        · subst h0
          simpa [rootDinode, hroot] using toNat_nmeta
        · have hne : (⟨bn, Nat.lt_succ_of_lt hbn⟩ : Fin (ndirect + 1)) ≠ 0 :=
            fun h => h0 (congrArg Fin.val h)
          simp [rootDinode, hne, h0]
      · rw [blockAt_of_ind_eq_zero hbn (by simp [Dinode.ind, rootDinode])]
        simp only [Place.data.injEq]
        rw [if_neg (by rintro ⟨-, rfl⟩; exact hbn (by decide))]
  · rw [if_neg hroot, if_neg (fun h => hroot h.1), blockAt_of_addrs_eq_zero (hfile i)]

/-- **The disk is in good order.** -/
lemma rootImage_ok (hV : V.nmeta < V.size) (hfile : ∀ i j, (file i).addrs j = 0)
    (hsize : ∀ i, (file i).size = 0) : DiskOk V (rootImage V file root) := by
  have hat : ∀ {i}, i < V.ninodes → ∀ p, (dino V (rootImage V file root) i).blockAt
      (rootImage V file root) p = if i = rootino ∧ p = .data 0 then V.nmeta else 0 :=
    fun hi => blockAt_rootImage hfile hi
  have hroot : Alloc V (dino V (rootImage V file root)) rootino := by
    refine ⟨V.rootIno, ?_⟩
    rw [rootImage, dino_image V.rootIno, rootTable, if_pos rfl]
    exact (by decide : tDir ≠ 0)
  refine ⟨⟨fun i p hi => ?_, fun i p j q hi hj => ?_, fun b hb => ?_⟩, fun i hi _ => ?_⟩
  · rw [hat hi.1]
    split_ifs
    · exact fun _ => ⟨le_rfl, hV⟩
    · exact fun h => absurd rfl h
  · rw [hat hi.1, hat hj.1]
    have hpos := V.nmeta_pos
    split_ifs with h1 h2
    · exact fun _ _ => ⟨h1.1.trans h2.1.symm, h1.2.trans h2.2.symm⟩
    · exact fun _ h => absurd h (by omega)
    · exact fun h => absurd rfl h
    · exact fun h => absurd rfl h
  · rw [rootImage, used_image hb, decide_eq_true_eq, ← rootImage, Nat.lt_succ_iff_lt_or_eq]
    constructor
    · rintro (hlt | rfl)
      · exact .inl hlt
      · exact .inr ⟨rootino, .data 0, hroot, by rw [hat V.rootIno, if_pos ⟨rfl, rfl⟩]⟩
    · rintro (hlt | ⟨i, p, hi, hp⟩)
      · exact .inl hlt
      · rw [hat hi.1] at hp
        have hpos := V.nmeta_pos
        split_ifs at hp <;> omega
  · have hdata := hat hi.1
    rw [rootImage, dino_image hi.1, ← rootImage] at hdata ⊢
    by_cases h1 : i = rootino
    · subst h1
      have hnblk : nblk (rootTable V file rootino).size.toNat = 1 := by
        rw [rootTable, if_pos rfl]
        exact (by decide : nblk (512 : UInt32).toNat = 1)
      have hpos := V.nmeta_pos
      rw [hnblk]
      refine ⟨by decide, fun bn => ?_, by simp [hdata]⟩
      rw [hdata]
      by_cases h0 : bn = 0
      · simp [h0]
        omega
      · simp [h0]
    · rw [rootTable, if_neg h1, hsize i]
      exact Shape.of_addrs_eq_zero (hfile i)

/-- The inodes on this disk. -/
lemma node_rootImage (hfile : ∀ i j, (file i).addrs j = 0) (hsize : ∀ i, (file i).size = 0) {i : ℕ}
    (hi : i < V.ninodes) :
    (dino V (rootImage V file root) i).node (rootImage V file root) =
      if i = rootino then ⟨tDir, 0, 0, 1, (List.range bsize).map root.byte⟩
      else (file i).node fun _ => Bytes.zero bsize := by
  have hdata : ∀ p, (dino V (rootImage V file root) i).blockAt (rootImage V file root) p = _ :=
    blockAt_rootImage hfile hi
  have hdino : dino V (rootImage V file root) i = rootTable V file i := dino_image hi
  rw [hdino] at hdata ⊢
  by_cases h1 : i = rootino
  · have hroot : rootTable V file i = rootDinode V := if_pos h1
    rw [hroot] at hdata ⊢
    rw [if_pos h1, Dinode.node, if_neg (by exact (by decide : tDir ≠ 0))]
    refine congrArg _ ?_
    rw [if_neg (by exact (by decide : tDir ≠ tDev))]
    refine List.map_congr_left fun n hn => ?_
    have hn : n < bsize := List.mem_range.mp hn
    have h0 : n / bsize = 0 := Nat.div_eq_of_lt hn
    rw [Dinode.byteAt, h0, hdata, if_pos ⟨h1, rfl⟩, rootImage, image_data le_rfl, if_pos rfl,
      Nat.mod_eq_of_lt hn]
  · have hother : rootTable V file i = file i := if_neg h1
    rw [hother, if_neg h1, Dinode.node, Dinode.node, hsize i]
    rfl

end Root

/-- The disk that `mkfs` makes of no files, with the root directory's entries `.` and `..` followed by
the entries `more`. -/
def mkfsDisk (more : List Dirent) : Disk :=
  rootImage mkfsVolume (fun _ => Dinode.zero)
    (dirBlock ([⟨1, strncpy [46] dirsiz⟩, ⟨1, strncpy [46, 46] dirsiz⟩] ++ more))

lemma mkfsDisk_ok (more : List Dirent) : DiskOk mkfsVolume (mkfsDisk more) :=
  rootImage_ok (by decide) (fun _ _ => rfl) fun _ => rfl

/-- Its root directory. -/
def mkfsRoot (more : List Dirent) : Node := ⟨tDir, 0, 0, 1, (List.range bsize).map
  (dirBlock ([⟨1, strncpy [46] dirsiz⟩, ⟨1, strncpy [46, 46] dirsiz⟩] ++ more)).byte⟩

lemma node_mkfsDisk (more : List Dirent) {i : ℕ} (hi : i < mkfsVolume.ninodes) :
    (dino mkfsVolume (mkfsDisk more) i).node (mkfsDisk more) =
      if i = rootino then mkfsRoot more else Node.free :=
  node_rootImage (fun _ _ => rfl) (fun _ => rfl) hi

/-! ### The inode cache -/

/-- The inode cache with the references `refs`: pairs of an inode number and a count. -/
def cacheOf (refs : List (ℕ × ℕ)) (k : Fin ninode) : Inode :=
  match refs[k.val]? with
  | some (inum, n) => ⟨inum, n, false, false, Dinode.zero⟩
  | none => ⟨0, 0, false, false, Dinode.zero⟩

/-- The file system on a disk, before anything is read. -/
def boot (V : Volume) (blocks : Disk) (refs : List (ℕ × ℕ)) : Fs V := ⟨blocks, cacheOf refs, [], []⟩

lemma cacheOf_pos {refs : List (ℕ × ℕ)} {k : Fin ninode} (h : 0 < (cacheOf refs k).ref) :
    ∃ n, refs[k.val]? = some ((cacheOf refs k).inum, n) := by
  rw [cacheOf] at h ⊢
  split at h
  · next inum n heq => exact ⟨n, by rw [heq]⟩
  · exact absurd h (lt_irrefl _)

lemma boot_ok {blocks : Disk} {refs : List (ℕ × ℕ)} (h : DiskOk V blocks)
    (hrange : ∀ e ∈ refs, e.1 < V.ninodes) (hnodup : (refs.map Prod.fst).Nodup) :
    (boot V blocks refs).Ok := by
  refine ⟨h, fun k => ?_, fun k hk => ?_, fun k _ hv => ?_, fun k l hk hl heq => ?_⟩
  · change 0 ≤ (cacheOf refs k).ref
    rw [cacheOf]
    split
    · exact Int.natCast_nonneg _
    · exact le_rfl
  · obtain ⟨n, hn⟩ := cacheOf_pos hk
    exact hrange _ (List.mem_of_getElem? hn)
  · change (cacheOf refs k).valid = true at hv
    rw [cacheOf] at hv
    split at hv <;> exact nomatch hv
  · obtain ⟨n, hn⟩ := cacheOf_pos hk
    obtain ⟨m, hm⟩ := cacheOf_pos hl
    have hlt : k.val < (refs.map Prod.fst).length := by
      rw [List.length_map]
      exact (List.getElem?_eq_some_iff.mp hn).1
    refine Fin.ext ((List.getElem?_inj hlt hnodup).mp ?_)
    rw [List.getElem?_map, List.getElem?_map, hn, hm]
    exact congrArg some heq

end Col331
