import Col331.Kernel.Param

/-!
The on-disk format of the file system (`fs.h`): the super block and the areas it describes, disk
inodes, the free map, and indirect blocks.

* `Superblock`, `Volume`: the geometry; a `Volume` carries the facts `mkfs` guarantees (the areas
  follow each other and are large enough), so that no other geometry can be built.
* `dinodeAt`, `setDinode`: the disk inodes of a block, `IPB` to a block, with `dinodeAt_setDinode`.
* `dino`, `used`, `entry`: the inode table, the free map and the entries of an indirect block as
  functions of the blocks of the disk, and what a write to one area does to each of them.
-/

namespace Col331

open Function

/-! ### Constants -/

/-- `ROOTINO`: root i-number. -/
abbrev rootino : ℕ := 1

/-- `NDIRECT`. -/
abbrev ndirect : ℕ := 12

/-- `NINDIRECT`: block numbers in an indirect block. -/
abbrev nindirect : ℕ := bsize / 4

/-- `MAXFILE`: blocks of the largest file. -/
abbrev maxfile : ℕ := ndirect + nindirect

/-- `IPB`: inodes per block. -/
abbrev ipb : ℕ := bsize / 64

/-- `BPB`: bitmap bits per block. -/
abbrev bpb : ℕ := bsize * 8

/-- `T_DIR`. -/
abbrev tDir : Int16 := 1

/-- `T_FILE`. -/
abbrev tFile : Int16 := 2

/-- `T_DEV`. -/
abbrev tDev : Int16 := 3

/-! ### The super block -/

/-- `struct superblock`. -/
structure Superblock where
  size : ℕ
  nblocks : ℕ
  ninodes : ℕ
  nlog : ℕ
  logstart : ℕ
  inodestart : ℕ
  bmapstart : ℕ

/-- What the drivers in `devsw` answer to a read of `n` bytes and to a write. -/
structure Driver where
  read : ℕ → Option (List UInt8)
  write : List UInt8 → ℤ

/-- A mounted file system: the super block, with the layout
`[ boot block | super block | log | inode blocks | free bit map | data blocks ]`, and the device
table.  The disk driver refuses block numbers from `FSSIZE` on. -/
structure Volume extends Superblock where
  devsw : Fin ndev → Option Driver
  logEnd : logstart + nlog ≤ inodestart
  inodeEnd : inodestart + ninodes / ipb + 1 ≤ bmapstart
  bmapEnd : bmapstart + size / bpb + 1 + nblocks ≤ size
  rootIno : rootino < ninodes
  inums : ninodes ≤ 2 ^ 16
  fits : size ≤ fssize

namespace Volume

variable (V : Volume)

/-- The number of blocks before the data blocks. -/
def nmeta : ℕ := V.size - V.nblocks

/-- `IBLOCK(i, sb)`: block containing inode `i`. -/
def iblock (i : ℕ) : ℕ := i / ipb + V.inodestart

/-- `BBLOCK(b, sb)`: block of free map containing bit for block `b`. -/
def bblock (b : ℕ) : ℕ := b / bpb + V.bmapstart

variable {V}

lemma iblock_lt {i : ℕ} (hi : i < V.ninodes) : V.iblock i < V.bmapstart := by
  have h := V.inodeEnd
  simp only [iblock]
  have hdiv : i / ipb ≤ V.ninodes / ipb := Nat.div_le_div_right hi.le
  omega

lemma le_bblock (b : ℕ) : V.bmapstart ≤ V.bblock b := Nat.le_add_left _ _

lemma bblock_lt {b : ℕ} (hb : b < V.size) : V.bblock b < V.nmeta := by
  have h := V.bmapEnd
  have hdiv : b / bpb ≤ V.size / bpb := Nat.div_le_div_right hb.le
  simp only [bblock, nmeta]
  omega

/-- One block holds the whole free map. -/
lemma bblock_eq {b : ℕ} (hb : b < V.size) : V.bblock b = V.bmapstart := by
  have h := V.fits
  simp only [bblock, bpb, bsize, fssize] at *
  omega

lemma bmapstart_lt_nmeta : V.bmapstart < V.nmeta := by
  have h := V.bmapEnd
  simp only [nmeta, bpb, bsize] at *
  omega

lemma nmeta_le : V.nmeta ≤ V.size := Nat.sub_le _ _

lemma nmeta_pos : 0 < V.nmeta := by
  have h := V.bmapEnd
  simp only [nmeta, bpb, bsize] at *
  omega

/-- Two inodes share a place on disk only if they are the same. -/
lemma iblock_inj {i j : ℕ} (h : V.iblock i = V.iblock j) (hmod : i % ipb = j % ipb) : i = j := by
  simp only [iblock, ipb, bsize] at *
  omega

lemma bblock_inj {b c : ℕ} (h : V.bblock b = V.bblock c) (hmod : b % bpb = c % bpb) : b = c := by
  simp only [bblock, bpb, bsize] at *
  omega

end Volume

/-! ### Disk inodes -/

/-- `struct dinode`. -/
@[ext]
structure Dinode where
  type : Int16
  major : Int16
  minor : Int16
  nlink : Int16
  size : UInt32
  addrs : Fin (ndirect + 1) → UInt32
  deriving DecidableEq

/-- `memset(dip, 0, sizeof(*dip))`. -/
def Dinode.zero : Dinode := ⟨0, 0, 0, 0, 0, fun _ => 0⟩

/-- The bytes of `struct dinode` in memory. -/
def Dinode.byte (d : Dinode) (j : ℕ) : UInt8 :=
  if j < 2 then (Bytes.le16 d.type.toUInt16).getD j 0
  else if j < 4 then (Bytes.le16 d.major.toUInt16).getD (j - 2) 0
  else if j < 6 then (Bytes.le16 d.minor.toUInt16).getD (j - 4) 0
  else if j < 8 then (Bytes.le16 d.nlink.toUInt16).getD (j - 6) 0
  else if j < 12 then (Bytes.le32 d.size).getD (j - 8) 0
  else if h : (j - 12) / 4 < ndirect + 1 then
    (Bytes.le32 (d.addrs ⟨(j - 12) / 4, h⟩)).getD ((j - 12) % 4) 0
  else 0

/-- The disk inode at position `k` of an inode block. -/
def dinodeAt (b : Block) (k : ℕ) : Dinode where
  type := (b.u16 (64 * k)).toInt16
  major := (b.u16 (64 * k + 2)).toInt16
  minor := (b.u16 (64 * k + 4)).toInt16
  nlink := (b.u16 (64 * k + 6)).toInt16
  size := b.u32 (64 * k + 8)
  addrs i := b.u32 (64 * k + 12 + 4 * i)

/-- The block with the disk inode at position `k` replaced. -/
def setDinode (b : Block) (k : ℕ) (d : Dinode) : Block := fun i =>
  if 64 * k ≤ i.val ∧ i.val < 64 * k + 64 then d.byte (i.val - 64 * k) else b i

lemma byte_setDinode_self (b : Block) {k : ℕ} (hk : k < ipb) (d : Dinode) {j : ℕ} (hj : j < 64) :
    (setDinode b k d).byte (64 * k + j) = d.byte j := by
  have hlt : 64 * k + j < bsize := by simp only [ipb, bsize] at *; omega
  rw [Bytes.byte, dif_pos hlt, setDinode, if_pos ⟨by dsimp only; omega, by dsimp only; omega⟩]
  simp

lemma byte_setDinode_of_ne (b : Block) {k : ℕ} (d : Dinode) {i : ℕ}
    (hi : i < 64 * k ∨ 64 * k + 64 ≤ i) : (setDinode b k d).byte i = b.byte i := by
  rw [Bytes.byte, Bytes.byte]
  split_ifs with hlt
  · rw [setDinode, if_neg (by dsimp only; omega)]
  · rfl

/-- The disk inode whose bytes stand in a block. -/
lemma dinodeAt_of_bytes {b : Block} {k : ℕ} {d : Dinode}
    (hbyte : ∀ j < 64, b.byte (64 * k + j) = d.byte j) : dinodeAt b k = d := by
  have h16 : ∀ (o : ℕ) (v : UInt16), o + 2 ≤ 64 → (∀ j < 2, d.byte (o + j) = (Bytes.le16 v).getD j 0) →
      Bytes.u16 b (64 * k + o) = v := fun o v ho h => Bytes.u16_of_bytes fun j hj => by
    rw [Nat.add_assoc, hbyte (o + j) (by omega), h j hj]
  have h32 : ∀ (o : ℕ) (v : UInt32), o + 4 ≤ 64 → (∀ j < 4, d.byte (o + j) = (Bytes.le32 v).getD j 0) →
      Bytes.u32 b (64 * k + o) = v := fun o v ho h => Bytes.u32_of_bytes fun j hj => by
    rw [Nat.add_assoc, hbyte (o + j) (by omega), h j hj]
  apply Dinode.ext
  · have h := h16 0 d.type.toUInt16 (by omega) fun j hj => by simp [Dinode.byte, hj]
    simp only [Nat.add_zero] at h
    simp [dinodeAt, h]
  · have h := h16 2 d.major.toUInt16 (by omega) fun j hj => by
      rw [Dinode.byte, if_neg (by omega), if_pos (by omega), Nat.add_sub_cancel_left]
    simp [dinodeAt, h]
  · have h := h16 4 d.minor.toUInt16 (by omega) fun j hj => by
      rw [Dinode.byte, if_neg (by omega), if_neg (by omega), if_pos (by omega),
        Nat.add_sub_cancel_left]
    simp [dinodeAt, h]
  · have h := h16 6 d.nlink.toUInt16 (by omega) fun j hj => by
      rw [Dinode.byte, if_neg (by omega), if_neg (by omega), if_neg (by omega), if_pos (by omega),
        Nat.add_sub_cancel_left]
    simp [dinodeAt, h]
  · have h := h32 8 d.size (by omega) fun j hj => by
      rw [Dinode.byte, if_neg (by omega), if_neg (by omega), if_neg (by omega), if_neg (by omega),
        if_pos (by omega), Nat.add_sub_cancel_left]
    simp [dinodeAt, h]
  · funext i
    have hi : i.val < 13 := i.isLt
    have h := h32 (12 + 4 * i) (d.addrs i) (by omega) fun j hj => by
      have hq : (12 + 4 * i.val + j - 12) / 4 = i := by omega
      have hr : (12 + 4 * i.val + j - 12) % 4 = j := by omega
      have hlt : (12 + 4 * i.val + j - 12) / 4 < ndirect + 1 := by rw [hq]; exact i.isLt
      have hfin : (⟨(12 + 4 * i.val + j - 12) / 4, hlt⟩ : Fin (ndirect + 1)) = i := Fin.ext hq
      rw [Dinode.byte, if_neg (by omega), if_neg (by omega), if_neg (by omega), if_neg (by omega),
        if_neg (by omega), dif_pos hlt, hr, hfin]
    rw [← Nat.add_assoc] at h
    exact h

/-- A disk inode reads back as it was written. -/
lemma dinodeAt_setDinode_self (b : Block) {k : ℕ} (hk : k < ipb) (d : Dinode) :
    dinodeAt (setDinode b k d) k = d :=
  dinodeAt_of_bytes fun _ hj => byte_setDinode_self b hk d hj

/-- The other inodes of a block are left alone. -/
lemma dinodeAt_setDinode_of_ne (b : Block) {j k : ℕ} (hjk : j ≠ k) (d : Dinode) :
    dinodeAt (setDinode b k d) j = dinodeAt b j := by
  have h16 : ∀ o, o + 2 ≤ 64 → Bytes.u16 (setDinode b k d) (64 * j + o) = b.u16 (64 * j + o) :=
    fun o ho => Bytes.u16_congr fun i hi => byte_setDinode_of_ne b d (by omega)
  have h32 : ∀ o, o + 4 ≤ 64 → Bytes.u32 (setDinode b k d) (64 * j + o) = b.u32 (64 * j + o) :=
    fun o ho => Bytes.u32_congr fun i hi => byte_setDinode_of_ne b d (by omega)
  have h0 := h16 0 (by omega)
  rw [Nat.add_zero] at h0
  apply Dinode.ext
  · simp only [dinodeAt, h0]
  · simp only [dinodeAt, h16 2 (by omega)]
  · simp only [dinodeAt, h16 4 (by omega)]
  · simp only [dinodeAt, h16 6 (by omega)]
  · simp only [dinodeAt, h32 8 (by omega)]
  · funext i
    have hi : i.val < 13 := i.isLt
    have h := h32 (12 + 4 * i) (by omega)
    rw [← Nat.add_assoc] at h
    exact h

/-! ### The areas of the disk -/

section Areas

variable (V : Volume)

/-- The inode table: disk inode `i`. -/
def dino (blocks : Disk) (i : ℕ) : Dinode := dinodeAt (blocks (V.iblock i)) (i % ipb)

/-- The free map: the bit of block `b`. -/
def used (blocks : Disk) (b : ℕ) : Bool := (blocks (V.bblock b)).bit (b % bpb)

variable {V} {blocks : Disk} {b c i j : ℕ} {v : Block}

/-- A write behind the inode blocks leaves the inode table alone. -/
lemma dino_update (hb : V.bmapstart ≤ b) (hi : i < V.ninodes) :
    dino V (update blocks b v) i = dino V blocks i := by
  have hlt := V.iblock_lt hi
  rw [dino, dino, update_of_ne (by omega)]

/-- A write to the data blocks leaves the free map alone. -/
lemma used_update_data (hb : V.nmeta ≤ b) (hc : c < V.size) :
    used V (update blocks b v) c = used V blocks c := by
  have hlt := V.bblock_lt hc
  rw [used, used, update_of_ne (by omega)]

/-- A write to the inode blocks leaves the free map alone. -/
lemma used_update_inode (hi : i < V.ninodes) :
    used V (update blocks (V.iblock i) v) c = used V blocks c := by
  have hlt := V.iblock_lt hi
  have hle := V.le_bblock c
  rw [used, used, update_of_ne (by omega)]

/-- Writing disk inode `i`. -/
lemma dino_setDinode (d : Dinode) :
    dino V (update blocks (V.iblock i)
        (setDinode (blocks (V.iblock i)) (i % ipb) d)) j =
      if j = i then d else dino V blocks j := by
  have hmod : i % ipb < ipb := Nat.mod_lt _ (by decide)
  rw [dino, dino]
  by_cases hblock : V.iblock j = V.iblock i
  · rw [hblock, update_self]
    by_cases hji : j = i
    · subst hji
      rw [if_pos rfl, dinodeAt_setDinode_self _ hmod]
    · rw [if_neg hji, dinodeAt_setDinode_of_ne _ fun h => hji (V.iblock_inj hblock h)]
  · rw [update_of_ne hblock, if_neg fun h => hblock (by rw [h])]

lemma used_setBit :
    used V (update blocks (V.bblock b) ((blocks (V.bblock b)).setBit (b % bpb))) c =
      (used V blocks c || c = b) := by
  have hmod : b % bpb < 8 * bsize := Nat.mod_lt _ (by decide)
  rw [used, used]
  by_cases hblock : V.bblock c = V.bblock b
  · rw [hblock, update_self, Bytes.bit_setBit _ hmod]
    have hiff : c % bpb = b % bpb ↔ c = b := ⟨V.bblock_inj hblock, fun h => by rw [h]⟩
    rw [decide_eq_decide.mpr hiff]
  · have hne : c ≠ b := fun h => hblock (by rw [h])
    rw [update_of_ne hblock]
    simp [hne]

lemma used_clearBit :
    used V (update blocks (V.bblock b) ((blocks (V.bblock b)).clearBit (b % bpb))) c =
      (used V blocks c && c ≠ b) := by
  have hmod : b % bpb < 8 * bsize := Nat.mod_lt _ (by decide)
  rw [used, used]
  by_cases hblock : V.bblock c = V.bblock b
  · rw [hblock, update_self, Bytes.bit_clearBit _ hmod]
    have hiff : c % bpb ≠ b % bpb ↔ c ≠ b :=
      ⟨fun h hcb => h (by rw [hcb]), fun h hcb => h (V.bblock_inj hblock hcb)⟩
    rw [decide_eq_decide.mpr hiff]
  · have hne : c ≠ b := fun h => hblock (by rw [h])
    rw [update_of_ne hblock]
    simp [hne]

end Areas

/-! ### Indirect blocks -/

/-- `a[j]` of an indirect block. -/
def entry (b : Block) (j : ℕ) : UInt32 := b.u32 (4 * j)

/-- `a[j] = v`. -/
def setEntry (b : Block) (j : ℕ) (v : UInt32) : Block := b.splice (4 * j) (Bytes.le32 v)

lemma entry_setEntry (b : Block) {i j : ℕ} (hj : j < nindirect) (v : UInt32) :
    entry (setEntry b j v) i = if i = j then v else entry b i := by
  rw [entry, setEntry]
  by_cases hij : i = j
  · subst hij
    rw [if_pos rfl, Bytes.u32_splice_le32 b (by simp only [nindirect, bsize] at *; omega)]
  · rw [if_neg hij, Bytes.u32_splice_of_disjoint b (by simp only [Bytes.le32_length]; omega),
      entry]

@[simp] lemma entry_zero (j : ℕ) : entry (Bytes.zero bsize) j = 0 := Bytes.u32_zero _

end Col331
