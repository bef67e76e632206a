import Col331.Fs.Layout

/-!
Which inode owns which block.

* `Place`, `Dinode.blockAt`: the places where an inode stores block numbers: its direct slots and
  the entries of its indirect block, numbered by the block of the file they stand for, and the
  indirect slot.
* `Owns V T blocks`: every block number stored in an allocated inode of the table `T` is a data
  block, none is stored twice, and the free map has exactly the bits of the metadata and of these
  blocks.  `Owns.grow` gives a place a free block, `Owns.restrict` takes blocks away, and
  `Owns.congr` says what ownership depends on.
* `Shape d blocks K`: the inode has blocks for exactly the first `K` blocks of its file.
-/

namespace Col331

/-! ### Places -/

/-- A place that holds a block number: that of block `bn` of the file, or the indirect slot. -/
inductive Place where
  | data (bn : ℕ)
  | indirect
  deriving DecidableEq

/-- The block number of the indirect block. -/
def Dinode.ind (d : Dinode) : UInt32 := d.addrs (Fin.last ndirect)

/-- The block number at a place, zero if there is none. -/
def Dinode.blockAt (d : Dinode) (blocks : Disk) : Place → ℕ
  | .data bn =>
    if h : bn < ndirect then (d.addrs ⟨bn, Nat.lt_succ_of_lt h⟩).toNat
    else if d.ind ≠ 0 ∧ bn < maxfile then (entry (blocks d.ind.toNat) (bn - ndirect)).toNat
    else 0
  | .indirect => d.ind.toNat

variable {d d' : Dinode} {blocks blocks' : Disk}

lemma blockAt_direct {bn : ℕ} (h : bn < ndirect) :
    d.blockAt blocks (.data bn) = (d.addrs ⟨bn, Nat.lt_succ_of_lt h⟩).toNat := by
  rw [Dinode.blockAt, dif_pos h]

lemma blockAt_entry {bn : ℕ} (h : ¬ bn < ndirect) (hmax : bn < maxfile) (hind : d.ind ≠ 0) :
    d.blockAt blocks (.data bn) = (entry (blocks d.ind.toNat) (bn - ndirect)).toNat := by
  rw [Dinode.blockAt, dif_neg h, if_pos ⟨hind, hmax⟩]

lemma blockAt_of_ind_eq_zero {bn : ℕ} (h : ¬ bn < ndirect) (hind : d.ind = 0) :
    d.blockAt blocks (.data bn) = 0 := by
  rw [Dinode.blockAt, dif_neg h, if_neg (fun h => h.1 hind)]

lemma blockAt_of_maxfile_le {bn : ℕ} (h : maxfile ≤ bn) : d.blockAt blocks (.data bn) = 0 := by
  have hn : ¬ bn < ndirect := by simp only [maxfile] at h; omega
  rw [Dinode.blockAt, dif_neg hn, if_neg (by omega)]

/-- An inode's places depend on the disk through its indirect block only. -/
lemma blockAt_congr (h : d.ind ≠ 0 → blocks' d.ind.toNat = blocks d.ind.toNat) (p : Place) :
    d.blockAt blocks' p = d.blockAt blocks p := by
  cases p with
  | indirect => rfl
  | data bn =>
    by_cases hn : bn < ndirect
    · rw [blockAt_direct hn, blockAt_direct hn]
    · by_cases hind : d.ind = 0
      · rw [blockAt_of_ind_eq_zero hn hind, blockAt_of_ind_eq_zero hn hind]
      · rw [Dinode.blockAt, Dinode.blockAt, h hind]

/-- The places are the addresses' alone. -/
lemma blockAt_of_addrs_eq (h : d'.addrs = d.addrs) (p : Place) :
    d'.blockAt blocks p = d.blockAt blocks p := by
  obtain ⟨_, _, _, _, _, addrs⟩ := d
  subst h
  cases p <;> rfl

/-- An inode without addresses has no blocks. -/
lemma blockAt_of_addrs_eq_zero (h : ∀ i, d.addrs i = 0) (p : Place) : d.blockAt blocks p = 0 := by
  cases p with
  | indirect =>
    rw [Dinode.blockAt, Dinode.ind, h]
    rfl
  | data bn =>
    by_cases hn : bn < ndirect
    · rw [blockAt_direct hn, h]
      rfl
    · exact blockAt_of_ind_eq_zero hn (h _)

/-! ### Ownership -/

/-- Inode `i` of the table `T` is allocated. -/
def Alloc (V : Volume) (T : ℕ → Dinode) (i : ℕ) : Prop := i < V.ninodes ∧ (T i).type ≠ 0

/-- **Block ownership**: the block numbers stored in allocated inodes are data blocks, none is
stored in two places, and the free map marks exactly the metadata and these blocks. -/
structure Owns (V : Volume) (T : ℕ → Dinode) (blocks : Disk) : Prop where
  range : ∀ i p, Alloc V T i → (T i).blockAt blocks p ≠ 0 →
    V.nmeta ≤ (T i).blockAt blocks p ∧ (T i).blockAt blocks p < V.size
  inj : ∀ i p j q, Alloc V T i → Alloc V T j → (T i).blockAt blocks p ≠ 0 →
    (T i).blockAt blocks p = (T j).blockAt blocks q → i = j ∧ p = q
  map : ∀ b < V.size, used V blocks b = true ↔
    b < V.nmeta ∨ ∃ i p, Alloc V T i ∧ (T i).blockAt blocks p = b

namespace Owns

variable {V : Volume} {T T' : ℕ → Dinode} {i : ℕ} {p : Place} {b : ℕ}

section

variable (h : Owns V T blocks)

include h

/-- A block stored in an inode is marked in the free map. -/
lemma used_of_blockAt (hi : Alloc V T i)
    (hne : (T i).blockAt blocks p ≠ 0) : used V blocks ((T i).blockAt blocks p) = true :=
  (h.map _ (h.range i p hi hne).2).mpr (.inr ⟨i, p, hi, rfl⟩)

/-- A free block is a data block. -/
lemma nmeta_le_of_free (hb : b < V.size) (hfree : used V blocks b = false) :
    V.nmeta ≤ b := by
  by_contra hlt
  rw [(h.map b hb).mpr (.inl (not_le.mp hlt))] at hfree
  nomatch hfree

/-- A free block is stored nowhere. -/
lemma blockAt_ne_of_free (hb : b < V.size)
    (hfree : used V blocks b = false) (hi : Alloc V T i) : (T i).blockAt blocks p ≠ b := by
  intro heq
  rw [(h.map b hb).mpr (.inr ⟨i, p, hi, heq⟩)] at hfree
  nomatch hfree

/-- **One more block**: the place `p` of inode `i` gets the free block `b`. -/
lemma grow (hi : Alloc V T i) (hb : b < V.size)
    (hfree : used V blocks b = false) (hp : (T i).blockAt blocks p = 0)
    (htype : ∀ j < V.ninodes, (T' j).type = (T j).type)
    (hat : ∀ j q, Alloc V T j → (T' j).blockAt blocks' q =
      if j = i ∧ q = p then b else (T j).blockAt blocks q)
    (hmap : ∀ c < V.size, used V blocks' c = (used V blocks c || c = b)) :
    Owns V T' blocks' := by
  have halloc : ∀ j, Alloc V T' j ↔ Alloc V T j := fun j =>
    and_congr_right fun hj => by rw [htype j hj]
  have hnew := h.nmeta_le_of_free hb hfree
  constructor
  · intro j q hj hne
    rw [halloc] at hj
    rw [hat j q hj] at hne ⊢
    split_ifs at hne ⊢
    · exact ⟨hnew, hb⟩
    · exact h.range j q hj hne
  · intro j q j' q' hj hj' hne heq
    rw [halloc] at hj hj'
    rw [hat j q hj] at hne heq
    rw [hat j' q' hj'] at heq
    split_ifs at hne heq with h1 h2 h2
    · exact ⟨h1.1.trans h2.1.symm, h1.2.trans h2.2.symm⟩
    · exact absurd heq.symm (h.blockAt_ne_of_free hb hfree hj')
    · exact absurd heq (h.blockAt_ne_of_free hb hfree hj)
    · exact h.inj j q j' q' hj hj' hne heq
  · intro c hc
    rw [hmap c hc, Bool.or_eq_true, h.map c hc, decide_eq_true_eq]
    constructor
    · rintro ((hmeta | ⟨j, q, hj, hq⟩) | rfl)
      · exact .inl hmeta
      · by_cases hjq : j = i ∧ q = p
        · -- the place was empty, and block zero is metadata
          refine .inl ?_
          rw [hjq.1, hjq.2, hp] at hq
          rw [← hq]
          exact V.nmeta_pos
        · exact .inr ⟨j, q, (halloc j).mpr hj, by rw [hat j q hj, if_neg hjq, hq]⟩
      · exact .inr ⟨i, p, (halloc i).mpr hi, by rw [hat i p hi, if_pos ⟨rfl, rfl⟩]⟩
    · rintro (hmeta | ⟨j, q, hj, hq⟩)
      · exact .inl (.inl hmeta)
      · rw [halloc] at hj
        rw [hat j q hj] at hq
        split_ifs at hq with hjq
        · exact .inr hq.symm
        · exact .inl (.inr ⟨j, q, hj, hq⟩)

/-- Ownership depends on the places and the free map only. -/
lemma congr (htype : ∀ j < V.ninodes, (T' j).type = (T j).type)
    (hat : ∀ j q, Alloc V T j → (T' j).blockAt blocks' q = (T j).blockAt blocks q)
    (hmap : ∀ c < V.size, used V blocks' c = used V blocks c) : Owns V T' blocks' := by
  have halloc : ∀ j, Alloc V T' j ↔ Alloc V T j := fun j =>
    and_congr_right fun hj => by rw [htype j hj]
  refine ⟨fun j q hj hne => ?_, fun j q j' q' hj hj' hne heq => ?_, fun c hc => ?_⟩
  · rw [halloc] at hj
    rw [hat j q hj] at hne ⊢
    exact h.range j q hj hne
  · rw [halloc] at hj hj'
    rw [hat j q hj] at hne heq
    rw [hat j' q' hj'] at heq
    exact h.inj j q j' q' hj hj' hne heq
  · rw [hmap c hc, h.map c hc]
    refine or_congr_right ⟨?_, ?_⟩
    · rintro ⟨j, q, hj, hq⟩
      exact ⟨j, q, (halloc j).mpr hj, by rw [hat j q hj, hq]⟩
    · rintro ⟨j, q, hj, hq⟩
      rw [halloc] at hj
      exact ⟨j, q, hj, by rw [← hat j q hj, hq]⟩

/-- **Fewer blocks**: the places of the new table hold what they held before, or nothing. -/
lemma restrict (hat : ∀ j q, Alloc V T' j → (T' j).blockAt blocks' q ≠ 0 →
      Alloc V T j ∧ (T' j).blockAt blocks' q = (T j).blockAt blocks q)
    (hmap : ∀ b < V.size, used V blocks' b = true ↔
      b < V.nmeta ∨ ∃ i p, Alloc V T' i ∧ (T' i).blockAt blocks' p = b) :
    Owns V T' blocks' := by
  refine ⟨fun j q hj hne => ?_, fun j q j' q' hj hj' hne heq => ?_, hmap⟩
  · obtain ⟨hj₀, heq⟩ := hat j q hj hne
    rw [heq] at hne ⊢
    exact h.range j q hj₀ hne
  · obtain ⟨hj₀, h1⟩ := hat j q hj hne
    obtain ⟨hj₀', h2⟩ := hat j' q' hj' (heq ▸ hne)
    rw [h1] at hne heq
    rw [h2] at heq
    exact h.inj j q j' q' hj₀ hj₀' hne heq

end

end Owns

/-! ### The blocks of a file -/

/-- The number of blocks of a file of `n` bytes. -/
def nblk (n : ℕ) : ℕ := (n + bsize - 1) / bsize

lemma lt_nblk_iff {bn n : ℕ} : bn < nblk n ↔ bn * bsize < n := by
  simp only [nblk, bsize]
  omega

@[simp] lemma nblk_zero : nblk 0 = 0 := by decide

lemma le_nblk_mul (n : ℕ) : n ≤ nblk n * bsize := by
  simp only [nblk, bsize]
  omega

lemma nblk_le_iff {n K : ℕ} : nblk n ≤ K ↔ n ≤ K * bsize := by
  simp only [nblk, bsize]
  omega

/-- The inode has blocks for exactly the first `K` blocks of its file. -/
structure Shape (d : Dinode) (blocks : Disk) (K : ℕ) : Prop where
  le : K ≤ maxfile
  data : ∀ bn, d.blockAt blocks (.data bn) ≠ 0 ↔ bn < K
  indirect : d.blockAt blocks .indirect ≠ 0 ↔ ndirect < K

lemma Shape.congr {K : ℕ} (h : Shape d blocks K)
    (hat : ∀ p, d'.blockAt blocks' p = d.blockAt blocks p) : Shape d' blocks' K :=
  ⟨h.le, fun bn => by rw [hat]; exact h.data bn, by rw [hat]; exact h.indirect⟩

lemma Shape.of_addrs_eq_zero (h : ∀ i, d.addrs i = 0) : Shape d blocks 0 :=
  ⟨Nat.zero_le _, fun bn => by simp [blockAt_of_addrs_eq_zero h],
    by simp [blockAt_of_addrs_eq_zero h]⟩

/-- Byte `n` of the file. -/
def Dinode.byteAt (d : Dinode) (blocks : Disk) (n : ℕ) : UInt8 :=
  (blocks (d.blockAt blocks (.data (n / bsize)))).byte (n % bsize)

section

variable (h : ∀ p, d.blockAt blocks p ≠ 0 → blocks' (d.blockAt blocks p) = blocks (d.blockAt blocks p))

include h

/-- Places and bytes depend on the disk through the inode's own blocks only. -/
lemma blockAt_of_agree
    (p : Place) : d.blockAt blocks' p = d.blockAt blocks p := by
  refine blockAt_congr (fun hind => ?_) p
  refine h .indirect ?_
  rw [Dinode.blockAt]
  exact fun h0 => hind (UInt32.toNat_inj.mp h0)

lemma byteAt_of_agree
    {n : ℕ} (hn : d.blockAt blocks (.data (n / bsize)) ≠ 0) :
    d.byteAt blocks' n = d.byteAt blocks n := by
  rw [Dinode.byteAt, Dinode.byteAt, blockAt_of_agree h, h _ hn]

end

end Col331
