import Col331.Fs.Inode
import Col331.Fs.Owner

/-!
`balloc` and `bmap` keep every block with one owner.

While an inode is being written its copy in the cache is ahead of the disk; `Fs.table s k` is the
inode table with that copy in place.  `bmap_spec` says what a call of `bmap` on a block of the file
or on the one just behind them gives: the block number at that place, and a table in which that
place has a block, no other place has changed, and every block has one owner still.
-/

namespace Col331

open Function Prog

namespace Fs

variable {V : Volume} {s : Fs V}

/-! ### Free blocks -/

section Room

variable {s' s₁ s₂ : Fs V} {K m m' : ℕ}

/-- The number of free blocks. -/
def space (s : Fs V) : ℕ := ((Finset.range V.size).filter fun b => used V s.blocks b = false).card

lemma space_congr (h : ∀ c < V.size, used V s'.blocks c = used V s.blocks c) : s'.space = s.space := by
  rw [space, space]
  congr 1
  refine Finset.filter_congr fun c hc => ?_
  rw [h c (Finset.mem_range.mp hc)]

/-- One block is taken. -/
lemma space_of_used {b : ℕ} (hb : b < V.size) (hfree : used V s.blocks b = false)
    (h : ∀ c < V.size, used V s'.blocks c = (used V s.blocks c || c = b)) : s'.space + 1 = s.space := by
  have hmem : b ∈ (Finset.range V.size).filter fun b => used V s.blocks b = false := by
    simp [hb, hfree]
  have herase : ((Finset.range V.size).filter fun b => used V s'.blocks b = false) =
      ((Finset.range V.size).filter fun b => used V s.blocks b = false).erase b := by
    ext c
    simp only [Finset.mem_filter, Finset.mem_range, Finset.mem_erase]
    constructor
    · rintro ⟨hc, hu⟩
      rw [h c hc, Bool.or_eq_false_iff, decide_eq_false_iff_not] at hu
      exact ⟨hu.2, hc, hu.1⟩
    · rintro ⟨hcb, hc, hu⟩
      rw [h c hc, hu]
      exact ⟨hc, by simpa using hcb⟩
  rw [space, herase, Finset.card_erase_of_mem hmem, space]
  have := Finset.card_pos.mpr ⟨b, hmem⟩
  omega

/-- The search of `balloc` finds nothing only if every block is in use. -/
lemma firstFree_none (h : s.firstFree = none) : s.space = 0 := by
  rw [space, Finset.card_eq_zero, Finset.filter_eq_empty_iff]
  intro b hb hfree
  have hb := Finset.mem_range.mp hb
  rw [firstFree, List.findSome?_eq_none_iff] at h
  have hq := h (b / bpb) (List.mem_range.mpr (Nat.lt_succ_of_le (Nat.div_le_div_right hb.le)))
  rw [Option.map_eq_none_iff, List.find?_eq_none] at hq
  have hmod : b % bpb < bpb := Nat.mod_lt _ (by decide)
  refine hq (b % bpb) (List.mem_range.mpr hmod) ?_
  have hsum : b / bpb * bpb + b % bpb = b := Nat.div_add_mod' b bpb
  have hblock : V.bblock (b / bpb * bpb) = V.bblock b := by
    simp only [Volume.bblock, bpb, bsize]
    omega
  rw [decide_eq_true_eq, hsum, hblock]
  exact ⟨hb, hfree⟩

/-- The number of blocks of a file with `K` blocks of content: those, and the indirect block. -/
def blocksFor (K : ℕ) : ℕ := K + if ndirect < K then 1 else 0

lemma blocksFor_succ (K : ℕ) : blocksFor (K + 1) = blocksFor K + if K = ndirect then 2 else 1 := by
  rw [blocksFor, blocksFor]
  split_ifs <;> omega

lemma blocksFor_mono {K K' : ℕ} (h : K ≤ K') : blocksFor K ≤ blocksFor K' := by
  rw [blocksFor, blocksFor]
  split_ifs <;> omega

/-- From `s` to `s'` a file of `K` blocks has taken the blocks it lacked for `m` blocks. -/
def Takes (s : Fs V) (K m : ℕ) (s' : Fs V) : Prop :=
  s'.space + blocksFor (max K m) = s.space + blocksFor K

/-- There are too few free blocks for a file of `K` blocks to have `m`. -/
def Short (s : Fs V) (K m : ℕ) : Prop := s.space + blocksFor K < blocksFor (max K m)

lemma Takes.of_le (h : m ≤ K) : Takes s K m s := by rw [Takes, max_eq_left h]

lemma not_short_of_le (h : m ≤ K) : ¬ Short s K m := by
  rw [Short, max_eq_left h]
  omega

lemma Takes.succ (h : s'.space + (if K = ndirect then 2 else 1) = s.space) : Takes s K (K + 1) s' := by
  rw [Takes, max_eq_right (Nat.le_succ K), blocksFor_succ]
  omega

lemma Short.succ (h : s.space < if K = ndirect then 2 else 1) : Short s K (K + 1) := by
  rw [Short, max_eq_right (Nat.le_succ K), blocksFor_succ]
  omega

lemma Takes.trans (h : Takes s K m s₁) (hm : m ≤ m') (h' : Takes s₁ (max K m) m' s₂) :
    Takes s K m' s₂ := by
  rw [Takes, max_assoc, max_eq_right hm, h] at h'
  exact h'

lemma Takes.short (h : Takes s K m s₁) (hm : m ≤ m') (h' : Short s₁ (max K m) m') : Short s K m' := by
  rw [Short, max_assoc, max_eq_right hm, h] at h'
  exact h'

lemma Short.mono (h : Short s K m) (hm : m ≤ m') : Short s K m' :=
  h.trans_le (blocksFor_mono (by omega))

end Room

/-! ### `balloc` -/

/-- The state after block `b` is marked and zeroed. -/
def allocated (s : Fs V) (b : ℕ) : Fs V :=
  (s.write (V.bblock b) ((s.blocks (V.bblock b)).setBit (b % bpb))).write b (Bytes.zero bsize)

/-- The search of `balloc` finds a block below `sb.size` whose bit is clear. -/
lemma firstFree_some {b : ℕ} (h : s.firstFree = some b) :
    b < V.size ∧ used V s.blocks b = false := by
  obtain ⟨l, q, l', _, hq, _⟩ := List.findSome?_eq_some_iff.mp h
  obtain ⟨bi, hbi, rfl⟩ := Option.map_eq_some_iff.mp hq
  have hmem := List.mem_range.mp (List.mem_of_find?_eq_some hbi)
  have hprop := List.find?_some hbi
  rw [decide_eq_true_eq] at hprop
  have hblock : V.bblock (q * bpb + bi) = V.bblock (q * bpb) := by
    simp only [Volume.bblock, bpb, bsize] at *
    omega
  have hmod : (q * bpb + bi) % bpb = bi := by
    simp only [bpb, bsize] at *
    omega
  exact ⟨hprop.1, by rw [used, hblock, hmod]; exact hprop.2⟩

lemma balloc_spec (s : Fs V) :
    wp balloc (fun b s' => s' = s.allocated b ∧ b < V.size ∧ used V s.blocks b = false)
      (fun e => e = .panic .ballocOut ∧ s.space = 0) s := by
  cases h : s.firstFree with
  | none =>
    have hrun : balloc s = .error (.panic .ballocOut) := by simp [balloc, bind_run, h]
    rw [wp_of_error hrun]
    exact ⟨rfl, firstFree_none h⟩
  | some b =>
    have hrun : balloc s = .ok (b, s.allocated b) := by
      simp [balloc, bind_run, map_run, h, logWrite, bzero, allocated]
    rw [wp_of_ok hrun]
    exact ⟨rfl, firstFree_some h⟩

section Allocated

variable {T : ℕ → Dinode} {b : ℕ} (hown : Owns V T s.blocks) (hb : b < V.size)
  (hfree : used V s.blocks b = false)

include hown hb hfree

lemma used_allocated {c : ℕ} (hc : c < V.size) :
    used V (s.allocated b).blocks c = (used V s.blocks c || c = b) := by
  rw [allocated, write, write]
  rw [used_update_data (hown.nmeta_le_of_free hb hfree) hc, used_setBit]

lemma dino_allocated {i : ℕ} (hi : i < V.ninodes) :
    dino V (s.allocated b).blocks i = dino V s.blocks i := by
  have hle := hown.nmeta_le_of_free hb hfree
  have hmeta := V.bmapstart_lt_nmeta
  rw [allocated, write, write]
  rw [dino_update (by omega) hi, dino_update (V.le_bblock b) hi]

omit hown hfree in
lemma blocks_allocated {c : ℕ} (hc : V.nmeta ≤ c) (hcb : c ≠ b) :
    (s.allocated b).blocks c = s.blocks c := by
  have hlt := V.bblock_lt hb
  rw [allocated, write, write]
  dsimp only
  rw [update_of_ne hcb, update_of_ne (by omega)]

omit hown hb hfree in
lemma blocks_allocated_self : (s.allocated b).blocks b = Bytes.zero bsize := by
  rw [allocated, write]
  exact update_self ..

/-- The blocks of an inode are not touched. -/
lemma blocks_allocated_blockAt {j : ℕ} {p : Place} (hj : Alloc V T j)
    (hne : (T j).blockAt s.blocks p ≠ 0) :
    (s.allocated b).blocks ((T j).blockAt s.blocks p) = s.blocks ((T j).blockAt s.blocks p) :=
  blocks_allocated hb (hown.range j p hj hne).1 (hown.blockAt_ne_of_free hb hfree hj)

lemma blockAt_allocated {j : ℕ} (hj : Alloc V T j) (p : Place) :
    (T j).blockAt (s.allocated b).blocks p = (T j).blockAt s.blocks p :=
  blockAt_of_agree (fun _ hne => blocks_allocated_blockAt hown hb hfree hj hne) p

end Allocated

/-! ### One place more -/

/-- The inode table with the copy in entry `k` of the cache in place. -/
def table (s : Fs V) (k : Fin ninode) : ℕ → Dinode :=
  update (dino V s.blocks) (s.inode k).inum (s.inode k).d

@[simp] lemma table_self (s : Fs V) (k : Fin ninode) :
    s.table k (s.inode k).inum = (s.inode k).d := update_self ..

/-- The place `p` of the inode in entry `k` has got the free block `b`: only the addresses of the
inode, the new block and the indirect block are touched. -/
structure Grown (s : Fs V) (k : Fin ninode) (p : Place) (b : ℕ) (s' : Fs V) : Prop where
  lt : b < V.size
  free : used V s.blocks b = false
  inode : s'.inode = update s.inode k { s.inode k with d := (s'.inode k).d }
  fields : (s'.inode k).d = { (s.inode k).d with addrs := (s'.inode k).d.addrs }
  dino : ∀ i < V.ninodes, dino V s'.blocks i = dino V s.blocks i
  used : ∀ c < V.size, used V s'.blocks c = (used V s.blocks c || c = b)
  places : ∀ q, (s'.inode k).d.blockAt s'.blocks q =
    if q = p then b else (s.inode k).d.blockAt s.blocks q
  frame : ∀ c, V.nmeta ≤ c → c ≠ b → c ≠ (s.inode k).d.ind.toNat → s'.blocks c = s.blocks c

section Grown

variable {k : Fin ninode} {p : Place} {b : ℕ} {s' : Fs V}

section

variable (h : Grown s k p b s')

include h

lemma Grown.inum : (s'.inode k).inum = (s.inode k).inum := by
  rw [h.inode, update_self]

lemma Grown.space : s'.space + 1 = s.space := space_of_used h.lt h.free h.used

lemma Grown.type : (s'.inode k).d.type = (s.inode k).d.type := by
  rw [h.fields]

/-- The other inodes are as they were. -/
lemma Grown.table_of_ne {j : ℕ} (hj : j < V.ninodes)
    (hne : j ≠ (s.inode k).inum) : s'.table k j = s.table k j := by
  rw [table, table, h.inum, update_of_ne hne, update_of_ne hne, h.dino j hj]

/-- The blocks of the other inodes are as they were. -/
lemma Grown.agree (hown : Owns V (s.table k) s.blocks)
    (hk : Alloc V (s.table k) (s.inode k).inum) {j : ℕ} (hj : Alloc V (s.table k) j)
    (hne : j ≠ (s.inode k).inum) {q : Place} (hq : (s.table k j).blockAt s.blocks q ≠ 0) :
    s'.blocks ((s.table k j).blockAt s.blocks q) = s.blocks ((s.table k j).blockAt s.blocks q) := by
  refine h.frame _ (hown.range j q hj hq).1 (hown.blockAt_ne_of_free h.lt h.free hj) fun heq => ?_
  -- the indirect block has one owner
  have hind : (s.table k j).blockAt s.blocks q =
      (s.table k (s.inode k).inum).blockAt s.blocks .indirect := by
    rw [heq, table_self]
    rfl
  exact hne (hown.inj j q _ _ hj hk hq hind).1

/-- Every block still has one owner. -/
lemma Grown.owns (hown : Owns V (s.table k) s.blocks)
    (hk : Alloc V (s.table k) (s.inode k).inum) (hp : (s.inode k).d.blockAt s.blocks p = 0) :
    Owns V (s'.table k) s'.blocks := by
  refine hown.grow hk h.lt h.free (p := p) (by rw [table_self]; exact hp) (fun j hj => ?_)
    (fun j q hj => ?_) h.used
  · by_cases hji : j = (s.inode k).inum
    · subst hji
      rw [← h.inum, table_self, h.inum, table_self, h.type]
    · rw [h.table_of_ne hj hji]
  · by_cases hji : j = (s.inode k).inum
    · subst hji
      rw [← h.inum, table_self, h.inum, table_self, h.places]
      simp
    · rw [h.table_of_ne hj.1 hji, if_neg (fun h => hji h.1)]
      exact blockAt_of_agree (fun q hq => h.agree hown hk hj hji hq) q

/-- The inode stays allocated. -/
lemma Grown.alloc (hk : Alloc V (s.table k) (s.inode k).inum) :
    Alloc V (s'.table k) (s'.inode k).inum := by
  refine ⟨by rw [h.inum]; exact hk.1, ?_⟩
  rw [table_self, h.type]
  have := hk.2
  rwa [table_self] at this

end

/-- A data block leaves the indirect slot alone. -/
lemma Grown.ind {bn : ℕ} (h : Grown s k (.data bn) b s') :
    (s'.inode k).d.ind = (s.inode k).d.ind := by
  have hp := h.places .indirect
  rw [if_neg (by simp)] at hp
  exact UInt32.toNat_inj.mp hp

lemma Grown.ne_zero (h : Grown s k p b s') (hown : Owns V (s.table k) s.blocks) : b ≠ 0 := by
  have := hown.nmeta_le_of_free h.lt h.free
  have := V.nmeta_pos
  omega

end Grown

/-- The state after `ip->addrs[i] = v`. -/
def withAddr (s : Fs V) (k : Fin ninode) (i : Fin (ndirect + 1)) (v : UInt32) : Fs V :=
  s.setInode k { s.inode k with d.addrs := update (s.inode k).d.addrs i v }

lemma withAddr_d (s : Fs V) (k : Fin ninode) (i : Fin (ndirect + 1)) (v : UInt32) :
    ((s.withAddr k i v).inode k).d =
      { (s.inode k).d with addrs := update (s.inode k).d.addrs i v } := by
  simp [withAddr, setInode]

lemma toNat_ofNat_block {b : ℕ} (hb : b < V.size) : (UInt32.ofNat b).toNat = b := by
  have := V.fits
  exact UInt32.toNat_ofNat_of_lt' (by simp only [UInt32.size, fssize] at *; omega)

section Grow

variable {k : Fin ninode} {b : ℕ} (hown : Owns V (s.table k) s.blocks)
  (hk : Alloc V (s.table k) (s.inode k).inum) (hb : b < V.size)
  (hfree : used V s.blocks b = false)

include hown hk hb hfree

/-- The places of the inode itself are not touched by an allocation. -/
lemma blockAt_allocated_self (q : Place) :
    (s.inode k).d.blockAt (s.allocated b).blocks q = (s.inode k).d.blockAt s.blocks q := by
  have h := blockAt_allocated hown hb hfree hk q
  rwa [table_self] at h

/-- A direct slot gets a block. -/
lemma grown_direct {bn : ℕ} (hbn : bn < ndirect) :
    Grown s k (.data bn) b
      ((s.allocated b).withAddr k ⟨bn, Nat.lt_succ_of_lt hbn⟩ (UInt32.ofNat b)) := by
  have hd := withAddr_d (s.allocated b) k ⟨bn, Nat.lt_succ_of_lt hbn⟩ (UInt32.ofNat b)
  refine ⟨hb, hfree, by rw [hd]; rfl, by rw [hd]; rfl,
    fun j hj => dino_allocated hown hb hfree hj, fun c hc => used_allocated hown hb hfree hc,
    fun q => ?_, fun c hc hcb _ => blocks_allocated hb hc hcb⟩
  have hind : (((s.allocated b).withAddr k ⟨bn, Nat.lt_succ_of_lt hbn⟩ (UInt32.ofNat b)).inode k).d.ind =
      (s.inode k).d.ind := by
    rw [hd]
    refine update_of_ne (fun h => ?_) _ _
    have := congrArg Fin.val h
    simp only [Fin.val_last] at this
    omega
  rw [← blockAt_allocated_self hown hk hb hfree]
  cases q with
  | indirect =>
    rw [if_neg (by simp), Dinode.blockAt, hind]
    rfl
  | data m =>
    by_cases hm : m < ndirect
    · rw [blockAt_direct hm, blockAt_direct hm, hd]
      by_cases hmb : m = bn
      · subst hmb
        rw [if_pos rfl]
        simp [toNat_ofNat_block hb]
      · rw [if_neg (by simpa using hmb)]
        simp only
        rw [update_of_ne (by simpa using hmb)]
        rfl
    · rw [if_neg (by rintro ⟨⟩; exact hm hbn), Dinode.blockAt, Dinode.blockAt, dif_neg hm,
        dif_neg hm, hind]
      rfl

omit hk in
/-- The indirect slot gets a block. -/
lemma grown_indirect (hzero : (s.inode k).d.ind = 0) :
    Grown s k .indirect b
      ((s.allocated b).withAddr k (Fin.last ndirect) (UInt32.ofNat b)) := by
  have hd := withAddr_d (s.allocated b) k (Fin.last ndirect) (UInt32.ofNat b)
  refine ⟨hb, hfree, by rw [hd]; rfl, by rw [hd]; rfl,
    fun j hj => dino_allocated hown hb hfree hj, fun c hc => used_allocated hown hb hfree hc,
    fun q => ?_, fun c hc hcb _ => blocks_allocated hb hc hcb⟩
  have hind : (((s.allocated b).withAddr k (Fin.last ndirect) (UInt32.ofNat b)).inode k).d.ind =
      UInt32.ofNat b := by
    rw [hd]
    exact update_self (Fin.last ndirect) (UInt32.ofNat b) (s.inode k).d.addrs
  cases q with
  | indirect => rw [if_pos rfl, Dinode.blockAt, hind, toNat_ofNat_block hb]
  | data m =>
    rw [if_neg (by simp)]
    by_cases hm : m < ndirect
    · rw [blockAt_direct hm, blockAt_direct hm, hd]
      simp only
      rw [update_of_ne (by simpa [Fin.ext_iff] using hm.ne)]
      rfl
    · -- the new indirect block has no entries yet
      rw [blockAt_of_ind_eq_zero hm hzero, Dinode.blockAt, dif_neg hm, hind, toNat_ofNat_block hb]
      have hz : ((s.allocated b).withAddr k (Fin.last ndirect) (UInt32.ofNat b)).blocks b =
          Bytes.zero bsize := blocks_allocated_self
      rw [hz, entry_zero]
      simp

/-- An entry of the indirect block gets a block. -/
lemma grown_entry {bn : ℕ} (hbn : ¬ bn < ndirect) (hmax : bn < maxfile)
    (hind : (s.inode k).d.ind ≠ 0) :
    Grown s k (.data bn) b ((s.allocated b).write (s.inode k).d.ind.toNat
      (setEntry (s.blocks (s.inode k).d.ind.toNat) (bn - ndirect) (UInt32.ofNat b))) := by
  set ind := (s.inode k).d.ind with hinddef
  have hne : (s.table k (s.inode k).inum).blockAt s.blocks .indirect ≠ 0 := by
    rw [table_self]
    exact fun h => hind (UInt32.toNat_inj.mp h)
  have hrange := hown.range _ _ hk hne
  rw [table_self] at hrange
  have hrange' : V.nmeta ≤ ind.toNat ∧ ind.toNat < V.size := hrange
  have hmeta := V.bmapstart_lt_nmeta
  refine ⟨hb, hfree, ?_, rfl, fun j hj => ?_, fun c hc => ?_, fun q => ?_, fun c hc hcb hci => ?_⟩
  · exact (update_eq_self k s.inode).symm
  · rw [write]
    rw [dino_update (by omega) hj]
    exact dino_allocated hown hb hfree hj
  · rw [write]
    rw [used_update_data hrange'.1 hc]
    exact used_allocated hown hb hfree hc
  · change (s.inode k).d.blockAt _ q = _
    cases q with
    | indirect => rw [if_neg (by simp), Dinode.blockAt, Dinode.blockAt]
    | data m =>
      by_cases hm : m < ndirect
      · rw [blockAt_direct hm, blockAt_direct hm, if_neg (by rintro ⟨⟩; exact hbn hm)]
      · by_cases hmm : m < maxfile
        · have hj : bn - ndirect < nindirect := by simp only [maxfile] at hmax; omega
          rw [blockAt_entry hm hmm hind, blockAt_entry hm hmm hind, write]
          simp only [← hinddef, update_self]
          rw [entry_setEntry _ hj]
          by_cases hmb : m = bn
          · subst hmb
            rw [if_pos rfl, if_pos rfl, toNat_ofNat_block hb]
          · rw [if_neg (by omega), if_neg (by simpa using hmb)]
        · rw [blockAt_of_maxfile_le (not_lt.mp hmm), blockAt_of_maxfile_le (not_lt.mp hmm),
            if_neg (by rintro ⟨⟩; exact hmm hmax)]
  · rw [write]
    dsimp only
    rw [update_of_ne hci]
    exact blocks_allocated hb hc hcb

end Grow

/-! ### `bmap` -/

lemma slotBlock_spec (s : Fs V) (k : Fin ninode) (i : Fin (ndirect + 1)) :
    wp (slotBlock k i) (fun b s' =>
        ((s.inode k).d.addrs i ≠ 0 ∧ b = ((s.inode k).d.addrs i).toNat ∧ s' = s) ∨
        ((s.inode k).d.addrs i = 0 ∧ b < V.size ∧ used V s.blocks b = false ∧
          s' = (s.allocated b).withAddr k i (UInt32.ofNat b)))
      (fun e => e = .panic .ballocOut ∧ (s.inode k).d.addrs i = 0 ∧ s.space = 0) s := by
  simp only [slotBlock, wp_bind, wp_get]
  split_ifs with h
  · rw [wp_bind]
    refine wp_mono (balloc_spec s) ?_ fun _ he => ⟨he.1, h, he.2⟩
    rintro b s' ⟨rfl, hb, hfree⟩
    exact .inr ⟨h, hb, hfree, rfl⟩
  · exact .inl ⟨h, rfl, rfl⟩

/-- What `bmap` does on block `bn` of a file of `K` blocks: it returns the block at that place,
which is a new one if there was none, and leaves everything else as it was. -/
structure Bmapped (s : Fs V) (k : Fin ninode) (bn K b : ℕ) (s' : Fs V) : Prop where
  inode : s'.inode = update s.inode k { s.inode k with d := (s'.inode k).d }
  fields : (s'.inode k).d = { (s.inode k).d with addrs := (s'.inode k).d.addrs }
  dino : ∀ i < V.ninodes, dino V s'.blocks i = dino V s.blocks i
  owns : Owns V (s'.table k) s'.blocks
  shape : Shape (s'.inode k).d s'.blocks (max K (bn + 1))
  block : b = (s'.inode k).d.blockAt s'.blocks (.data bn)
  old : ∀ m < K, (s'.inode k).d.blockAt s'.blocks (.data m) =
    (s.inode k).d.blockAt s.blocks (.data m)
  ind : (s.inode k).d.ind ≠ 0 → (s'.inode k).d.ind = (s.inode k).d.ind
  same : bn < K → s' = s
  frame : ∀ c, V.nmeta ≤ c → c < V.size → used V s.blocks c = true →
    c ≠ (s.inode k).d.ind.toNat → s'.blocks c = s.blocks c
  logged : ∀ c, c ∈ s'.logged ↔ c ∈ s.logged ∨ (K ≤ bn ∧ (c = b ∨ c = V.bblock b ∨
    (ndirect ≤ bn ∧ (c = (s'.inode k).d.ind.toNat ∨
      (bn = ndirect ∧ c = V.bblock (s'.inode k).d.ind.toNat)))))

section Bmap

variable {k : Fin ninode} {b bn K : ℕ} {s' : Fs V}

/-- The block was there. -/
lemma Bmapped.of_lt (hown : Owns V (s.table k) s.blocks) (hshape : Shape (s.inode k).d s.blocks K)
    (hbn : bn < K) (hb : b = (s.inode k).d.blockAt s.blocks (.data bn)) :
    Bmapped s k bn K b s := by
  refine ⟨(update_eq_self k s.inode).symm, rfl, fun _ _ => rfl, hown, ?_, hb,
    fun _ _ => rfl, fun _ => rfl, fun _ => rfl, fun _ _ _ _ _ => rfl, fun c => ?_⟩
  · rwa [max_eq_left (by omega)]
  · simp [not_le.mpr hbn]

/-- The shape after a place more. -/
lemma Grown.shape (h : Grown s k (.data K) b s') (hown : Owns V (s.table k) s.blocks)
    (hK : K < maxfile) (hdata : ∀ m, (s.inode k).d.blockAt s.blocks (.data m) ≠ 0 ↔ m < K)
    (hind : (s.inode k).d.blockAt s.blocks .indirect ≠ 0 ↔ ndirect < K + 1) :
    Shape (s'.inode k).d s'.blocks (K + 1) := by
  refine ⟨hK, fun m => ?_, ?_⟩
  · rw [h.places]
    by_cases hm : m = K
    · subst hm
      simp [h.ne_zero hown]
    · rw [if_neg (by simpa using hm), hdata]
      omega
  · rw [h.places, if_neg (by simp)]
    exact hind

/-- The entry of the indirect block for a block of the file, or for the one just behind them. -/
lemma entryBlock_spec (hown : Owns V (s.table k) s.blocks)
    (hk : Alloc V (s.table k) (s.inode k).inum) (hind : (s.inode k).d.ind ≠ 0)
    (hdata : (s.inode k).d.blockAt s.blocks (.data bn) ≠ 0 ↔ bn < K) (hbn : bn ≤ K)
    (hdir : ¬ bn < ndirect) (hmax : bn < maxfile) :
    wp (entryBlock (s.inode k).d.ind.toNat (bn - ndirect)) (fun b s' =>
        (bn < K ∧ b = (s.inode k).d.blockAt s.blocks (.data bn) ∧ s' = s) ∨
        (bn = K ∧ Grown s k (.data bn) b s' ∧
          s'.logged = s.logged ++ [V.bblock b, b, (s.inode k).d.ind.toNat]))
      (fun e => e = .panic .ballocOut ∧ bn = K ∧ s.space = 0) s := by
  rw [blockAt_entry hdir hmax hind] at hdata
  rw [blockAt_entry hdir hmax hind]
  simp only [entryBlock, bread, wp_bind, wp_get, wp_pure]
  split_ifs with hz
  · have hlt : ¬ bn < K := fun h => hdata.mpr h (by rw [hz]; rfl)
    rw [wp_bind]
    refine wp_mono (balloc_spec s) ?_ fun _ he => ⟨he.1, by omega, he.2⟩
    rintro b s' ⟨rfl, hb, hfree⟩
    refine .inr ⟨by omega, grown_entry hown hk hb hfree hdir hmax hind, ?_⟩
    simp [write, allocated]
  · exact .inl ⟨hdata.mp fun h => hz (UInt32.toNat_inj.mp h), rfl, rfl⟩

/-- A place more, without a new indirect block. -/
lemma Bmapped.of_grown (hg : Grown s k (.data K) b s') (hown : Owns V (s.table k) s.blocks)
    (hk : Alloc V (s.table k) (s.inode k).inum) (hshape : Shape (s.inode k).d s.blocks K)
    (hmax : K < maxfile) (hK : K ≠ ndirect) (hlog : ∀ c, c ∈ s'.logged ↔ c ∈ s.logged ∨ (c = b ∨
      c = V.bblock b ∨ (ndirect ≤ K ∧ c = (s'.inode k).d.ind.toNat))) : Bmapped s k K K b s' := by
  have hzero : (s.inode k).d.blockAt s.blocks (.data K) = 0 := by
    by_contra h
    exact absurd ((hshape.data K).mp h) (lt_irrefl K)
  refine ⟨hg.inode, hg.fields, hg.dino, hg.owns hown hk hzero, ?_, ?_, fun m hm => ?_, fun _ => hg.ind,
    fun h => absurd h (lt_irrefl K), fun c hc _ hu hci => hg.frame c hc ?_ hci, fun c => ?_⟩
  · rw [max_eq_right (by omega)]
    refine hg.shape hown hmax hshape.data ?_
    rw [hshape.indirect]
    omega
  · rw [hg.places, if_pos rfl]
  · rw [hg.places, if_neg (by simpa using hm.ne)]
  · rintro rfl
    have := hg.free
    rw [hu] at this
    nomatch this
  · simp [hlog, hK]

/-- **What `bmap` does** on a block of the file, or on the one just behind them. -/
lemma bmap_spec (hown : Owns V (s.table k) s.blocks) (hk : Alloc V (s.table k) (s.inode k).inum)
    (hshape : Shape (s.inode k).d s.blocks K) (hbn : bn ≤ K) (hmax : bn < maxfile) :
    wp (bmap k bn) (fun b s' => Bmapped s k bn K b s' ∧ Takes s K (bn + 1) s')
      (fun e => e = .panic .ballocOut ∧ Short s K (bn + 1)) s := by
  have hdata := hshape.data bn
  have hindir := hshape.indirect
  rw [bmap]
  split_ifs with hdir hrange
  · -- a direct slot
    rw [blockAt_direct hdir] at hdata
    have hend : (s.inode k).d.addrs ⟨bn, by omega⟩ = 0 → K = bn := by
      intro hzero
      have : ¬ bn < K := fun h => hdata.mpr h (by rw [hzero]; rfl)
      omega
    refine wp_mono (slotBlock_spec s k _) ?_ fun e he => ⟨he.1, ?_⟩
    rintro b s' (⟨hne, rfl, rfl⟩ | ⟨hzero, hb, hfree, rfl⟩)
    · have hlt := hdata.mp fun h => hne (UInt32.toNat_inj.mp h)
      exact ⟨Bmapped.of_lt hown hshape hlt (by rw [blockAt_direct hdir]), .of_le hlt⟩
    · obtain rfl := hend hzero
      have hg := grown_direct hown hk hb hfree hdir
      refine ⟨.of_grown hg hown hk hshape hmax hdir.ne fun c => ?_,
        .succ (by rw [if_neg hdir.ne]; exact hg.space)⟩
      simp only [withAddr, setInode, allocated, write, List.append_assoc, List.mem_append]
      simp [not_le.mpr hdir, or_comm]
    · obtain rfl := hend he.2.1
      exact .succ (by rw [if_neg hdir.ne, he.2.2]; exact Nat.one_pos)
  · rw [wp_bind]
    have hend : (s.inode k).d.addrs (Fin.last ndirect) = 0 → K = bn ∧ bn = ndirect := by
      intro hzero
      have hK : ¬ ndirect < K := fun h => hindir.mpr h (by
        rw [Dinode.blockAt, Dinode.ind, hzero]
        rfl)
      omega
    refine wp_mono (slotBlock_spec s k _) ?_ fun e he => ⟨he.1, ?_⟩
    rintro ind s₁ (⟨hne, rfl, rfl⟩ | ⟨hzero, hb₁, hfree₁, rfl⟩)
    · -- the indirect block is there
      have hK : ndirect < K := hindir.mp fun h => hne (UInt32.toNat_inj.mp h)
      refine wp_mono (entryBlock_spec hown hk hne hdata hbn hdir hmax) ?_ fun e he => ⟨he.1, ?_⟩
      rintro b s' (⟨hlt, hb, rfl⟩ | ⟨rfl, hg, hlog⟩)
      · exact ⟨Bmapped.of_lt hown hshape hlt hb, .of_le hlt⟩
      · refine ⟨.of_grown hg hown hk hshape hmax hK.ne' fun c => ?_,
          .succ (by rw [if_neg hK.ne']; exact hg.space)⟩
        rw [hlog, hg.ind]
        simp only [List.mem_append, List.mem_cons, List.not_mem_nil, or_false, hK.le, true_and]
        tauto
      · obtain ⟨-, rfl, hspace⟩ := he
        exact .succ (by rw [if_neg hK.ne', hspace]; exact Nat.one_pos)
    · -- the file has had direct blocks only: the indirect block is allocated first
      have hg₁ := grown_indirect hown hb₁ hfree₁ hzero
      set s₁ := (s.allocated ind).withAddr k (Fin.last ndirect) (UInt32.ofNat ind) with hs₁
      have hp₁ : (s.inode k).d.blockAt s.blocks .indirect = 0 := by
        rw [Dinode.blockAt, Dinode.ind, hzero]
        rfl
      have hown₁ := hg₁.owns hown hk hp₁
      have hind₁ : (s₁.inode k).d.ind.toNat = ind := by
        have h := hg₁.places .indirect
        rwa [if_pos rfl] at h
      have hne₁ : (s₁.inode k).d.ind ≠ 0 := by
        intro h
        rw [h] at hind₁
        exact hg₁.ne_zero hown hind₁.symm
      obtain ⟨rfl, hbn'⟩ := hend hzero
      have hspace₁ := hg₁.space
      have hdata₁ : ∀ m, (s₁.inode k).d.blockAt s₁.blocks (.data m) =
          (s.inode k).d.blockAt s.blocks (.data m) := by
        intro m
        rw [hg₁.places, if_neg (by simp)]
      have hspec := entryBlock_spec hown₁ (hg₁.alloc hk) hne₁ (by rw [hdata₁]; exact hdata) hbn hdir
        hmax
      rw [hind₁] at hspec
      refine wp_mono hspec ?_ fun e he => ⟨he.1, .succ ?_⟩
      rintro b s' (⟨hlt, _, _⟩ | ⟨-, hg, hlog⟩)
      · omega
      · have hind' : (s'.inode k).d.ind.toNat = ind := by rw [hg.ind, hind₁]
        have hlog₁ : s₁.logged = s.logged ++ [V.bblock ind, ind] := by
          simp [hs₁, withAddr, setInode, allocated, write]
        have hspace := hg.space
        refine ⟨⟨?_, ?_, fun i hi => (hg.dino i hi).trans (hg₁.dino i hi),
          hg.owns hown₁ (hg₁.alloc hk) ?_, ?_, ?_, fun m hm => ?_, fun h => absurd hzero h,
          fun h => absurd h (by omega), fun c hc hcs hu hci => ?_, fun c => ?_⟩,
          .succ (by rw [if_pos hbn']; omega)⟩
        · rw [hg.inode, hg₁.inode]
          simp
        · rw [hg.fields, hg₁.fields]
        · rw [hdata₁]
          by_contra h
          exact absurd (hdata.mp h) (lt_irrefl _)
        · rw [max_eq_right (by omega)]
          refine hg.shape hown₁ hmax (fun m => by rw [hdata₁]; exact hshape.data m) ?_
          simp only [Dinode.blockAt, hind₁, hbn']
          simp [hg₁.ne_zero hown]
        · rw [hg.places, if_pos rfl]
        · rw [hg.places, if_neg (by simpa using hm.ne), hdata₁]
        · have hcind : c ≠ ind := by
            rintro rfl
            rw [hu] at hfree₁
            cases hfree₁
          have hcb : c ≠ b := by
            rintro rfl
            have h := hg.free
            rw [hg₁.used c hcs, hu] at h
            cases h
          rw [hg.frame c hc hcb (by rw [hind₁]; exact hcind), hg₁.frame c hc hcind hci]
        · rw [hlog, hlog₁, hind']
          simp only [List.mem_append, List.mem_cons, List.not_mem_nil, or_false]
          simp only [le_refl, true_and, hbn']
          clear * -
          tauto
      · rw [if_pos hbn']
        omega
    · obtain ⟨rfl, hbn'⟩ := hend he.2.1
      exact .succ (by rw [if_pos hbn', he.2.2]; exact Nat.two_pos)
  · simp only [maxfile] at hmax
    omega

end Bmap

end Fs

end Col331
