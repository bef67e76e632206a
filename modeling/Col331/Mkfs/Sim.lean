import Col331.Mkfs.Steps
import Col331.Fs.Content

/-!
`iappend` of `mkfs` against `writei` of the kernel.

`mkfs` hands out blocks in order and writes the free map at the end; the kernel searches the map.  On a
disk whose map marks the blocks below `freeblock` and on which the blocks behind them are zero, the two
do the same.

* `view`: the layout of `mkfs` with the inode area pulled down by a block, so that every inode that
  fits before the free map has a number below `ninodes`.
* `Sees s β`: the disk `β` of layout `view` is what the image of `mkfs` stands for.
* `balloc_sim`, `appendBlock_sim`, `appendRound_sim`, `appendLoop_sim`: step by step, both return in
  related states, or neither returns.
-/

namespace Col331

open Function Prog

namespace Mkfs

/-- The layout of `mkfs`, with the inodes one block earlier. -/
def view : Volume where
  size := fssize
  nblocks := 941
  ninodes := 208
  nlog := 29
  logstart := 2
  inodestart := 31
  bmapstart := 58
  devsw _ := none
  logEnd := by decide
  inodeEnd := by decide
  bmapEnd := @Nat.le.refl fssize
  rootIno := by decide
  inums := by decide
  fits := @Nat.le.refl fssize

/-- The image of `mkfs` stands for the disk `β`, on which the free map marks the blocks handed out so
far. -/
structure Sees (s : State) (β : Disk) : Prop where
  len : s.len = fssize
  le : s.freeblock ≤ fssize
  fresh : ∀ b, s.freeblock ≤ b → s.blocks b = Bytes.zero bsize
  data : ∀ b, view.nmeta ≤ b → β b = s.blocks b
  map : ∀ c < fssize, used view β c = decide (c < s.freeblock)
  table : ∀ i < view.ninodes, dino view β i = dino mkfsVolume s.blocks i

lemma sector_of_lt {b : ℕ} (h : b ≤ fssize) : sector b = b := by
  simp only [sector, bsize, fssize] at *
  omega

lemma rsect_run {s : State} {b : ℕ} (hlen : s.len = fssize) (hb : b < fssize) :
    rsect b s = .ok (s.blocks b, s) := by
  rw [rsect, bind_ok (get_run s), sector_of_lt hb.le, if_pos (by omega), pure_run]

lemma rsect_end {s : State} (hlen : s.len = fssize) : rsect fssize s = .error .exit1 := by
  rw [rsect, bind_ok (get_run s), sector_of_lt le_rfl, if_neg (by omega), throw_run]

lemma wsect_run {s : State} {b : ℕ} (hlen : s.len = fssize) (hb : b < fssize) (v : Block) :
    wsect b v s = .ok ((), { s with blocks := update s.blocks b v }) := by
  rw [wsect, modify_run, sector_of_lt hb.le, max_eq_left (by omega)]

/-! ### One sector -/

section Sectors

variable {s : State} {β : Disk}

lemma Sees.write (h : Sees s β) {b : ℕ} (hb : view.nmeta ≤ b) (hlt : b < s.freeblock) (v : Block) :
    Sees { s with blocks := update s.blocks b v } (update β b v) := by
  have hmeta := view.bmapstart_lt_nmeta
  refine ⟨h.len, h.le, fun c hc => ?_, fun c hc => ?_, fun c hc => ?_, fun i hi => ?_⟩
  · have hc : s.freeblock ≤ c := hc
    dsimp only
    rw [update_of_ne (by omega)]
    exact h.fresh c hc
  · dsimp only
    rw [update_apply, update_apply, h.data c hc]
  · rw [used_update_data hb hc]
    exact h.map c hc
  · rw [dino_update (by omega) hi, h.table i hi, dino, dino]
    dsimp only
    rw [update_of_ne]
    have hi : i < 208 := hi
    have hb : 59 ≤ b := hb
    simp only [Volume.iblock, mkfsVolume, ipb, bsize]
    omega

end Sectors

/-! ### `balloc` -/

section Blocks

variable {s : State} {σ : Fs view} {k : Fin ninode}

/-- The search of `balloc` ends at `freeblock`. -/
lemma Sees.firstFree (h : Sees s σ.blocks) :
    σ.firstFree = if s.freeblock < fssize then some s.freeblock else none := by
  have hbit : ∀ bi < fssize, (σ.blocks view.bmapstart).bit bi = decide (bi < s.freeblock) := by
    intro bi hbi
    have hmap := h.map bi hbi
    have hmod : bi % bpb = bi := Nat.mod_eq_of_lt (by simp only [bpb, bsize, fssize] at *; omega)
    rwa [used, view.bblock_eq hbi, hmod] at hmap
  have hfind : σ.firstFree = (List.range bpb).find? fun bi =>
      bi < fssize ∧ (σ.blocks view.bmapstart).bit bi = false := by
    rw [Fs.firstFree]
    change (List.range 1).findSome? _ = _
    rw [List.range_one, List.findSome?_singleton, view.bblock_eq (by decide)]
    simp only [Nat.zero_mul, Nat.zero_add]
    exact Option.map_id'
  rw [hfind]
  split_ifs with hlt
  · refine List.find?_range_eq_some.mpr ⟨?_, ?_, fun j hj => ?_⟩
    · rw [hbit _ hlt]
      simpa using hlt
    · simp only [bpb, bsize, fssize, List.mem_range] at *
      omega
    · rw [hbit j (by omega)]
      simp [hj]
  · refine List.find?_eq_none.mpr fun bi _ hbi => ?_
    rw [decide_eq_true_eq] at hbi
    rw [hbit bi hbi.1, decide_eq_false_iff_not] at hbi
    omega

lemma Sees.unused (h : Sees s σ.blocks) (hlt : s.freeblock < fssize) :
    used view σ.blocks s.freeblock = false := by
  rw [h.map _ hlt, decide_eq_false (lt_irrefl _)]

lemma balloc_ok (h : Sees s σ.blocks) (hlt : s.freeblock < fssize) :
    Fs.balloc σ = .ok (s.freeblock, σ.allocated s.freeblock) := by
  have hfind := h.firstFree
  rw [if_pos hlt] at hfind
  simp [Fs.balloc, bind_run, map_run, hfind, Fs.logWrite, Fs.bzero, Fs.allocated]

lemma balloc_full (h : Sees s σ.blocks) (hfull : ¬ s.freeblock < fssize) :
    Fs.balloc σ = .error (.panic .ballocOut) := by
  have hfind := h.firstFree
  rw [if_neg hfull] at hfind
  simp [Fs.balloc, bind_run, hfind]

lemma newBlock_run (s : State) :
    newBlock s = .ok (s.freeblock, { s with freeblock := s.freeblock + 1 }) := rfl

/-- `freeblock++` is an allocation: the block it gives is zero already. -/
lemma Sees.allocated (h : Sees s σ.blocks) (hown : Owns view (σ.table k) σ.blocks)
    (hlt : s.freeblock < fssize) :
    Sees { s with freeblock := s.freeblock + 1 } (σ.allocated s.freeblock).blocks := by
  have hfree := h.unused hlt
  refine ⟨h.len, hlt, fun b hb => h.fresh b (Nat.le_of_succ_le hb), fun b hb => ?_, fun c hc => ?_,
    fun i hi => ?_⟩
  · by_cases hbf : b = s.freeblock
    · rw [hbf, Fs.blocks_allocated_self]
      exact (h.fresh _ le_rfl).symm
    · rw [Fs.blocks_allocated hlt hb hbf]
      exact h.data b hb
  · rw [Fs.used_allocated hown hlt hfree hc, h.map c hc]
    dsimp only
    rw [← Bool.decide_or]
    exact decide_eq_decide.mpr (by omega)
  · rw [Fs.dino_allocated hown hlt hfree hi]
    exact h.table i hi

lemma toNat_freeblock (h : Sees s σ.blocks) : (UInt32.ofNat s.freeblock).toNat = s.freeblock := by
  have hle := h.le
  refine UInt32.toNat_ofNat_of_lt' ?_
  simp only [UInt32.size, fssize] at *
  omega

/-! ### The block of an offset -/

/-- A slot of the inode. -/
lemma fillSlot_sim (h : Sees s σ.blocks) (hown : Owns view (σ.table k) σ.blocks)
    (i : Fin (ndirect + 1)) :
    (∃ σ' s', Fs.slotBlock k i σ = .ok (((σ'.inode k).d.addrs i).toNat, σ') ∧
        fillSlot (σ.inode k).d i s = .ok ((σ'.inode k).d, s') ∧ Sees s' σ'.blocks) ∨
      ((∃ e, Fs.slotBlock k i σ = .error e) ∧ ∃ d s', fillSlot (σ.inode k).d i s = .ok (d, s') ∧
        (d.addrs i).toNat = fssize ∧ s'.len = fssize) := by
  rw [Fs.slotBlock, bind_ok (get_run σ), fillSlot]
  by_cases hzero : (σ.inode k).d.addrs i = 0
  · rw [if_pos hzero, if_pos hzero, bind_ok (newBlock_run s), pure_run]
    by_cases hlt : s.freeblock < fssize
    · refine .inl ⟨(σ.allocated s.freeblock).withAddr k i (UInt32.ofNat s.freeblock), _, ?_, ?_,
        h.allocated hown hlt⟩
      · rw [bind_ok (balloc_ok h hlt), Fs.withAddr_d]
        simp only [update_self, toNat_freeblock h]
        rfl
      · rw [Fs.withAddr_d]
        rfl
    · refine .inr ⟨⟨_, bind_error (balloc_full h hlt) _⟩, _, _, rfl, ?_, h.len⟩
      have hle := h.le
      simp only [update_self, toNat_freeblock h]
      omega
  · rw [if_neg hzero, if_neg hzero]
    exact .inl ⟨σ, s, rfl, rfl, h⟩

/-- An entry of the indirect block. -/
lemma fillEntry_sim (h : Sees s σ.blocks) (hown : Owns view (σ.table k) σ.blocks) {ind : UInt32}
    (hind : view.nmeta ≤ ind.toNat) (hlt : ind.toNat < s.freeblock) (j : ℕ) :
    (∃ x σ' s', Fs.entryBlock ind.toNat j σ = .ok (UInt32.toNat x, σ') ∧
        fillEntry ind j s = .ok (x, s') ∧ Sees s' σ'.blocks ∧ σ'.inode = σ.inode) ∨
      ((∃ e, Fs.entryBlock ind.toNat j σ = .error e) ∧ ∃ x s', fillEntry ind j s = .ok (x, s') ∧
        x.toNat = fssize ∧ s'.len = fssize) := by
  have hle := h.le
  rw [Fs.entryBlock, fillEntry, bind_ok (rsect_run h.len (by omega)), ← h.data _ hind]
  change (∃ x σ' s', (if entry (σ.blocks ind.toNat) j = 0 then _ else _ : Kern (Fs view) ℕ) σ = _ ∧
    _) ∨ ((∃ e, (if entry (σ.blocks ind.toNat) j = 0 then _ else _ : Kern (Fs view) ℕ) σ = _) ∧ _)
  by_cases hzero : entry (σ.blocks ind.toNat) j = 0
  · rw [if_pos hzero, if_pos hzero, bind_ok (newBlock_run s)]
    by_cases hroom : s.freeblock < fssize
    · have hsees := (h.allocated hown hroom).write hind (Nat.lt_succ_of_lt hlt)
        (setEntry (σ.blocks ind.toNat) j (UInt32.ofNat s.freeblock))
      refine .inl ⟨UInt32.ofNat s.freeblock, (σ.allocated s.freeblock).write ind.toNat
        (setEntry (σ.blocks ind.toNat) j (UInt32.ofNat s.freeblock)), _, ?_, ?_, hsees, rfl⟩
      · rw [bind_ok (balloc_ok h hroom), toNat_freeblock h]
        rfl
      · have hw := @wsect_run { s with freeblock := s.freeblock + 1 } ind.toNat h.len (by omega)
          (setEntry (σ.blocks ind.toNat) j (UInt32.ofNat s.freeblock))
        rw [bind_ok hw, pure_run]
    · refine .inr ⟨⟨_, bind_error (balloc_full h hroom) _⟩, UInt32.ofNat s.freeblock, ?_⟩
      have hw := @wsect_run { s with freeblock := s.freeblock + 1 } ind.toNat h.len (by omega)
        (setEntry (σ.blocks ind.toNat) j (UInt32.ofNat s.freeblock))
      rw [bind_ok hw, pure_run, toNat_freeblock h]
      exact ⟨_, rfl, by omega, h.len⟩
  · rw [if_neg hzero, if_neg hzero]
    exact .inl ⟨_, σ, s, rfl, rfl, h, rfl⟩

variable {K : ℕ}

/-- A block of the file has been handed out. -/
lemma Sees.lt_freeblock (h : Sees s σ.blocks) (hw : Fs.Working σ k K) {p : Place}
    (hne : (σ.inode k).d.blockAt σ.blocks p ≠ 0) :
    (σ.inode k).d.blockAt σ.blocks p < s.freeblock := by
  have hused := hw.owns.used_of_blockAt (p := p) hw.alloc (by rwa [Fs.table_self])
  rw [Fs.table_self, h.map _ (hw.range hne).2, decide_eq_true_eq] at hused
  exact hused

/-- Once the indirect slot is filled. -/
lemma slotBlock_last {b : ℕ} {σ' : Fs view} (hw : Fs.Working σ k K)
    (hrun : Fs.slotBlock k (Fin.last ndirect) σ = .ok (b, σ')) :
    Owns view (σ'.table k) σ'.blocks ∧ Alloc view (σ'.table k) (σ'.inode k).inum ∧
      (σ'.inode k).d.ind ≠ 0 := by
  have hspec := Fs.slotBlock_spec σ k (Fin.last ndirect)
  rw [wp_of_ok hrun] at hspec
  rcases hspec with ⟨hne, -, rfl⟩ | ⟨hzero, hb, hfree, rfl⟩
  · exact ⟨hw.owns, hw.alloc, hne⟩
  · have hg := Fs.grown_indirect hw.owns hb hfree hzero
    have hp : (σ.inode k).d.blockAt σ.blocks .indirect = 0 := by
      rw [Dinode.blockAt, Dinode.ind, hzero]
      rfl
    refine ⟨hg.owns hw.owns hw.alloc hp, hg.alloc hw.alloc, fun h0 => ?_⟩
    have hplace := hg.places .indirect
    rw [if_pos rfl, Dinode.blockAt, h0] at hplace
    exact hg.ne_zero hw.owns hplace.symm

/-- **`bmap` and its counterpart in `iappend`** return the same block, or the block that `mkfs` takes
is behind the end of the image. -/
lemma appendBlock_sim (h : Sees s σ.blocks) (hw : Fs.Working σ k K) {bn : ℕ} (hmax : bn < maxfile) :
    (∃ x σ' s', Fs.bmap k bn σ = .ok (UInt32.toNat x, σ') ∧
        appendBlock (σ.inode k).d bn s = .ok ((x, (σ'.inode k).d), s') ∧ Sees s' σ'.blocks) ∨
      ((∃ e, Fs.bmap k bn σ = .error e) ∧ ((∃ e, appendBlock (σ.inode k).d bn s = .error e) ∨
        ∃ x d s', appendBlock (σ.inode k).d bn s = .ok ((x, d), s') ∧ x.toNat = fssize ∧
          s'.len = fssize)) := by
  rw [Fs.bmap, appendBlock]
  by_cases hdir : bn < ndirect
  · rw [dif_pos hdir, dif_pos hdir]
    rcases fillSlot_sim h hw.owns ⟨bn, Nat.lt_succ_of_lt hdir⟩ with
      ⟨σ', s', hker, hmk, hsees⟩ | ⟨hker, d, s', hmk, hx, hlen⟩
    · exact .inl ⟨_, σ', s', hker, by rw [bind_ok hmk, pure_run], hsees⟩
    · exact .inr ⟨hker, .inr ⟨_, d, s', by rw [bind_ok hmk, pure_run], hx, hlen⟩⟩
  · have hrange : bn - ndirect < nindirect := by simp only [maxfile] at hmax; omega
    rw [dif_neg hdir, dif_neg hdir, if_pos hrange]
    rcases fillSlot_sim h hw.owns (Fin.last ndirect) with
      ⟨σ₁, s₁, hker₁, hmk₁, hsees₁⟩ | ⟨⟨e, hker⟩, d, s', hmk, hx, hlen⟩
    · rw [bind_ok hker₁, bind_ok hmk₁]
      obtain ⟨hown, halloc, hne⟩ := slotBlock_last hw hker₁
      have hne' : (σ₁.table k (σ₁.inode k).inum).blockAt σ₁.blocks .indirect ≠ 0 := by
        rw [Fs.table_self]
        exact fun h0 => hne (UInt32.toNat_inj.mp h0)
      have hr := hown.range _ _ halloc hne'
      have hused := hown.used_of_blockAt halloc hne'
      rw [Fs.table_self] at hr hused
      rw [hsees₁.map _ hr.2, decide_eq_true_eq] at hused
      rcases fillEntry_sim hsees₁ hown hr.1 hused (bn - ndirect) with
        ⟨x, σ', s', hker, hmk, hsees, hinode⟩ | ⟨hker, x, s', hmk, hx, hlen⟩
      · refine .inl ⟨x, σ', s', hker, ?_, hsees⟩
        rw [hinode]
        exact (bind_ok hmk _).trans rfl
      · exact .inr ⟨hker, .inr ⟨x, _, s', (bind_ok hmk _).trans rfl, hx, hlen⟩⟩
    · rw [bind_error hker, bind_ok hmk]
      have hrs : rsect d.ind.toNat s' = .error .exit1 := by
        rw [Dinode.ind, hx]
        exact rsect_end hlen
      refine .inr ⟨⟨e, rfl⟩, .inl ⟨.exit1, bind_error ?_ _⟩⟩
      rw [fillEntry]
      exact bind_error hrs _

/-! ### The loop -/

/-- A round of the loop of `writei`. -/
def writeRound (k : Fin ninode) (off : ℕ) (xs : List UInt8) : Kern (Fs view) Unit := do
  let b ← Fs.bmap k (off / bsize)
  let bp ← Fs.bread b
  Fs.logWrite b (bp.splice (off % bsize) xs)

/-- **A round of `iappend` is one of `writei`.** -/
lemma appendRound_sim (h : Sees s σ.blocks) (hw : Fs.Working σ k K) {off : ℕ} {xs : List UInt8}
    (hoff : off ≤ K * bsize) (hmax : off / bsize < maxfile) :
    (∃ σ' s', writeRound k off xs σ = .ok ((), σ') ∧
        appendRound (σ.inode k).d off xs s = .ok ((σ'.inode k).d, s') ∧ Sees s' σ'.blocks) ∨
      ((∃ e, writeRound k off xs σ = .error e) ∧ ∃ e, appendRound (σ.inode k).d off xs s = .error e) := by
  have hmod : off - off / bsize * bsize = off % bsize := by simp only [bsize]; omega
  have hassert : assert (off / bsize < maxfile) s = .ok ((), s) := by
    rw [assert, if_pos hmax, pure_run]
  rw [writeRound, appendRound, bind_ok hassert, hmod]
  rcases appendBlock_sim h hw hmax with
    ⟨x, σ', s', hker, hmk, hsees⟩ | ⟨⟨e, hker⟩, ⟨e', hmk⟩ | ⟨x, d, s', hmk, hx, hlen⟩⟩
  · rw [bind_ok hker, bind_ok hmk]
    have hbm := Fs.bmap_spec hw.owns hw.alloc hw.shape (Nat.div_le_of_le_mul (by rwa [Nat.mul_comm])) hmax
    rw [wp_of_ok hker] at hbm
    replace hbm := hbm.1
    have hw' := hbm.working hw
    have hne := (hw'.shape.data (off / bsize)).mpr (by omega)
    have hr := (hw'.range hne).1
    have hlt := hsees.lt_freeblock hw' hne
    rw [← hbm.block] at hr hlt
    have hle := hsees.le
    refine .inl ⟨σ'.write x.toNat ((σ'.blocks x.toNat).splice (off % bsize) xs), _, rfl, ?_,
      hsees.write hr hlt _⟩
    dsimp only
    rw [bind_ok (rsect_run hsees.len (by omega)),
      bind_ok (wsect_run hsees.len (by omega) _), pure_run, ← hsees.data _ hr]
    rfl
  · exact .inr ⟨⟨e, bind_error hker _⟩, e', bind_error hmk _⟩
  · refine .inr ⟨⟨e, bind_error hker _⟩, .exit1, ?_⟩
    rw [bind_ok hmk]
    refine bind_error ?_ _
    rw [hx]
    exact rsect_end hlen

end Blocks

/-- **The loop of `iappend` is that of `writei`.** -/
lemma appendLoop_sim {k : Fin ninode} : ∀ (fuel : ℕ) {s : State} {σ : Fs view} {K off : ℕ}
    {src : List UInt8}, src.length ≤ fuel → Sees s σ.blocks → Fs.Working σ k K → off ≤ K * bsize →
    off + src.length ≤ maxfile * bsize →
    (∃ σ' s', Fs.writeLoop k fuel off src σ = .ok ((), σ') ∧
        appendLoop fuel (σ.inode k).d off src s = .ok (((σ'.inode k).d, off + src.length), s') ∧
        Sees s' σ'.blocks) ∨
      ((∃ e, Fs.writeLoop k fuel off src σ = .error e) ∧
        ∃ e, appendLoop fuel (σ.inode k).d off src s = .error e) := by
  intro fuel
  induction fuel with
  | zero =>
    intro s σ K off src hfuel h _ _ _
    obtain rfl := List.length_eq_zero_iff.mp (Nat.le_zero.mp hfuel)
    exact .inl ⟨σ, s, rfl, rfl, h⟩
  | succ fuel ih =>
    intro s σ K off src hfuel h hw hoff hmax
    by_cases hsrc : src = []
    · subst hsrc
      exact .inl ⟨σ, s, rfl, rfl, h⟩
    have hpos : 0 < src.length := List.length_pos_iff.mpr hsrc
    have hn1 : (off / bsize + 1) * bsize - off = bsize - off % bsize := by simp only [bsize]; omega
    set m := min src.length (bsize - off % bsize) with hm
    have hmlt : 0 < m ∧ m ≤ src.length ∧ off % bsize + m ≤ bsize := by
      simp only [bsize] at *
      omega
    have hloop : Fs.writeLoop k (fuel + 1) off src σ =
        (writeRound k off (src.take m) >>= fun _ => Fs.writeLoop k fuel (off + m) (src.drop m)) σ := by
      rw [Fs.writeLoop, if_neg hsrc, writeRound]
      simp only [bind_assoc]
      rfl
    have hlen : (src.take m).length = m := by rw [List.length_take]; omega
    rw [hloop, appendLoop, if_neg hsrc, hn1, ← hm]
    rcases @appendRound_sim s σ k K h hw off (src.take m) hoff (by simp only [bsize] at *; omega) with
      ⟨σ₁, s₁, hker₁, hmk₁, hsees₁⟩ | ⟨⟨e, hker⟩, e', hmk⟩
    · have hspec := @Fs.round_spec view σ k K off hw (src.take m) hoff
        (by rw [← List.length_pos_iff]; omega) (by omega) (by omega)
      rw [← writeRound, wp_of_ok hker₁] at hspec
      have hw₁ := hspec.1.working hw
      rw [hlen] at hw₁
      have hdrop : off + m + (src.drop m).length = off + src.length := by
        rw [List.length_drop]
        omega
      have hK : off + m ≤ max K (nblk (off + m)) * bsize :=
        nblk_le_iff.mp (le_max_right _ _)
      have hrest := @ih s₁ σ₁ _ _ (src.drop m) (by rw [List.length_drop]; omega) hsees₁ hw₁ hK
        (by rw [hdrop]; exact hmax)
      rw [bind_ok hker₁, bind_ok hmk₁]
      rwa [hdrop] at hrest
    · exact .inr ⟨⟨e, bind_error hker _⟩, e', bind_error hmk _⟩

end Mkfs

end Col331
