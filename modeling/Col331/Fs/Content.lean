import Col331.Fs.Bmap

/-!
The loops of `readi` and `writei`.

* `Working s k K`: the inode in entry `k` is being worked on and has `K` blocks.
* `readLoop_spec`: the loop of `readi` returns the bytes of the file and changes nothing.
* `Wrote s k K off src s'`: what writing `src` at offset `off` does; `round_spec` is one round of
  the loop of `writei`, `Wrote.trans` puts rounds together, and `writeLoop_spec` is the loop.
-/

namespace Col331

open Function Prog

namespace Fs

variable {V : Volume} {s s' s₁ : Fs V} {k : Fin ninode} {K off : ℕ}

/-- Every block has one owner, with the copy in entry `k` in place of the disk inode, and that
inode has blocks for the first `K` blocks of its file. -/
structure Working (s : Fs V) (k : Fin ninode) (K : ℕ) : Prop where
  owns : Owns V (s.table k) s.blocks
  alloc : Alloc V (s.table k) (s.inode k).inum
  shape : Shape (s.inode k).d s.blocks K

namespace Working

/-- A block of the file is a data block. -/
lemma range (h : Working s k K) {p : Place} (hp : (s.inode k).d.blockAt s.blocks p ≠ 0) :
    V.nmeta ≤ (s.inode k).d.blockAt s.blocks p ∧ (s.inode k).d.blockAt s.blocks p < V.size := by
  have hr := h.owns.range _ p h.alloc (by rwa [table_self])
  rwa [table_self] at hr

/-- A block of the file is stored in no other place. -/
lemma ne_blockAt (h : Working s k K) {p q : Place} {j : ℕ} (hj : Alloc V (s.table k) j)
    (hne : (s.table k j).blockAt s.blocks q ≠ 0) (hjq : ¬ (j = (s.inode k).inum ∧ q = p)) :
    (s.table k j).blockAt s.blocks q ≠ (s.inode k).d.blockAt s.blocks p := by
  intro heq
  rw [← table_self s k] at heq
  exact hjq (h.owns.inj _ _ _ _ hj h.alloc hne heq)

/-- The same, for two places of the file. -/
lemma ne_blockAt_self (h : Working s k K) {p q : Place}
    (hne : (s.inode k).d.blockAt s.blocks q ≠ 0) (hqp : q ≠ p) :
    (s.inode k).d.blockAt s.blocks q ≠ (s.inode k).d.blockAt s.blocks p := by
  have h' := h.ne_blockAt (p := p) (q := q) h.alloc
  rw [table_self] at h'
  exact h' hne fun hq => hqp hq.2

end Working

/-! ### Reading -/

/-- The loop of `readi` on blocks of the file. -/
lemma readLoop_spec (h : Working s k K) :
    ∀ (fuel off n : ℕ), n ≤ fuel → off + n ≤ K * bsize →
      wp (readLoop k fuel off n) (fun r s' => s' = s ∧
          r = (List.range n).map fun j => (s.inode k).d.byteAt s.blocks (off + j))
        (fun _ => False) s := by
  intro fuel
  induction fuel with
  | zero =>
    intro off n hn _
    obtain rfl : n = 0 := by omega
    exact ⟨rfl, rfl⟩
  | succ fuel ih =>
    intro off n hn hK
    rw [readLoop]
    split_ifs with h0
    · subst h0
      exact ⟨rfl, rfl⟩
    · have hlt : off / bsize < K := by simp only [bsize] at *; omega
      have hmax := h.shape.le
      rw [wp_bind]
      refine wp_mono (bmap_spec h.owns h.alloc h.shape hlt.le (by omega)) ?_
        fun _ he => not_short_of_le hlt he.2
      rintro b s₁ ⟨hb, -⟩
      obtain rfl := hb.same hlt
      have hround := ih (off + min n (bsize - off % bsize)) (n - min n (bsize - off % bsize))
        (by simp only [bsize]; omega) (by simp only [bsize] at *; omega)
      simp only [wp_bind, bread, wp_get, wp_pure]
      refine wp_post hround ?_
      rintro rest _ ⟨rfl, rfl⟩
      refine ⟨rfl, ?_⟩
      -- the first `m` bytes come from this block
      have hsplit : n = min n (bsize - off % bsize) + (n - min n (bsize - off % bsize)) := by omega
      have hm : min n (bsize - off % bsize) ≤ bsize - off % bsize := Nat.min_le_right _ _
      generalize min n (bsize - off % bsize) = m at *
      rw [hsplit, List.range_add, List.map_append, List.map_map, Nat.add_sub_cancel_left]
      congr 1
      · refine List.map_congr_left fun j hj => ?_
        rw [List.mem_range] at hj
        have hdiv : (off + j) / bsize = off / bsize := by simp only [bsize] at *; omega
        have hmod : (off + j) % bsize = off % bsize + j := by simp only [bsize] at *; omega
        rw [Dinode.byteAt, hdiv, hmod, ← hb.block]
      · refine List.map_congr_left fun j _ => ?_
        rw [comp_apply, Nat.add_assoc]

/-! ### Writing -/

/-- The blocks that a write of `n` bytes at `off`, to a file of `K` blocks, passes to `log_write`:
the blocks written, and for a longer file the free map and the indirect block. -/
def Touches (s' : Fs V) (k : Fin ninode) (K off n c : ℕ) : Prop :=
  0 < n ∧
    ((∃ bn, off / bsize ≤ bn ∧ bn * bsize < off + n ∧
        c = (s'.inode k).d.blockAt s'.blocks (.data bn)) ∨
      (K < nblk (off + n) ∧
        (c = V.bmapstart ∨ (ndirect < nblk (off + n) ∧ c = (s'.inode k).d.ind.toNat))))

/-- What writing `src` at offset `off` of a file of `K` blocks does. -/
structure Wrote (s : Fs V) (k : Fin ninode) (K off : ℕ) (src : List UInt8) (s' : Fs V) : Prop where
  inode : s'.inode = update s.inode k { s.inode k with d := (s'.inode k).d }
  fields : (s'.inode k).d = { (s.inode k).d with addrs := (s'.inode k).d.addrs }
  dino : ∀ i < V.ninodes, dino V s'.blocks i = dino V s.blocks i
  owns : Owns V (s'.table k) s'.blocks
  shape : Shape (s'.inode k).d s'.blocks (max K (nblk (off + src.length)))
  old : ∀ m < K, (s'.inode k).d.blockAt s'.blocks (.data m) =
    (s.inode k).d.blockAt s.blocks (.data m)
  ind : (s.inode k).d.ind ≠ 0 → (s'.inode k).d.ind = (s.inode k).d.ind
  same : nblk (off + src.length) ≤ K → s'.inode = s.inode
  bytes : ∀ m, m < K * bsize ∨ (off ≤ m ∧ m < off + src.length) →
    (s'.inode k).d.byteAt s'.blocks m =
      if off ≤ m ∧ m < off + src.length then src.getD (m - off) 0
      else (s.inode k).d.byteAt s.blocks m
  agree : ∀ j q, j ≠ (s.inode k).inum → Alloc V (s.table k) j →
    (s.table k j).blockAt s.blocks q ≠ 0 →
    s'.blocks ((s.table k j).blockAt s.blocks q) = s.blocks ((s.table k j).blockAt s.blocks q)
  logged : ∀ c, c ∈ s'.logged ↔ c ∈ s.logged ∨ Touches s' k K off src.length c

/-- The other inodes keep their places when their blocks are left alone. -/
lemma places_of_ne (hinum : (s'.inode k).inum = (s.inode k).inum)
    (hdino : ∀ i < V.ninodes, Col331.dino V s'.blocks i = Col331.dino V s.blocks i) {j : ℕ}
    (hj : j ≠ (s.inode k).inum) (hal : Alloc V (s.table k) j)
    (hagree : ∀ q, (s.table k j).blockAt s.blocks q ≠ 0 →
      s'.blocks ((s.table k j).blockAt s.blocks q) = s.blocks ((s.table k j).blockAt s.blocks q)) :
    s'.table k j = s.table k j ∧
      ∀ q, (s'.table k j).blockAt s'.blocks q = (s.table k j).blockAt s.blocks q := by
  have htable : s'.table k j = s.table k j := by
    rw [table, table, hinum, update_of_ne hj, update_of_ne hj, hdino j hal.1]
  refine ⟨htable, fun q => ?_⟩
  rw [htable]
  exact blockAt_of_agree hagree q

/-- A block of the table other than the indirect block is not touched by `bmap`. -/
lemma Bmapped.frame_blockAt {bn b : ℕ} (h : Bmapped s k bn K b s') (hw : Working s k K) {j : ℕ}
    {q : Place} (hj : Alloc V (s.table k) j) (hne : (s.table k j).blockAt s.blocks q ≠ 0)
    (hjq : ¬ (j = (s.inode k).inum ∧ q = .indirect)) :
    s'.blocks ((s.table k j).blockAt s.blocks q) = s.blocks ((s.table k j).blockAt s.blocks q) := by
  have hr := hw.owns.range j q hj hne
  exact h.frame _ hr.1 hr.2 (hw.owns.used_of_blockAt hj hne) (hw.ne_blockAt hj hne hjq)

lemma Bmapped.inum {bn b : ℕ} (h : Bmapped s k bn K b s') :
    (s'.inode k).inum = (s.inode k).inum := by
  rw [h.inode, update_self]

/-- The state in which the bytes are written. -/
lemma Bmapped.working {bn b : ℕ} (h : Bmapped s k bn K b s') (hw : Working s k K) :
    Working s' k (max K (bn + 1)) := by
  refine ⟨h.owns, ⟨by rw [h.inum]; exact hw.alloc.1, ?_⟩, h.shape⟩
  have ht := hw.alloc.2
  rw [table_self] at ht
  rw [table_self, h.fields]
  exact ht

/-- The bytes of the file are not touched by `bmap`. -/
lemma Bmapped.byteAt {bn b : ℕ} (h : Bmapped s k bn K b s') (hw : Working s k K) {m : ℕ}
    (hm : m < K * bsize) :
    (s'.inode k).d.byteAt s'.blocks m = (s.inode k).d.byteAt s.blocks m := by
  have hlt : m / bsize < K := by simp only [bsize] at *; omega
  have hne := (hw.shape.data (m / bsize)).mpr hlt
  have hf := h.frame_blockAt hw (q := .data (m / bsize)) hw.alloc (by rwa [table_self]) (by simp)
  rw [table_self] at hf
  rw [Dinode.byteAt, Dinode.byteAt, h.old _ hlt, hf]

/-! ### One round -/

section Write

variable (hw : Working s k K) {bn : ℕ} (hbn : bn < K) (v : Block)

include hw hbn

lemma dino_write {i : ℕ} (hi : i < V.ninodes) :
    dino V (s.write ((s.inode k).d.blockAt s.blocks (.data bn)) v).blocks i =
      dino V s.blocks i := by
  have hr := (hw.range ((hw.shape.data bn).mpr hbn)).1
  have hmeta := V.bmapstart_lt_nmeta
  exact dino_update (by omega) hi

lemma table_write {j : ℕ} (hj : j < V.ninodes) :
    (s.write ((s.inode k).d.blockAt s.blocks (.data bn)) v).table k j = s.table k j := by
  by_cases hji : j = (s.inode k).inum
  · subst hji
    rw [table_self]
    exact table_self (s.write _ v) k
  · rw [table, table, update_of_ne hji]
    refine (update_of_ne hji _ _).trans ?_
    exact dino_write hw hbn v hj

omit hbn in
/-- A write to a data block of the file moves no block. -/
lemma blockAt_write {j : ℕ} (hj : Alloc V (s.table k) j) (q : Place) :
    (s.table k j).blockAt (s.write ((s.inode k).d.blockAt s.blocks (.data bn)) v).blocks q =
      (s.table k j).blockAt s.blocks q := by
  refine blockAt_congr (fun hind => ?_) q
  refine update_of_ne ?_ _ _
  exact hw.ne_blockAt (q := .indirect) hj (fun h => hind (UInt32.toNat_inj.mp h)) (by simp)

omit hbn in
lemma blockAt_write_self (q : Place) :
    (s.inode k).d.blockAt (s.write ((s.inode k).d.blockAt s.blocks (.data bn)) v).blocks q =
      (s.inode k).d.blockAt s.blocks q := by
  have h := @blockAt_write _ _ _ _ hw bn v _ hw.alloc q
  rwa [table_self] at h

lemma owns_write :
    Owns V ((s.write ((s.inode k).d.blockAt s.blocks (.data bn)) v).table k)
      (s.write ((s.inode k).d.blockAt s.blocks (.data bn)) v).blocks := by
  refine hw.owns.congr (fun j hj => by rw [table_write hw hbn v hj]) (fun j q hj => ?_) fun c hc => ?_
  · rw [table_write hw hbn v hj.1, blockAt_write hw v hj]
  · exact used_update_data (hw.range ((hw.shape.data bn).mpr hbn)).1 hc

omit hbn in
/-- The bytes of the block written, and the others. -/
lemma byteAt_write {m : ℕ} (hm : m / bsize < K) :
    (s.inode k).d.byteAt (s.write ((s.inode k).d.blockAt s.blocks (.data bn)) v).blocks m =
      if m / bsize = bn then v.byte (m % bsize) else (s.inode k).d.byteAt s.blocks m := by
  rw [Dinode.byteAt, blockAt_write_self hw v]
  split_ifs with h
  · rw [h]
    exact congrArg (Bytes.byte · _) (update_self ..)
  · have hne := hw.ne_blockAt_self (p := .data bn) ((hw.shape.data (m / bsize)).mpr hm) (by simpa using h)
    rw [Dinode.byteAt]
    exact congrArg (Bytes.byte · _) (update_of_ne hne _ _)

end Write

/-- The bytes after one round. -/
lemma round_bytes (hw : Working s k K) {xs : List UInt8} (hfit : off % bsize + xs.length ≤ bsize)
    (hb : Bmapped s k (off / bsize) K ((s₁.inode k).d.blockAt s₁.blocks (.data (off / bsize))) s₁)
    (hw₁ : Working s₁ k (max K (off / bsize + 1))) {m : ℕ}
    (hm : m < K * bsize ∨ (off ≤ m ∧ m < off + xs.length)) :
    (s₁.inode k).d.byteAt (s₁.write ((s₁.inode k).d.blockAt s₁.blocks (.data (off / bsize)))
        (Bytes.splice (s₁.blocks ((s₁.inode k).d.blockAt s₁.blocks (.data (off / bsize))))
          (off % bsize) xs)).blocks m =
      if off ≤ m ∧ m < off + xs.length then xs.getD (m - off) 0
      else (s.inode k).d.byteAt s.blocks m := by
  have hmlt : m / bsize < max K (off / bsize + 1) := by simp only [bsize] at *; omega
  rw [byteAt_write hw₁ _ hmlt]
  by_cases hblk : m / bsize = off / bsize
  · rw [if_pos hblk, Bytes.byte_splice _ _ _ (Nat.mod_lt m (by decide))]
    by_cases hin : off ≤ m ∧ m < off + xs.length
    · rw [if_pos hin, if_pos (by simp only [bsize] at *; omega)]
      congr 1
      simp only [bsize] at *
      omega
    · rw [if_neg hin, if_neg (by simp only [bsize] at *; omega), ← hb.byteAt hw (by tauto),
        Dinode.byteAt, hblk]
  · have hin : ¬ (off ≤ m ∧ m < off + xs.length) := by simp only [bsize] at *; omega
    rw [if_neg hblk, if_neg hin, hb.byteAt hw (by tauto)]

/-- The blocks passed to `log_write` in one round. -/
lemma round_logged {n : ℕ} (hfit : off % bsize + n ≤ bsize) (hpos : 0 < n)
    (hb : Bmapped s k (off / bsize) K ((s₁.inode k).d.blockAt s₁.blocks (.data (off / bsize))) s₁)
    (hw₁ : Working s₁ k (max K (off / bsize + 1))) (v : Block) (c : ℕ) :
    c ∈ (s₁.write ((s₁.inode k).d.blockAt s₁.blocks (.data (off / bsize))) v).logged ↔
      c ∈ s.logged ∨
        Touches (s₁.write ((s₁.inode k).d.blockAt s₁.blocks (.data (off / bsize))) v) k K off n c := by
  have hnblk : nblk (off + n) = off / bsize + 1 := by simp only [nblk, bsize] at *; omega
  have hdata := (hw₁.range ((hw₁.shape.data (off / bsize)).mpr (by omega))).2
  have hind : ndirect ≤ off / bsize → V.bblock (s₁.inode k).d.ind.toNat = V.bmapstart := fun h =>
    V.bblock_eq (hw₁.range (hw₁.shape.indirect.mpr (by omega))).2
  have hlog := hb.logged c
  rw [V.bblock_eq hdata] at hlog
  set b := (s₁.inode k).d.blockAt s₁.blocks (.data (off / bsize)) with hbdef
  have hone : (∃ bn, off / bsize ≤ bn ∧ bn * bsize < off + n ∧
      c = (s₁.inode k).d.blockAt (s₁.write b v).blocks (.data bn)) ↔ c = b := by
    simp only [hbdef, blockAt_write_self hw₁ v]
    constructor
    · rintro ⟨bn, h1, h2, rfl⟩
      have : bn = off / bsize := by simp only [bsize] at *; omega
      rw [this]
    · rintro rfl
      exact ⟨off / bsize, le_rfl, by simp only [bsize] at *; omega, rfl⟩
  have hmem : c ∈ (s₁.write b v).logged ↔ c ∈ s₁.logged ∨ c = b := by simp [write]
  have htouch : Touches (s₁.write b v) k K off n c ↔
      c = b ∨ (K < off / bsize + 1 ∧
        (c = V.bmapstart ∨ (ndirect < off / bsize + 1 ∧ c = (s₁.inode k).d.ind.toNat))) := by
    rw [Touches, hnblk]
    exact ⟨fun h => h.2.imp_left hone.mp, fun h => ⟨hpos, h.imp_left hone.mpr⟩⟩
  rw [hmem, hlog, htouch, Nat.lt_succ_iff, Nat.lt_succ_iff]
  constructor
  · rintro ((h | ⟨hK, h | h | ⟨hd, h | ⟨_, h⟩⟩⟩) | h)
    · exact .inl h
    · exact .inr (.inl h)
    · exact .inr (.inr ⟨hK, .inl h⟩)
    · exact .inr (.inr ⟨hK, .inr ⟨hd, h⟩⟩)
    · exact .inr (.inr ⟨hK, .inl (h.trans (hind hd))⟩)
    · exact .inr (.inl h)
  · rintro (h | h | ⟨hK, h | ⟨hd, h⟩⟩)
    · exact .inl (.inl h)
    · exact .inr h
    · exact .inl (.inr ⟨hK, .inr (.inl h)⟩)
    · exact .inl (.inr ⟨hK, .inr (.inr ⟨hd, .inl h⟩)⟩)

/-- **One round of the loop of `writei`**: the bytes `xs` all go to one block. -/
lemma round_spec (hw : Working s k K) {xs : List UInt8} (hoff : off ≤ K * bsize) (hxs : xs ≠ [])
    (hfit : off % bsize + xs.length ≤ bsize) (hmax : off + xs.length ≤ maxfile * bsize) :
    wp (do
        let b ← bmap k (off / bsize)
        let bp ← bread b
        logWrite b (bp.splice (off % bsize) xs))
      (fun _ s' => Wrote s k K off xs s' ∧ Takes s K (nblk (off + xs.length)) s')
      (fun e => e = .panic .ballocOut ∧ Short s K (nblk (off + xs.length))) s := by
  have hpos : 0 < xs.length := List.length_pos_iff.mpr hxs
  have hnblk : nblk (off + xs.length) = off / bsize + 1 := by simp only [nblk, bsize] at *; omega
  rw [wp_bind]
  have hbn : off / bsize ≤ K ∧ off / bsize < maxfile := by
    simp only [bsize] at *
    omega
  refine wp_mono (bmap_spec hw.owns hw.alloc hw.shape hbn.1 hbn.2) ?_ fun _ he => hnblk ▸ he
  rintro b s₁ ⟨hb, hroom⟩
  simp only [bread, logWrite, wp_bind, wp_get, wp_pure, wp_modify]
  have hw₁ := hb.working hw
  have hlt : off / bsize < max K (off / bsize + 1) := by omega
  have hdata := hw₁.range ((hw₁.shape.data _).mpr hlt)
  have hblock := hb.block
  subst hblock
  set v := Bytes.splice (s₁.blocks ((s₁.inode k).d.blockAt s₁.blocks (.data (off / bsize))))
    (off % bsize) xs with hv
  refine ⟨⟨hb.inode, hb.fields, fun i hi => ?_, owns_write hw₁ hlt v, ?_, fun m hm => ?_, hb.ind,
    fun h => ?_, fun m hm => ?_, fun j q hj hal hne => ?_, fun c => ?_⟩, ?_⟩
  · rw [dino_write hw₁ hlt v hi, hb.dino i hi]
  · rw [hnblk]
    exact hw₁.shape.congr fun p => blockAt_write_self hw₁ v p
  · rw [← hb.old m hm]
    exact blockAt_write_self hw₁ v _
  · rw [hb.same (by omega)]
    rfl
  · exact round_bytes hw hfit hb hw₁ hm
  · have hagree := fun q hq => hb.frame_blockAt hw (q := q) hal hq (fun h => hj h.1)
    obtain ⟨htable, hplaces⟩ := places_of_ne hb.inum hb.dino hj hal hagree
    rw [← hagree q hne]
    refine update_of_ne ?_ _ _
    rw [← hplaces] at hne ⊢
    refine hw₁.ne_blockAt ⟨hal.1, by rw [htable]; exact hal.2⟩ hne fun h => ?_
    exact hj (h.1.trans hb.inum)
  · exact round_logged hfit hpos hb hw₁ v c
  · have hspace : (s₁.write _ v).space = s₁.space := space_congr fun c hc => used_update_data hdata.1 hc
    rw [hnblk, Takes, hspace]
    exact hroom

/-! ### The loop -/

section Loop

variable {s₂ : Fs V} {xs ys src : List UInt8}

lemma nblk_mono {m n : ℕ} (h : m ≤ n) : nblk m ≤ nblk n := by
  simp only [nblk, bsize]
  omega

/-- Writing nothing. -/
lemma Wrote.nil (hw : Working s k K) (hoff : off ≤ K * bsize) : Wrote s k K off [] s := by
  have hle : nblk off ≤ K := nblk_le_iff.mpr hoff
  refine ⟨(update_eq_self k s.inode).symm, rfl, fun _ _ => rfl, hw.owns, ?_,
    fun _ _ => rfl, fun _ => rfl, fun _ => rfl, fun m _ => ?_, fun _ _ _ _ _ => rfl, fun c => ?_⟩
  · rw [List.length_nil, Nat.add_zero, max_eq_left hle]
    exact hw.shape
  · rw [List.length_nil, if_neg (by omega)]
  · simp [Touches]

lemma Wrote.inum (h : Wrote s k K off src s') : (s'.inode k).inum = (s.inode k).inum := by
  rw [h.inode, update_self]

lemma Wrote.working (h : Wrote s k K off src s') (hw : Working s k K) :
    Working s' k (max K (nblk (off + src.length))) := by
  refine ⟨h.owns, ⟨by rw [h.inum]; exact hw.alloc.1, ?_⟩, h.shape⟩
  have ht := hw.alloc.2
  rw [table_self] at ht
  rw [table_self, h.fields]
  exact ht

/-- The blocks two writes in a row pass to `log_write`. -/
lemma touches_append (hw₁ : Working s₁ k (max K (nblk (off + xs.length)))) (hxs : 0 < xs.length)
    (h₂ : Wrote s₁ k (max K (nblk (off + xs.length))) (off + xs.length) ys s₂) (c : ℕ) :
    (Touches s₁ k K off xs.length c ∨
        Touches s₂ k (max K (nblk (off + xs.length))) (off + xs.length) ys.length c) ↔
      Touches s₂ k K off (xs ++ ys).length c := by
  have hmono : nblk (off + xs.length) ≤ nblk (off + xs.length + ys.length) := nblk_mono (by omega)
  have hold : ∀ bn, bn * bsize < off + xs.length →
      (s₂.inode k).d.blockAt s₂.blocks (.data bn) = (s₁.inode k).d.blockAt s₁.blocks (.data bn) :=
    fun bn hbn => h₂.old bn (lt_of_lt_of_le (lt_nblk_iff.mpr hbn) (le_max_right _ _))
  have hind : ndirect < nblk (off + xs.length) → (s₂.inode k).d.ind = (s₁.inode k).d.ind := by
    intro hlt
    refine h₂.ind fun h0 => hw₁.shape.indirect.mpr (lt_of_lt_of_le hlt (le_max_right _ _)) ?_
    rw [Dinode.blockAt, h0]
    rfl
  rw [List.length_append, Touches, Touches, Touches, ← Nat.add_assoc]
  constructor
  · rintro (⟨_, ⟨bn, h1, h2, rfl⟩ | ⟨hK, h⟩⟩ | ⟨hpos, ⟨bn, h1, h2, rfl⟩ | ⟨hK, h⟩⟩)
    · exact ⟨by omega, .inl ⟨bn, h1, by omega, (hold bn h2).symm⟩⟩
    · refine ⟨by omega, .inr ⟨by omega, h.imp_right ?_⟩⟩
      rintro ⟨hd, hc⟩
      exact ⟨by omega, by rw [hc, hind hd]⟩
    · refine ⟨by omega, .inl ⟨bn, ?_, h2, rfl⟩⟩
      simp only [bsize] at *
      omega
    · exact ⟨by omega, .inr ⟨by omega, h⟩⟩
  · rintro ⟨_, ⟨bn, h1, h2, rfl⟩ | ⟨hK, h⟩⟩
    · by_cases hbn : bn * bsize < off + xs.length
      · exact .inl ⟨hxs, .inl ⟨bn, h1, hbn, hold bn hbn⟩⟩
      · refine .inr ⟨by omega, .inl ⟨bn, ?_, h2, rfl⟩⟩
        simp only [bsize] at *
        omega
    · by_cases hlong : max K (nblk (off + xs.length)) < nblk (off + xs.length + ys.length)
      · refine .inr ⟨?_, .inr ⟨hlong, h⟩⟩
        by_contra h0
        rw [Nat.eq_zero_of_not_pos h0] at hlong
        simp at hlong
      · have heq : nblk (off + xs.length) = nblk (off + xs.length + ys.length) := by omega
        refine .inl ⟨hxs, .inr ⟨by omega, h.imp_right ?_⟩⟩
        rintro ⟨hd, hc⟩
        rw [heq]
        exact ⟨hd, by rw [hc, hind (by omega)]⟩

/-- **Two writes in a row are one write.** -/
lemma Wrote.trans (hw : Working s k K) (hxs : xs ≠ []) (h₁ : Wrote s k K off xs s₁)
    (h₂ : Wrote s₁ k (max K (nblk (off + xs.length))) (off + xs.length) ys s₂) :
    Wrote s k K off (xs ++ ys) s₂ := by
  have hmono : nblk (off + xs.length) ≤ nblk (off + xs.length + ys.length) := nblk_mono (by omega)
  have hlen : off + (xs ++ ys).length = off + xs.length + ys.length := by
    rw [List.length_append, Nat.add_assoc]
  refine ⟨?_, ?_, fun i hi => (h₂.dino i hi).trans (h₁.dino i hi), h₂.owns, ?_, fun m hm => ?_,
    fun h0 => ?_, fun hK => ?_, fun m hm => ?_, fun j q hj hal hne => ?_, fun c => ?_⟩
  · rw [h₂.inode, h₁.inode]
    simp
  · rw [h₂.fields, h₁.fields]
  · have h := h₂.shape
    rwa [max_assoc, max_eq_right hmono, ← hlen] at h
  · rw [h₂.old m (by omega), h₁.old m hm]
  · rw [h₂.ind (by rwa [h₁.ind h0]), h₁.ind h0]
  · rw [hlen] at hK
    rw [h₂.same (by omega), h₁.same (by omega)]
  · rw [hlen] at hm ⊢
    have hin : m < off + xs.length → m < max K (nblk (off + xs.length)) * bsize := fun h =>
      lt_of_lt_of_le h ((le_nblk_mul _).trans (Nat.mul_le_mul_right _ (le_max_right _ _)))
    have hold : m < K * bsize → m < max K (nblk (off + xs.length)) * bsize := fun h =>
      lt_of_lt_of_le h (Nat.mul_le_mul_right _ (le_max_left _ _))
    by_cases hy : off + xs.length ≤ m ∧ m < off + xs.length + ys.length
    · rw [h₂.bytes m (.inr hy), if_pos hy, if_pos ⟨by omega, hy.2⟩]
      have hsub : m - off - xs.length = m - (off + xs.length) := by omega
      rw [List.getD_append_right _ _ _ _ (by omega), hsub]
    · have hm₁ : m < K * bsize ∨ (off ≤ m ∧ m < off + xs.length) := hm.imp_right fun h => ⟨h.1, by omega⟩
      rw [h₂.bytes m (.inl (hm₁.elim hold fun h => hin h.2)), if_neg hy, h₁.bytes m hm₁]
      by_cases hx : off ≤ m ∧ m < off + xs.length
      · rw [if_pos hx, if_pos ⟨hx.1, by omega⟩, List.getD_append _ _ _ _ (by omega)]
      · rw [if_neg hx, if_neg (by omega)]
  · obtain ⟨htable, hplaces⟩ :=
      places_of_ne h₁.inum h₁.dino hj hal fun q hq => h₁.agree j q hj hal hq
    have hal₁ : Alloc V (s₁.table k) j := ⟨hal.1, by rw [htable]; exact hal.2⟩
    have h := h₂.agree j q (by rwa [h₁.inum]) hal₁ (by rwa [hplaces])
    rw [hplaces] at h
    rw [h, h₁.agree j q hj hal hne]
  · rw [h₂.logged, h₁.logged, or_assoc,
      touches_append (h₁.working hw) (List.length_pos_iff.mpr hxs) h₂]

/-- **The loop of `writei`.** -/
lemma writeLoop_spec :
    ∀ (fuel : ℕ) (s : Fs V) (K off : ℕ) (src : List UInt8), src.length ≤ fuel → Working s k K →
      off ≤ K * bsize → off + src.length ≤ maxfile * bsize →
      wp (writeLoop k fuel off src)
        (fun _ s' => Wrote s k K off src s' ∧ Takes s K (nblk (off + src.length)) s')
        (fun e => e = .panic .ballocOut ∧ Short s K (nblk (off + src.length))) s := by
  have hnil : ∀ (s : Fs V) (K off : ℕ), Working s k K → off ≤ K * bsize →
      Wrote s k K off [] s ∧ Takes s K (nblk (off + ([] : List UInt8).length)) s := fun s K off hw hoff =>
    ⟨Wrote.nil hw hoff, .of_le (nblk_le_iff.mpr hoff)⟩
  intro fuel
  induction fuel with
  | zero =>
    intro s K off src hlen hw hoff _
    rw [List.eq_nil_of_length_eq_zero (by omega : src.length = 0)]
    exact hnil s K off hw hoff
  | succ fuel ih =>
    intro s K off src hlen hw hoff hmax
    rw [writeLoop]
    split_ifs with h0
    · subst h0
      exact hnil s K off hw hoff
    · have hpos : 0 < src.length := List.length_pos_iff.mpr h0
      set m := min src.length (bsize - off % bsize) with hm
      have hm0 : 0 < m := by simp only [bsize] at *; omega
      have htake : (src.take m).length = m := by rw [List.length_take]; omega
      have hne : src.take m ≠ [] := by rwa [← List.length_pos_iff, htake]
      have hround := round_spec hw hoff hne (by rw [htake]; simp only [bsize] at *; omega)
        (by rw [htake]; omega)
      have hmono : nblk (off + m) ≤ nblk (off + src.length) := nblk_mono (by omega)
      have hshort : ∀ e : Stop, e = .panic .ballocOut ∧ Short s K (nblk (off + (src.take m).length)) →
          e = .panic .ballocOut ∧ Short s K (nblk (off + src.length)) :=
        fun e he => ⟨he.1, he.2.mono (by rw [htake]; exact hmono)⟩
      simp only [wp_bind] at hround ⊢
      refine wp_mono hround ?_ hshort
      intro b s₁ hb
      simp only [wp_bind] at hb ⊢
      refine wp_mono hb ?_ hshort
      intro bp s₂ hbp
      simp only [wp_bind] at hbp ⊢
      refine wp_mono hbp ?_ hshort
      rintro _ s₃ ⟨h₃, hroom₃⟩
      have hend : off + m + (src.drop m).length = off + src.length := by
        rw [List.length_drop]
        omega
      have hrest := ih s₃ (max K (nblk (off + m))) (off + m) (src.drop m)
        (by rw [List.length_drop]; omega) (by have := h₃.working hw; rwa [htake] at this)
        ((le_nblk_mul _).trans (Nat.mul_le_mul_right _ (le_max_right _ _)))
        (by rw [List.length_drop]; omega)
      rw [hend] at hrest
      rw [htake] at hroom₃
      refine wp_mono hrest ?_ fun e he => ⟨he.1, hroom₃.short hmono he.2⟩
      rintro _ s₄ ⟨h₄, hroom₄⟩
      refine ⟨?_, hroom₃.trans hmono hroom₄⟩
      rw [← htake] at h₄
      have := Wrote.trans hw hne h₃ h₄
      rwa [htake, List.take_append_drop] at this

end Loop

/-- The number of blocks that a file of `size` bytes lacks for `m` bytes. -/
def missing (size m : ℕ) : ℕ := blocksFor (nblk (max size m)) - blocksFor (nblk size)

lemma short_iff {s : Fs V} {size m : ℕ} : Short s (nblk size) (nblk m) ↔ ¬ missing size m ≤ s.space := by
  have hmax : nblk (max size m) = max (nblk size) (nblk m) :=
    (Monotone.map_max fun _ _ h => nblk_mono h)
  rw [missing, hmax, Nat.sub_le_iff_le_add, not_le, Short]

end Fs

end Col331
