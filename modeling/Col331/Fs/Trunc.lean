import Col331.Fs.Sim

/-!
`bfree`, `itrunc` and `iput`.

* `Freed s L s'`: the blocks `L` have been given back to the free map, and nothing else on disk
  has changed.
* `forM_free`: a loop that frees the blocks at a list of places; both loops of `itrunc` are one.
* `itrunc_spec`: `itrunc` frees exactly the blocks of its inode, and `bfree` never finds a bit
  clear.
* `sim_itrunc`, `sim_iput`: the simulations.
-/

namespace Col331

open Function Prog

variable {V : Volume}

namespace Fs

variable {s s' s₁ : Fs V} {k : Fin ninode} {b : ℕ} {L L' : List ℕ}

/-! ### `bfree` -/

/-- The state after `bfree`. -/
def freed (s : Fs V) (b : ℕ) : Fs V :=
  s.write (V.bblock b) ((s.blocks (V.bblock b)).clearBit (b % bpb))

lemma bfree_run (h : used V s.blocks b = true) : bfree b s = .ok ((), s.freed b) := by
  have hbit : (s.blocks (V.bblock b)).bit (b % bpb) = true := h
  simp [bfree, bread, bind_run, map_run, hbit, logWrite, freed]

/-- The blocks `L` have been freed. -/
structure Freed (s : Fs V) (L : List ℕ) (s' : Fs V) : Prop where
  dino : ∀ i < V.ninodes, dino V s'.blocks i = dino V s.blocks i
  data : ∀ c, V.nmeta ≤ c → s'.blocks c = s.blocks c
  used : ∀ c, used V s'.blocks c = (used V s.blocks c && decide (c ∉ L))

lemma Freed.nil (h : s'.blocks = s.blocks) : Freed s [] s' := by
  refine ⟨fun _ _ => ?_, fun _ _ => ?_, fun c => ?_⟩
  · rw [h]
  · rw [h]
  · rw [h]
    simp

lemma Freed.trans (h : Freed s L s₁) (h' : Freed s₁ L' s') : Freed s (L ++ L') s' := by
  refine ⟨fun i hi => (h'.dino i hi).trans (h.dino i hi), fun c hc => (h'.data c hc).trans (h.data c hc),
    fun c => ?_⟩
  rw [h'.used, h.used, Bool.and_assoc]
  congr 1
  simp

/-- One block is freed; what happens to the cache does not matter. -/
lemma Freed.single (hb : b < V.size) (h : s'.blocks = (s.freed b).blocks) : Freed s [b] s' := by
  have hlt := V.bblock_lt hb
  refine ⟨fun i hi => ?_, fun c hc => ?_, fun c => ?_⟩
  · rw [h]
    exact dino_update (V.le_bblock b) hi
  · rw [h]
    exact update_of_ne (by omega) _ _
  · rw [h, freed, write]
    rw [used_clearBit]
    simp

/-! ### Loops that free blocks -/

/-- The block numbers at the places `l`. -/
def nonzero {ι : Type} (A : ι → ℕ) (l : List ι) : List ℕ := (l.map A).filter (· ≠ 0)

lemma mem_nonzero {ι : Type} {A : ι → ℕ} {l : List ι} {c : ℕ} :
    c ∈ nonzero A l ↔ c ≠ 0 ∧ ∃ x ∈ l, A x = c := by
  simp [nonzero, and_comm]

/-- **A loop that frees the blocks at the places `l`**: `step x` frees the block at `x`, if there
is one, and takes the cache to `g` of the places visited. -/
lemma forM_free {ι : Type} {l : List ι} (hnd : l.Nodup) (A : ι → ℕ)
    {step : ι → Kern (Fs V) PUnit} {g : List ι → Fin ninode → Inode} (hg : g [] = s.inode)
    (hstep : ∀ done x s', x ∉ done → s'.inode = g done →
      (A x = 0 → step x s' = .ok ((), { s' with inode := g (done ++ [x]) })) ∧
      (A x ≠ 0 → used V s'.blocks (A x) = true →
        step x s' = .ok ((), { s'.freed (A x) with inode := g (done ++ [x]) })))
    (hused : ∀ x ∈ l, A x ≠ 0 → A x < V.size ∧ used V s.blocks (A x) = true)
    (hinj : ∀ x ∈ l, ∀ y ∈ l, A x ≠ 0 → A x = A y → x = y) :
    wp (l.forM step) (fun _ s' => Freed s (nonzero A l) s' ∧ s'.inode = g l)
      (fun _ => False) s := by
  have h := wp_forM (E := fun _ => False) (s := s) (f := step)
    (I := fun done s' => Freed s (nonzero A done) s' ∧ s'.inode = g done) l []
    ⟨Freed.nil rfl, hg.symm⟩ ?_
  · rwa [List.nil_append] at h
  rintro before x after s' hl ⟨hfreed, hinode⟩
  rw [List.nil_append] at hl
  have hx : x ∈ l := by rw [hl]; simp
  have hbefore : ∀ y ∈ before, y ∈ l ∧ y ≠ x := by
    intro y hy
    refine ⟨by rw [hl]; simp [hy], ?_⟩
    rintro rfl
    rw [hl, List.nodup_append] at hnd
    exact hnd.2.2 y hy y (by simp) rfl
  obtain ⟨hzero, hne⟩ := hstep before x s' (fun hxb => (hbefore x hxb).2 rfl) hinode
  have happ : nonzero A (before ++ [x]) = nonzero A before ++ nonzero A [x] := by
    simp [nonzero]
  by_cases h0 : A x = 0
  · rw [wp_of_ok (hzero h0), happ]
    have hnil : nonzero A [x] = [] := by simp [nonzero, h0]
    rw [hnil]
    exact ⟨hfreed.trans (Freed.nil rfl), rfl⟩
  · -- the block has not been freed yet, since it is stored in no other place
    have hnot : A x ∉ nonzero A before := by
      rw [mem_nonzero]
      rintro ⟨_, y, hy, heq⟩
      exact (hbefore y hy).2 (hinj x hx y (hbefore y hy).1 h0 heq.symm).symm
    have hu : used V s'.blocks (A x) = true := by
      rw [hfreed.used, (hused x hx h0).2]
      simpa using hnot
    have hone : nonzero A [x] = [A x] := by simp [nonzero, h0]
    rw [wp_of_ok (hne h0 hu), happ, hone]
    exact ⟨hfreed.trans (Freed.single (hused x hx h0).1 rfl), rfl⟩

/-! ### `itrunc` -/

/-- The inode without its content. -/
def cleared (d : Dinode) : Dinode := { d with size := 0, addrs := fun _ => 0 }

/-- The cache with the addresses at `done` cleared in entry `k`. -/
def clearAddrs (s : Fs V) (k : Fin ninode) (done : List (Fin ndirect)) : Fin ninode → Inode :=
  update s.inode k { s.inode k with
    d.addrs := fun i => if i ∈ done.map Fin.castSucc then 0 else (s.inode k).d.addrs i }

/-- One more address is cleared. -/
lemma clearAddrs_append (s : Fs V) (k : Fin ninode) (done : List (Fin ndirect)) (i : Fin ndirect) :
    update (clearAddrs s k done) k { clearAddrs s k done k with
        d.addrs := update (clearAddrs s k done k).d.addrs i.castSucc 0 } =
      clearAddrs s k (done ++ [i]) := by
  simp only [clearAddrs, update_self, update_idem]
  congr 3
  funext x
  rw [update_apply]
  by_cases hx : x = i.castSucc <;> simp [hx]

lemma clearAddrs_append_of_zero {done : List (Fin ndirect)} {i : Fin ndirect}
    (h : (s.inode k).d.addrs i.castSucc = 0) :
    clearAddrs s k done = clearAddrs s k (done ++ [i]) := by
  simp only [clearAddrs]
  congr 3
  funext x
  by_cases hx : x = i.castSucc
  · simp [hx, h]
  · simp [hx]

/-- The last address is cleared. -/
lemma clearAddrs_last (s : Fs V) (k : Fin ninode) :
    update (clearAddrs s k (List.finRange ndirect)) k
        { clearAddrs s k (List.finRange ndirect) k with
          d.addrs := update (clearAddrs s k (List.finRange ndirect) k).d.addrs
            (Fin.last ndirect) 0 } =
      update s.inode k { s.inode k with d.addrs := fun _ => 0 } := by
  have hdirect : ∀ i : Fin (ndirect + 1), i ≠ Fin.last ndirect →
      i ∈ (List.finRange ndirect).map Fin.castSucc := by decide
  simp only [clearAddrs, update_self, update_idem]
  congr 3
  funext x
  rw [update_apply]
  split_ifs with h1 h2
  · rfl
  · rfl
  · exact absurd (hdirect x h1) h2

section Trunc

variable (hown : Owns V (s.table k) s.blocks) (hk : Alloc V (s.table k) (s.inode k).inum)

include hown hk

/-- A block of the inode is a data block and marked in the free map. -/
lemma used_self {p : Place} (hp : (s.inode k).d.blockAt s.blocks p ≠ 0) :
    (s.inode k).d.blockAt s.blocks p < V.size ∧
      used V s.blocks ((s.inode k).d.blockAt s.blocks p) = true := by
  have hr := hown.range _ p hk (by rwa [table_self])
  have hu := hown.used_of_blockAt hk (p := p) (by rwa [table_self])
  rw [table_self] at hr hu
  exact ⟨hr.2, hu⟩

lemma inj_self {p q : Place} (hp : (s.inode k).d.blockAt s.blocks p ≠ 0)
    (hpq : (s.inode k).d.blockAt s.blocks p = (s.inode k).d.blockAt s.blocks q) : p = q := by
  rw [← table_self s k] at hp hpq
  exact (hown.inj _ p _ q hk hk hp hpq).2

/-- The direct blocks. -/
lemma freeDirects_spec :
    wp ((List.finRange ndirect).forM fun i => freeDirect k i.castSucc)
      (fun _ s' => Freed s (nonzero (fun i : Fin ndirect =>
          (s.inode k).d.blockAt s.blocks (.data i)) (List.finRange ndirect)) s' ∧
        s'.inode = clearAddrs s k (List.finRange ndirect))
      (fun _ => False) s := by
  have hat : ∀ i : Fin ndirect, (s.inode k).d.blockAt s.blocks (.data i) =
      ((s.inode k).d.addrs i.castSucc).toNat := fun i => blockAt_direct i.isLt
  refine forM_free (List.nodup_finRange ndirect) _ ?_ (fun done i s' hdone hinode => ⟨fun h0 => ?_,
    fun h0 hu => ?_⟩) (fun i _ h0 => used_self hown hk h0) fun i _ j _ h0 heq => ?_
  · simp [clearAddrs]
  · rw [hat] at h0
    have hz : (s.inode k).d.addrs i.castSucc = 0 := UInt32.toNat_inj.mp h0
    have haddr : (s'.inode k).d.addrs i.castSucc = 0 := by simp [hinode, clearAddrs, hz]
    have hrun : freeDirect k i.castSucc s' = .ok ((), s') := by
      simp [freeDirect, bind_run, haddr]
    rw [hrun, ← clearAddrs_append_of_zero hz, ← hinode]
  · rw [hat] at h0 hu ⊢
    have hz : (s.inode k).d.addrs i.castSucc ≠ 0 := fun h => h0 (by rw [h]; rfl)
    have haddr : (s'.inode k).d.addrs i.castSucc = (s.inode k).d.addrs i.castSucc := by
      simp [hinode, clearAddrs, hdone]
    have hrun : freeDirect k i.castSucc s' = .ok ((), (s'.freed
        ((s.inode k).d.addrs i.castSucc).toNat).withAddr k i.castSucc 0) := by
      simp [freeDirect, bind_run, haddr, hz, bfree_run hu, setAddr, withAddr]
    rw [hrun, ← clearAddrs_append, ← hinode]
    rfl
  · have := inj_self hown hk h0 heq
    exact Fin.ext (by simpa using this)

omit hown hk in
/-- The blocks in the indirect block. -/
lemma freeEntries_spec (bp : Block)
    (hused : ∀ j ∈ List.range nindirect, (entry bp j).toNat ≠ 0 →
      (entry bp j).toNat < V.size ∧ used V s.blocks (entry bp j).toNat = true)
    (hinj : ∀ i ∈ List.range nindirect, ∀ j ∈ List.range nindirect, (entry bp i).toNat ≠ 0 →
      (entry bp i).toNat = (entry bp j).toNat → i = j) :
    wp ((List.range nindirect).forM fun j => do
        if entry bp j ≠ 0 then bfree (entry bp j).toNat)
      (fun _ s' => Freed s (nonzero (fun j => (entry bp j).toNat) (List.range nindirect)) s' ∧
        s'.inode = s.inode)
      (fun _ => False) s := by
  refine forM_free (g := fun _ => s.inode) List.nodup_range _ rfl
    (fun _ j s' _ hinode => ⟨fun h0 => ?_, fun h0 hu => ?_⟩) hused hinj
  · have hz : entry bp j = 0 := UInt32.toNat_inj.mp h0
    simp [hz, ← hinode]
  · have hz : entry bp j ≠ 0 := fun h => h0 (by rw [h]; rfl)
    simp only [ne_eq, hz, not_false_eq_true, if_true]
    rw [bfree_run hu, ← hinode]
    rfl

/-- **What `itrunc` does**: it frees exactly the blocks of the inode and writes the inode without
them to disk. -/
lemma itrunc_spec :
    wp (itrunc k) (fun _ s' => ∃ s₁ L, Freed s L s₁ ∧
        (∀ c, c ∈ L ↔ c ≠ 0 ∧ ∃ p, (s.inode k).d.blockAt s.blocks p = c) ∧
        s₁.inode = update s.inode k { s.inode k with d := cleared (s.inode k).d } ∧
        s' = s₁.flush k)
      (fun _ => False) s := by
  set d := (s.inode k).d with hd
  set L₁ := nonzero (fun i : Fin ndirect => d.blockAt s.blocks (.data i)) (List.finRange ndirect)
    with hL₁
  have hmem₁ : ∀ c, c ∈ L₁ ↔ c ≠ 0 ∧ ∃ bn, bn < ndirect ∧ d.blockAt s.blocks (.data bn) = c := by
    intro c
    rw [hL₁, mem_nonzero]
    refine and_congr_right fun _ => ⟨?_, ?_⟩
    · rintro ⟨i, _, h⟩
      exact ⟨i, i.isLt, h⟩
    · rintro ⟨bn, hbn, h⟩
      exact ⟨⟨bn, hbn⟩, List.mem_finRange _, h⟩
  -- what remains to be done once the blocks are freed
  have htail : ∀ (s₁ : Fs V) (L : List ℕ), Freed s L s₁ →
      (∀ c, c ∈ L ↔ c ≠ 0 ∧ ∃ p, d.blockAt s.blocks p = c) →
      s₁.inode = update s.inode k { s.inode k with d.addrs := fun _ => 0 } →
      wp (do setSize k 0; iupdate k) (fun _ s' => ∃ s₁ L, Freed s L s₁ ∧
        (∀ c, c ∈ L ↔ c ≠ 0 ∧ ∃ p, d.blockAt s.blocks p = c) ∧
        s₁.inode = update s.inode k { s.inode k with d := cleared d } ∧
        s' = s₁.flush k) (fun _ => False) s₁ := by
    intro s₁ L hF hL hinode
    refine ⟨s₁.setInode k { s₁.inode k with d.size := UInt32.ofNat 0 }, L, ⟨hF.dino, hF.data, hF.used⟩,
      hL, ?_, rfl⟩
    rw [setInode]
    rw [hinode]
    simp [cleared, hd]
  rw [itrunc]
  refine wp_seq (freeDirects_spec hown hk) ?_
  rintro _ s₁ ⟨hF₁, hinode₁⟩
  have hlast : (s₁.inode k).d.addrs (Fin.last ndirect) = d.ind := by
    rw [hinode₁, clearAddrs, update_self]
    have : Fin.last ndirect ∉ (List.finRange ndirect).map Fin.castSucc := by decide
    simp [this, Dinode.ind, hd]
  simp only [wp_bind, wp_get, hlast]
  split_ifs with hind
  · -- the entries of the indirect block, and the block itself
    have hnind : d.blockAt s.blocks .indirect ≠ 0 := fun h => hind (UInt32.toNat_inj.mp h)
    have hrange := hown.range _ .indirect hk (by rwa [table_self])
    rw [table_self] at hrange
    have hbp : s₁.blocks d.ind.toNat = s.blocks d.ind.toNat := hF₁.data _ hrange.1
    have hentry : ∀ j ∈ List.range nindirect, (entry (s.blocks d.ind.toNat) j).toNat =
        d.blockAt s.blocks (.data (ndirect + j)) := by
      intro j hj
      rw [List.mem_range] at hj
      rw [blockAt_entry (by omega) (by simp only [maxfile]; omega) hind, Nat.add_sub_cancel_left]
    set L₂ := nonzero (fun j => (entry (s.blocks d.ind.toNat) j).toNat) (List.range nindirect)
      with hL₂
    have hmem₂ : ∀ c, c ∈ L₂ ↔ c ≠ 0 ∧
        ∃ bn, ¬ bn < ndirect ∧ d.blockAt s.blocks (.data bn) = c := by
      intro c
      rw [hL₂, mem_nonzero]
      refine and_congr_right fun hc => ⟨?_, ?_⟩
      · rintro ⟨j, hj, h⟩
        exact ⟨ndirect + j, by omega, by rw [← hentry j hj, h]⟩
      · rintro ⟨bn, hbn, h⟩
        have hmax : bn < maxfile := by
          by_contra hge
          exact hc (by rw [← h, blockAt_of_maxfile_le (not_lt.mp hge)])
        have hj : bn - ndirect ∈ List.range nindirect := by
          rw [List.mem_range]
          simp only [maxfile] at hmax
          omega
        exact ⟨bn - ndirect, hj, by rw [hentry _ hj, Nat.add_sub_cancel' (not_lt.mp hbn), h]⟩
    simp only [bread, wp_bind, wp_get, wp_pure, hbp]
    refine wp_post (freeEntries_spec (s := s₁) _ (fun j hj h0 => ?_)
      (fun i hi j hj h0 heq => ?_)) ?_
    · rw [hentry j hj] at h0 ⊢
      obtain ⟨hlt, hu⟩ := used_self hown hk h0
      refine ⟨hlt, ?_⟩
      rw [hF₁.used, hu, Bool.true_and, decide_eq_true_eq, hmem₁]
      rintro ⟨_, bn, hbn, heq⟩
      have := inj_self hown hk h0 heq.symm
      simp only [Place.data.injEq] at this
      omega
    · rw [hentry i hi, hentry j hj] at heq
      rw [hentry i hi] at h0
      have := inj_self hown hk h0 heq
      simpa using this
    · rintro _ s₂ ⟨hF₂, hinode₂⟩
      have hu : used V s₂.blocks d.ind.toNat = true := by
        have hu₀ := (used_self hown hk hnind).2
        rw [hF₂.used, hF₁.used, Bool.and_assoc, Bool.and_eq_true, Bool.and_eq_true,
          decide_eq_true_eq, decide_eq_true_eq, hmem₁, hmem₂]
        refine ⟨hu₀, ?_, ?_⟩
        all_goals
          rintro ⟨_, bn, _, heq⟩
          exact nomatch inj_self hown hk hnind heq.symm
      rw [wp_bind, wp_of_ok (bfree_run hu), wp_bind]
      refine htail _ (L₁ ++ L₂ ++ [d.ind.toNat]) ?_ (fun c => ?_) ?_
      · exact (hF₁.trans hF₂).trans (Freed.single hrange.2 rfl)
      · rw [List.mem_append, List.mem_append, hmem₁, hmem₂, List.mem_singleton]
        constructor
        · rintro ((⟨h0, bn, _, h⟩ | ⟨h0, bn, _, h⟩) | rfl)
          · exact ⟨h0, _, h⟩
          · exact ⟨h0, _, h⟩
          · exact ⟨hnind, .indirect, rfl⟩
        · rintro ⟨h0, p, h⟩
          cases p with
          | indirect => exact .inr h.symm
          | data bn =>
            by_cases hbn : bn < ndirect
            · exact .inl (.inl ⟨h0, bn, hbn, h⟩)
            · exact .inl (.inr ⟨h0, bn, hbn, h⟩)
      · change update s₂.inode k { s₂.inode k with
          d.addrs := update (s₂.inode k).d.addrs (Fin.last ndirect) 0 } = _
        rw [hinode₂, hinode₁, clearAddrs_last]
  · rw [not_not] at hind
    refine htail s₁ L₁ hF₁ (fun c => ?_) ?_
    · rw [hmem₁]
      refine and_congr_right fun h0 => ⟨fun ⟨bn, _, h⟩ => ⟨_, h⟩, ?_⟩
      rintro ⟨p, h⟩
      cases p with
      | indirect =>
        rw [Dinode.blockAt, hind] at h
        exact absurd h.symm h0
      | data bn =>
        by_cases hbn : bn < ndirect
        · exact ⟨bn, hbn, h⟩
        · rw [blockAt_of_ind_eq_zero hbn hind] at h
          exact absurd h.symm h0
    · have hself : update (clearAddrs s k (List.finRange ndirect) k).d.addrs
          (Fin.last ndirect) 0 = (clearAddrs s k (List.finRange ndirect) k).d.addrs := by
        rw [hinode₁] at hlast
        rw [update_eq_self_iff, hlast, hind]
      rw [hinode₁, ← clearAddrs_last, hself]
      exact (update_eq_self k _).symm

end Trunc

end Fs

open Fs

/-! ### The simulations -/

/-- Truncation, as the abstract file system sees it. -/
def Afs.itrunc (k : Fin ninode) : Kern (Afs V) Unit := do
  let n ← Afs.held k
  modify fun a => a.setNode (a.slot k).inum { n with content := [] }

section Sims

variable {s s' : Fs V} {a : Afs V} {k : Fin ninode}

/-- Ownership once the blocks of an inode are freed. -/
lemma Owns.itrunc (hown : Owns V (s.table k) s.blocks)
    (hk : Alloc V (s.table k) (s.inode k).inum) {L : List ℕ} (hF : Freed s L s')
    (hL : ∀ c, c ∈ L ↔ c ≠ 0 ∧ ∃ p, (s.inode k).d.blockAt s.blocks p = c)
    (hinode : s'.inode = update s.inode k { s.inode k with d := cleared (s.inode k).d }) :
    Owns V (s'.table k) s'.blocks := by
  have hk' : s'.inode k = { s.inode k with d := cleared (s.inode k).d } := by
    rw [hinode, update_self]
  have hself : s'.table k (s.inode k).inum = cleared (s.inode k).d := by
    have := table_self s' k
    rwa [hk'] at this
  have hother : ∀ j < V.ninodes, j ≠ (s.inode k).inum → s'.table k j = s.table k j := by
    intro j hj hne
    rw [table, table, hk', update_of_ne hne, update_of_ne hne, hF.dino j hj]
  have hplace : ∀ j q, j ≠ (s.inode k).inum → Alloc V (s.table k) j →
      (s'.table k j).blockAt s'.blocks q = (s.table k j).blockAt s.blocks q := by
    intro j q hne hj
    rw [hother j hj.1 hne]
    exact blockAt_of_agree (fun q hq => hF.data _ (hown.range j q hj hq).1) q
  have hnone : ∀ q, (s'.table k (s.inode k).inum).blockAt s'.blocks q = 0 := fun q => by
    rw [hself]
    exact blockAt_of_addrs_eq_zero (fun _ => rfl) q
  have hold : ∀ j, j ≠ (s.inode k).inum → Alloc V (s'.table k) j → Alloc V (s.table k) j :=
    fun j hne hj => ⟨hj.1, by rw [← hother j hj.1 hne]; exact hj.2⟩
  refine hown.restrict (fun j q hj hq => ?_) fun c hc => ?_
  · by_cases hji : j = (s.inode k).inum
    · exact absurd (by rw [hji]; exact hnone q) hq
    · exact ⟨hold j hji hj, hplace j q hji (hold j hji hj)⟩
  · rw [hF.used, Bool.and_eq_true, decide_eq_true_eq, hL, hown.map c hc]
    constructor
    · rintro ⟨hmeta | ⟨j, q, hj, hq⟩, hfree⟩
      · exact .inl hmeta
      · by_cases hji : j = (s.inode k).inum
        · -- a block of the inode itself is not freed only if it is none
          subst hji
          rw [table_self] at hq
          refine .inl ?_
          by_contra hge
          have := V.nmeta_pos
          exact hfree ⟨by omega, q, hq⟩
        · refine .inr ⟨j, q, ⟨hj.1, by rw [hother j hj.1 hji]; exact hj.2⟩, ?_⟩
          rw [hplace j q hji hj, hq]
    · rintro (hmeta | ⟨j, q, hj, hq⟩)
      · refine ⟨.inl hmeta, ?_⟩
        rintro ⟨h0, p, hp⟩
        have hr := hown.range _ p hk (by rw [table_self, hp]; exact h0)
        rw [table_self, hp] at hr
        omega
      · by_cases hji : j = (s.inode k).inum
        · rw [hji, hnone] at hq
          subst hq
          exact ⟨.inl V.nmeta_pos, fun h => h.1 rfl⟩
        · have hj' := hold j hji hj
          rw [hplace j q hji hj'] at hq
          refine ⟨.inr ⟨j, q, hj', hq⟩, ?_⟩
          rintro ⟨h0, p, hp⟩
          rw [← table_self s k] at hp
          exact hji (hown.inj j q _ p hj' hk (by rw [hq]; exact h0) (by rw [hq, hp])).1

/-- The inode without its content. -/
lemma Rel.itrunc (h : Rel s a) (hk : 0 < (s.inode k).ref) (hv : (s.inode k).valid = true)
    {L : List ℕ} (hF : Freed s L s')
    (hL : ∀ c, c ∈ L ↔ c ≠ 0 ∧ ∃ p, (s.inode k).d.blockAt s.blocks p = c)
    (hinode : s'.inode = Function.update s.inode k { s.inode k with d := cleared (s.inode k).d }) :
    Rel (s'.flush k) (a.setNode (a.slot k).inum { a.nodeOf k with content := [] }) := by
  obtain ⟨hn, h0⟩ := h.nodeOf hk hv
  have hal : Alloc V (s.table k) (s.inode k).inum := by rw [h.table hk hv]; exact h.alloc hk hv
  have hown : Owns V (s.table k) s.blocks := by rw [h.table hk hv]; exact h.disk.owns
  refine h.flush hk hinode hF.dino (hown.itrunc hal hF hL hinode) h0 (fun _ => ?_)
    ⟨hn.type, fun _ => hn.attr h0, fun _ _ => ⟨rfl, nofun⟩,
      fun _ => rfl, fun h => absurd h h0⟩
    fun j q _ hal' hq => hF.data _ (h.disk.owns.range j q hal' hq).1
  have hsize : (cleared (s.inode k).d).size.toNat = 0 := rfl
  rw [hsize, nblk_zero]
  exact Shape.of_addrs_eq_zero fun _ => rfl

/-- `itrunc` never finds a block of the inode free. -/
lemma sim_itrunc (k : Fin ninode) : Sim (Fs.itrunc k : Kern (Fs V) _) (Afs.itrunc k) := by
  refine sim_held fun s a h hk hv _ => ?_
  have hal : Alloc V (s.table k) (s.inode k).inum := by rw [h.table hk hv]; exact h.alloc hk hv
  have hown : Owns V (s.table k) s.blocks := by rw [h.table hk hv]; exact h.disk.owns
  refine wp_mono (itrunc_spec hown hal) ?_ fun _ he => he.elim
  rintro _ _ ⟨s₁, L, hF, hL, hinode, rfl⟩
  exact ⟨_, rfl, h.itrunc hk hv hF hL hinode⟩

/-- An entry is given up. -/
lemma CacheRel.drop {T T' : ℕ → Dinode} {inode : Fin ninode → Inode} {slot : Fin ninode → Slot}
    (h : CacheRel V T inode slot) (hk : 0 < (inode k).ref) {ip : Inode} (hip : ip.ref = 0)
    (hT : ∀ j < V.ninodes, j ≠ (inode k).inum → T' j = T j) :
    CacheRel V T' (update inode k ip) (update slot k Slot.free) := by
  have hdead : ¬ 0 < ip.ref := by omega
  refine (h.set k ⟨hip.symm, fun hr => absurd hr hdead⟩ hip.ge (fun hr => absurd hr hdead)
    (fun hr => absurd hr hdead) fun hr => absurd hr hdead).table fun l hl _ => ?_
  have hlk : l ≠ k := by
    rintro rfl
    rw [update_self] at hl
    exact hdead hl
  rw [update_of_ne hlk] at hl ⊢
  exact hT _ (h.inum l hl) fun heq => hlk (h.uniq l k hl hk heq)

/-- The last reference to an inode without links: the inode is freed. -/
lemma iput_free (h : Rel s a) (hr : (s.inode k).ref = 1) (hv : (s.inode k).valid = true)
    (hn : (s.inode k).d.nlink = 0) (hb : (s.inode k).busy = false) :
    wp (Fs.iput k)
      (fun _ s' => Rel s' ((a.setNode (a.slot k).inum Node.free).setSlot k Slot.free))
      (fun _ => False) s := by
  have hk : 0 < (s.inode k).ref := by omega
  obtain ⟨hinum, hbusy, hvalid⟩ := h.fields hk
  simp only [Fs.iput, wp_bind, wp_get]
  rw [if_pos ⟨hr, hv, hn⟩, if_neg (by simp [hb])]
  simp only [wp_bind, wp_modify]
  set s₁ := s.setInode k { s.inode k with busy := true } with hs₁
  have hk₁ : s₁.inode k = { s.inode k with busy := true } := update_self ..
  have h₁ : Rel s₁ (a.setSlot k { a.slot k with busy := true }) :=
    ⟨h.disk, h.cache.set_same hk ⟨h.ref k, fun _ => ⟨hinum, rfl, hvalid⟩⟩ (h.cache.nonneg k) rfl
      fun _ => h.cache.copy k hk⟩
  have hr₁ : 0 < (s₁.inode k).ref := by rw [hk₁]; exact hk
  have hv₁ : (s₁.inode k).valid = true := by rw [hk₁]; exact hv
  have hal : Alloc V (s₁.table k) (s₁.inode k).inum := by
    rw [h₁.table hr₁ hv₁]
    exact h₁.alloc hr₁ hv₁
  have hown : Owns V (s₁.table k) s₁.blocks := by rw [h₁.table hr₁ hv₁]; exact h₁.disk.owns
  refine wp_post (itrunc_spec hown hal) ?_
  rintro _ s₂ ⟨t, L, hF, hL, hinode, rfl⟩
  have h₂ := h₁.itrunc hr₁ hv₁ hF hL hinode
  have hkt : t.inode k = { s.inode k with busy := true, d := cleared (s.inode k).d } := by
    rw [hinode, update_self, hk₁]
  set t₃ := (t.flush k).setInode k { t.inode k with d.type := 0 } with ht₃
  have hk₃ : t₃.inode k = { t.inode k with d.type := 0 } := update_self ..
  have hi₃ : (t₃.inode k).inum < V.ninodes := by
    rw [hk₃, hkt]
    exact h.cache.inum k hk
  have hdino : ∀ j, dino V (t₃.flush k).blocks j =
      if j = (s.inode k).inum then { cleared (s.inode k).d with type := 0 }
      else dino V (t.flush k).blocks j := by
    intro j
    rw [dino_flush, table, update_apply, hk₃, hkt]
    rfl
  have hself : dino V (t.flush k).blocks (s.inode k).inum = cleared (s.inode k).d := by
    have := table_self t k
    rw [hkt] at this
    rw [dino_flush]
    exact this
  have hdisk : DiskRel V (dino V (t₃.flush k).blocks) (t₃.flush k).blocks
      (update a.node (a.slot k).inum Node.free) := by
    have hrep := h₂.disk.replace (i := (s.inode k).inum) (n := Node.free) (fun _ => by
      rw [hself]
      exact fun _ => rfl) (fun _ => rfl) rfl hdino (fun c hc => blocks_flush hi₃ hc)
      (fun c => used_flush hi₃ c) ⟨rfl, fun h => absurd rfl h, fun h => absurd rfl h,
        fun _ => rfl, fun _ => rfl⟩
    simp only [Afs.setNode, Afs.setSlot, update_self, update_idem, ← hinum] at hrep
    exact hrep
  have hcache : CacheRel V (dino V (t₃.flush k).blocks)
      (update s.inode k { t₃.inode k with
        busy := false, valid := false, ref := (t₃.inode k).ref - 1 })
      (update a.slot k Slot.free) := by
    refine h.cache.drop hk ?_ fun j hj hne => ?_
    · rw [hk₃, hkt]
      dsimp only
      omega
    · rw [hdino, if_neg hne, dino_flush, table, hkt, update_of_ne hne, hF.dino j hj]
      rfl
  let t₅ := t₃.setInode k { t₃.inode k with busy := false, valid := false }
  have hinode₆ : (t₅.setInode k { t₅.inode k with ref := (t₅.inode k).ref - 1 }).inode =
      update s.inode k { t₃.inode k with
        busy := false, valid := false, ref := (t₃.inode k).ref - 1 } := by
    simp [t₅, t₃, setInode, hinode, hs₁]
  refine ⟨hdisk, ?_⟩
  change CacheRel V (dino V (t₃.flush k).blocks)
    (t₅.setInode k { t₅.inode k with ref := (t₅.inode k).ref - 1 }).inode _
  rw [hinode₆]
  exact hcache

lemma sim_iput (k : Fin ninode) : Sim (Fs.iput k : Kern (Fs V) _) (Afs.iput k) := by
  intro s a h hub
  have href := h.ref k
  have hpos : ¬ (a.slot k).ref < 1 := fun hlt => hub (by simp [Afs.iput, bind_run, hlt])
  have hk : 0 < (s.inode k).ref := by omega
  obtain ⟨hinum, hbusy, hvalid⟩ := h.fields hk
  by_cases h1 : (s.inode k).ref = 1
  · have h1' : (a.slot k).ref = 1 := by omega
    by_cases hfree : (s.inode k).valid = true ∧ (s.inode k).d.nlink = 0
    · obtain ⟨hv, hnlink⟩ := hfree
      obtain ⟨hn, h0⟩ := h.nodeOf hk hv
      have hnl : (a.nodeOf k).nlink = 0 := by rw [(hn.attr h0).2.2, hnlink]
      cases hb : (s.inode k).busy with
      | true =>
        have hrun : Fs.iput k s = .error (.panic .iputBusy) := by
          simp [Fs.iput, bind_run, h1, hv, hnlink, hb]
        have hrun' : Afs.iput k a = .error (.panic .iputBusy) := by
          simp [Afs.iput, bind_run, h1', hvalid, hv, hnl, hbusy, hb]
        rw [wp_of_error hrun]
        exact .inl hrun'
      | false =>
        have hrun' : Afs.iput k a =
            .ok ((), (a.setNode (a.slot k).inum Node.free).setSlot k Slot.free) := by
          simp [Afs.iput, bind_run, h1', hvalid, hv, hnl, hbusy, hb]
        refine wp_mono (iput_free h h1 hv hnlink hb) (fun _ s' h' => ⟨_, hrun', h'⟩)
          fun _ he => he.elim
    · have hn : ¬ ((s.inode k).ref = 1 ∧ (s.inode k).valid = true ∧ (s.inode k).d.nlink = 0) :=
        fun hc => hfree hc.2
      have hn' : ¬ ((a.slot k).valid = true ∧ (a.nodeOf k).nlink = 0) := by
        rintro ⟨hv, hnl⟩
        rw [hvalid] at hv
        obtain ⟨hnode, h0⟩ := h.nodeOf hk hv
        exact hfree ⟨hv, by rw [← (hnode.attr h0).2.2, hnl]⟩
      have hrun' : Afs.iput k a = .ok ((), a.setSlot k Slot.free) := by
        simp [Afs.iput, bind_run, h1', hn']
      simp only [Fs.iput, wp_bind, wp_get]
      rw [if_neg hn]
      exact ⟨_, hrun', h.disk, h.cache.drop hk (by dsimp only; omega) fun _ _ _ => rfl⟩
  · have hn : ¬ ((s.inode k).ref = 1 ∧ (s.inode k).valid = true ∧ (s.inode k).d.nlink = 0) :=
      fun hc => h1 hc.1
    have h1' : (a.slot k).ref ≠ 1 := by omega
    have hrun' : Afs.iput k a =
        .ok ((), a.setSlot k { a.slot k with ref := (a.slot k).ref - 1 }) := by
      simp [Afs.iput, bind_run, hpos, h1']
    simp only [Fs.iput, wp_bind, wp_get]
    rw [if_neg hn]
    refine ⟨_, hrun', h.disk, h.cache.set_same hk ⟨?_, fun _ => ⟨hinum, hbusy, hvalid⟩⟩ ?_ rfl
      fun _ => h.cache.copy k hk⟩
    · dsimp only
      omega
    · dsimp only
      omega

end Sims

end Col331
