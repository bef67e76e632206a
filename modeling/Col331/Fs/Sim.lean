import Col331.Fs.Content
import Col331.Fs.Rel

/-!
The operations on the content and the attributes of an inode do what the abstract ones do.

* `Fs.flush`: the state after `iupdate`, in which the disk inode is the copy in the cache.
* `Rel.update`: the relation holds again when one inode, with its blocks, has been changed and the
  other inodes' blocks are left alone.
* `sim_change`, `sim_ialloc`, `sim_readi`, `sim_writei`: the simulations.
-/

namespace Col331

open Function Prog

variable {V : Volume}

namespace Fs

variable {s s' : Fs V} {k : Fin ninode}

/-! ### `iupdate` -/

/-- The state after `iupdate`. -/
def flush (s : Fs V) (k : Fin ninode) : Fs V :=
  s.write (V.iblock (s.inode k).inum)
    (setDinode (s.blocks (V.iblock (s.inode k).inum)) ((s.inode k).inum % ipb) (s.inode k).d)

@[simp] lemma iupdate_run (s : Fs V) (k : Fin ninode) : iupdate k s = .ok ((), s.flush k) := rfl

@[simp] lemma inode_flush (s : Fs V) (k : Fin ninode) : (s.flush k).inode = s.inode := rfl

/-- The disk inode is the copy in the cache, and the others are as they were. -/
lemma dino_flush (s : Fs V) (k : Fin ninode) : dino V (s.flush k).blocks = s.table k := by
  funext j
  rw [table, update_apply]
  exact dino_setDinode _

lemma blocks_flush (hi : (s.inode k).inum < V.ninodes) {c : ℕ} (hc : V.nmeta ≤ c) :
    (s.flush k).blocks c = s.blocks c := by
  have hlt := V.iblock_lt hi
  have hmeta := V.bmapstart_lt_nmeta
  exact update_of_ne (by omega) _ _

lemma used_flush (hi : (s.inode k).inum < V.ninodes) (c : ℕ) :
    used V (s.flush k).blocks c = used V s.blocks c := used_update_inode hi

/-- Writing the disk inode moves no block. -/
lemma blockAt_flush {T : ℕ → Dinode} (hown : Owns V T s.blocks) (hi : (s.inode k).inum < V.ninodes)
    {j : ℕ} (hj : Alloc V T j) (q : Place) :
    (T j).blockAt (s.flush k).blocks q = (T j).blockAt s.blocks q :=
  blockAt_of_agree (fun _ hne => blocks_flush hi (hown.range j _ hj hne).1) q

/-- Every block has one owner once the copy is on disk. -/
lemma owns_flush (hown : Owns V (s.table k) s.blocks) (hi : (s.inode k).inum < V.ninodes) :
    Owns V (dino V (s.flush k).blocks) (s.flush k).blocks := by
  rw [dino_flush]
  exact hown.congr (fun _ _ => rfl) (fun j q hj => blockAt_flush hown hi hj q)
    fun c _ => used_flush hi c

end Fs

open Fs

/-! ### One inode is changed -/

section Update

variable {s s' : Fs V} {a : Afs V} {k : Fin ninode}

/-- The in-memory copy is up to date. -/
lemma Rel.copy (h : Rel s a) (hk : 0 < (s.inode k).ref) (hv : (s.inode k).valid) :
    (s.inode k).d = dino V s.blocks (s.inode k).inum := (h.cache.copy k hk hv).1

lemma Rel.table (h : Rel s a) (hk : 0 < (s.inode k).ref) (hv : (s.inode k).valid) :
    s.table k = dino V s.blocks := by
  rw [Fs.table, h.copy hk hv]
  exact update_eq_self _ _

/-- An inode that has been locked is allocated. -/
lemma Rel.alloc (h : Rel s a) (hk : 0 < (s.inode k).ref) (hv : (s.inode k).valid) :
    Alloc V (dino V s.blocks) (s.inode k).inum :=
  ⟨h.cache.inum k hk, (h.cache.copy k hk hv).2⟩

/-- The content of a node depends on its own blocks only. -/
lemma NodeRel.agree {d : Dinode} {blocks blocks' : Disk} {n : Node} (h : NodeRel d blocks n)
    (hshape : d.type ≠ 0 → d.type ≠ tDev → Shape d blocks (nblk d.size.toNat))
    (hagree : ∀ q, d.type ≠ 0 → d.blockAt blocks q ≠ 0 →
      blocks' (d.blockAt blocks q) = blocks (d.blockAt blocks q)) : NodeRel d blocks' n := by
  refine ⟨h.type, h.attr, fun h0 hdev => ?_, h.dev, h.free⟩
  obtain ⟨hlen, hbytes⟩ := h.content h0 hdev
  refine ⟨hlen, fun m hm => ?_⟩
  rw [hbytes m hm, byteAt_of_agree (fun q hq => hagree q h0 hq)]
  rw [(hshape h0 hdev).data]
  refine lt_nblk_iff.mpr (lt_of_le_of_lt (Nat.div_mul_le_self m bsize) ?_)
  omega

/-- **One inode is changed**: the relation holds again when its copy is on disk and the blocks of
the other inodes are as they were. -/
lemma Rel.update (h : Rel s a) (hk : 0 < (s.inode k).ref) {d : Dinode} {n : Node}
    (hinode : s'.inode = Function.update s.inode k { s.inode k with d := d })
    (hdino : ∀ j < V.ninodes, dino V s'.blocks j =
      if j = (s.inode k).inum then d else dino V s.blocks j)
    (howns : Owns V (dino V s'.blocks) s'.blocks) (htype : d.type ≠ 0)
    (hshape : d.type ≠ tDev → Shape d s'.blocks (nblk d.size.toNat))
    (hnode : NodeRel d s'.blocks n)
    (hagree : ∀ j q, j ≠ (s.inode k).inum → Alloc V (dino V s.blocks) j →
      (dino V s.blocks j).blockAt s.blocks q ≠ 0 →
      s'.blocks ((dino V s.blocks j).blockAt s.blocks q) =
        s.blocks ((dino V s.blocks j).blockAt s.blocks q)) :
    Rel s' (a.setNode (a.slot k).inum n) := by
  have hi := h.cache.inum k hk
  have hself : dino V s'.blocks (s.inode k).inum = d := by rw [hdino _ hi, if_pos rfl]
  have hother : ∀ j < V.ninodes, j ≠ (s.inode k).inum → dino V s'.blocks j = dino V s.blocks j :=
    fun j hj hne => by rw [hdino j hj, if_neg hne]
  rw [Afs.setNode, (h.fields hk).1]
  refine ⟨⟨howns, fun j hj hdev => ?_, fun j hj => ?_⟩, ?_⟩
  · by_cases hji : j = (s.inode k).inum
    · subst hji
      rw [hself] at hdev ⊢
      exact hshape hdev
    · have hj' : Alloc V (dino V s.blocks) j := ⟨hj.1, by rw [← hother j hj.1 hji]; exact hj.2⟩
      rw [hother j hj.1 hji] at hdev ⊢
      exact (h.disk.shape j hj' hdev).congr
        (blockAt_of_agree fun q hq => hagree j q hji hj' hq)
  · by_cases hji : j = (s.inode k).inum
    · subst hji
      dsimp only
      rw [hself, update_self]
      exact hnode
    · dsimp only
      rw [hother j hj hji, update_of_ne hji]
      exact (h.disk.node j hj).agree (fun h0 hdev => h.disk.shape j ⟨hj, h0⟩ hdev)
        fun q h0 hq => hagree j q hji ⟨hj, h0⟩ hq
  · rw [hinode]
    exact h.cache.write hk hself htype hother

/-- **The same for code that ends with `iupdate`**: the copy `d` of the inode is ahead of the disk
in `s'`, and is written to it. -/
lemma Rel.flush (h : Rel s a) (hk : 0 < (s.inode k).ref) {d : Dinode} {n : Node}
    (hinode : s'.inode = Function.update s.inode k { s.inode k with d := d })
    (hdino : ∀ j < V.ninodes, dino V s'.blocks j = dino V s.blocks j)
    (howns : Owns V (s'.table k) s'.blocks) (htype : d.type ≠ 0)
    (hshape : d.type ≠ tDev → Shape d s'.blocks (nblk d.size.toNat))
    (hnode : NodeRel d s'.blocks n)
    (hagree : ∀ j q, j ≠ (s.inode k).inum → Alloc V (dino V s.blocks) j →
      (dino V s.blocks j).blockAt s.blocks q ≠ 0 →
      s'.blocks ((dino V s.blocks j).blockAt s.blocks q) =
        s.blocks ((dino V s.blocks j).blockAt s.blocks q)) :
    Rel (s'.flush k) (a.setNode (a.slot k).inum n) := by
  have hk' : s'.inode k = { s.inode k with d := d } := by rw [hinode, update_self]
  have hinum : (s'.inode k).inum = (s.inode k).inum := by rw [hk']
  have hd : (s'.inode k).d = d := by rw [hk']
  have hi' : (s'.inode k).inum < V.ninodes := by rw [hinum]; exact h.cache.inum k hk
  have hself : ∀ q, d.type ≠ 0 → d.blockAt s'.blocks q ≠ 0 →
      (s'.flush k).blocks (d.blockAt s'.blocks q) = s'.blocks (d.blockAt s'.blocks q) := by
    intro q _ hq
    refine blocks_flush hi' ?_
    have hal : Alloc V (s'.table k) (s'.inode k).inum := ⟨hi', by rw [table_self, hd]; exact htype⟩
    have := howns.range _ q hal (by rw [table_self, hd]; exact hq)
    rw [table_self, hd] at this
    exact this.1
  refine h.update hk hinode (fun j hj => ?_) (owns_flush howns hi') htype (fun hdev => ?_)
    (hnode.agree (fun _ hdev => hshape hdev) hself) fun j q hj hal hne => ?_
  · rw [dino_flush, Fs.table, update_apply, hinum, hd, hdino j hj]
  · exact (hshape hdev).congr (blockAt_of_agree fun q hq => hself q htype hq)
  · rw [blocks_flush hi' (h.disk.owns.range j q hal hne).1]
    exact hagree j q hj hal hne

/-- The inode of an entry that has been locked. -/
lemma Rel.nodeOf (h : Rel s a) (hk : 0 < (s.inode k).ref) (hv : (s.inode k).valid) :
    NodeRel (s.inode k).d s.blocks (a.nodeOf k) ∧ (s.inode k).d.type ≠ 0 := by
  rw [h.copy hk hv, Afs.nodeOf, (h.fields hk).1]
  exact ⟨h.disk.node _ (h.cache.inum k hk), (h.cache.copy k hk hv).2⟩

/-- The inode of an entry that has been locked can be worked on. -/
lemma Rel.working (h : Rel s a) (hk : 0 < (s.inode k).ref) (hv : (s.inode k).valid)
    (hdev : (s.inode k).d.type ≠ tDev) : Working s k (nblk (s.inode k).d.size.toNat) := by
  refine ⟨by rw [h.table hk hv]; exact h.disk.owns, by rw [h.table hk hv]; exact h.alloc hk hv, ?_⟩
  rw [h.copy hk hv] at hdev ⊢
  exact h.disk.shape _ (h.alloc hk hv) hdev

end Update

/-! ### Attributes -/

section Held

variable {α : Type} {k : Fin ninode}

lemma Afs.held_run {a : Afs V} (hr : 0 < (a.slot k).ref) (hv : (a.slot k).valid = true) :
    Afs.held k a = .ok (a.nodeOf k, a) := by
  simp [Afs.held, bind_run, hr, hv]

variable {f : Node → Kern (Afs V) α}

lemma Afs.held_of_ne_wild {a : Afs V}
    (hub : (Afs.held k >>= f) a ≠ .error .wild) : 0 < (a.slot k).ref ∧ (a.slot k).valid = true := by
  by_contra hno
  refine hub (bind_error ?_ f)
  simp only [Afs.held, bind_run, get_run, if_neg hno, throw_run]

lemma Rel.held_of_ne_wild {s : Fs V} {a : Afs V} (h : Rel s a)
    (hub : (Afs.held k >>= f) a ≠ .error .wild) : 0 < (s.inode k).ref ∧ (s.inode k).valid = true := by
  obtain ⟨hr, hv⟩ := Afs.held_of_ne_wild hub
  rw [h.ref k] at hr
  exact ⟨hr, by rw [← (h.fields hr).2.2]; exact hv⟩

/-- The rule for abstract operations on an inode that must have been locked. -/
lemma sim_held {x : Kern (Fs V) α}
    (hx : ∀ s a, Rel s a → 0 < (s.inode k).ref → (s.inode k).valid = true →
      f (a.nodeOf k) a ≠ .error .wild → wp x (fun r s' => ∃ a', f (a.nodeOf k) a = .ok (r, a') ∧ Rel s' a')
        (fun e => f (a.nodeOf k) a = .error e ∨ e = .panic .ballocOut) s) :
    Sim x (Afs.held k >>= f) := by
  intro s a h hub
  have hheld := Afs.held_of_ne_wild hub
  obtain ⟨hk, hv⟩ := h.held_of_ne_wild hub
  have hrun : (Afs.held k >>= f) a = f (a.nodeOf k) a :=
    bind_ok (Afs.held_run hheld.1 hheld.2) f
  rw [hrun] at hub ⊢
  exact hx s a h hk hv hub

lemma sim_inum (k : Fin ninode) :
    Sim (InodeLayer.inum k : Kern (Fs V) ℕ) (InodeLayer.inum k) := by
  intro s a h hub
  have hno : ¬ (a.slot k).ref < 1 := fun hlt => hub (by
    change Afs.inum k a = _
    simp [Afs.inum, bind_run, hlt])
  have href := h.ref k
  refine ⟨a, ?_, h⟩
  change Afs.inum k a = _
  simp [Afs.inum, bind_run, hno, (h.fields (by omega : 0 < (s.inode k).ref)).1]

lemma sim_type (k : Fin ninode) :
    Sim (InodeLayer.type k : Kern (Fs V) Int16) (InodeLayer.type k) := by
  refine sim_held fun s a h hk hv _ => ⟨a, ?_, h⟩
  rw [(h.nodeOf hk hv).1.type]
  rfl

lemma sim_nlink (k : Fin ninode) :
    Sim (InodeLayer.nlink k : Kern (Fs V) Int16) (InodeLayer.nlink k) := by
  refine sim_held fun s a h hk hv _ => ⟨a, ?_, h⟩
  obtain ⟨hn, h0⟩ := h.nodeOf hk hv
  rw [(hn.attr h0).2.2]
  rfl

lemma sim_size (k : Fin ninode) :
    Sim (InodeLayer.size k : Kern (Fs V) ℕ) (InodeLayer.size k) := by
  change Sim _ (Afs.held k >>= fun n =>
    if n.type = tDev then throw .wild else pure n.content.length)
  refine sim_held fun s a h hk hv hub => ⟨a, ?_, h⟩
  obtain ⟨hn, h0⟩ := h.nodeOf hk hv
  split_ifs at hub ⊢ with hdev
  · exact absurd rfl hub
  · rw [(hn.content h0 (by rwa [← hn.type])).1]
    rfl

lemma sim_change (k : Fin ninode) (f : Attr → Attr) :
    Sim (Fs.change k f : Kern (Fs V) Unit) (Afs.change k f) := by
  refine sim_held fun s a h hk hv _ => ?_
  obtain ⟨hn, h0⟩ := h.nodeOf hk hv
  obtain ⟨hmajor, hminor, hnlink⟩ := hn.attr h0
  set d := setAttr (s.inode k).d (f (attr (s.inode k).d)) with hd
  set s₁ := s.setInode k { s.inode k with d := d } with hs₁
  have hrun : Fs.change k f s = .ok ((), s₁.flush k) := by
    simp [Fs.change, bind_run, hs₁, hd]
  have hk₁ : s₁.inode k = { s.inode k with d := d } := update_self ..
  have htable : s₁.table k = Function.update (dino V s.blocks) (s.inode k).inum d := by
    rw [Fs.table, hk₁]
    rfl
  have hown : Owns V (s₁.table k) s₁.blocks := by
    refine h.disk.owns.congr (fun j _ => ?_) (fun j q _ => ?_) fun _ _ => rfl
    all_goals
      rw [htable, update_apply]
      split_ifs with hj
    · rw [hj, ← h.copy hk hv]
      rfl
    · rfl
    · rw [hj, ← h.copy hk hv]
      exact blockAt_of_addrs_eq rfl q
    · rfl
  rw [wp_of_ok hrun]
  refine ⟨_, rfl, h.flush hk rfl (fun _ _ => rfl) hown h0 (fun hdev => ?_)
    ⟨hn.type, fun _ => ?_, hn.content, hn.dev, fun h => absurd h h0⟩ fun _ _ _ _ _ => rfl⟩
  · exact (h.working hk hv hdev).shape.congr (blockAt_of_addrs_eq rfl)
  · rw [hmajor, hminor, hnlink]
    exact ⟨rfl, rfl, rfl⟩

end Held

/-! ### `ialloc` -/

lemma Rel.freeInode? {s : Fs V} {a : Afs V} (h : Rel s a) : s.freeInode? = a.freeInode? := by
  rw [Fs.freeInode?, Afs.freeInode?]
  refine List.find?_congr fun i hi => ?_
  have hlt : i < V.ninodes := by
    rw [List.mem_range'_1] at hi
    omega
  rw [(h.disk.node i hlt).type]

/-- **Inode `i`, which has no blocks, is replaced by one without blocks.** -/
lemma DiskRel.replace {T T' : ℕ → Dinode} {blocks blocks' : Disk} {node : ℕ → Node}
    (h : DiskRel V T blocks node) {i : ℕ} {d : Dinode} {n : Node}
    (hold : Alloc V T i → ∀ x, (T i).addrs x = 0) (hnew : ∀ x, d.addrs x = 0) (hsize : d.size = 0)
    (hT : ∀ j, T' j = if j = i then d else T j)
    (hblocks : ∀ c, V.nmeta ≤ c → blocks' c = blocks c)
    (hused : ∀ c, used V blocks' c = used V blocks c) (hn : NodeRel d blocks' n) :
    DiskRel V T' blocks' (Function.update node i n) := by
  have hnone : ∀ q, d.blockAt blocks' q = 0 := blockAt_of_addrs_eq_zero hnew
  have hagree : ∀ j, Alloc V T j → ∀ q, (T j).blockAt blocks q ≠ 0 →
      blocks' ((T j).blockAt blocks q) = blocks ((T j).blockAt blocks q) := fun j hj q hq =>
    hblocks _ (h.owns.range j q hj hq).1
  have hother : ∀ j, j ≠ i → T' j = T j := fun j hj => by rw [hT, if_neg hj]
  have hback : ∀ j, j ≠ i → Alloc V T' j → Alloc V T j := fun j hji hj =>
    ⟨hj.1, by rw [← hother j hji]; exact hj.2⟩
  have hplace : ∀ j q, j ≠ i → Alloc V T j → (T' j).blockAt blocks' q = (T j).blockAt blocks q :=
    fun j q hji hj => by
      rw [hother j hji]
      exact blockAt_of_agree (hagree j hj) q
  refine ⟨h.owns.restrict (fun j q hj hq => ?_) fun c hc => ?_, fun j hj hdev => ?_, fun j hj => ?_⟩
  · by_cases hji : j = i
    · rw [hT, if_pos hji] at hq
      exact absurd (hnone q) hq
    · exact ⟨hback j hji hj, hplace j q hji (hback j hji hj)⟩
  · rw [hused, h.owns.map c hc]
    constructor
    · rintro (hmeta | ⟨j, q, hj, hq⟩)
      · exact .inl hmeta
      · by_cases hji : j = i
        · subst hji
          rw [blockAt_of_addrs_eq_zero (hold hj)] at hq
          exact .inl (by rw [← hq]; exact V.nmeta_pos)
        · exact .inr ⟨j, q, ⟨hj.1, by rw [hother j hji]; exact hj.2⟩, by rw [hplace j q hji hj, hq]⟩
    · rintro (hmeta | ⟨j, q, hj, hq⟩)
      · exact .inl hmeta
      · by_cases hji : j = i
        · rw [hT, if_pos hji, hnone] at hq
          exact .inl (by rw [← hq]; exact V.nmeta_pos)
        · have hj' := hback j hji hj
          exact .inr ⟨j, q, hj', by rw [← hplace j q hji hj', hq]⟩
  · by_cases hji : j = i
    · rw [hT, if_pos hji, hsize]
      exact Shape.of_addrs_eq_zero hnew
    · have hj' := hback j hji hj
      rw [hother j hji] at hdev ⊢
      exact (h.shape j hj' hdev).congr (blockAt_of_agree (hagree j hj'))
  · by_cases hji : j = i
    · rw [hT, if_pos hji, hji, update_self]
      exact hn
    · rw [hother j hji, update_of_ne hji]
      exact (h.node j hj).agree (fun h0 hdev => h.shape j ⟨hj, h0⟩ hdev)
        fun q h0 hq => hagree j ⟨hj, h0⟩ q hq

/-- Inode `i`, which was free, is allocated without blocks. -/
lemma Rel.ialloc {s : Fs V} {a : Afs V} (h : Rel s a) {i : ℕ} (hi : i < V.ninodes)
    (hfree : (dino V s.blocks i).type = 0) (type : Int16) :
    Rel (s.write (V.iblock i)
        (setDinode (s.blocks (V.iblock i)) (i % ipb) { Dinode.zero with type := type }))
      (a.setNode i { Node.free with type := type }) := by
  refine ⟨h.disk.replace (i := i) (fun hal => absurd hfree hal.2) (fun _ => rfl) rfl
    (fun j => dino_setDinode _) (fun c hc => ?_) (fun c => used_update_inode hi)
    ⟨rfl, fun _ => ⟨rfl, rfl, rfl⟩, fun _ _ => ⟨rfl, fun m hm => absurd hm (by simp [Node.free])⟩,
      fun _ => rfl, fun (h : type = 0) => by rw [h]; rfl⟩,
    h.cache.table fun k hk hv => ?_⟩
  · have hlt := V.iblock_lt hi
    have hmeta := V.bmapstart_lt_nmeta
    exact update_of_ne (by omega) _ _
  · refine (dino_setDinode _).trans (if_neg ?_)
    exact fun hki => (h.cache.copy k hk hv).2 (by rw [hki]; exact hfree)

lemma sim_ialloc (type : Int16) :
    Sim (Fs.ialloc type : Kern (Fs V) _) (Afs.ialloc type) := by
  intro s a h hub
  cases hf : a.freeInode? with
  | none =>
    have hrun : Fs.ialloc type s = .error (.panic .iallocNone) := by
      simp [Fs.ialloc, bind_run, h.freeInode?.trans hf]
    have hrun' : Afs.ialloc type a = .error (.panic .iallocNone) := by
      simp [Afs.ialloc, bind_run, hf]
    rw [wp_of_error hrun]
    exact .inl hrun'
  | some i =>
    have hs := h.freeInode?.trans hf
    have hi : i < V.ninodes := by
      have := List.mem_of_find?_eq_some hs
      rw [List.mem_range'_1] at this
      omega
    have hfree : (dino V s.blocks i).type = 0 := by simpa using List.find?_some hs
    have hrun : Fs.ialloc type s = Fs.iget i (s.write (V.iblock i)
        (setDinode (s.blocks (V.iblock i)) (i % ipb) { Dinode.zero with type := type })) := by
      simp [Fs.ialloc, bind_run, hs, logWrite]
    have hrun' : Afs.ialloc type a = Afs.iget i (a.setNode i { Node.free with type := type }) := by
      simp [Afs.ialloc, bind_run, hf]
    rw [hrun'] at hub ⊢
    rw [wp, hrun]
    exact sim_iget i _ _ (h.ialloc hi hfree type) hub

/-! ### `readi` and `writei` -/

lemma sim_readi (k : Fin ninode) (off n : ℕ) :
    Sim (Fs.readi k off n : Kern (Fs V) _) (Afs.readi k off n) := by
  refine sim_held fun s a h hk hv _ => ?_
  obtain ⟨hn, h0⟩ := h.nodeOf hk hv
  simp only [Fs.readi, wp_bind, wp_get]
  by_cases hdev : (s.inode k).d.type = tDev
  · rw [if_pos hdev, if_pos (hn.type.trans hdev), (hn.attr h0).1]
    exact ⟨a, rfl, h⟩
  · obtain ⟨hlen, hbytes⟩ := hn.content h0 hdev
    have hdev' : ¬ (a.nodeOf k).type = tDev := by rwa [hn.type]
    rw [if_neg hdev, if_neg hdev', hlen]
    by_cases hout : off > (s.inode k).d.size.toNat ∨ 2 ^ 32 ≤ off + n
    · rw [if_pos hout, if_pos hout]
      exact ⟨a, rfl, h⟩
    · rw [if_neg hout, if_neg hout]
      set m := if off + n > (s.inode k).d.size.toNat then (s.inode k).d.size.toNat - off else n
        with hm
      have hle : off + m ≤ (s.inode k).d.size.toNat := by
        rw [hm]
        split_ifs <;> omega
      rw [wp_map]
      refine wp_mono (readLoop_spec (h.working hk hv hdev) m off m le_rfl
        (hle.trans (le_nblk_mul _))) ?_ fun _ he => he.elim
      rintro _ s' ⟨hs, rfl⟩
      rw [hs]
      refine ⟨a, ?_, h⟩
      have hcontent : ((a.nodeOf k).content.drop off).take n =
          (List.range m).map fun j => (s.inode k).d.byteAt s.blocks (off + j) := by
        apply List.ext_getElem
        · rw [List.length_take, List.length_drop, List.length_map, List.length_range, hlen, hm]
          split_ifs <;> omega
        · intro j h1 h2
          rw [List.getElem_take, List.getElem_drop, List.getElem_map, List.getElem_range]
          exact hbytes (off + j) _
      rw [hcontent]
      rfl

/-- The content after a write, byte by byte. -/
lemma Afs.overlay_length {c src : List UInt8} {off : ℕ} (hoff : off ≤ c.length) :
    (Afs.overlay c src off).length = max c.length (off + src.length) := by
  simp only [Afs.overlay, List.length_append, List.length_take, List.length_drop]
  omega

lemma Afs.overlay_getElem {c src : List UInt8} {off : ℕ} (hoff : off ≤ c.length) {m : ℕ}
    (hm : m < (Afs.overlay c src off).length) :
    (Afs.overlay c src off)[m] =
      if off ≤ m ∧ m < off + src.length then src.getD (m - off) 0 else c.getD m 0 := by
  have htake : (c.take off).length = off := by rw [List.length_take]; omega
  rw [← List.getD_eq_getElem _ 0, Afs.overlay, List.append_assoc]
  by_cases h1 : off ≤ m
  · rw [List.getD_append_right _ _ _ _ (by omega), htake]
    by_cases h2 : m < off + src.length
    · rw [if_pos ⟨h1, h2⟩, List.getD_append _ _ _ _ (by omega)]
    · have hsub : off + src.length + (m - off - src.length) = m := by omega
      rw [if_neg (by omega), List.getD_append_right _ _ _ _ (by omega),
        List.getD_eq_getElem?_getD, List.getElem?_drop, hsub, List.getD_eq_getElem?_getD]
  · rw [if_neg (by omega), List.getD_append _ _ _ _ (by omega), List.getD_eq_getElem?_getD,
      List.getElem?_take_of_lt (by omega), List.getD_eq_getElem?_getD]

/-- The inode after a write, once its size is set. -/
lemma NodeRel.overlay {s s' : Fs V} {k : Fin ninode} {n : Node} {off K : ℕ} {src : List UInt8}
    (hn : NodeRel (s.inode k).d s.blocks n) (h0 : (s.inode k).d.type ≠ 0)
    (hdev : (s.inode k).d.type ≠ tDev) (hK : K = nblk (s.inode k).d.size.toNat)
    (hW : Wrote s k K off src s') (hoff : off ≤ (s.inode k).d.size.toNat) {d : Dinode}
    (haddrs : d.addrs = (s'.inode k).d.addrs)
    (hfields : d = { (s.inode k).d with addrs := d.addrs, size := d.size })
    (hsize : d.size.toNat = max (s.inode k).d.size.toNat (off + src.length)) :
    NodeRel d s'.blocks { n with content := Afs.overlay n.content src off } := by
  obtain ⟨hlen, hbytes⟩ := hn.content h0 hdev
  have htype : d.type = (s.inode k).d.type := by rw [hfields]
  refine ⟨?_, fun _ => ?_, fun _ _ => ⟨?_, fun m hm => ?_⟩, fun h => ?_, fun h => ?_⟩
  · rw [hfields]
    exact hn.type
  · rw [hfields]
    exact hn.attr h0
  · rw [Afs.overlay_length (by omega), hsize, hlen]
  · have hm' := hm
    rw [Afs.overlay_length (by omega)] at hm'
    have hsz : (s.inode k).d.size.toNat ≤ K * bsize := by rw [hK]; exact le_nblk_mul _
    have hbyte : d.byteAt s'.blocks m = (s'.inode k).d.byteAt s'.blocks m := by
      rw [Dinode.byteAt, Dinode.byteAt, blockAt_of_addrs_eq haddrs]
    rw [Afs.overlay_getElem (by omega), hbyte, hW.bytes m (by omega)]
    split_ifs with hin
    · rfl
    · rw [List.getD_eq_getElem _ _ (by omega : m < n.content.length)]
      exact hbytes m _
  · exact absurd (htype.symm.trans h) hdev
  · exact absurd (htype.symm.trans h) h0

/-- `writei` refuses to write `n` bytes at `off` to a file of `size` bytes. -/
def Refused (size off n : ℕ) : Prop :=
  off > size ∨ 2 ^ 32 ≤ off + n ∨ off + n > maxfile * bsize

/-- The state after `writei` once the bytes are written: a file that has grown gets its new size,
and its disk inode is written. -/
def Fs.resized (s : Fs V) (k : Fin ninode) (n : ℕ) : Fs V :=
  (s.setInode k { s.inode k with d.size := UInt32.ofNat n }).flush k

/-- **What `writei` does** to an inode that has been locked. -/
lemma writei_spec {s : Fs V} {k : Fin ninode} {src : List UInt8} {off : ℕ}
    (hw : Working s k (nblk (s.inode k).d.size.toNat)) (hdev : (s.inode k).d.type ≠ tDev) :
    wp (Fs.writei k src off) (fun r s' =>
        (Refused (s.inode k).d.size.toNat off src.length ∧ r = -1 ∧ s' = s) ∨
        (¬ Refused (s.inode k).d.size.toNat off src.length ∧ r = src.length ∧
          (∃ s₁, Wrote s k (nblk (s.inode k).d.size.toNat) off src s₁ ∧
            s' = if (s.inode k).d.size.toNat < off + src.length then
              s₁.resized k (off + src.length) else s₁) ∧
          missing (s.inode k).d.size.toNat (off + src.length) ≤ s.space))
      (fun e => e = .panic .ballocOut ∧ ¬ Refused (s.inode k).d.size.toNat off src.length ∧
        ¬ missing (s.inode k).d.size.toNat (off + src.length) ≤ s.space) s := by
  simp only [Fs.writei, wp_bind, wp_get]
  rw [if_neg hdev]
  by_cases hout : off > (s.inode k).d.size.toNat ∨ 2 ^ 32 ≤ off + src.length
  · rw [if_pos hout]
    exact .inl ⟨hout.imp_right .inl, rfl, rfl⟩
  rw [if_neg hout]
  by_cases hbig : off + src.length > maxfile * bsize
  · rw [if_pos hbig]
    exact .inl ⟨.inr (.inr hbig), rfl, rfl⟩
  rw [if_neg hbig, wp_bind]
  have hoff : off ≤ (s.inode k).d.size.toNat := by omega
  have hno : ¬ Refused (s.inode k).d.size.toNat off src.length := by
    rintro (h | h | h)
    · exact hout (.inl h)
    · exact hout (.inr h)
    · exact hbig h
  refine wp_mono (writeLoop_spec _ s _ off src le_rfl hw (hoff.trans (le_nblk_mul _)) (by omega))
    ?_ fun _ he => ⟨he.1, hno, short_iff.mp he.2⟩
  rintro _ s₁ ⟨hW, hroom⟩
  have hspace : missing (s.inode k).d.size.toNat (off + src.length) ≤ s.space := by
    by_contra hshort
    have : Short .. := short_iff.mpr hshort
    rw [Short, ← hroom] at this
    omega
  by_cases hgrow : 0 < src.length ∧ off + src.length > (s.inode k).d.size.toNat
  · rw [if_pos hgrow]
    exact .inr ⟨hno, rfl, ⟨s₁, hW, (if_pos hgrow.2).symm⟩, hspace⟩
  · rw [if_neg hgrow]
    exact .inr ⟨hno, rfl, ⟨s₁, hW, (if_neg (by omega)).symm⟩, hspace⟩

/-- The relation after a write. -/
lemma Rel.writei {s s₁ : Fs V} {a : Afs V} {k : Fin ninode} {src : List UInt8} {off : ℕ}
    (h : Rel s a) (hk : 0 < (s.inode k).ref) (hv : (s.inode k).valid = true)
    (hdev : (s.inode k).d.type ≠ tDev)
    (hno : ¬ Refused (s.inode k).d.size.toNat off src.length)
    (hW : Wrote s k (nblk (s.inode k).d.size.toNat) off src s₁) :
    Rel (if (s.inode k).d.size.toNat < off + src.length then
        s₁.resized k (off + src.length) else s₁)
      (a.setNode (a.slot k).inum
        { a.nodeOf k with content := Afs.overlay (a.nodeOf k).content src off }) := by
  obtain ⟨hn, h0⟩ := h.nodeOf hk hv
  obtain ⟨hlen, hbytes⟩ := hn.content h0 hdev
  simp only [Refused, not_or, not_lt, not_le] at hno
  obtain ⟨hoff, h32, hmax⟩ := hno
  have htable := h.table hk hv
  have hagree : ∀ j q, j ≠ (s.inode k).inum → Alloc V (dino V s.blocks) j →
      (dino V s.blocks j).blockAt s.blocks q ≠ 0 →
      s₁.blocks ((dino V s.blocks j).blockAt s.blocks q) =
        s.blocks ((dino V s.blocks j).blockAt s.blocks q) := by
    intro j q hj hal hne
    have := hW.agree j q hj
    rw [htable] at this
    exact this hal hne
  split_ifs with hgrow
  · -- the file has grown: `iupdate` writes the new size and the new addresses
    have hsize : (UInt32.ofNat (off + src.length)).toNat = off + src.length :=
      UInt32.toNat_ofNat_of_lt' (by simp only [UInt32.size]; omega)
    set d : Dinode := { (s₁.inode k).d with size := UInt32.ofNat (off + src.length) } with hd
    set s₂ := s₁.setInode k { s₁.inode k with d := d } with hs₂
    have hk₂ : s₂.inode k = { s₁.inode k with d := d } := update_self ..
    have hinode : s₂.inode = Function.update s.inode k { s.inode k with d := d } := by
      rw [hs₂, setInode]
      rw [hW.inode]
      simp
    have hown : Owns V (s₂.table k) s₂.blocks := by
      have htab : s₂.table k = Function.update (s₁.table k) (s₁.inode k).inum d := by
        rw [Fs.table, Fs.table, hk₂, update_idem]
        rfl
      refine hW.owns.congr (fun j _ => ?_) (fun j q _ => ?_) fun _ _ => rfl
      all_goals
        rw [htab, update_apply]
        split_ifs with hj
      · rw [hj, table_self]
      · rfl
      · rw [hj, table_self]
        exact blockAt_of_addrs_eq rfl q
      · rfl
    have htype : d.type = (s.inode k).d.type := by
      rw [hd, hW.fields]
    refine h.flush hk hinode (fun j hj => hW.dino j hj) hown (by rw [htype]; exact h0)
      (fun _ => ?_) (hn.overlay h0 hdev rfl hW hoff (d := d) rfl ?_ ?_) hagree
    · have hshape := hW.shape
      rw [max_eq_right (nblk_mono (by omega))] at hshape
      rw [hd]
      rw [hsize]
      exact hshape.congr (blockAt_of_addrs_eq rfl)
    · rw [hd, hW.fields]
    · rw [hd]
      rw [hsize, max_eq_right (by omega)]
  · -- nothing was allocated, and the copy is the disk inode still
    have hsame : s₁.inode = s.inode := hW.same (nblk_mono (by omega))
    refine h.update hk (d := (s.inode k).d) ?_ (fun j hj => ?_) ?_ h0 (fun _ => ?_)
      (hn.overlay h0 hdev rfl hW hoff (by rw [hsame]) rfl (by omega)) hagree
    · rw [hsame]
      exact (update_eq_self k s.inode).symm
    · rw [hW.dino j hj]
      split_ifs with hj
      · rw [hj, h.copy hk hv]
      · rfl
    · have htab : ∀ j < V.ninodes, dino V s₁.blocks j = s₁.table k j := by
        intro j hj
        rw [Fs.table, update_apply, hsame]
        split_ifs with hji
        · rw [hW.dino j hj, hji, h.copy hk hv]
        · rfl
      exact hW.owns.congr (fun j hj => by rw [htab j hj]) (fun j q hj => by rw [htab j hj.1])
        fun _ _ => rfl
    · have hshape := hW.shape
      rw [max_eq_left (nblk_mono (by omega)), hsame] at hshape
      exact hshape

lemma sim_writei (k : Fin ninode) (src : List UInt8) (off : ℕ) :
    Sim (Fs.writei k src off : Kern (Fs V) _) (Afs.writei k src off) := by
  refine sim_held fun s a h hk hv _ => ?_
  obtain ⟨hn, h0⟩ := h.nodeOf hk hv
  by_cases hdev : (s.inode k).d.type = tDev
  · simp only [Fs.writei, wp_bind, wp_get]
    rw [if_pos hdev, if_pos (hn.type.trans hdev), (hn.attr h0).1]
    exact ⟨a, rfl, h⟩
  · have hdev' : ¬ (a.nodeOf k).type = tDev := by rwa [hn.type]
    rw [if_neg hdev', (hn.content h0 hdev).1]
    refine wp_mono (writei_spec (h.working hk hv hdev) hdev) ?_ fun _ he => .inr he.1
    rintro r s' (⟨hr, rfl, rfl⟩ | ⟨hno, rfl, ⟨s₁, hW, rfl⟩, -⟩)
    · refine ⟨a, ?_, h⟩
      split_ifs with h1 h2
      · rfl
      · rfl
      · simp only [Refused] at hr
        omega
    · refine ⟨_, ?_, h.writei hk hv hdev hno hW⟩
      simp only [Refused, not_or] at hno
      rw [if_neg (by omega), if_neg hno.2.2]
      rfl

end Col331
