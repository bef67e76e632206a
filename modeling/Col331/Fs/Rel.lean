import Col331.Fs.Abstract
import Col331.Fs.Owner
import Col331.Logic.Refine

/-!
The file system of `fs.c` refines the abstract one: the relation between their states, and the
operations on the inode cache.

* `DiskRel`: the blocks on disk store the inodes of the abstract file system, each block owned by
  one place, each file with exactly the blocks its size calls for.
* `CacheRel`: the inode cache holds the entries of the abstract cache, and a valid copy of a disk
  inode is up to date.
* `Sim x y`: the program `x` of `fs.c` does what the abstract program `y` does.
-/

namespace Col331

open Function Prog

variable {V : Volume}

/-! ### The relation -/

/-- The disk inode `d` stores the inode `n`. -/
structure NodeRel (d : Dinode) (blocks : Disk) (n : Node) : Prop where
  type : n.type = d.type
  attr : d.type ≠ 0 → n.major = d.major ∧ n.minor = d.minor ∧ n.nlink = d.nlink
  content : d.type ≠ 0 → d.type ≠ tDev → n.content.length = d.size.toNat ∧
    ∀ m (h : m < n.content.length), n.content[m] = d.byteAt blocks m
  dev : d.type = tDev → n.content = []
  free : d.type = 0 → n = Node.free

/-- The blocks on disk, with the inode table `T`, store the inodes `node`. -/
structure DiskRel (V : Volume) (T : ℕ → Dinode) (blocks : Disk) (node : ℕ → Node) : Prop where
  owns : Owns V T blocks
  shape : ∀ i, Alloc V T i → (T i).type ≠ tDev → Shape (T i) blocks (nblk (T i).size.toNat)
  node : ∀ i < V.ninodes, NodeRel (T i) blocks (node i)

/-- A cache entry and its abstract counterpart, which is forgotten when not in use. -/
structure EntryRel (ip : Inode) (sl : Slot) : Prop where
  ref : sl.ref = ip.ref
  fields : 0 < ip.ref → sl.inum = ip.inum ∧ sl.busy = ip.busy ∧ sl.valid = ip.valid

/-- The inode cache over the inode table `T`: every inode has at most one entry, and a valid entry
has the inode's fields. -/
structure CacheRel (V : Volume) (T : ℕ → Dinode) (inode : Fin ninode → Inode)
    (slot : Fin ninode → Slot) : Prop where
  entry : ∀ k, EntryRel (inode k) (slot k)
  nonneg : ∀ k, 0 ≤ (inode k).ref
  inum : ∀ k, 0 < (inode k).ref → (inode k).inum < V.ninodes
  copy : ∀ k, 0 < (inode k).ref → (inode k).valid → (inode k).d = T (inode k).inum ∧
    (T (inode k).inum).type ≠ 0
  uniq : ∀ k l, 0 < (inode k).ref → 0 < (inode l).ref → (inode k).inum = (inode l).inum → k = l

/-- **The relation between the two file systems.** -/
structure Rel (s : Fs V) (a : Afs V) : Prop where
  disk : DiskRel V (dino V s.blocks) s.blocks a.node
  cache : CacheRel V (dino V s.blocks) s.inode a.slot

/-- The program `x` does what the abstract program `y` does; it may run out of blocks. -/
abbrev Sim {α : Type} (x : Kern (Fs V) α) (y : Kern (Afs V) α) : Prop :=
  Refines Rel (fun e => e = .panic .ballocOut) .wild x y

/-! ### Changes to the cache -/

section Cache

variable {T : ℕ → Dinode} {inode : Fin ninode → Inode} {slot : Fin ninode → Slot}

section

variable (h : CacheRel V T inode slot)

include h

/-- One entry is changed. -/
lemma CacheRel.set (k : Fin ninode) {ip : Inode} {sl : Slot}
    (he : EntryRel ip sl) (h0 : 0 ≤ ip.ref)
    (hi : 0 < ip.ref → ip.inum < V.ninodes)
    (hc : 0 < ip.ref → ip.valid → ip.d = T ip.inum ∧ (T ip.inum).type ≠ 0)
    (hu : 0 < ip.ref → ∀ l, l ≠ k → 0 < (inode l).ref → (inode l).inum ≠ ip.inum) :
    CacheRel V T (update inode k ip) (update slot k sl) := by
  refine ⟨fun l => ?_, fun l => ?_, fun l => ?_, fun l => ?_, fun l m => ?_⟩
  · by_cases hl : l = k
    · subst hl
      simpa using he
    · simpa [update_of_ne hl] using h.entry l
  · by_cases hl : l = k
    · subst hl
      simpa using h0
    · simpa [update_of_ne hl] using h.nonneg l
  · by_cases hl : l = k
    · subst hl
      simpa using hi
    · simpa [update_of_ne hl] using h.inum l
  · by_cases hl : l = k
    · subst hl
      simpa using hc
    · simpa [update_of_ne hl] using h.copy l
  · by_cases hl : l = k
    · subst hl
      by_cases hm : m = l
      · exact fun _ _ _ => hm.symm
      · simp only [update_self, update_of_ne hm]
        exact fun h1 h2 h3 => absurd h3.symm (hu h1 m hm h2)
    · by_cases hm : m = k
      · subst hm
        simp only [update_self, update_of_ne hl]
        exact fun h1 h2 h3 => absurd h3 (hu h2 l hl h1)
      · simpa [update_of_ne hl, update_of_ne hm] using h.uniq l m

/-- An entry in use is changed without giving it to another inode. -/
lemma CacheRel.set_same {k : Fin ninode} {ip : Inode} {sl : Slot}
    (hk : 0 < (inode k).ref) (he : EntryRel ip sl) (h0 : 0 ≤ ip.ref)
    (hi : ip.inum = (inode k).inum)
    (hc : 0 < ip.ref → ip.valid → ip.d = T ip.inum ∧ (T ip.inum).type ≠ 0) :
    CacheRel V T (update inode k ip) (update slot k sl) := by
  refine h.set k he h0 (fun _ => ?_) hc fun _ l hl hr heq => hl ?_
  · rw [hi]
    exact h.inum k hk
  · exact h.uniq l k hr hk (by rw [heq, hi])

/-- The cache does not depend on the disk inodes it has no valid entry of. -/
lemma CacheRel.table {T' : ℕ → Dinode}
    (hT : ∀ k, 0 < (inode k).ref → (inode k).valid → T' (inode k).inum = T (inode k).inum) :
    CacheRel V T' inode slot :=
  ⟨h.entry, h.nonneg, h.inum, fun k hr hv => by rw [hT k hr hv]; exact h.copy k hr hv, h.uniq⟩

/-- The copy in an entry in use and the disk inode are changed alike. -/
lemma CacheRel.write {T' : ℕ → Dinode} {k : Fin ninode}
    (hk : 0 < (inode k).ref) {d : Dinode} (hd : T' (inode k).inum = d) (htype : d.type ≠ 0)
    (hT : ∀ j < V.ninodes, j ≠ (inode k).inum → T' j = T j) :
    CacheRel V T' (update inode k { inode k with d := d }) slot := by
  have hupd : ∀ l, update inode k { inode k with d := d } l =
      { inode l with d := if l = k then d else (inode l).d } := by
    intro l
    by_cases hl : l = k
    · subst hl
      rw [update_self, if_pos rfl]
    · rw [update_of_ne hl, if_neg hl]
  refine ⟨fun l => ?_, fun l => ?_, fun l => ?_, fun l => ?_, fun l m => ?_⟩
  · rw [hupd]
    exact ⟨(h.entry l).ref, (h.entry l).fields⟩
  · rw [hupd]
    exact h.nonneg l
  · rw [hupd]
    exact h.inum l
  · rw [hupd]
    intro hl hv
    by_cases hlk : l = k
    · subst hlk
      rw [if_pos rfl, hd]
      exact ⟨rfl, htype⟩
    · have hne : (inode l).inum ≠ (inode k).inum := fun heq => hlk (h.uniq l k hl hk heq)
      rw [if_neg hlk, hT _ (h.inum l hl) hne]
      exact h.copy l hl hv
  · rw [hupd, hupd]
    exact h.uniq l m

end

end Cache

/-! ### Operations on the cache -/

section Ops

variable {s : Fs V} {a : Afs V} {k : Fin ninode}

lemma Rel.ref (h : Rel s a) (k : Fin ninode) : (a.slot k).ref = (s.inode k).ref :=
  (h.cache.entry k).ref

/-- The searches of `iget` find the same entries. -/
lemma Rel.cached? (h : Rel s a) (inum : ℕ) : s.cached? inum = a.cached? inum := by
  rw [Fs.cached?, Afs.cached?]
  congr 1
  funext k
  rw [decide_eq_decide, h.ref k]
  refine and_congr_right fun hpos => ?_
  rw [((h.cache.entry k).fields hpos).1]

lemma Rel.empty? (h : Rel s a) : s.empty? = a.empty? := by
  rw [Fs.empty?, Afs.empty?]
  congr 1
  funext k
  rw [h.ref k]

lemma Afs.cached?_some {inum : ℕ} (h : a.cached? inum = some k) :
    0 < (a.slot k).ref ∧ (a.slot k).inum = inum := by
  simpa using List.find?_some h

lemma Afs.cached?_none {inum : ℕ} (h : a.cached? inum = none) (k : Fin ninode)
    (hk : 0 < (a.slot k).ref) : (a.slot k).inum ≠ inum := by
  intro heq
  have := List.find?_eq_none.mp h k (List.mem_finRange k)
  simp [hk, heq] at this

lemma Afs.empty?_some (h : a.empty? = some k) : (a.slot k).ref = 0 := by
  simpa using List.find?_some h

lemma sim_iget (inum : ℕ) : Sim (Fs.iget inum : Kern (Fs V) _) (Afs.iget inum) := by
  intro s a h hub
  have hin : inum < V.ninodes := by
    by_contra hle
    exact hub (by simp [Afs.iget, bind_run, not_lt.mp hle])
  have hcached := h.cached? inum
  cases hc : a.cached? inum with
  | some k =>
    have hk := (Afs.cached?_some hc).1
    rw [h.ref k] at hk
    have hrun : Fs.iget inum s =
        .ok (k, s.setInode k { s.inode k with ref := (s.inode k).ref + 1 }) := by
      simp [Fs.iget, bind_run, map_run, hcached.trans hc]
    have hrun' : Afs.iget inum a =
        .ok (k, a.setSlot k { a.slot k with ref := (a.slot k).ref + 1 }) := by
      simp [Afs.iget, bind_run, map_run, not_le.mpr hin, hc]
    rw [wp_of_ok hrun]
    refine ⟨_, hrun', h.disk, h.cache.set_same hk ⟨?_, fun _ => ?_⟩ ?_ rfl fun _ => ?_⟩
    · rw [h.ref k]
    · exact (h.cache.entry k).fields hk
    · dsimp only
      omega
    · exact h.cache.copy k hk
  | none =>
    cases hf : a.empty? with
    | none =>
      have hrun : Fs.iget inum s = .error (.panic .igetNone) := by
        simp [Fs.iget, bind_run, hcached.trans hc, h.empty?.trans hf]
      have hrun' : Afs.iget inum a = .error (.panic .igetNone) := by
        simp [Afs.iget, bind_run, not_le.mpr hin, hc, hf]
      rw [wp_of_error hrun]
      exact .inl hrun'
    | some k =>
      have hrun : Fs.iget inum s = .ok (k, s.setInode k
          { s.inode k with inum, ref := 1, busy := false, valid := false }) := by
        simp [Fs.iget, bind_run, map_run, hcached.trans hc, h.empty?.trans hf]
      have hrun' : Afs.iget inum a = .ok (k, a.setSlot k ⟨inum, 1, false, false⟩) := by
        simp [Afs.iget, bind_run, map_run, not_le.mpr hin, hc, hf]
      rw [wp_of_ok hrun]
      refine ⟨_, hrun', h.disk, h.cache.set k ⟨rfl, fun _ => ⟨rfl, rfl, rfl⟩⟩ (by simp)
        (fun _ => hin) (by simp) fun _ l _ hl => ?_⟩
      have hne := Afs.cached?_none hc l (by rw [h.ref l]; exact hl)
      rwa [((h.cache.entry l).fields hl).1] at hne

/-- The holder of an entry. -/
lemma Rel.fields (h : Rel s a) (hk : 0 < (s.inode k).ref) :
    (a.slot k).inum = (s.inode k).inum ∧ (a.slot k).busy = (s.inode k).busy ∧
      (a.slot k).valid = (s.inode k).valid := (h.cache.entry k).fields hk

lemma sim_idup (k : Fin ninode) : Sim (Fs.idup k : Kern (Fs V) _) (Afs.idup k) := by
  intro s a h hub
  have href := h.ref k
  by_cases hk : (a.slot k).ref < 1
  · exact absurd (by simp [Afs.idup, bind_run, hk]) hub
  · have hpos : 0 < (s.inode k).ref := by omega
    have hrun' : Afs.idup k a =
        .ok ((), a.setSlot k { a.slot k with ref := (a.slot k).ref + 1 }) := by
      simp [Afs.idup, bind_run, hk]
    refine ⟨_, hrun', h.disk, h.cache.set_same hpos ⟨?_, fun _ => h.fields hpos⟩ ?_ rfl fun _ => ?_⟩
    · dsimp only
      omega
    · dsimp only
      omega
    · exact h.cache.copy k hpos

lemma sim_iunlock (k : Fin ninode) : Sim (Fs.iunlock k : Kern (Fs V) _) (Afs.iunlock k) := by
  intro s a h hub
  have href := h.ref k
  by_cases hk : (a.slot k).ref < 1
  · exact absurd (by simp [Afs.iunlock, bind_run, hk]) hub
  · have hpos : 0 < (s.inode k).ref := by omega
    obtain ⟨hinum, hbusy, hvalid⟩ := h.fields hpos
    have hno : ¬ (s.inode k).ref < 1 := by omega
    cases hb : (s.inode k).busy with
    | false =>
      have hrun : Fs.iunlock k s = .error (.panic .iunlock) := by
        simp [Fs.iunlock, bind_run, hb]
      have hrun' : Afs.iunlock k a = .error (.panic .iunlock) := by
        simp [Afs.iunlock, bind_run, hk, hbusy, hb]
      rw [wp_of_error hrun]
      exact .inl hrun'
    | true =>
      have hrun : Fs.iunlock k s = .ok ((), s.setInode k { s.inode k with busy := false }) := by
        simp [Fs.iunlock, bind_run, hb, hno]
      have hrun' : Afs.iunlock k a = .ok ((), a.setSlot k { a.slot k with busy := false }) := by
        simp [Afs.iunlock, bind_run, hk, hbusy, hb]
      rw [wp_of_ok hrun]
      exact ⟨_, hrun', h.disk, h.cache.set_same hpos ⟨href, fun _ => ⟨hinum, rfl, hvalid⟩⟩
        (h.cache.nonneg k) rfl fun _ => h.cache.copy k hpos⟩

lemma sim_ilock (k : Fin ninode) : Sim (Fs.ilock k : Kern (Fs V) _) (Afs.ilock k) := by
  intro s a h _
  have href := h.ref k
  by_cases hk : (s.inode k).ref < 1
  · have hrun : Fs.ilock k s = .error (.panic .ilock) := by simp [Fs.ilock, bind_run, hk]
    have hrun' : Afs.ilock k a = .error (.panic .ilock) := by
      simp [Afs.ilock, bind_run, href, hk]
    rw [wp_of_error hrun]
    exact .inl hrun'
  · have hpos : 0 < (s.inode k).ref := by omega
    obtain ⟨hinum, hbusy, hvalid⟩ := h.fields hpos
    have htype : (a.nodeOf k).type = (dino V s.blocks (s.inode k).inum).type := by
      rw [Afs.nodeOf, hinum]
      exact (h.disk.node _ (h.cache.inum k hpos)).type
    cases hb : (s.inode k).busy with
    | true =>
      have hrun : Fs.ilock k s = .error .sleep := by simp [Fs.ilock, bind_run, hk, hb]
      have hrun' : Afs.ilock k a = .error .sleep := by
        simp [Afs.ilock, bind_run, href, hk, hbusy, hb]
      rw [wp_of_error hrun]
      exact .inl hrun'
    | false =>
      cases hv : (s.inode k).valid with
      | true =>
        have hrun : Fs.ilock k s =
            .ok ((), s.setInode k { s.inode k with busy := true }) := by
          simp [Fs.ilock, bind_run, hk, hb, hv]
        have hrun' : Afs.ilock k a =
            .ok ((), a.setSlot k { a.slot k with busy := true, valid := true }) := by
          simp [Afs.ilock, bind_run, href, hk, hbusy, hb, hvalid, hv]
        rw [wp_of_ok hrun]
        exact ⟨_, hrun', h.disk, h.cache.set_same hpos ⟨href, fun _ => ⟨hinum, rfl, hv.symm⟩⟩
          (h.cache.nonneg k) rfl fun _ => h.cache.copy k hpos⟩
      | false =>
        by_cases h0 : (dino V s.blocks (s.inode k).inum).type = 0
        · have hrun : Fs.ilock k s = .error (.panic .ilockNoType) := by
            simp [Fs.ilock, bind_run, hk, hb, hv, h0]
          have hrun' : Afs.ilock k a = .error (.panic .ilockNoType) := by
            simp [Afs.ilock, bind_run, href, hk, hbusy, hb, hvalid, hv, htype, h0]
          rw [wp_of_error hrun]
          exact .inl hrun'
        · have hrun : Fs.ilock k s = .ok ((), s.setInode k { s.inode k with
              busy := true, valid := true, d := dino V s.blocks (s.inode k).inum }) := by
            simp [Fs.ilock, bind_run, hk, hb, hv, h0]
          have hrun' : Afs.ilock k a =
              .ok ((), a.setSlot k { a.slot k with busy := true, valid := true }) := by
            simp [Afs.ilock, bind_run, href, hk, hbusy, hb, hvalid, hv, htype, h0]
          rw [wp_of_ok hrun]
          exact ⟨_, hrun', h.disk, h.cache.set_same hpos
            ⟨href, fun _ => ⟨hinum, rfl, rfl⟩⟩ (h.cache.nonneg k) rfl fun _ _ => ⟨rfl, h0⟩⟩

end Ops

end Col331
