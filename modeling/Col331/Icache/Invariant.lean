import Col331.Icache.Steps

/-!
The inode cache is coherent, however the processes take turns.

The invariant says of each entry what its flags, its copy of the inode and the inode on disk are
while some process is at work on it (`SlotOk`), and of each inode that `ialloc` has marked that
nobody has a reference to it other than a process about to leave `iput` (`MarkedOk`).  A step
works on one entry; `SlotOk.frame` takes all other entries along.
-/

namespace Col331

open Function

namespace IcSys

variable {P H : Type}

/-! ### References -/

section Refs

variable [Fintype H] [DecidableEq H] {ptr : H → Option (Fin ninode)} {h : H} {j k : Fin ninode}

/-- The number of references to the entry `k`. -/
def refs (ptr : H → Option (Fin ninode)) (k : Fin ninode) : ℕ :=
  (Finset.univ.filter fun h => ptr h = some k).card

omit [DecidableEq H] in
lemma refs_pos : 0 < refs ptr k ↔ ∃ h, ptr h = some k := by
  simp [refs, Finset.card_pos, Finset.Nonempty]

omit [DecidableEq H] in
lemma refs_congr {ptr' : H → Option (Fin ninode)} (hp : ∀ h, ptr' h = some k ↔ ptr h = some k) :
    refs ptr' k = refs ptr k := by
  simp only [refs, hp]

lemma refs_update_some (hn : ptr h = none) :
    refs (Function.update ptr h (some k)) k = refs ptr k + 1 := by
  have hset : (Finset.univ.filter fun g => Function.update ptr h (some k) g = some k) =
      insert h (Finset.univ.filter fun g => ptr g = some k) := by
    ext g
    rcases eq_or_ne g h with rfl | hg <;> simp [*]
  rw [refs, hset, Finset.card_insert_of_notMem (by simp [hn]), refs]

lemma refs_update_none (hk : ptr h = some k) :
    refs (Function.update ptr h none) k + 1 = refs ptr k := by
  have hset : (Finset.univ.filter fun g => Function.update ptr h none g = some k) =
      (Finset.univ.filter fun g => ptr g = some k).erase h := by
    ext g
    rcases eq_or_ne g h with rfl | hg <;> simp [*]
  have hmem : h ∈ Finset.univ.filter fun g => ptr g = some k := by simp [hk]
  rw [refs, hset, refs, Finset.card_erase_add_one hmem]

omit [DecidableEq H] in
/-- Two pointers to one entry are two references. -/
lemma eq_of_refs_eq_one (hone : refs ptr k = 1) {g : H} (hh : ptr h = some k)
    (hg : ptr g = some k) : h = g := by
  obtain ⟨a, ha⟩ := Finset.card_eq_one.1 hone
  have hall : ∀ x, ptr x = some k → x = a := by
    intro x hx
    have hmem : x ∈ Finset.univ.filter fun g => ptr g = some k := by simp [hx]
    rw [ha] at hmem
    exact Finset.mem_singleton.1 hmem
  rw [hall h hh, hall g hg]

end Refs

/-! ### What a process sees of an entry -/

/-- `p` has locked the entry `k` through `h`. -/
def Locks (s : IcSys P H) (p : P) (h : H) (k : Fin ninode) : Prop :=
  s.locked p h = true ∧ s.ptr h = some k

/-- Some pointer refers to the entry `k`. -/
def Cited (s : IcSys P H) (k : Fin ninode) : Prop := ∃ h, s.ptr h = some k

/-- Some process is freeing the inode of the entry `k`. -/
def Freeing (s : IcSys P H) (k : Fin ninode) : Prop := ∃ p h c, s.pc p = .iput h k c

/-- The inode of the entry `k` on disk. -/
def dino (s : IcSys P H) (k : Fin ninode) : Dinode := s.disk (s.inode k).ino

/-! ### All other entries -/

/-- The step from `s` to `s'` has nothing to do with the entry `k`. -/
structure Same (s s' : IcSys P H) (k : Fin ninode) : Prop where
  inode : s'.inode k = s.inode k
  dirty : s'.dirty k = s.dirty k
  disk : s.Cited k → s'.dino k = s.dino k
  ptr : ∀ h, s'.ptr h = some k ↔ s.ptr h = some k
  locked : ∀ p h, s.ptr h = some k → s'.locked p h = s.locked p h
  pc : ∀ p, s'.pc p = s.pc p ∨ slot? (s.pc p) ≠ some k ∧ slot? (s'.pc p) ≠ some k

namespace Same

variable {s s' : IcSys P H} {k : Fin ninode}

lemma locks (h : Same s s' k) (p : P) (g : H) : s'.Locks p g k ↔ s.Locks p g k := by
  constructor
  · rintro ⟨hl, hp⟩
    have hp' := (h.ptr g).1 hp
    exact ⟨(h.locked p g hp').symm.trans hl, hp'⟩
  · rintro ⟨hl, hp⟩
    exact ⟨(h.locked p g hp).trans hl, (h.ptr g).2 hp⟩

lemma cited (h : Same s s' k) : s'.Cited k ↔ s.Cited k := exists_congr h.ptr

lemma pc_iff (h : Same s s' k) {c : IcPc H} (hc : slot? c = some k) (p : P) :
    s'.pc p = c ↔ s.pc p = c := by
  rcases h.pc p with hp | ⟨hp, hp'⟩
  · rw [hp]
  · constructor
    · rintro rfl
      exact absurd hc hp'
    · rintro rfl
      exact absurd hc hp

lemma freeing (h : Same s s' k) : s'.Freeing k ↔ s.Freeing k :=
  exists_congr fun p => exists_congr fun _ => exists_congr fun _ => h.pc_iff rfl p

end Same

/-! ### The invariant -/

section Inv

variable [Fintype H]

/-- What holds while an inode is freed.  Until its type is zero on disk nobody else has a
reference to it; from then on only after `ialloc` has marked it. -/
def FreeOk (s : IcSys P H) (k : Fin ninode) : FreePc → Prop
  | .trunc _ | .shrunk | .typed =>
    refs s.ptr k = 1 ∧ (s.inode k).d.type ≠ 0 ∧ (s.dino k).type ≠ 0
  | .cleared => refs s.ptr k = 1 ∧ (s.inode k).d.type = 0 ∧ (s.dino k).type ≠ 0
  | .done => (s.dino k).type = 0 → refs s.ptr k = 1

/-- What holds while `p` is working on an entry. -/
def PcOk (s : IcSys P H) (p : P) : IcPc H → Prop
  | .idle | .ialloc .. | .marked _ => True
  | .ilock h k .test | .ilock h k .asleep => s.ptr h = some k
  | .ilock h k .flags => s.Locks p h k ∧ s.dirty k = false
  | .ilock h k .read => s.Locks p h k ∧ s.dirty k = false ∧ (s.inode k).valid = false
  | .ilock h k .copied => s.Locks p h k ∧ s.dirty k = false ∧ (s.inode k).valid = false ∧
      (s.inode k).d = s.dino k
  | .iunlock h k => s.Locks p h k ∧ s.dirty k = false ∧ (s.inode k).valid = true
  | .iput h k c => s.Locks p h k ∧ s.dirty k = false ∧ (s.inode k).valid = true ∧
      (s.inode k).d.nlink = 0 ∧ (s.dino k).nlink = 0 ∧
      (∀ q c', s.pc q ≠ .ilock h k c') ∧ s.FreeOk k c

/-- The invariant of the entry `k`. -/
structure SlotOk (s : IcSys P H) (k : Fin ninode) : Prop where
  ref : (s.inode k).ref = refs s.ptr k
  busy : ∀ p h, s.Locks p h k → (s.inode k).busy = true
  locker : (s.inode k).busy = true → ∃ p h, s.Locks p h k
  excl : ∀ p h q g, s.Locks p h k → s.Locks q g k → p = q ∧ h = g
  dirty : s.dirty k = true → (s.inode k).busy = true ∧ (s.inode k).valid = true
  valid : ∀ p h, s.Locks p h k → (s.inode k).valid = false →
    s.pc p = .ilock h k .flags ∨ s.pc p = .ilock h k .read ∨ s.pc p = .ilock h k .copied
  alloc : s.Cited k → ¬s.Freeing k → (s.dino k).type ≠ 0
  copy : s.Cited k → (s.inode k).valid = true → ¬s.Freeing k →
    (s.inode k).d.type ≠ 0 ∧ (s.dirty k = false → (s.inode k).d = s.dino k)
  pcs : ∀ p, slot? (s.pc p) = some k → s.PcOk p (s.pc p)

/-- The inodes that `ialloc` has marked and not yet got. -/
def MarkedOk (s : IcSys P H) : Prop :=
  ∀ p i, s.pc p = .marked i → (s.disk i).type ≠ 0 ∧ (s.disk i).nlink = 0 ∧
    (∀ q, s.pc q = .marked i → q = p) ∧
    ∀ k, s.Cited k → (s.inode k).ino = i →
      refs s.ptr k = 1 ∧ ∃ q h, s.pc q = .iput h k .done

/-- The invariant. -/
structure Inv (s : IcSys P H) : Prop where
  slot : ∀ k, s.SlotOk k
  unique : ∀ j k, s.Cited j → s.Cited k → (s.inode j).ino = (s.inode k).ino → j = k
  ptr : ∀ p h, s.locked p h = true → ∃ k, s.ptr h = some k
  marked : s.MarkedOk

/-- The pointer a process is working through. -/
def via? : IcPc H → Option H
  | .ilock h _ _ | .iunlock h _ | .iput h _ _ => some h
  | _ => none

variable {s s' : IcSys P H} {k : Fin ninode}

/-- What holds while `p` is at `c` still does if nothing of it has changed. -/
lemma PcOk.transfer {p : P} {c : IcPc H} (hok : s.PcOk p c)
    (hc : slot? c = some k)
    (hptr : ∀ g, via? c = some g → s.ptr g = some k → s'.ptr g = some k ∧ s'.locked p g = s.locked p g)
    (hdirty : s'.dirty k = s.dirty k) (hvalid : (s'.inode k).valid = (s.inode k).valid)
    (hd : (s'.inode k).d = (s.inode k).d) (hdino : s.Cited k → s'.dino k = s.dino k)
    (hfree : ∀ g f, c = .iput g k f → s.FreeOk k f →
      (∀ q c', s'.pc q = .ilock g k c' → s.pc q = .ilock g k c') ∧ s'.FreeOk k f) :
    s'.PcOk p c := by
  have hlock : ∀ g, via? c = some g → s.Locks p g k → s'.Locks p g k := fun g hg hl =>
    ⟨(hptr g hg hl.2).2.trans hl.1, (hptr g hg hl.2).1⟩
  cases c with
  | idle | ialloc | marked => trivial
  | ilock g j c =>
    obtain rfl : j = k := Option.some.inj hc
    cases c with
    | test | asleep => exact (hptr g rfl hok).1
    | flags => exact ⟨hlock g rfl hok.1, hdirty.trans hok.2⟩
    | read =>
      obtain ⟨hl, h1, h2⟩ := hok
      exact ⟨hlock g rfl hl, hdirty.trans h1, hvalid.trans h2⟩
    | copied =>
      obtain ⟨hl, h1, h2, h3⟩ := hok
      exact ⟨hlock g rfl hl, hdirty.trans h1, hvalid.trans h2,
        hd.trans (h3.trans (hdino ⟨g, hl.2⟩).symm)⟩
  | iunlock g j =>
    obtain rfl : j = k := Option.some.inj hc
    obtain ⟨hl, h1, h2⟩ := hok
    exact ⟨hlock g rfl hl, hdirty.trans h1, hvalid.trans h2⟩
  | iput g j f =>
    obtain rfl : j = k := Option.some.inj hc
    obtain ⟨hl, h1, h2, hn, hn', hno, hf⟩ := hok
    obtain ⟨hpc, hf'⟩ := hfree g f rfl hf
    exact ⟨hlock g rfl hl, hdirty.trans h1, hvalid.trans h2, hd ▸ hn,
      hdino ⟨g, hl.2⟩ ▸ hn', fun q c' e => hno q c' (hpc q c' e), hf'⟩

lemma Same.pcOk (h : Same s s' k) {p : P} {c : IcPc H}
    (hc : slot? c = some k) (hok : s.PcOk p c) : s'.PcOk p c := by
  refine hok.transfer hc (fun g _ hg => ⟨(h.ptr g).2 hg, h.locked p g hg⟩) h.dirty
    (by rw [h.inode]) (by rw [h.inode]) h.disk fun g f hf hfo =>
    ⟨fun q c' => (h.pc_iff rfl q).1, ?_⟩
  have hcite : s.Cited k := by
    subst hf
    exact ⟨g, hok.1.2⟩
  cases f <;> simpa only [FreeOk, refs_congr h.ptr, h.inode, h.disk hcite] using hfo

/-- **The frame rule**: an entry that a step has nothing to do with keeps its invariant. -/
lemma SlotOk.frame (hk : s.SlotOk k) (h : Same s s' k) :
    s'.SlotOk k where
  ref := by rw [h.inode, refs_congr h.ptr, hk.ref]
  busy p g hl := h.inode ▸ hk.busy p g ((h.locks p g).1 hl)
  locker hb := by
    obtain ⟨p, g, hl⟩ := hk.locker (h.inode ▸ hb)
    exact ⟨p, g, (h.locks p g).2 hl⟩
  excl p g q g' hl hl' := hk.excl p g q g' ((h.locks p g).1 hl) ((h.locks q g').1 hl')
  dirty hd := h.inode ▸ hk.dirty (h.dirty.symm.trans hd)
  valid p g hl hv := by
    rw [h.pc_iff rfl, h.pc_iff rfl, h.pc_iff rfl]
    exact hk.valid p g ((h.locks p g).1 hl) (h.inode ▸ hv)
  alloc hc hf := by
    have hc' := h.cited.1 hc
    rw [h.disk hc']
    exact hk.alloc hc' (mt h.freeing.2 hf)
  copy hc hv hf := by
    have hc' := h.cited.1 hc
    rw [h.disk hc', h.dirty, h.inode]
    exact hk.copy hc' (h.inode ▸ hv) (mt h.freeing.2 hf)
  pcs p hp := by
    have heq : s'.pc p = s.pc p := (h.pc_iff hp p).1 rfl ▸ rfl
    rw [heq] at hp ⊢
    exact h.pcOk hp (hk.pcs p hp)

/-- A step on the entry `k` keeps the invariant if it keeps that of the entry. -/
lemma Inv.at_slot (hs : s.Inv) (hk : s'.SlotOk k)
    (hsame : ∀ j, j ≠ k → Same s s' j)
    (hino : s'.Cited k → ∀ j, j ≠ k → s.Cited j → (s.inode j).ino ≠ (s'.inode k).ino)
    (hptr : ∀ p h, s'.locked p h = true → ∃ j, s'.ptr h = some j) (hm : s'.MarkedOk) : s'.Inv where
  slot j := by
    rcases eq_or_ne j k with rfl | hj
    · exact hk
    · exact (hs.slot j).frame (hsame j hj)
  unique := by
    have hback : ∀ j, j ≠ k → s'.Cited j → s.Cited j ∧ (s'.inode j).ino = (s.inode j).ino :=
      fun j hj hc => ⟨(hsame j hj).cited.1 hc, by rw [(hsame j hj).inode]⟩
    intro j j' hj hj' heq
    rcases eq_or_ne j k with rfl | hne <;> rcases eq_or_ne j' j with rfl | hne'
    · rfl
    · obtain ⟨hc, he⟩ := hback j' hne' hj'
      exact absurd (he.symm.trans heq.symm) (hino hj j' hne' hc)
    · rfl
    · obtain ⟨hc, he⟩ := hback j hne hj
      rcases eq_or_ne j' k with rfl | hk'
      · exact absurd (he.symm.trans heq) (hino hj' j hne hc)
      · obtain ⟨hc', he'⟩ := hback j' hk' hj'
        exact hs.unique j j' hc hc' (by rw [← he, ← he', heq])
  ptr := hptr
  marked := hm

end Inv

/-! ### The parts of a step -/

section Parts

variable {s s' s'' : IcSys P H} {j k : Fin ninode}

lemma Same.trans (h : Same s s' k) (h' : Same s' s'' k) : Same s s'' k where
  inode := h'.inode.trans h.inode
  dirty := h'.dirty.trans h.dirty
  disk hc := (h'.disk (h.cited.2 hc)).trans (h.disk hc)
  ptr g := (h'.ptr g).trans (h.ptr g)
  locked p g hg := (h'.locked p g ((h.ptr g).2 hg)).trans (h.locked p g hg)
  pc p := by
    rcases h.pc p with hp | ⟨hp, hp'⟩ <;> rcases h'.pc p with hq | ⟨hq, hq'⟩
    · exact .inl (hq.trans hp)
    · exact .inr ⟨hp ▸ hq, hq'⟩
    · exact .inr ⟨hp, hq ▸ hp'⟩
    · exact .inr ⟨hp, hq'⟩

lemma same_setInode (hj : j ≠ k) (ip : CachedInode) : Same s (s.setInode k ip) j := by
  have h : (s.setInode k ip).inode j = s.inode j := update_of_ne hj ..
  exact ⟨h, rfl, fun _ => by rw [dino, h]; rfl, fun _ => Iff.rfl, fun _ _ _ => rfl,
    fun _ => .inl rfl⟩

lemma same_setDisk {i : Ino} (hi : s.Cited j → (s.inode j).ino ≠ i) (d : Dinode) :
    Same s (s.setDisk i d) j :=
  ⟨rfl, rfl, fun hc => update_of_ne (hi hc) .., fun _ => Iff.rfl, fun _ _ _ => rfl,
    fun _ => .inl rfl⟩

variable [DecidableEq P]

lemma same_goto {p : P} {c : IcPc H} (hp : slot? (s.pc p) ≠ some j) (hc : slot? c ≠ some j) :
    Same s (s.goto p c) j := by
  refine ⟨rfl, rfl, fun _ => rfl, fun _ => Iff.rfl, fun _ _ _ => rfl, fun q => ?_⟩
  rcases eq_or_ne q p with rfl | hq
  · refine .inr ⟨hp, ?_⟩
    simpa only [goto, update_self] using hc
  · exact .inl (update_of_ne hq ..)

variable [DecidableEq H]

lemma same_setLocked {h : H} (hh : s.ptr h ≠ some j) (p : P) (b : Bool) :
    Same s (s.setLocked p h b) j := by
  refine ⟨rfl, rfl, fun _ => rfl, fun _ => Iff.rfl, fun q g hg => ?_, fun _ => .inl rfl⟩
  refine if_neg ?_
  rintro ⟨-, rfl⟩
  exact hh hg

omit [DecidableEq P] in
lemma same_setPtr {h : H} {r : Option (Fin ninode)} (hh : s.ptr h ≠ some j) (hr : r ≠ some j) :
    Same s (s.setPtr h r) j := by
  refine ⟨rfl, rfl, fun _ => rfl, fun g => ?_, fun _ _ _ => rfl, fun _ => .inl rfl⟩
  rcases eq_or_ne g h with rfl | hg
  · simp only [setPtr, update_self]
    exact ⟨fun e => absurd e hr, fun e => absurd e hh⟩
  · simp only [setPtr, update_of_ne hg]

end Parts

end IcSys

end Col331
