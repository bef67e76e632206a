import Col331.Icache.Invariant

/-!
Steps on an entry of the inode cache by the process that has locked it, or is about to.

* `Inv.of_quiet`: processes move and nothing else changes, as when sleepers are woken.
* `Inv.own`, `Inv.edit`: the owner of an entry changes its copy, its flag `I_VALID` or the disk.
* `Inv.take`, `Inv.release`: `I_BUSY` is set and cleared.
-/

namespace Col331

open Function

namespace IcSys

variable {P H : Type} {s : IcSys P H}

/-! ### Steps of the process that has locked an entry -/

/-- The step from `s` to `s'` is one of `p`, which has locked the entry `k`, on that entry. -/
structure Own (s s' : IcSys P H) (p : P) (k : Fin ninode) : Prop where
  inode : ∀ j, j ≠ k → s'.inode j = s.inode j
  ino : (s'.inode k).ino = (s.inode k).ino
  ref : (s'.inode k).ref = (s.inode k).ref
  busy : (s'.inode k).busy = (s.inode k).busy
  disk : ∀ i, i ≠ (s.inode k).ino → s'.disk i = s.disk i
  ptr : s'.ptr = s.ptr
  locked : s'.locked = s.locked
  dirty : ∀ j, j ≠ k → s'.dirty j = s.dirty j
  pc : ∀ q, q ≠ p → s'.pc q = s.pc q
  old : slot? (s.pc p) = none ∨ slot? (s.pc p) = some k
  new : slot? (s'.pc p) = none ∨ slot? (s'.pc p) = some k
  mark : (∀ i, s.pc p ≠ .marked i) ∧ ∀ i, s'.pc p ≠ .marked i
  done : ∀ h, s.pc p ≠ .iput h k .done

namespace Own

variable {s' : IcSys P H} {p : P} {k : Fin ninode}

lemma locks (ho : Own s s' p k) (q : P) (g : H) (j : Fin ninode) :
    s'.Locks q g j ↔ s.Locks q g j := by
  rw [Locks, Locks, ho.locked, ho.ptr]

lemma cited (ho : Own s s' p k) (j : Fin ninode) : s'.Cited j ↔ s.Cited j := by
  rw [Cited, Cited, ho.ptr]

end Own

section Edit

variable [DecidableEq P] {p : P} {k : Fin ninode} {c : IcPc H} {v b : Bool} {d D : Dinode}

/-- The process `p` goes to `c` and changes the entry `k` and its inode on disk. -/
def edit (s : IcSys P H) (p : P) (k : Fin ninode) (c : IcPc H) (v : Bool) (d D : Dinode)
    (b : Bool) : IcSys P H :=
  { s with
    disk := Function.update s.disk (s.inode k).ino D
    inode := Function.update s.inode k { s.inode k with valid := v, d }
    pc := Function.update s.pc p c
    dirty := Function.update s.dirty k b }

lemma edit_pc : (s.edit p k c v d D b).pc p = c := update_self ..

lemma edit_inode : (s.edit p k c v d D b).inode k = { s.inode k with valid := v, d } :=
  update_self ..

lemma edit_dirty : (s.edit p k c v d D b).dirty k = b := update_self ..

lemma edit_dino : (s.edit p k c v d D b).dino k = D := by
  rw [dino, edit_inode]
  exact update_self ..

/-- `edit` of the copy alone. -/
lemma setCopy_goto : (s.setCopy k d).goto p c =
    s.edit p k c (s.inode k).valid d (s.dino k) (s.dirty k) := by
  simp [edit, setCopy, setInode, goto, dino]

/-- `edit` of the disk alone. -/
lemma update_goto : (s.update k).goto p c =
    s.edit p k c (s.inode k).valid (s.inode k).d (s.inode k).d (s.dirty k) := by
  simp [edit, update, setDisk, goto]

end Edit

variable [Fintype H]

/-! ### Where a process is -/

lemma Inv.pcOk (hs : s.Inv) {q : P} {c : IcPc H} (hc : s.pc q = c) : s.PcOk q c := by
  subst hc
  cases hk : slot? (s.pc q) with
  | some k => exact (hs.slot k).pcs q hk
  | none =>
    cases hc : s.pc q with
    | idle | ialloc | marked => trivial
    | ilock | iunlock | iput => simp [hc, slot?] at hk

/-- A process at an entry that it has not locked waits for it. -/
lemma Inv.waits (hs : s.Inv) {q : P} {k : Fin ninode} (hother : ∀ g, ¬s.Locks q g k)
    (hq : slot? (s.pc q) = some k) :
    ∃ g, s.ptr g = some k ∧ (s.pc q = .ilock g k .test ∨ s.pc q = .ilock g k .asleep) := by
  cases hc : s.pc q with
  | idle | ialloc | marked => simp [hc, slot?] at hq
  | ilock g j c =>
    obtain rfl : j = k := by rw [hc] at hq; exact Option.some.inj hq
    have hok := hs.pcOk hc
    cases c with
    | test => exact ⟨g, hok, .inl rfl⟩
    | asleep => exact ⟨g, hok, .inr rfl⟩
    | flags | read | copied => exact absurd hok.1 (hother g)
  | iunlock g j | iput g j c =>
    obtain rfl : j = k := by rw [hc] at hq; exact Option.some.inj hq
    exact absurd (hs.pcOk hc).1 (hother g)

lemma SlotOk.clean {k : Fin ninode} (hk : s.SlotOk k) (hb : (s.inode k).busy = false) :
    s.dirty k = false := by
  by_contra hd
  exact absurd (hk.dirty (by simpa using hd)).1 (by simp [hb])

/-! ### Steps that only move processes -/

/-- The process `q` can go to `n` without a change to the cache. -/
structure Quiet (s : IcSys P H) (q : P) (n : IcPc H) : Prop where
  old : ∀ h k c, s.pc q ≠ .iput h k c
  new : (∀ h k c, n ≠ .iput h k c) ∧ ∀ i, n ≠ .marked i
  ok : s.PcOk q n
  fresh : ∀ h k c, n = .ilock h k c → ∀ r c', s.pc r ≠ .iput h k c'
  valid : ∀ h k, s.Locks q h k → (s.inode k).valid = false →
    n = .ilock h k .flags ∨ n = .ilock h k .read ∨ n = .ilock h k .copied

/-- Processes move without a change to the cache. -/
lemma Inv.of_quiet (hs : s.Inv) {pc : P → IcPc H}
    (hq : ∀ q, pc q = s.pc q ∨ s.Quiet q (pc q)) : ({ s with pc } : IcSys P H).Inv := by
  have hput : ∀ q h k c, pc q = .iput h k c ↔ s.pc q = .iput h k c := by
    intro q h k c
    rcases hq q with heq | hqu
    · rw [heq]
    · exact ⟨fun e => absurd e (hqu.new.1 h k c), fun e => absurd e (hqu.old h k c)⟩
  have hmark : ∀ q i, pc q = .marked i → s.pc q = .marked i := by
    intro q i e
    rcases hq q with heq | hqu
    · rw [← heq, e]
    · exact absurd e (hqu.new.2 i)
  have hfree : ∀ k, ({ s with pc } : IcSys P H).Freeing k ↔ s.Freeing k := fun k =>
    exists_congr fun q => exists_congr fun h => exists_congr fun c => hput q h k c
  refine ⟨fun k => ?_, hs.unique, hs.ptr, ?_⟩
  · have hk := hs.slot k
    refine ⟨hk.ref, hk.busy, hk.locker, hk.excl, hk.dirty, fun p h hl hv => ?_,
      fun hc hf => hk.alloc hc (mt (hfree k).2 hf),
      fun hc hv hf => hk.copy hc hv (mt (hfree k).2 hf), fun p hp => ?_⟩
    · rcases hq p with heq | hqu
      · change pc p = _ ∨ pc p = _ ∨ pc p = _
        rw [heq]
        exact hk.valid p h hl hv
      · exact hqu.valid h k hl hv
    · change PcOk _ p (pc p)
      rcases hq p with heq | hqu
      · have hok := hk.pcs p (by rwa [← heq])
        rw [heq]
        revert hok
        cases hc : s.pc p with
        | ilock h j c => cases c <;> exact id
        | idle | ialloc | marked | iunlock => exact id
        | iput h j c =>
          rintro ⟨hl, hd, hv, hn, hn', hno, hf⟩
          refine ⟨hl, hd, hv, hn, hn', fun q c' e => ?_, ?_⟩
          · rcases hq q with heq' | hqu'
            · exact hno q c' (heq' ▸ e)
            · exact hqu'.fresh h j c' e p c hc
          · cases c <;> exact hf
      · have hok := hqu.ok
        revert hok
        cases hc : pc p with
        | ilock h j c => cases c <;> exact id
        | idle | ialloc | marked | iunlock => exact id
        | iput h j c => exact absurd hc (hqu.new.1 h j c)
  · intro p i hp
    obtain ⟨ht, hn, hone, hall⟩ := hs.marked p i (hmark p i hp)
    refine ⟨ht, hn, fun q hq' => hone q (hmark q i hq'), fun k hc hi => ?_⟩
    obtain ⟨h1, q, h, hd⟩ := hall k hc hi
    exact ⟨h1, q, h, (hput q h k .done).2 hd⟩

/-- A sleeping process is woken. -/
lemma Inv.quiet_rouse (hs : s.Inv) (q : P) :
    rouse (s.pc q) = s.pc q ∨ s.Quiet q (rouse (s.pc q)) := by
  cases hc : s.pc q with
  | idle | iunlock | iput | ialloc | marked => exact .inl rfl
  | ilock h k c =>
    cases c with
    | test | flags | read | copied => exact .inl rfl
    | asleep =>
      refine .inr ⟨fun _ _ _ => by simp [hc], ⟨by simp [rouse], by simp [rouse]⟩,
        show s.PcOk q (.ilock h k .asleep) from hs.pcOk hc, ?_, ?_⟩
      · rintro h' k' c' ⟨⟩ r c'' hr
        obtain ⟨-, -, -, -, -, hno, -⟩ := hs.pcOk hr
        exact hno q .asleep hc
      · intro h' k' hl hv
        have := (hs.slot k').valid q h' hl hv
        simp [hc] at this

lemma Inv.wakeup (hs : s.Inv) (k : Fin ninode) : (s.wakeup k).Inv := by
  refine hs.of_quiet fun q => ?_
  split
  · exact hs.quiet_rouse q
  · exact .inl rfl

/-! ### The rule for the owner of an entry -/

namespace Own

variable {s' : IcSys P H} {p : P} {h : H} {k : Fin ninode}

lemma same (ho : Own s s' p k) (hs : s.Inv) (hc : s.Cited k) {j : Fin ninode} (hj : j ≠ k) :
    Same s s' j where
  inode := ho.inode j hj
  dirty := ho.dirty j hj
  disk hcj := by
    rw [dino, ho.inode j hj]
    exact ho.disk _ fun e => hj (hs.unique j k hcj hc e)
  ptr _ := by rw [ho.ptr]
  locked _ _ _ := by rw [ho.locked]
  pc q := by
    rcases eq_or_ne q p with rfl | hq
    · refine .inr ⟨?_, ?_⟩
      · rcases ho.old with e | e <;> simp [e, hj.symm]
      · rcases ho.new with e | e <;> simp [e, hj.symm]
    · exact .inl (ho.pc q hq)

/-- The inode of a locked entry is not one that `ialloc` has just marked. -/
lemma ne_marked (ho : Own s s' p k) (hs : s.Inv) (hl : s.Locks p h k) {q : P} {i : Ino}
    (hq : s.pc q = .marked i) : i ≠ (s.inode k).ino := by
  rintro rfl
  obtain ⟨-, -, -, hall⟩ := hs.marked q _ hq
  obtain ⟨-, r, g, hr⟩ := hall k ⟨h, hl.2⟩ rfl
  obtain ⟨rfl, -⟩ := (hs.slot k).excl _ _ _ _ hl (hs.pcOk hr).1
  exact ho.done g hr

lemma marked (ho : Own s s' p k) (hs : s.Inv) (hl : s.Locks p h k) : s'.MarkedOk := by
  have hpc : ∀ q i, s'.pc q = .marked i ↔ s.pc q = .marked i := by
    intro q i
    rcases eq_or_ne q p with rfl | hq
    · exact ⟨fun e => absurd e (ho.mark.2 i), fun e => absurd e (ho.mark.1 i)⟩
    · rw [ho.pc q hq]
  intro q i hq
  have hq' := (hpc q i).1 hq
  have hi := ho.ne_marked hs hl hq'
  obtain ⟨ht, hn, hone, hall⟩ := hs.marked q i hq'
  refine ⟨by rwa [ho.disk i hi], by rwa [ho.disk i hi], fun r hr => hone r ((hpc r i).1 hr), ?_⟩
  intro j hc hj
  have hjk : j ≠ k := by
    rintro rfl
    exact hi (hj.symm.trans ho.ino)
  rw [ho.inode j hjk] at hj
  obtain ⟨h1, r, g, hr⟩ := hall j ((ho.cited j).1 hc) hj
  refine ⟨by rwa [ho.ptr], r, g, ?_⟩
  have hrp : r ≠ p := by
    rintro rfl
    rcases ho.old with e | e <;> rw [hr] at e <;> simp [slot?, hjk] at e
  rw [ho.pc r hrp, hr]

end Own

/-- **The rule for the owner of an entry.** -/
lemma Inv.own {s' : IcSys P H} {p : P} {h : H} {k : Fin ninode} (hs : s.Inv) (ho : Own s s' p k)
    (hl : s.Locks p h k) (hok : s'.PcOk p (s'.pc p))
    (hdirty : s'.dirty k = true → (s'.inode k).valid = true)
    (hvalid : (s'.inode k).valid = false → s'.pc p = .ilock h k .flags ∨
      s'.pc p = .ilock h k .read ∨ s'.pc p = .ilock h k .copied)
    (halloc : (∀ c, s'.pc p ≠ .iput h k c) → (s'.dino k).type ≠ 0)
    (hcopy : (s'.inode k).valid = true → (∀ c, s'.pc p ≠ .iput h k c) →
      (s'.inode k).d.type ≠ 0 ∧ (s'.dirty k = false → (s'.inode k).d = s'.dino k)) : s'.Inv := by
  have hk := hs.slot k
  have hc : s.Cited k := ⟨h, hl.2⟩
  have hfree : ¬s'.Freeing k → ∀ c, s'.pc p ≠ .iput h k c := fun hf c e => hf ⟨p, h, c, e⟩
  refine hs.at_slot (k := k) ?_ (fun j hj => ho.same hs hc hj)
    (fun _ j hj hcj => ho.ino ▸ mt (hs.unique j k hcj hc) hj) (fun q g hq => ?_) (ho.marked hs hl)
  · refine ⟨by rw [ho.ref, ho.ptr, hk.ref], fun q g hq => ?_, fun _ => ⟨p, h, (ho.locks ..).2 hl⟩,
      fun q g r g' hq hr => hk.excl q g r g' ((ho.locks ..).1 hq) ((ho.locks ..).1 hr),
      fun hd => ⟨ho.busy.trans (hk.busy p h hl), hdirty hd⟩, fun q g hq hv => ?_,
      fun _ hf => halloc (hfree hf), fun _ hv hf => hcopy hv (hfree hf), fun q hq => ?_⟩
    · exact ho.busy.trans (hk.busy p h hl)
    · obtain ⟨rfl, rfl⟩ := hk.excl _ _ _ _ hl ((ho.locks ..).1 hq)
      exact hvalid hv
    · rcases eq_or_ne q p with rfl | hqp
      · exact hok
      · rw [ho.pc q hqp] at hq ⊢
        obtain ⟨g, hg, e | e⟩ := hs.waits (fun g hg => hqp (hk.excl _ _ _ _ hg hl).1) hq <;> rw [e] <;>
          exact (congrFun ho.ptr g).trans hg
  · rw [ho.ptr]
    exact hs.ptr q g (by rwa [← ho.locked])

section Edit

variable [DecidableEq P] {p : P} {h : H} {k : Fin ninode} {c : IcPc H} {v b : Bool} {d D : Dinode}

lemma Inv.edit (hs : s.Inv) (hl : s.Locks p h k)
    (hold : slot? (s.pc p) = none ∨ slot? (s.pc p) = some k)
    (hnew : slot? c = none ∨ slot? c = some k)
    (hmark : (∀ i, s.pc p ≠ .marked i) ∧ ∀ i, c ≠ .marked i) (hdone : ∀ g, s.pc p ≠ .iput g k .done)
    (hok : (s.edit p k c v d D b).PcOk p c) (hdirty : b = true → v = true)
    (hvalid : v = false → c = .ilock h k .flags ∨ c = .ilock h k .read ∨ c = .ilock h k .copied)
    (halloc : (∀ c', c ≠ .iput h k c') → D.type ≠ 0)
    (hcopy : v = true → (∀ c', c ≠ .iput h k c') → d.type ≠ 0 ∧ (b = false → d = D)) :
    (s.edit p k c v d D b).Inv := by
  have ho : Own s (s.edit p k c v d D b) p k := by
    refine ⟨fun j hj => update_of_ne hj .., by rw [edit_inode], by rw [edit_inode],
      by rw [edit_inode], fun i hi => update_of_ne hi .., rfl, rfl,
      fun j hj => update_of_ne hj .., fun q hq => update_of_ne hq .., hold,
      by rwa [edit_pc], ?_, hdone⟩
    rwa [edit_pc]
  refine hs.own ho hl ?_ ?_ ?_ ?_ ?_
  · rwa [edit_pc]
  · rwa [edit_dirty, edit_inode]
  · rwa [edit_inode, edit_pc]
  · rwa [edit_pc, edit_dino]
  · rwa [edit_inode, edit_pc, edit_dirty, edit_dino]

omit [DecidableEq P] in
/-- An entry is not being freed while a process that does something else has locked it. -/
lemma Inv.not_freeing (hs : s.Inv) (hl : s.Locks p h k) (hp : ∀ g c, s.pc p ≠ .iput g k c) :
    ¬s.Freeing k := by
  rintro ⟨q, g, c, hq⟩
  obtain ⟨rfl, -⟩ := (hs.slot k).excl _ _ _ _ hl (hs.pcOk hq).1
  exact hp g c hq

/-- The copy from the disk in `ilock`. -/
lemma Inv.lock_read (hs : s.Inv) (hp : s.pc p = .ilock h k .read) :
    ((s.setCopy k (s.dino k)).goto p (.ilock h k .copied)).Inv := by
  obtain ⟨hl, hd, hv⟩ := hs.pcOk hp
  have hfree := hs.not_freeing hl fun g c => by simp [hp]
  rw [setCopy_goto, hd, hv]
  refine hs.edit hl (by simp [hp, slot?]) (.inr rfl) (by simp [hp]) (by simp [hp]) ?_ (by simp)
    (by simp) (fun _ => (hs.slot k).alloc ⟨h, hl.2⟩ hfree) (by simp)
  exact ⟨hl, edit_dirty, by rw [edit_inode], by rw [edit_inode, edit_dino]⟩

/-- `ip->flags |= I_VALID` in `ilock`. -/
lemma Inv.lock_copied (hs : s.Inv) (hp : s.pc p = .ilock h k .copied)
    (ht : (s.inode k).d.type ≠ 0) :
    ((s.setInode k { s.inode k with valid := true }).goto p .idle).Inv := by
  obtain ⟨hl, hd, hv, he⟩ := hs.pcOk hp
  have heq : (s.setInode k { s.inode k with valid := true }).goto p .idle =
      s.edit p k .idle true (s.inode k).d (s.dino k) (s.dirty k) := by
    simp [IcSys.edit, setInode, goto, dino]
  rw [heq, hd]
  exact hs.edit hl (by simp [hp, slot?]) (.inl rfl) (by simp [hp]) (by simp [hp]) trivial
    (by simp) (by simp) (fun _ => he ▸ ht) fun _ _ => ⟨ht, fun _ => he⟩

omit [DecidableEq P] in
/-- What a process that has returned from `ilock` knows of the entry. -/
lemma Inv.entry (hs : s.Inv) (hl : s.Locks p h k) (hp : s.pc p = .idle) :
    (s.inode k).valid = true ∧ (s.dino k).type ≠ 0 ∧ (s.inode k).d.type ≠ 0 ∧
      (s.dirty k = false → (s.inode k).d = s.dino k) := by
  have hfree := hs.not_freeing hl fun g c => by simp [hp]
  have hv : (s.inode k).valid = true := by
    by_contra hv
    have := (hs.slot k).valid p h hl (by simpa using hv)
    simp [hp] at this
  exact ⟨hv, (hs.slot k).alloc ⟨h, hl.2⟩ hfree, (hs.slot k).copy ⟨h, hl.2⟩ hv hfree⟩

/-- A change of a locked inode. -/
lemma Inv.modify (hs : s.Inv) (hl : s.Locks p h k) (hp : s.pc p = .idle) (ht : d.type ≠ 0) :
    ({ s.setCopy k d with dirty := Function.update s.dirty k true } : IcSys P H).Inv := by
  obtain ⟨hv, ha, -, -⟩ := hs.entry hl hp
  have heq : ({ s.setCopy k d with dirty := Function.update s.dirty k true } : IcSys P H) =
      s.edit p k (s.pc p) (s.inode k).valid d (s.dino k) true := by
    simp [IcSys.edit, setCopy, setInode, dino]
  rw [heq, hp, hv]
  exact hs.edit hl (by simp [hp, slot?]) (.inl rfl) (by simp [hp]) (by simp [hp]) trivial
    (by simp) (by simp) (fun _ => ha) fun _ _ => ⟨ht, by simp⟩

/-- `iupdate`. -/
lemma Inv.iupdate (hs : s.Inv) (hl : s.Locks p h k) (hp : s.pc p = .idle) :
    ({ s.update k with dirty := Function.update s.dirty k false } : IcSys P H).Inv := by
  obtain ⟨hv, -, ht, -⟩ := hs.entry hl hp
  have heq : ({ s.update k with dirty := Function.update s.dirty k false } : IcSys P H) =
      s.edit p k (s.pc p) (s.inode k).valid (s.inode k).d (s.inode k).d false := by
    simp [IcSys.edit, update, setDisk]
  rw [heq, hp, hv]
  exact hs.edit hl (by simp [hp, slot?]) (.inl rfl) (by simp [hp]) (by simp [hp]) trivial
    (by simp) (by simp) (fun _ => ht) fun _ _ => ⟨ht, fun _ => rfl⟩

/-- A step while the inode is freed, up to the last critical section of `iput`. -/
lemma Inv.edit_free (hs : s.Inv) {c c' : FreePc} (hp : s.pc p = .iput h k c) (hc : c ≠ .done)
    (hn : d.nlink = 0) (hN : D.nlink = 0)
    (hf : s.FreeOk k c → (s.edit p k (.iput h k c') true d D false).FreeOk k c') :
    (s.edit p k (.iput h k c') true d D false).Inv := by
  obtain ⟨hl, hd, hv, -, -, hno, hfo⟩ := hs.pcOk hp
  refine hs.edit hl (by simp [hp, slot?]) (.inr rfl) (by simp [hp]) (by simp [hp, hc]) ?_
    (by simp) (by simp) (fun h' => absurd rfl (h' c')) fun _ h' => absurd rfl (h' c')
  refine ⟨hl, edit_dirty, by rw [edit_inode], by rw [edit_inode]; exact hn, by rwa [edit_dino],
    fun q c'' => ?_, hf hfo⟩
  rcases eq_or_ne q p with rfl | hq
  · rw [edit_pc]
    simp
  · exact (update_of_ne hq ..).trans_ne (hno q c'')

end Edit

/-! ### Taking and releasing the lock -/

section Lock

variable [DecidableEq P] [DecidableEq H] {p : P} {h : H} {k : Fin ninode}

/-- The steps of `iput` that free the inode, but for the last critical section. -/
lemma Inv.freeStep (hs : s.Inv) {c : FreePc} (hp : s.pc p = .iput h k c) (hc : c ≠ .done) :
    (s.freeStep p h k c).Inv := by
  obtain ⟨-, hd, hv, hn, hN, -, -⟩ := hs.pcOk hp
  cases c with
  | trunc i =>
    rw [IcSys.freeStep]
    split
    all_goals
      rw [setCopy_goto, hd, hv]
      refine hs.edit_free hp hc hn hN fun ⟨h1, ht, hT⟩ => ⟨h1, ?_, by rwa [edit_dino]⟩
      rwa [edit_inode]
  | shrunk =>
    rw [IcSys.freeStep, update_goto, hd, hv]
    refine hs.edit_free hp hc hn hn fun ⟨h1, ht, hT⟩ => ⟨h1, ?_, by rwa [edit_dino]⟩
    rwa [edit_inode]
  | typed =>
    rw [IcSys.freeStep, setCopy_goto, hd, hv]
    refine hs.edit_free hp hc hn hN fun ⟨h1, ht, hT⟩ => ⟨h1, ?_, by rwa [edit_dino]⟩
    rw [edit_inode]
  | cleared =>
    rw [IcSys.freeStep, update_goto, hd, hv]
    exact hs.edit_free hp hc hn hn fun ⟨h1, ht, hT⟩ _ => h1
  | done => exact absurd rfl hc

omit [DecidableEq P] [DecidableEq H] in
/-- The inodes that `ialloc` has marked, after a step that neither marks one nor changes the
disk. -/
lemma MarkedOk.of_step {s' : IcSys P H} (hm : s.MarkedOk) (hdisk : s'.disk = s.disk)
    (hpc : ∀ q i, s'.pc q = .marked i → s.pc q = .marked i)
    (hslot : ∀ q i j, s.pc q = .marked i → s'.Cited j → (s'.inode j).ino = i →
      s.Cited j ∧ (s.inode j).ino = i ∧ refs s'.ptr j = refs s.ptr j ∧
        ∀ r g, s.pc r = .iput g j .done → s'.pc r = .iput g j .done) : s'.MarkedOk := by
  intro q i hq
  obtain ⟨ht, hn, hone, hall⟩ := hm q i (hpc q i hq)
  rw [hdisk]
  refine ⟨ht, hn, fun r hr => hone r (hpc r i hr), fun j hc hi => ?_⟩
  obtain ⟨hc', hi', hr, hd⟩ := hslot q i j (hpc q i hq) hc hi
  obtain ⟨h1, r, g, hg⟩ := hall j hc' hi'
  exact ⟨hr.trans h1, r, g, hd r g hg⟩

/-- **The rule for taking the lock of an entry**, in `ilock` and in `iput`. -/
lemma Inv.take (hs : s.Inv) {c : IcPc H} (hb : (s.inode k).busy = false) (hh : s.ptr h = some k)
    (hold : slot? (s.pc p) = none ∨ slot? (s.pc p) = some k) (hmark : ∀ i, s.pc p ≠ .marked i)
    (hc : slot? c = some k) (hv : (s.inode k).valid = false → c = .ilock h k .flags)
    (hok : (((s.setInode k { s.inode k with busy := true }).setLocked p h true).goto p c).PcOk p c) :
    (((s.setInode k { s.inode k with busy := true }).setLocked p h true).goto p c).Inv := by
  have hk := hs.slot k
  have hno : ∀ q g, ¬s.Locks q g k := fun q g hg => by simp [hk.busy q g hg] at hb
  have hfree : ¬s.Freeing k := fun ⟨q, g, c', hq⟩ => hno q g (hs.pcOk hq).1
  have hclean : s.dirty k = false := hk.clean hb
  set s' := ((s.setInode k { s.inode k with busy := true }).setLocked p h true).goto p c with hs'
  have hent : s'.inode k = { s.inode k with busy := true } := update_self ..
  have hdino : s'.dino k = s.dino k := by rw [dino, hent]; rfl
  have hlocked : ∀ q g, s'.locked q g = if q = p ∧ g = h then true else s.locked q g :=
    fun q g => rfl
  have hlock : ∀ q g, s'.Locks q g k → q = p ∧ g = h := by
    rintro q g ⟨hl, hg⟩
    by_contra hne
    rw [hlocked, if_neg hne] at hl
    exact hno q g ⟨hl, hg⟩
  have hpc : ∀ q, q ≠ p → s'.pc q = s.pc q := fun q hq => update_of_ne hq ..
  have hpcp : s'.pc p = c := update_self ..
  refine hs.at_slot (k := k) ⟨?_, fun _ _ _ => by rw [hent],
    fun _ => ⟨p, h, by rw [hlocked, if_pos ⟨rfl, rfl⟩], hh⟩, ?_, ?_, ?_,
    fun hc' _ => hdino ▸ hk.alloc hc' hfree, fun hc' hv' _ => ?_, fun q hq => ?_⟩ ?_ ?_ ?_ ?_
  · rw [hent]
    exact hk.ref
  · intro q g q' g' hl hl'
    obtain ⟨rfl, rfl⟩ := hlock q g hl
    obtain ⟨rfl, rfl⟩ := hlock q' g' hl'
    exact ⟨rfl, rfl⟩
  · intro hd
    exact absurd hd (by simp [s', goto, setLocked, setInode, hclean])
  · intro q g hl hv'
    obtain ⟨rfl, rfl⟩ := hlock q g hl
    rw [hent] at hv'
    exact .inl (hpcp.trans (hv hv'))
  · rw [hent] at hv' ⊢
    rw [hdino]
    exact hk.copy hc' hv' hfree
  · rcases eq_or_ne q p with rfl | hqp
    · rwa [hpcp]
    · rw [hpc q hqp] at hq ⊢
      obtain ⟨g, hg, e | e⟩ := hs.waits (hno q) hq <;> rw [e] <;> exact hg
  · intro j hj
    have hkj : some k ≠ some j := by simpa using hj.symm
    exact ((same_setInode hj _).trans (same_setLocked (by simpa [hh, setInode] using hkj) p true)).trans
      (same_goto (by rcases hold with e | e <;> simp [setLocked, setInode, e, hj.symm]) (hc ▸ hkj))
  · intro _ j hj hcj
    rw [hent]
    exact mt (hs.unique j k hcj ⟨h, hh⟩) hj
  · intro q g hl
    rw [hlocked] at hl
    split_ifs at hl with he
    · exact ⟨k, he.2 ▸ hh⟩
    · exact hs.ptr q g hl
  · refine hs.marked.of_step rfl (fun q i hq => ?_) fun q i j _ hcj hi => ⟨hcj, ?_, rfl, fun r g hr => ?_⟩
    · rcases eq_or_ne q p with rfl | hqp
      · rw [← hpcp, hq] at hc
        simp [slot?] at hc
      · rwa [hpc q hqp] at hq
    · rcases eq_or_ne j k with rfl | hj
      · rwa [hent] at hi
      · exact (congrArg _ (update_of_ne hj ..)).symm.trans hi
    · rcases eq_or_ne r p with rfl | hrp
      · have hj : j = k := by rcases hold with e | e <;> simp_all [slot?]
        exact absurd (hj ▸ (hs.pcOk hr).1) (hno r g)
      · rw [hpc r hrp, hr]

/-- `ilock` takes the lock. -/
lemma Inv.lock_take (hs : s.Inv) (hp : s.pc p = .ilock h k .test)
    (hb : (s.inode k).busy = false) :
    (((s.setInode k { s.inode k with busy := true }).setLocked p h true).goto p
      (.ilock h k .flags)).Inv := by
  have hh : s.ptr h = some k := hs.pcOk hp
  exact hs.take hb hh (.inr (by rw [hp]; rfl)) (by simp [hp]) rfl (fun _ => rfl)
    ⟨⟨by simp [goto, setLocked], hh⟩, (hs.slot k).clean hb⟩

/-- `iput` takes the lock to free the inode. -/
lemma Inv.iput_take (hs : s.Inv) (hp : s.pc p = .idle) (hh : s.ptr h = some k) (hu : ¬s.InUse h)
    (hb : (s.inode k).busy = false) (hone : (s.inode k).ref = 1)
    (hv : (s.inode k).valid = true) (hn : (s.inode k).d.nlink = 0) :
    (((s.setInode k { s.inode k with busy := true }).setLocked p h true).goto p
      (.iput h k (.trunc 0))).Inv := by
  have hk := hs.slot k
  have hfree : ¬s.Freeing k := fun ⟨q, g, c', hq⟩ => by simp [hk.busy q g (hs.pcOk hq).1] at hb
  have hd : s.dirty k = false := hk.clean hb
  obtain ⟨ht, he⟩ := hk.copy ⟨h, hh⟩ hv hfree
  have hT := hk.alloc ⟨h, hh⟩ hfree
  refine hs.take hb hh (.inl (by rw [hp]; rfl)) (by simp [hp]) rfl (by simp [hv]) ?_
  have hent : (((s.setInode k { s.inode k with busy := true }).setLocked p h true).goto p
      (.iput h k (.trunc 0))).inode k = { s.inode k with busy := true } := update_self ..
  refine ⟨⟨by simp [goto, setLocked], hh⟩, hd, ?_, ?_, ?_, fun q c e => ?_, ?_, ?_, ?_⟩
  · rwa [hent]
  · rwa [hent]
  · rw [dino, hent]
    exact (congrArg Dinode.nlink (he hd)).symm.trans hn
  · rcases eq_or_ne q p with rfl | hq
    · simp [goto] at e
    · have e' : s.pc q = .ilock h k c := (update_of_ne hq ..).symm.trans e
      exact hu ⟨q, .inr (by simp [e', locks])⟩
  · exact_mod_cast hk.ref.symm.trans hone
  · rwa [hent]
  · rwa [dino, hent]

/-- **The rule for releasing the lock of an entry**, in `iunlock` and in `iput`; the reference
`h` is kept or dropped. -/
lemma Inv.release (hs : s.Inv) (hl : s.Locks p h k) (ip : CachedInode)
    (ptr : H → Option (Fin ninode)) (hbusy : ip.busy = false) (hino : ip.ino = (s.inode k).ino)
    (href : ip.ref = refs ptr k) (hslot : slot? (s.pc p) = some k) (hclean : s.dirty k = false)
    (hptr : ∀ g, g ≠ h → ptr g = s.ptr g) (hh : ptr h = some k ∨ ptr h = none)
    (hwait : ∀ q c, s.pc q = .ilock h k c → ptr h = some k)
    (hmark : ∀ q, s.pc q = .marked (s.inode k).ino → ∀ g, ptr g ≠ some k)
    (halloc : (∃ g, ptr g = some k) → (s.dino k).type ≠ 0)
    (hcopy : ip.valid = true → ip.d.type ≠ 0 ∧ ip.d = s.dino k) :
    ({ ((s.setInode k ip).setLocked p h false).goto p .idle with ptr } : IcSys P H).Inv := by
  have hk := hs.slot k
  set s' : IcSys P H := { ((s.setInode k ip).setLocked p h false).goto p .idle with ptr }
  have hent : s'.inode k = ip := update_self ..
  have hinode : ∀ j, j ≠ k → s'.inode j = s.inode j := fun j hj => update_of_ne hj ..
  have hdino : s'.dino k = s.dino k := by rw [dino, hent, hino]; rfl
  have hlocked : ∀ q g, s'.locked q g = if q = p ∧ g = h then false else s.locked q g :=
    fun q g => rfl
  have hpc : ∀ q, q ≠ p → s'.pc q = s.pc q := fun q hq => update_of_ne hq ..
  have hpcp : s'.pc p = .idle := update_self ..
  have hback : ∀ g j, ptr g = some j → s.ptr g = some j := by
    intro g j hg
    rcases eq_or_ne g h with rfl | hgh
    · rcases hh with e | e
      · exact hl.2.trans (e.symm.trans hg)
      · simp [e] at hg
    · rw [← hg, hptr g hgh]
  have hno : ∀ q g, ¬s'.Locks q g k := by
    rintro q g ⟨hq, hg⟩
    rw [hlocked] at hq
    split_ifs at hq with hne
    obtain ⟨rfl, rfl⟩ := hk.excl _ _ _ _ hl ⟨hq, hback g k hg⟩
    exact hne ⟨rfl, rfl⟩
  refine hs.at_slot (k := k) ⟨?_, fun q g hg => absurd hg (hno q g), ?_,
    fun q g _ _ hg _ => absurd hg (hno q g), ?_, fun q g hg => absurd hg (hno q g), ?_, ?_, ?_⟩
    ?_ ?_ ?_ ?_
  · rw [hent]
    exact href
  · simp [hent, hbusy]
  · intro hd
    cases hclean.symm.trans hd
  · intro hc _
    rw [hdino]
    exact halloc hc
  · intro _ hv _
    rw [hent] at hv ⊢
    rw [hdino]
    exact ⟨(hcopy hv).1, fun _ => (hcopy hv).2⟩
  · intro q hq
    rcases eq_or_ne q p with rfl | hqp
    · simp [hpcp, slot?] at hq
    · rw [hpc q hqp] at hq ⊢
      have hptr' : ∀ g c, s.ptr g = some k → s.pc q = .ilock g k c → ptr g = some k := by
        intro g c hg hc
        rcases eq_or_ne g h with rfl | hgh
        · exact hwait q c hc
        · rw [hptr g hgh, hg]
      obtain ⟨g, hg, e | e⟩ := hs.waits (fun g hg => hqp (hk.excl _ _ _ _ hg hl).1) hq
      · rw [e]
        exact hptr' g _ hg e
      · rw [e]
        exact hptr' g _ hg e
  · intro j hj
    refine ⟨hinode j hj, rfl, fun _ => by rw [dino, hinode j hj]; rfl, fun g => ?_, fun q g hg => ?_,
      fun q => ?_⟩
    · rcases eq_or_ne g h with rfl | hgh
      · rw [hl.2]
        rcases hh with e | e
        · exact iff_of_eq (congrArg (· = some j) e)
        · exact ⟨fun e' => by simp [s', e] at e', fun e' => absurd (Option.some.inj e').symm hj⟩
      · exact iff_of_eq (congrArg (· = some j) (hptr g hgh))
    · rw [hlocked, if_neg]
      rintro ⟨-, rfl⟩
      exact hj (Option.some.inj (hg.symm.trans hl.2))
    · rcases eq_or_ne q p with rfl | hqp
      · refine .inr ⟨?_, by simp [hpcp, slot?]⟩
        simpa [hslot] using hj.symm
      · exact .inl (hpc q hqp)
  · intro _ j hj hcj
    rw [hent, hino]
    exact mt (hs.unique j k hcj ⟨h, hl.2⟩) hj
  · intro q g hq
    rw [hlocked] at hq
    split_ifs at hq with hne
    obtain ⟨j, hj⟩ := hs.ptr q g hq
    rcases eq_or_ne g h with rfl | hgh
    · obtain rfl : k = j := Option.some.inj (hl.2.symm.trans hj)
      exact absurd ⟨(hk.excl _ _ _ _ hl ⟨hq, hj⟩).1.symm, rfl⟩ hne
    · exact ⟨j, (hptr g hgh).trans hj⟩
  · refine hs.marked.of_step rfl (fun q i hq => ?_) fun q i j hq hcj hi => ?_
    · rcases eq_or_ne q p with rfl | hqp
      · simp [hpcp] at hq
      · rwa [hpc q hqp] at hq
    · have hjk : j ≠ k := by
        rintro rfl
        rw [hent, hino] at hi
        obtain ⟨g, hg⟩ := hcj
        exact hmark q (hi ▸ hq) g hg
      rw [hinode j hjk] at hi
      refine ⟨hcj.imp fun g => hback g j, hi, refs_congr fun g => ⟨hback g j, fun hg => ?_⟩, ?_⟩
      · rcases eq_or_ne g h with rfl | hgh
        · exact absurd (Option.some.inj (hg.symm.trans hl.2)) hjk
        · exact (hptr g hgh).trans hg
      · intro r g hr
        have hrp : r ≠ p := by
          rintro rfl
          rw [hr] at hslot
          exact hjk (Option.some.inj hslot)
        rw [hpc r hrp, hr]

/-- `iunlock`. -/
lemma Inv.unlock (hs : s.Inv) (hp : s.pc p = .iunlock h k) : (s.unlock p h k).Inv := by
  obtain ⟨hl, hd, hv⟩ := hs.pcOk hp
  have hk := hs.slot k
  have hfree := hs.not_freeing hl fun g c => by simp [hp]
  obtain ⟨ht, he⟩ := hk.copy ⟨h, hl.2⟩ hv hfree
  refine Inv.wakeup (hs.release hl { s.inode k with busy := false } s.ptr rfl rfl
    hk.ref (by rw [hp]; rfl) hd (fun _ _ => rfl) (.inl hl.2) (fun _ _ _ => hl.2) ?_
    (fun _ => hk.alloc ⟨h, hl.2⟩ hfree) fun _ => ⟨ht, he hd⟩) k
  intro q hq
  obtain ⟨-, -, -, hall⟩ := hs.marked q _ hq
  obtain ⟨-, r, g, hr⟩ := hall k ⟨h, hl.2⟩ rfl
  exact absurd ⟨r, g, _, hr⟩ hfree

/-- The last critical section of `iput`, after the inode was freed. -/
lemma Inv.free_done (hs : s.Inv) (hp : s.pc p = .iput h k .done) :
    (s.freeStep p h k .done).Inv := by
  obtain ⟨hl, hd, hv, hn, hN, hno, hf⟩ := hs.pcOk hp
  have hk := hs.slot k
  have hrefs := refs_update_none hl.2
  have hcite : ∀ g, Function.update s.ptr h none g = some k → refs s.ptr k ≠ 1 := by
    intro g hg h1
    have := refs_pos.2 ⟨g, hg⟩
    omega
  have hrel := hs.release hl
    { s.inode k with busy := false, valid := false, ref := (s.inode k).ref - 1 }
    (Function.update s.ptr h none) rfl rfl (by have := hk.ref; simp only; omega)
    (by rw [hp]; rfl) hd (fun g hg => update_of_ne hg ..)
    (.inr (update_self ..)) (fun q c hq => absurd hq (hno q c)) ?_ ?_ (by simp)
  · have heq := Inv.wakeup hrel k
    simpa [IcSys.freeStep, decRef, goto, setLocked, setInode, setPtr, update_idem] using heq
  · intro q hq g hg
    obtain ⟨-, -, -, hall⟩ := hs.marked q _ hq
    exact hcite g hg (hall k ⟨h, hl.2⟩ rfl).1
  · rintro ⟨g, hg⟩ ht
    exact hcite g hg (hf ht)

end Lock

end IcSys

end Col331
