import Col331.Icache.Refs

/-!
The inode cache is coherent, however the processes take turns.

* `Inv.step`, `Inv.step_ne_error`: every step keeps the invariant and stops only when a table is
  full.
* `icache_coherent`: what this means for the users of the cache.
-/

namespace Col331

open Function

namespace IcSys

variable {P H : Type} [Fintype H] {s : IcSys P H}

/-! ### Runs -/

section Step

variable [DecidableEq P] [DecidableEq H] {p : P} {h : H} {k : Fin ninode}

omit [DecidableEq P] [DecidableEq H] in
lemma Inv.cited_iff (hs : s.Inv) : s.Cited k ↔ 0 < (s.inode k).ref := by
  rw [(hs.slot k).ref, Cited, ← refs_pos]
  exact_mod_cast Iff.rfl

omit [Fintype H] [DecidableEq H] in
lemma goto_self {s : IcSys P H} {c : IcPc H} (hp : s.pc p = c) : s.goto p c = s := by
  rw [IcSys.goto, ← hp, update_eq_self]

omit [DecidableEq H] in
/-- A process that is not in `ilock` moves. -/
lemma Inv.goto (hs : s.Inv) {n : IcPc H} (hold : s.pc p = .idle ∨ (∃ g j, s.pc p = .ilock g j .test) ∨
      ∃ dev type inum, s.pc p = .ialloc dev type inum)
    (hnew : (∀ h k c, n ≠ .iput h k c) ∧ ∀ i, n ≠ .marked i) (hok : s.PcOk p n)
    (hfresh : ∀ h k c, n = .ilock h k c → ∀ r c', s.pc r ≠ .iput h k c') : (s.goto p n).Inv := by
  refine hs.of_quiet fun q => ?_
  rcases eq_or_ne q p with rfl | hq
  · refine .inr ?_
    rw [update_self]
    refine ⟨?_, hnew, hok, hfresh, fun g j hl hv => ?_⟩
    · rcases hold with e | ⟨g, j, e⟩ | ⟨d, t, i, e⟩ <;> simp [e]
    · have := (hs.slot j).valid q g hl hv
      rcases hold with e | ⟨g, j, e⟩ | ⟨d, t, i, e⟩ <;> simp [e] at this
  · exact .inl (update_of_ne hq ..)

omit [DecidableEq P] in
/-- A reference that nobody is putting keeps its inode from being freed. -/
lemma Inv.of_held (hs : s.Inv) (hh : s.ptr h = some k) (hheld : s.Held h) :
    (∀ q g c, s.pc q = .iput g k c → c = .done ∧ (s.dino k).type ≠ 0) ∧
      ∀ q, s.pc q ≠ .marked (s.inode k).ino := by
  have hone : ∀ q g c, s.pc q = .iput g k c → refs s.ptr k ≠ 1 := by
    intro q g c hq h1
    obtain rfl := eq_of_refs_eq_one h1 hh (hs.pcOk hq).1.2
    have := hheld.2 q
    simp [hq, puts] at this
  refine ⟨fun q g c hq => ?_, fun q hq => ?_⟩
  · obtain ⟨-, -, -, -, -, -, hfo⟩ := hs.pcOk hq
    cases c with
    | trunc | shrunk | typed | cleared => exact absurd hfo.1 (hone q g _ hq)
    | done => exact ⟨rfl, fun h0 => hone q g _ hq (hfo h0)⟩
  · obtain ⟨-, -, -, hall⟩ := hs.marked q _ hq
    obtain ⟨h1, r, g, hr⟩ := hall k ⟨h, hh⟩ rfl
    exact hone r g _ hr h1

omit [DecidableEq P] [DecidableEq H] in
/-- An inode with links is neither being freed nor just marked. -/
lemma Inv.of_linked (hs : s.Inv) {i : Ino} (hi : s.Linked i) :
    (s.disk i).type ≠ 0 ∧ (∀ q, s.pc q ≠ .marked i) ∧
      ∀ k, s.Cited k → (s.inode k).ino = i → ¬s.Freeing k := by
  rcases hi with ⟨ht, hn⟩ | ⟨k', hr', hi', hv', hn'⟩
  · have hne : (s.disk i).nlink ≠ 0 := fun e => by simp [e] at hn
    refine ⟨ht, fun q hq => hne (hs.marked q i hq).2.1, ?_⟩
    rintro k - rfl ⟨q, g, c, hq⟩
    obtain ⟨-, -, -, -, hN, -, -⟩ := hs.pcOk hq
    exact hne hN
  · have hne : (s.inode k').d.nlink ≠ 0 := fun e => by simp [e] at hn'
    have hc' := hs.cited_iff.2 hr'
    have hfree : ¬s.Freeing k' := by
      rintro ⟨q, g, c, hq⟩
      obtain ⟨-, -, -, hN, -, -, -⟩ := hs.pcOk hq
      exact hne hN
    refine ⟨hi' ▸ (hs.slot k').alloc hc' hfree, fun q hq => ?_, fun k hc hik => ?_⟩
    · obtain ⟨-, -, -, hall⟩ := hs.marked q i hq
      obtain ⟨-, r, g, hr⟩ := hall k' hc' hi'
      exact hfree ⟨r, g, _, hr⟩
    · obtain rfl := hs.unique k k' hc hc' (hik.trans hi'.symm)
      exact hfree

omit [Fintype H] in
lemma iget_goto (s : IcSys P H) (c : IcPc H) (i : Ino) : (s.goto p c).iget p h i = s.iget p h i := by
  have hc : (s.goto p c).cached? i = s.cached? i := rfl
  have he : (s.goto p c).empty? = s.empty? := rfl
  rw [IcSys.iget, IcSys.iget, hc, he]
  cases s.cached? i with
  | some k => simp [IcSys.goto, setInode, setPtr]
  | none => cases s.empty? <;> simp [IcSys.goto, setInode, setPtr]

/-- `iget` of an inode that is allocated, not marked by another process, and freed by none. -/
lemma Inv.iget (hs : s.Inv) {s' : IcSys P H} {i : Ino} (hp : s.pc p = .idle) (hh : s.ptr h = none)
    (ht : (s.disk i).type ≠ 0) (hmark : ∀ q, s.pc q ≠ .marked i)
    (hfree : ∀ k, s.Cited k → (s.inode k).ino = i → ∀ q g c, s.pc q = .iput g k c → c = .done)
    (h' : s.iget p h i = .ok s') : s'.Inv := by
  rw [IcSys.iget] at h'
  cases hc : s.cached? i with
  | some k =>
    have hfind := List.find?_some hc
    simp only [decide_eq_true_eq] at hfind
    have hcite := hs.cited_iff.2 hfind.1
    simp only [hc, Except.ok.injEq] at h'
    rw [← h', goto_self (by exact hp)]
    refine hs.addRef hh hcite (fun q g c hq => ⟨hfree k hcite hfind.2 q g c hq, ?_⟩) ?_
    · rw [dino, hfind.2]
      exact ht
    · rw [hfind.2]
      exact hmark
  | none =>
    cases he : s.empty? with
    | none => simp [hc, he] at h'
    | some k =>
      have hfind := List.find?_some he
      simp only [decide_eq_true_eq] at hfind
      simp only [hc, he, Except.ok.injEq] at h'
      rw [← h', goto_self (by exact hp)]
      refine hs.recycle hh (fun hcite => ?_) (fun j hj hi => ?_) ht hmark
      · have := hs.cited_iff.1 hcite
        omega
      · have hnone := List.find?_eq_none.1 hc j (List.mem_finRange j)
        exact hnone (by simpa using ⟨hs.cited_iff.1 hj, hi⟩)

/-- The steps of `ilock`. -/
lemma Inv.lockStep (hs : s.Inv) {s' : IcSys P H} {c : LockPc} (hp : s.pc p = .ilock h k c)
    (h' : s.lockStep p h k c = .ok s') : s'.Inv := by
  cases c with
  | test =>
    rw [IcSys.lockStep] at h'
    split_ifs at h' with hb <;> rw [← Except.ok.inj h']
    · refine hs.goto (.inr (.inl ⟨h, k, hp⟩)) (by simp)
        (show s.PcOk p (.ilock h k .test) from hs.pcOk hp) ?_
      rintro _ _ _ ⟨⟩ r c' hr
      obtain ⟨-, -, -, -, -, hno, -⟩ := hs.pcOk hr
      exact hno p _ hp
    · exact hs.lock_take hp (by simpa using hb)
  | asleep => exact Except.ok.inj h' ▸ hs
  | flags =>
    obtain ⟨hl, hd⟩ := hs.pcOk hp
    cases h'
    refine hs.of_quiet fun q => ?_
    rcases eq_or_ne q p with rfl | hq
    swap
    · exact .inl (update_of_ne hq ..)
    rw [update_self]
    have hsame : ∀ g j, s.Locks q g j → (s.inode j).valid = false → g = h ∧ j = k := by
      intro g j hg hv
      have := (hs.slot j).valid q g hg hv
      simp only [hp, IcPc.ilock.injEq, reduceCtorEq, and_false, or_false] at this
      exact ⟨this.1.symm, this.2.1.symm⟩
    refine .inr ?_
    cases hv : (s.inode k).valid with
    | true =>
      refine ⟨by simp [hp], by simp, trivial, by simp, fun g j hg hv' => ?_⟩
      obtain ⟨rfl, rfl⟩ := hsame g j hg hv'
      simp [hv] at hv'
    | false =>
      refine ⟨by simp [hp], by simp, ⟨hl, hd, hv⟩, ?_, fun g j hg hv' => ?_⟩
      · rintro _ _ _ ⟨⟩ r c' hr
        obtain ⟨-, -, -, -, -, hno, -⟩ := hs.pcOk hr
        exact hno q _ hp
      · obtain ⟨rfl, rfl⟩ := hsame g j hg hv'
        exact .inr (.inl rfl)
  | read => exact Except.ok.inj h' ▸ hs.lock_read hp
  | copied =>
    rw [IcSys.lockStep] at h'
    split_ifs at h' with ht
    exact Except.ok.inj h' ▸ hs.lock_copied hp ht

/-- **Every step keeps the invariant.** -/
lemma Inv.step (hs : s.Inv) {s' : IcSys P H} {ninodes : UInt32} {a : IcAct P H}
    (ha : s.Promised a) (h' : s.step ninodes a = .ok s') : s'.Inv := by
  cases a with
  | iget p h i =>
    obtain ⟨hh, ⟨hp, hi⟩ | hp⟩ := ha
    · obtain ⟨ht, hmark, hfree⟩ := hs.of_linked hi
      exact hs.iget hp hh ht hmark (fun k hc hk q g c hq => absurd ⟨q, g, c, hq⟩ (hfree k hc hk)) h'
    · -- the process has left `ialloc` when it gets the inode it has marked
      obtain ⟨ht, -, hone, hall⟩ := hs.marked p i hp
      refine (hs.unmark hp).iget (i := i) (update_self ..) hh ht (fun q hq => ?_) ?_
        ((iget_goto ..).trans h')
      · rcases eq_or_ne q p with rfl | hqp
        · simp [IcSys.goto] at hq
        · exact hqp (hone q ((update_of_ne hqp ..).symm.trans hq))
      · intro k hc hk q g c hq
        obtain ⟨-, r, g', hr⟩ := hall k hc hk
        have hqp : q ≠ p := by
          rintro rfl
          simp [IcSys.goto] at hq
        simp only [IcSys.goto, update_of_ne hqp] at hq
        obtain ⟨rfl, -⟩ := (hs.slot k).excl _ _ _ _ (hs.pcOk hq).1 (hs.pcOk hr).1
        have := hq.symm.trans hr
        simp only [IcPc.iput.injEq] at this
        exact this.2.2
  | idup p h h₂ =>
    obtain ⟨-, hheld, hh₂⟩ := ha
    obtain ⟨k, hk⟩ := Option.ne_none_iff_exists'.1 hheld.1
    obtain ⟨hfree, hmark⟩ := hs.of_held hk hheld
    simp only [IcSys.step, hk, Except.ok.injEq] at h'
    exact h' ▸ hs.addRef hh₂ ⟨h, hk⟩ hfree hmark
  | ilock p h =>
    obtain ⟨hp, hheld⟩ := ha
    obtain ⟨k, hk⟩ := Option.ne_none_iff_exists'.1 hheld.1
    simp only [IcSys.step, hk] at h'
    split_ifs at h'
    cases h'
    refine hs.goto (.inl hp) (by simp) hk ?_
    rintro _ _ _ ⟨⟩ r c' hr
    have := hheld.2 r
    simp [hr, puts] at this
  | iunlock p h =>
    obtain ⟨hp, hl, hd⟩ := ha
    obtain ⟨k, hk⟩ := hs.ptr p h hl
    simp only [IcSys.step, hk] at h'
    split_ifs at h'
    cases h'
    exact hs.goto (.inl hp) (by simp) ⟨⟨hl, hk⟩, hd k hk, (hs.entry ⟨hl, hk⟩ hp).1⟩ (by simp)
  | iput p h =>
    obtain ⟨hp, hheld, hu⟩ := ha
    obtain ⟨k, hk⟩ := Option.ne_none_iff_exists'.1 hheld.1
    simp only [IcSys.step, hk, IcSys.iput] at h'
    split_ifs at h' with hc hb
    · cases h'
      exact hs.iput_take hp hk hu (by simpa using hb) hc.1 hc.2.1 hc.2.2
    · exact Except.ok.inj h' ▸ hs.decRef hk hu
  | ialloc p dev type => exact Except.ok.inj h' ▸ hs.goto (.inl ha) (by simp) trivial (by simp)
  | modify p h d =>
    obtain ⟨hp, hl, ht⟩ := ha
    obtain ⟨k, hk⟩ := hs.ptr p h hl
    simp only [IcSys.step, hk, Except.ok.injEq] at h'
    exact h' ▸ hs.modify ⟨hl, hk⟩ hp ht
  | iupdate p h =>
    obtain ⟨hp, hl⟩ := ha
    obtain ⟨k, hk⟩ := hs.ptr p h hl
    simp only [IcSys.step, hk, Except.ok.injEq] at h'
    exact h' ▸ hs.iupdate ⟨hl, hk⟩ hp
  | move h h₂ =>
    obtain ⟨hheld, hh₂, hu⟩ := ha
    obtain ⟨k, hk⟩ := Option.ne_none_iff_exists'.1 hheld.1
    obtain ⟨hfree, hmark⟩ := hs.of_held hk hheld
    have hne : h ≠ h₂ := by
      rintro rfl
      simp [hk] at hh₂
    -- as if the reference were duplicated and the old one dropped
    have hdec := (hs.addRef hh₂ ⟨h, hk⟩ hfree hmark).decRef (h := h) (k := k)
      (by simp [setPtr, setInode, hne, hk]) hu
    rw [← Except.ok.inj h', hk]
    simpa [IcSys.decRef, setPtr, setInode, update_idem] using hdec
  | next p =>
    cases hp : s.pc p with
    | idle | marked => simp only [IcSys.step, hp, Except.ok.injEq] at h'; exact h' ▸ hs
    | ilock h k c =>
      simp only [IcSys.step, hp] at h'
      exact hs.lockStep hp h'
    | iunlock h k =>
      simp only [IcSys.step, hp, Except.ok.injEq] at h'
      exact h' ▸ hs.unlock hp
    | iput h k c =>
      simp only [IcSys.step, hp, Except.ok.injEq] at h'
      rcases eq_or_ne c .done with rfl | hc
      · exact h' ▸ hs.free_done hp
      · exact h' ▸ hs.freeStep hp hc
    | ialloc dev type inum =>
      simp only [IcSys.step, hp, iallocRound] at h'
      split_ifs at h' with hlt h0 <;> rw [← Except.ok.inj h']
      · exact hs.mark hp h0
      · exact hs.goto (.inr (.inr ⟨dev, type, inum, hp⟩)) (by simp) trivial (by simp)
  | kill p =>
    cases h'
    refine hs.of_quiet fun q => ?_
    rcases eq_or_ne q p with rfl | hq
    · simpa using hs.quiet_rouse q
    · exact .inl (update_of_ne hq ..)

/-- **The calls stop only when a table is full.** -/
lemma Inv.step_ne_error (hs : s.Inv) {ninodes : UInt32} {a : IcAct P H} (ha : s.Promised a)
    {e : Panic} (he : s.step ninodes a = .error e) : e = .igetNone ∨ e = .iallocNone := by
  have href : ∀ {h k}, s.ptr h = some k → ¬(s.inode k).ref < 1 := by
    intro h k hk
    have := hs.cited_iff.1 ⟨h, hk⟩
    omega
  cases a with
  | iget p h i =>
    simp only [IcSys.step, IcSys.iget] at he
    split at he
    · simp at he
    · split at he
      · simp at he
      · exact .inl (Except.error.inj he).symm
  | idup p h h₂ =>
    obtain ⟨k, hk⟩ := Option.ne_none_iff_exists'.1 ha.2.1.1
    simp [IcSys.step, hk] at he
  | ilock p h =>
    obtain ⟨k, hk⟩ := Option.ne_none_iff_exists'.1 ha.2.1
    simp [IcSys.step, hk, href hk] at he
  | iunlock p h =>
    obtain ⟨-, hl, -⟩ := ha
    obtain ⟨k, hk⟩ := hs.ptr p h hl
    simp [IcSys.step, hk, href hk, (hs.slot k).busy p h ⟨hl, hk⟩] at he
  | iput p h =>
    obtain ⟨-, hheld, hu⟩ := ha
    obtain ⟨k, hk⟩ := Option.ne_none_iff_exists'.1 hheld.1
    simp only [IcSys.step, hk, IcSys.iput] at he
    split_ifs at he with hc hb
    -- who has locked the inode has a reference of its own
    obtain ⟨q, g, hl⟩ := (hs.slot k).locker hb
    have h1 : refs s.ptr k = 1 := by exact_mod_cast (hs.slot k).ref.symm.trans hc.1
    obtain rfl := eq_of_refs_eq_one h1 hl.2 hk
    exact absurd ⟨q, .inl hl.1⟩ hu
  | ialloc | move | kill => simp [IcSys.step] at he
  | modify p h d =>
    obtain ⟨k, hk⟩ := hs.ptr p h ha.2.1
    simp [IcSys.step, hk] at he
  | iupdate p h =>
    obtain ⟨k, hk⟩ := hs.ptr p h ha.2
    simp [IcSys.step, hk] at he
  | next p =>
    cases hp : s.pc p with
    | idle | marked | iunlock | iput => simp [IcSys.step, hp] at he
    | ilock h k c =>
      simp only [IcSys.step, hp] at he
      cases c with
      | test =>
        rw [IcSys.lockStep] at he
        split_ifs at he
      | asleep | flags | read => simp [IcSys.lockStep] at he
      | copied =>
        obtain ⟨hl, -, -, hd⟩ := hs.pcOk hp
        have hfree := hs.not_freeing hl fun g c => by simp [hp]
        have ht := (hs.slot k).alloc ⟨h, hl.2⟩ hfree
        simp [IcSys.lockStep, hd, ht] at he
    | ialloc dev type inum =>
      simp only [IcSys.step, hp, iallocRound] at he
      split_ifs at he
      exact .inr (Except.error.inj he).symm

end Step

/-- The cache after start-up. -/
def boot (disk : Ino → Dinode) : IcSys P H where
  disk
  inode _ := ⟨⟨0, 0⟩, 0, false, false, Dinode.zero⟩
  pc _ := .idle
  ptr _ := none
  locked _ _ := false
  dirty _ := false

lemma boot_inv (disk : Ino → Dinode) : (boot disk : IcSys P H).Inv where
  slot k := by
    have hc : ¬(boot disk : IcSys P H).Cited k := fun ⟨_, hh⟩ => by simp [boot] at hh
    have hl : ∀ p h, ¬(boot disk : IcSys P H).Locks p h k := fun _ _ hl => by simp [boot, Locks] at hl
    exact ⟨by simp [boot, refs], fun p h h' => absurd h' (hl p h), by simp [boot],
      fun p h _ _ h' => absurd h' (hl p h), by simp [boot], fun p h h' => absurd h' (hl p h),
      fun h' => absurd h' hc, fun h' => absurd h' hc, by simp [boot, slot?]⟩
  unique j _ := fun ⟨_, hh⟩ => by simp [boot] at hh
  ptr := by simp [boot]
  marked := by simp [boot, MarkedOk]

end IcSys

open IcSys

variable {P H : Type} [DecidableEq P] [DecidableEq H] [Fintype H]

/-- **The inode cache is coherent** in every state that any number of processes reach by any
interleaving of their calls: an inode has one entry in use, `ref` counts the references to it, one
process has it locked, and a process that has returned from `ilock`, and has not changed the inode
since, sees what is on disk.  The calls stop only when the cache or the disk has no room left; in
particular `iput` never finds the inode it is to free locked, and `ilock` never finds one free. -/
theorem icache_coherent (ninodes : UInt32) (disk : Ino → Dinode) (s : IcSys P H)
    (h : Reach (IcSys.step ninodes) Promised (boot disk) s) :
    (∀ j k, 0 < (s.inode j).ref → 0 < (s.inode k).ref → (s.inode j).ino = (s.inode k).ino →
        j = k) ∧
      (∀ k, (s.inode k).ref = refs s.ptr k) ∧
      (∀ k p q g g', s.Locks p g k → s.Locks q g' k → p = q) ∧
      (∀ p g k, s.Locks p g k → via? (s.pc p) ≠ some g → s.dirty k = false →
        (s.inode k).d = s.disk (s.inode k).ino) ∧
      ∀ a e, s.Promised a → s.step ninodes a = .error e → e = .igetNone ∨ e = .iallocNone := by
  have hs : s.Inv := h.invariant (boot_inv disk) fun _ _ _ hs ha h' => hs.step ha h'
  refine ⟨fun j k hj hk => hs.unique j k (hs.cited_iff.2 hj) (hs.cited_iff.2 hk),
    fun k => (hs.slot k).ref, fun k p q g g' hl hl' => ((hs.slot k).excl _ _ _ _ hl hl').1,
    fun p g k hl hp hd => ?_, fun a e ha he => hs.step_ne_error ha he⟩
  have hfree : ¬s.Freeing k := by
    rintro ⟨q, g', c, hq⟩
    obtain ⟨rfl, rfl⟩ := (hs.slot k).excl _ _ _ _ hl (hs.pcOk hq).1
    exact hp (by rw [hq]; rfl)
  have hv : (s.inode k).valid = true := by
    by_contra hv
    rcases (hs.slot k).valid p g hl (by simpa using hv) with e | e | e <;>
      exact hp (by rw [e]; rfl)
  exact ((hs.slot k).copy ⟨g, hl.2⟩ hv hfree).2 hd

/-- The first process unlinks and puts inode 1; the second allocates it again after its type is
zero on disk and before the first has left `iput`, and has to wait for the lock. -/
def reuseRun : List (IcAct (Fin 2) (Fin 2)) := List.flatten
  [[.iget 0 0 ⟨1, 1⟩, .ilock 0 0, .next 0, .next 0, .next 0, .next 0,
      .modify 0 0 { Dinode.zero with type := 2 }, .iupdate 0 0, .iunlock 0 0, .next 0, .iput 0 0],
    List.replicate 17 (.next 0),
    [.ialloc 1 1 ⟨2, by decide⟩, .next 1, .iget 1 1 ⟨1, 1⟩, .ilock 1 1, .next 1, .next 0],
    List.replicate 4 (.next 1)]

/-- Inode 1 of device 1 is a file with one link, and all others are free. -/
def oneFile (i : Ino) : Dinode :=
  if i = ⟨1, 1⟩ then { Dinode.zero with type := 2, nlink := 1 } else Dinode.zero

/-- The second process sees the inode it has allocated, and not what the first left in the entry. -/
theorem icache_coherent_reuse : ∃ s : IcSys (Fin 2) (Fin 2),
    Reach (IcSys.step 200) Promised (boot oneFile) s ∧ s.Locks 1 1 0 ∧ s.pc 1 = .idle ∧
      (s.inode 0).d = { Dinode.zero with type := 2 } ∧
      (s.inode 0).d = s.disk (s.inode 0).ino := by
  obtain ⟨s, hreach, hl, hptr, hp, hd, hcopy⟩ : ∃ s : IcSys (Fin 2) (Fin 2),
      Reach (IcSys.step 200) Promised (boot oneFile) s ∧ s.locked 1 1 = true ∧ s.ptr 1 = some 0 ∧
      s.pc 1 = .idle ∧ s.dirty 0 = false ∧ (s.inode 0).d = { Dinode.zero with type := 2 } := Reach.of_test reuseRun (by decide +kernel)
  refine ⟨s, hreach, ⟨hl, hptr⟩, hp, hcopy, ?_⟩
  exact (icache_coherent 200 oneFile s hreach).2.2.2.1 1 1 0 ⟨hl, hptr⟩ (by simp [hp, via?]) hd

end Col331
