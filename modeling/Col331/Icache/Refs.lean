import Col331.Icache.Owner

/-!
References to entries of the inode cache come and go, and `ialloc` marks inodes.

* `Inv.addRef`, `Inv.decRef`: `idup` and `iget` of a cached inode, and `iput` that frees nothing.
* `Inv.recycle`: `iget` of an inode that is not cached.
* `Inv.mark`: `ialloc` takes a free inode, even one that a process in `iput` still refers to.
-/

namespace Col331

open Function

namespace IcSys

variable {P H : Type} [Fintype H] {s : IcSys P H}

/-! ### References -/

section Refs

variable [DecidableEq P] [DecidableEq H] {p : P} {h : H} {k : Fin ninode}

omit [DecidableEq P] [DecidableEq H] in
/-- Nothing is locked through a null pointer. -/
lemma Inv.not_locked (hs : s.Inv) (hh : s.ptr h = none) (q : P) : s.locked q h = false := by
  by_contra hq
  obtain ⟨j, hj⟩ := hs.ptr q h (by simpa using hq)
  simp [hh] at hj

omit [DecidableEq P] in
/-- A process at an entry works through a pointer to it. -/
lemma Inv.via (hs : s.Inv) {q : P} (hq : slot? (s.pc q) = some k) : ∃ g, via? (s.pc q) = some g ∧
    s.ptr g = some k ∧ (s.locked q g = true ∨ locks g (s.pc q) = true) := by
  cases hc : s.pc q with
  | idle | ialloc | marked => simp [hc, slot?] at hq
  | ilock g j c =>
    obtain rfl : j = k := by simpa [hc, slot?] using hq
    have hok := hs.pcOk hc
    refine ⟨g, rfl, ?_, .inr (by simp [locks])⟩
    cases c with
    | test | asleep => exact hok
    | flags | read | copied => exact hok.1.2
  | iunlock g j | iput g j c =>
    obtain rfl : j = k := by simpa [hc, slot?] using hq
    have hl := (hs.pcOk hc).1
    exact ⟨g, rfl, hl.2, .inl hl.1⟩

omit [DecidableEq P] in
/-- The pointer `h`, which nobody works through, comes to refer to the entry `k` or ceases to. -/
lemma Inv.setRef (hs : s.Inv) {r : Option (Fin ninode)} {n : ℤ} (hold : ∀ j, j ≠ k → s.ptr h ≠ some j)
    (hr : ∀ j, j ≠ k → r ≠ some j)
    (hu : ∀ q g, s.locked q g = true ∨ locks g (s.pc q) = true → s.ptr g ≠ none → g ≠ h)
    (hn : n = refs (Function.update s.ptr h r) k)
    (hcite : (∃ g, Function.update s.ptr h r g = some k) → s.Cited k)
    (hfree : ∀ q g c, s.pc q = .iput g k c → c = .done ∧ (s.dino k).type ≠ 0)
    (hmark : s.Cited k → ∀ q, s.pc q ≠ .marked (s.inode k).ino) :
    ((s.setInode k { s.inode k with ref := n }).setPtr h r).Inv := by
  have hk := hs.slot k
  set s' := (s.setInode k { s.inode k with ref := n }).setPtr h r
  have hent : s'.inode k = { s.inode k with ref := n } := update_self ..
  have hdino : s'.dino k = s.dino k := by rw [dino, hent]; rfl
  have hptr : ∀ g, g ≠ h → s'.ptr g = s.ptr g := fun g hg => update_of_ne hg ..
  have hlocked : ∀ q g, s.locked q g = true → g ≠ h := fun q g hq => hu q g (.inl hq) (by
    obtain ⟨j, hj⟩ := hs.ptr q g hq
    simp [hj])
  have hlocks : ∀ q g, s'.Locks q g k → s.Locks q g k := fun q g hg =>
    ⟨hg.1, (hptr g (hlocked q g hg.1)).symm.trans hg.2⟩
  have hsame : ∀ j, j ≠ k → Same s s' j := fun j hj => (same_setInode hj _).trans
    (same_setPtr (hold j hj) (hr j hj))
  refine hs.at_slot (k := k) ⟨by rw [hent]; exact hn, ?_, ?_, ?_, ?_, ?_, ?_, ?_, ?_⟩ hsame ?_ ?_ ?_
  · intro q g hg
    rw [hent]
    exact hk.busy q g (hlocks q g hg)
  · intro hb
    rw [hent] at hb
    obtain ⟨q, g, hq, hg⟩ := hk.locker hb
    exact ⟨q, g, hq, (hptr g (hlocked q g hq)).trans hg⟩
  · exact fun q g q' g' hg hg' => hk.excl q g q' g' (hlocks q g hg) (hlocks q' g' hg')
  · rw [hent]
    exact hk.dirty
  · intro q g hg hv
    rw [hent] at hv
    exact hk.valid q g (hlocks q g hg) hv
  · intro hc hf
    rw [hdino]
    exact hk.alloc (hcite hc) hf
  · intro hc hv hf
    rw [hent] at hv ⊢
    rw [hdino]
    exact hk.copy (hcite hc) hv hf
  · intro q hq
    obtain ⟨g', hg', hgk, hl⟩ := hs.via hq
    refine (hk.pcs q hq).transfer hq (fun g hg hg₁ => ⟨(hptr g ?_).trans hg₁, rfl⟩) rfl
      (by rw [hent]) (by rw [hent]) (fun _ => hdino) fun g f hf _ => ⟨fun _ _ => id, ?_⟩
    · obtain rfl := Option.some.inj (hg'.symm.trans hg)
      exact hu q g' hl (by simp [hgk])
    · obtain ⟨rfl, ht⟩ := hfree q g f hf
      exact fun h0 => absurd (hdino ▸ h0) ht
  · intro hc j hj hcj
    rw [hent]
    exact mt (hs.unique j k hcj (hcite hc)) hj
  · intro q g hq
    obtain ⟨j, hj⟩ := hs.ptr q g hq
    exact ⟨j, (hptr g (hlocked q g hq)).trans hj⟩
  · refine hs.marked.of_step rfl (fun q i hq => hq) fun q i j hq hcj hi => ?_
    have hjk : j ≠ k := by
      rintro rfl
      rw [hent] at hi
      exact hmark (hcite hcj) q (hi ▸ hq)
    rw [(hsame j hjk).inode] at hi
    exact ⟨(hsame j hjk).cited.1 hcj, hi, refs_congr (hsame j hjk).ptr, fun _ _ hr => hr⟩

omit [DecidableEq P] in
/-- **A new reference** to an entry that is in use. -/
lemma Inv.addRef (hs : s.Inv) (hh : s.ptr h = none) (hc : s.Cited k)
    (hfree : ∀ q g c, s.pc q = .iput g k c → c = .done ∧ (s.dino k).type ≠ 0)
    (hmark : ∀ q, s.pc q ≠ .marked (s.inode k).ino) :
    ((s.setInode k { s.inode k with ref := (s.inode k).ref + 1 }).setPtr h (some k)).Inv := by
  refine hs.setRef (by simp [hh]) (fun j hj => by simpa using hj.symm) ?_ ?_ (fun _ => hc) hfree
    fun _ => hmark
  · rintro q g - hg rfl
    exact hg hh
  · have hr := refs_update_some (k := k) hh
    have href := (hs.slot k).ref
    omega

omit [DecidableEq P] in
/-- **A reference is dropped** that nobody works through. -/
lemma Inv.decRef (hs : s.Inv) (hh : s.ptr h = some k) (hu : ¬s.InUse h) : (s.decRef h k).Inv := by
  -- the process that frees the inode has another reference to it
  have hfree : ∀ q g c, s.pc q = .iput g k c → refs s.ptr k ≠ 1 := by
    intro q g c hq h1
    have hl := (hs.pcOk hq).1
    obtain rfl := eq_of_refs_eq_one h1 hl.2 hh
    exact hu ⟨q, .inl hl.1⟩
  have hcited : s.Cited k := ⟨h, hh⟩
  refine hs.setRef (fun j hj => by simpa [hh] using hj.symm) (by simp) ?_ ?_ (fun _ => hcited)
    (fun q g c hq => ?_) fun _ q hq => ?_
  · rintro q g hq - rfl
    exact hu ⟨q, hq⟩
  · have hr := refs_update_none hh
    have href := (hs.slot k).ref
    omega
  · have h1 := hfree q g c hq
    obtain ⟨-, -, -, -, -, -, hfo⟩ := hs.pcOk hq
    cases c with
    | trunc | shrunk | typed | cleared => exact absurd hfo.1 h1
    | done => exact ⟨rfl, mt hfo h1⟩
  · obtain ⟨-, -, -, hall⟩ := hs.marked q _ hq
    obtain ⟨h1, r, g, hr⟩ := hall k hcited rfl
    exact hfree r g _ hr h1

omit [DecidableEq P] in
/-- **An entry is recycled** for an inode that no entry in use caches. -/
lemma Inv.recycle (hs : s.Inv) {i : Ino} (hh : s.ptr h = none) (hfree : ¬s.Cited k)
    (hnew : ∀ j, s.Cited j → (s.inode j).ino ≠ i) (ht : (s.disk i).type ≠ 0)
    (hmark : ∀ q, s.pc q ≠ .marked i) :
    ((s.setInode k { s.inode k with ino := i, ref := 1, busy := false, valid := false }).setPtr
      h (some k)).Inv := by
  have hk := hs.slot k
  set s' := (s.setInode k
    { s.inode k with ino := i, ref := 1, busy := false, valid := false }).setPtr h (some k)
  have hent : s'.inode k =
      { s.inode k with ino := i, ref := 1, busy := false, valid := false } :=
    update_self ..
  have hinode : ∀ j, j ≠ k → s'.inode j = s.inode j := fun j hj => update_of_ne hj ..
  have hptr : ∀ g, g ≠ h → s'.ptr g = s.ptr g := fun g hg => update_of_ne hg ..
  have hno : ∀ q g, ¬s'.Locks q g k := by
    rintro q g ⟨hq, hg⟩
    rcases eq_or_ne g h with rfl | hgh
    · exact absurd hq (by simp [s', setPtr, setInode, hs.not_locked hh q])
    · exact hfree ⟨g, (hptr g hgh).symm.trans hg⟩
  have hbusy : (s.inode k).busy = false := by
    by_contra hb
    obtain ⟨q, g, hl⟩ := hk.locker (by simpa using hb)
    exact hfree ⟨g, hl.2⟩
  have hsame : ∀ j, j ≠ k → Same s s' j := fun j hj => (same_setInode hj _).trans
    (same_setPtr (by simp [setInode, hh]) (by simpa using hj.symm))
  refine hs.at_slot (k := k) ⟨?_, fun q g hg => absurd hg (hno q g), ?_,
    fun q g _ _ hg _ => absurd hg (hno q g), ?_, fun q g hg => absurd hg (hno q g), ?_, ?_, ?_⟩
    hsame ?_ ?_ ?_
  · have hr := refs_update_some (k := k) hh
    have h0 : refs s.ptr k = 0 := Nat.eq_zero_of_not_pos (mt refs_pos.1 hfree)
    rw [hent]
    change (1 : ℤ) = (refs (Function.update s.ptr h (some k)) k : ℤ)
    omega
  · simp [hent]
  · intro hd
    exact absurd ((hk.clean hbusy).symm.trans hd) (by simp)
  · intro _ _
    rw [dino, hent]
    exact ht
  · simp [hent]
  · intro q hq
    -- no process is at an entry that nothing refers to
    obtain ⟨g, -, hg, -⟩ := hs.via (show slot? (s.pc q) = some k from hq)
    exact absurd ⟨g, hg⟩ hfree
  · intro _ j _ hcj
    rw [hent]
    exact hnew j hcj
  · intro q g hq
    obtain ⟨j, hj⟩ := hs.ptr q g hq
    exact ⟨j, by rw [hptr g (by rintro rfl; simp [hh] at hj), hj]⟩
  · refine hs.marked.of_step rfl (fun q i hq => hq) fun q i' j hq hcj hi => ?_
    have hjk : j ≠ k := by
      rintro rfl
      rw [hent] at hi
      exact hmark q (hq.trans (congrArg _ hi.symm))
    rw [hinode j hjk] at hi
    exact ⟨(hsame j hjk).cited.1 hcj, hi, refs_congr (hsame j hjk).ptr, fun _ _ hr => hr⟩

end Refs

/-! ### `ialloc` -/

section Ialloc

variable [DecidableEq P] {p : P}

/-- A process leaves `ialloc` with the inode it has marked. -/
lemma Inv.unmark (hs : s.Inv) {i : Ino} (hp : s.pc p = .marked i) : (s.goto p .idle).Inv := by
  refine hs.of_quiet fun q => ?_
  rcases eq_or_ne q p with rfl | hq
  · refine .inr ?_
    rw [update_self]
    refine ⟨by simp [hp], by simp, trivial, by simp, fun h k hl hv => ?_⟩
    have := (hs.slot k).valid q h hl hv
    simp [hp] at this
  · exact .inl (update_of_ne hq ..)

/-- **`ialloc` marks a free inode**, which a process at the end of `iput` may still refer to. -/
lemma Inv.mark (hs : s.Inv) {dev inum : UInt32} {type : FileType}
    (hp : s.pc p = .ialloc dev type inum) (h0 : (s.disk ⟨dev, inum⟩).type = 0) :
    ((s.setDisk ⟨dev, inum⟩ { Dinode.zero with type := type.1 }).goto p (.marked ⟨dev, inum⟩)).Inv := by
  set i : Ino := ⟨dev, inum⟩
  set s' := (s.setDisk i { Dinode.zero with type := type.1 }).goto p (.marked i)
  have hdisk : s'.disk i = { Dinode.zero with type := type.1 } := update_self ..
  have hdisk' : ∀ i', i' ≠ i → s'.disk i' = s.disk i' := fun i' hi => update_of_ne hi ..
  have hpc : ∀ q, q ≠ p → s'.pc q = s.pc q := fun q hq => update_of_ne hq ..
  have hpcp : s'.pc p = .marked i := update_self ..
  have hput : ∀ q g k c, s.pc q = .iput g k c → s'.pc q = .iput g k c := by
    intro q g k c hq
    rw [hpc q (by rintro rfl; simp [hp] at hq), hq]
  -- an entry that caches the inode is at the end of its `iput`
  have hdone : ∀ k, s.Cited k → (s.inode k).ino = i →
      refs s.ptr k = 1 ∧ ∃ q g, s.pc q = .iput g k .done := by
    intro k hc hi
    have hT : (s.dino k).type = 0 := by rw [dino, hi, h0]
    by_cases hf : s.Freeing k
    · obtain ⟨q, g, c, hq⟩ := hf
      obtain ⟨-, -, -, -, -, -, hfo⟩ := hs.pcOk hq
      cases c with
      | trunc | shrunk | typed | cleared => exact absurd hT hfo.2.2
      | done => exact ⟨hfo hT, q, g, hq⟩
    · exact absurd hT ((hs.slot k).alloc hc hf)
  have hsame : ∀ k, (s.Cited k → (s.inode k).ino ≠ i) → Same s s' k := fun k hk =>
    (same_setDisk hk _).trans (same_goto (by simp [setDisk, hp, slot?]) (by simp [slot?]))
  refine ⟨fun k => ?_, hs.unique, hs.ptr, ?_⟩
  · have hk := hs.slot k
    by_cases hci : s.Cited k ∧ (s.inode k).ino = i
    · obtain ⟨hc, hi⟩ := hci
      obtain ⟨h1, r, g, hr⟩ := hdone k hc hi
      have hfree : s'.Freeing k := ⟨r, g, _, hput r g k _ hr⟩
      have hdino : s'.dino k = { Dinode.zero with type := type.1 } := by
        rw [← hdisk, ← hi]
        rfl
      refine ⟨hk.ref, hk.busy, hk.locker, hk.excl, hk.dirty, fun q g' hl hv => ?_,
        fun _ hf => absurd hfree hf, fun _ _ hf => absurd hfree hf, fun q hq => ?_⟩
      · have hold := hk.valid q g' hl hv
        rwa [hpc q (by rintro rfl; simp [hp] at hold)]
      · have hqp : q ≠ p := by
          rintro rfl
          simp [hpcp, slot?] at hq
        rw [hpc q hqp] at hq ⊢
        rcases eq_or_ne q r with rfl | hqr
        · rw [hr]
          obtain ⟨hl, hd, hv, hn, -, hno, -⟩ := hs.pcOk hr
          refine ⟨hl, hd, hv, hn, by rw [hdino]; rfl, fun q' c' e => ?_, fun h0' => ?_⟩
          · rw [hpc q' (by rintro rfl; simp [hpcp] at e)] at e
            exact hno q' c' e
          · rw [hdino] at h0'
            exact absurd h0' type.2
        · have hl := (hs.pcOk hr).1
          obtain ⟨g', hg', e | e⟩ := hs.waits (fun g' hg => hqr (hk.excl _ _ _ _ hg hl).1) hq <;>
            rw [e] <;> exact hg'
    · exact hk.frame (hsame k fun hc hi => hci ⟨hc, hi⟩)
  · intro q i' hq
    rcases eq_or_ne q p with rfl | hqp
    · obtain rfl : i = i' := by simpa [hpcp] using hq
      rw [hdisk]
      refine ⟨type.2, rfl, fun r hr => ?_, fun k hc hi => ?_⟩
      · by_contra hrq
        rw [hpc r hrq] at hr
        exact (hs.marked r i hr).1 h0
      · obtain ⟨h1, r, g, hr⟩ := hdone k hc hi
        exact ⟨h1, r, g, hput r g k _ hr⟩
    · rw [hpc q hqp] at hq
      obtain ⟨hT, hn, hone, hall⟩ := hs.marked q i' hq
      have hne : i' ≠ i := by
        rintro rfl
        exact hT h0
      rw [hdisk' i' hne]
      refine ⟨hT, hn, fun r hr => ?_, fun k hc hi => ?_⟩
      · rw [hpc r (by rintro rfl; exact hne (by simpa [hpcp] using hr.symm))] at hr
        exact hone r hr
      · obtain ⟨h1, r, g, hr⟩ := hall k hc hi
        exact ⟨h1, r, g, hput r g k _ hr⟩

end Ialloc

end IcSys

end Col331
