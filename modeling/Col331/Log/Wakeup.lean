import Col331.Log.Waiting
import Col331.Logic.Lock

/-!
A process that waits for log space is not forgotten.

* `WaitPc.locked`, `WaitPc.counted` and the rest: what a process holds and what it is going to do, by
  where it is.
* `LockInv`: who holds the locks.
* `OpsInv`: `outstanding` counts the operations, and the log is empty when there is neither an operation
  nor a commit.
* `Pend`: whoever sleeps has reason to, or is about to be woken.
* `log_wait`: **a process that sleeps while `log.lock` is free has somebody who will wake it.**
-/

namespace Col331

open Function

namespace WaitPc

/-- The process holds `log.lock`. -/
def locked : WaitPc → Bool
  | .test | .sleepLock | .sleepRelease | .entered | .writeRelease | .endWake | .endRelease _
  | .doneWake | .doneRelease => true
  | _ => false

/-- The process holds `ptable.lock`. -/
def ptlocked : WaitPc → Bool
  | .sleepRelease | .sleepSet => true
  | _ => false

/-- The process is counted in `outstanding`. -/
def counted : WaitPc → Bool
  | .entered | .inOp | .writeAcquire .. | .writeRelease | .endAcquire => true
  | _ => false

/-- The process has set `committing`. -/
def commits : WaitPc → Bool
  | .endRelease true | .commit _ => true
  | _ => false

/-- The process is about to call `wakeup(&log)`. -/
def wakes : WaitPc → Bool
  | .endWake | .doneWake => true
  | _ => false

/-- The process is going to sleep without a further look. -/
def bound : WaitPc → Bool
  | .sleepLock | .sleepRelease | .sleepSet => true
  | _ => false

/-- The commit has emptied the log. -/
def emptied : WaitPc → Bool
  | .commit .eraseHead | .commit .done => true
  | _ => false

end WaitPc

/-- `begin_op` has to wait, and not for nothing. -/
def Log.Blocked (l : Log) : Prop :=
  l.committing = true ∨ (l.mem.lh.n + (l.outstanding + 1) * maxOpBlocks > logSize ∧ 1 ≤ l.outstanding)

namespace LogWait

variable {P : Type} {s t : LogWait P} {p : P} {c : WaitPc} {S S' : Finset P}

/-! ### The locks -/

/-- Who holds the locks, and who sleeps. -/
structure LockInv (s : LogWait P) : Prop where
  lock : ∀ p, (s.pc p).locked = true ↔ s.lock = some p
  ptlock : ∀ p, (s.pc p).ptlocked = true ↔ s.ptlock = some p
  asleep : ∀ p, s.sleeping p = true → s.pc p = .asleep

/-! ### The operations -/

/-- The operations are those of the processes in `S`. -/
structure OpsInv (s : LogWait P) (S : Finset P) : Prop where
  mem : ∀ p, p ∈ S ↔ (s.pc p).counted = true
  count : s.log.outstanding = S.card
  committing : s.log.committing = true → S = ∅ ∧ ∃ p, (s.pc p).commits = true
  commits : ∀ p, (s.pc p).commits = true → s.log.committing = true
  unique : ∀ p q, (s.pc p).commits = true → (s.pc q).commits = true → p = q
  nonneg : 0 ≤ s.log.mem.lh.n
  emptied : ∀ p, (s.pc p).emptied = true → s.log.mem.lh.n = 0
  empty : S = ∅ → s.log.committing = false → s.log.mem.lh.n = 0

/-! ### Who waits -/

/-- The process sleeps, or is going to without a further look. -/
def Waits (s : LogWait P) (p : P) : Prop := s.sleeping p = true ∨ (s.pc p).bound = true

/-- If somebody waits, it has reason to, or is about to be woken. -/
def Pend (s : LogWait P) : Prop := ∀ p, s.Waits p → Log.Blocked s.log ∨ ∃ q, (s.pc q).wakes = true

variable [DecidableEq P]

/-- A process moves: what has to be shown of it. -/
lemma LockInv.move (h : s.LockInv) (hpc : t.pc = update s.pc p c)
    (hlock : ∀ q, q ≠ p → (t.lock = some q ↔ s.lock = some q)) (hlock' : c.locked = true ↔ t.lock = some p)
    (hpt : ∀ q, q ≠ p → (t.ptlock = some q ↔ s.ptlock = some q))
    (hpt' : c.ptlocked = true ↔ t.ptlock = some p)
    (hsl : ∀ q, q ≠ p → t.sleeping q = true → s.sleeping q = true)
    (hsl' : t.sleeping p = true → c = .asleep) : t.LockInv := by
  constructor <;> rw [hpc]
  · exact Held.move (l := WaitPc.locked) h.lock hlock' hlock
  · exact Held.move (l := WaitPc.ptlocked) h.ptlock hpt' hpt
  · exact (forall_update_iff _ fun q x => t.sleeping q = true → x = WaitPc.asleep).mpr
      ⟨hsl', fun q hq => h.asleep q ∘ hsl q hq⟩

section Locks

variable (h : s.LockInv) (hpc : t.pc = update s.pc p c) (hsleep : t.sleeping = s.sleeping)
  (hasleep : s.pc p ≠ .asleep)

include h hpc hsleep hasleep

/-- The process holds `ptable.lock` if it did before. -/
lemma LockInv.pass (hlock : ∀ q, q ≠ p → (t.lock = some q ↔ s.lock = some q))
    (hl : c.locked = true ↔ t.lock = some p) (hpt : t.ptlock = s.ptlock)
    (hp : c.ptlocked = (s.pc p).ptlocked) : t.LockInv := by
  refine h.move hpc hlock hl (fun _ _ => by rw [hpt]) ?_ (fun _ _ hq => by rwa [hsleep] at hq) fun hp => ?_
  · rw [hp, hpt]
    exact h.ptlock p
  · rw [hsleep] at hp
    exact absurd (h.asleep p hp) hasleep

/-- The process keeps the locks it holds. -/
lemma LockInv.goto (hlock : t.lock = s.lock) (hpt : t.ptlock = s.ptlock)
    (hl : c.locked = (s.pc p).locked) (hp : c.ptlocked = (s.pc p).ptlocked) : t.LockInv := by
  refine h.pass hpc hsleep hasleep (fun _ _ => by rw [hlock]) ?_ hpt hp
  rw [hl, hlock]
  exact h.lock p

/-- The process acquires `log.lock`. -/
lemma LockInv.enter (hfree : s.lock = none) (hlock : t.lock = some p) (hpt : t.ptlock = s.ptlock)
    (hl : c.locked = true) (hp : c.ptlocked = (s.pc p).ptlocked) : t.LockInv :=
  h.pass hpc hsleep hasleep (fun q hq => by simp [hlock, hfree, Ne.symm hq]) (by simp [hl, hlock]) hpt hp

/-- The process releases `log.lock`. -/
lemma LockInv.leave (hlocked : (s.pc p).locked = true) (hlock : t.lock = none)
    (hpt : t.ptlock = s.ptlock) (hl : c.locked = false) (hp : c.ptlocked = (s.pc p).ptlocked) :
    t.LockInv :=
  have hown := (h.lock p).mp hlocked
  h.pass hpc hsleep hasleep (fun q hq => by simp [hlock, hown, Ne.symm hq]) (by simp [hl, hlock]) hpt hp

end Locks

/-- The process wakes everybody. -/
lemma LockInv.wake (h : s.LockInv) (hl : c.locked = (s.pc p).locked)
    (hp : c.ptlocked = (s.pc p).ptlocked) : (s.wake p c).LockInv := by
  rw [LogWait.wake]
  split_ifs
  · refine h.move rfl (fun _ _ => Iff.rfl) ?_ (fun _ _ => Iff.rfl) ?_
      nofun nofun
    · rw [hl]
      exact h.lock p
    · rw [hp]
      exact h.ptlock p
  · exact h

/-- **Every step of a process keeps the locks in order.** -/
lemma LockInv.run (h : s.LockInv) (hrun : s.run p = .ok t) : t.LockInv := by
  have henter : ∀ {l : Log} {c : WaitPc}, s.pc p ≠ .asleep → c.locked = true →
      c.ptlocked = (s.pc p).ptlocked → (s.enter p l c).LockInv := by
    intro l c hne hl hp
    rw [LogWait.enter]
    split_ifs with hfree
    · exact h.enter rfl rfl hne hfree rfl rfl hl hp
    · exact h
  cases hp : s.pc p
  all_goals
    rw [LogWait.run, hp] at hrun
    rw [hp] at henter
  case idle | inOp => exact Except.ok.inj hrun ▸ h
  case acquire | writeAcquire => exact Except.ok.inj hrun ▸ henter (by simp) rfl rfl
  case test =>
    cases hl : s.log.beginOp with
    | none | some l =>
      rw [hl] at hrun
      exact Except.ok.inj hrun ▸ h.goto rfl rfl (by simp [hp]) rfl rfl (by rw [hp]; rfl) (by rw [hp]; rfl)
  case sleepLock =>
    cases hrun
    split_ifs with hfree
    · have hown := (h.lock p).mp (by rw [hp]; rfl)
      refine h.move rfl (fun _ _ => Iff.rfl) (by simp [hown, WaitPc.locked])
        (fun q hq => by simp [hfree, Ne.symm hq]) (by simp [WaitPc.ptlocked])
        (fun _ _ hq => hq) fun hs => ?_
      have := h.asleep p hs
      simp [hp] at this
    · exact h
  case sleepRelease | entered | writeRelease | doneRelease =>
    exact Except.ok.inj hrun ▸ h.leave rfl rfl (by simp [hp]) (by rw [hp]; rfl) rfl rfl rfl (by rw [hp]; rfl)
  case sleepSet =>
    cases hrun
    have hown := (h.ptlock p).mp (by rw [hp]; rfl)
    have hno : s.lock ≠ some p := fun hl => by simpa [hp, WaitPc.locked] using (h.lock p).mpr hl
    refine h.move rfl (fun _ _ => Iff.rfl) (by simp [WaitPc.locked, hno])
      (fun q hq => by simp [hown, Ne.symm hq]) (by simp [WaitPc.ptlocked])
      (fun q hq hs => ?_) fun _ => rfl
    simpa [hq] using hs
  case asleep =>
    cases hrun
    split_ifs with hwoken
    · have hno : s.lock ≠ some p := fun hl => by simpa [hp, WaitPc.locked] using (h.lock p).mpr hl
      refine h.move rfl (fun _ _ => Iff.rfl) (by simp [WaitPc.locked, hno])
        (fun _ _ => Iff.rfl) (by simp [WaitPc.ptlocked, hwoken.2]) (fun _ _ hs => hs) fun hs => ?_
      simp [hwoken.1] at hs
    · exact h
  case endAcquire =>
    dsimp only at hrun
    split_ifs at hrun
    · cases hl : s.log.endOp with
      | error e => simp [hl] at hrun
      | ok r =>
        rw [hl] at hrun
        refine Except.ok.inj hrun ▸ henter (by simp) ?_ ?_
        all_goals split_ifs <;> rfl
    · exact Except.ok.inj hrun ▸ h
  case endWake | doneWake =>
    exact Except.ok.inj hrun ▸ h.wake (by rw [hp]; rfl) (by rw [hp]; rfl)
  case endRelease doCommit =>
    refine Except.ok.inj hrun ▸ h.leave rfl rfl (by simp [hp]) (by rw [hp]; rfl) rfl rfl ?_ ?_
    all_goals
      try rw [hp]
      cases doCommit <;> rfl
  case commit c =>
    cases c
    case done => exact Except.ok.inj hrun ▸ henter (by simp) rfl rfl
    all_goals
      exact Except.ok.inj hrun ▸ h.goto rfl rfl (by simp [hp]) rfl rfl (by rw [hp]; rfl) (by rw [hp]; rfl)

/-! ### The operations -/

/-- **The log is left alone**, and the process stays in the same part of its call. -/
lemma OpsInv.stay (h : s.OpsInv S) (hpc : t.pc = update s.pc p c) (hlog : t.log = s.log)
    (hcounted : c.counted = (s.pc p).counted) (hcommits : c.commits = (s.pc p).commits)
    (hemptied : c.emptied = (s.pc p).emptied) : t.OpsInv S := by
  have hsame : ∀ (f : WaitPc → Bool), f c = f (s.pc p) → ∀ q, f (t.pc q) = f (s.pc q) := by
    intro f hf q
    rw [hpc]
    by_cases hq : q = p
    · rw [hq, update_self, hf]
    · rw [update_of_ne hq]
  have h1 := hsame WaitPc.counted hcounted
  have h2 := hsame WaitPc.commits hcommits
  have h3 := hsame WaitPc.emptied hemptied
  obtain ⟨mem, count, committing, commits, unique, nonneg, emptied, empty⟩ := h
  refine ⟨?_, ?_, ?_, ?_, ?_, ?_, ?_, ?_⟩
  all_goals
    simp only [h1, h2, h3, hlog]
    assumption

omit [DecidableEq P] in
lemma OpsInv.not_commits (h : s.OpsInv S) (hc : s.log.committing = false) (q : P) :
    (s.pc q).commits = false := by
  by_contra hq
  rw [Bool.not_eq_false] at hq
  rw [h.commits q hq] at hc
  exact Bool.false_ne_true hc.symm

omit [DecidableEq P] in
/-- There is no commit while there is an operation. -/
lemma OpsInv.not_committing (h : s.OpsInv S) (hp : (s.pc p).counted = true) :
    p ∈ S ∧ s.log.committing = false := by
  have hmem := (h.mem p).mpr hp
  refine ⟨hmem, ?_⟩
  by_contra hc
  rw [Bool.not_eq_false] at hc
  rw [(h.committing hc).1] at hmem
  exact absurd hmem (Finset.notMem_empty p)

lemma WaitPc.commits_of_emptied {c : WaitPc} (h : c.emptied = true) : c.commits = true := by
  cases c with
  | commit => rfl
  | _ => exact nomatch h

/-- What holds of the processes after `p` has moved. -/
lemma forall_update {Q : P → WaitPc → Prop} (hp : Q p c) (hq : ∀ q, q ≠ p → Q q (s.pc q)) (q : P) :
    Q q (update s.pc p c q) := (forall_update_iff s.pc Q).mpr ⟨hp, hq⟩ q

section

variable (h : s.OpsInv S)

include h

/-- **The process changes the log where no commit is going on**, before or after. -/
lemma OpsInv.change (hc : s.log.committing = false)
    (hpc : t.pc = update s.pc p c) (hmem : p ∈ S' ↔ c.counted = true)
    (hS : ∀ q, q ≠ p → (q ∈ S' ↔ q ∈ S)) (hcount : t.log.outstanding = S'.card)
    (hcommits : c.commits = false) (hc' : t.log.committing = false) (hn : 0 ≤ t.log.mem.lh.n)
    (hempty : S' = ∅ → t.log.mem.lh.n = 0) : t.OpsInv S' := by
  have hnone : ∀ q, (t.pc q).commits = false := by
    rw [hpc]
    exact forall_update (Q := fun _ x => x.commits = false) hcommits fun q _ => h.not_commits hc q
  refine ⟨?_, hcount, fun h' => absurd (hc'.symm.trans h') Bool.false_ne_true, fun q hq => ?_,
    fun q _ hq => ?_, hn, fun q hq => ?_, fun hS _ => hempty hS⟩
  · rw [hpc]
    refine forall_update (Q := fun q x => q ∈ S' ↔ x.counted = true) hmem fun q hq => ?_
    rw [hS q hq]
    exact h.mem q
  · simp [hnone] at hq
  · simp [hnone] at hq
  · exact absurd ((hnone q).symm.trans (WaitPc.commits_of_emptied hq)) Bool.false_ne_true

/-- `begin_op` admits the operation. -/
lemma OpsInv.begin (hp : s.pc p = .test) {l : Log} (hl : s.log.beginOp = some l) :
    ({ s with log := l }.goto p .entered).OpsInv (insert p S) := by
  rw [Log.beginOp] at hl
  split_ifs at hl with hc hfull
  rw [Option.some.injEq] at hl
  subst hl
  rw [Bool.not_eq_true] at hc
  have hnot : p ∉ S := by
    rw [h.mem, hp]
    exact Bool.false_ne_true
  refine h.change hc rfl (iff_of_true (Finset.mem_insert_self p S) rfl) (fun q hq => by simp [hq]) ?_ rfl
    hc h.nonneg fun hS => absurd hS (Finset.insert_ne_empty p S)
  change s.log.outstanding + 1 = _
  rw [Finset.card_insert_of_notMem hnot, h.count]
  rfl

/-- `log_write` records a block. -/
lemma OpsInv.record {b : UInt32} {data : Block} (hp : s.pc p = .writeAcquire b data)
    (hpc : t.pc = update s.pc p .writeRelease) (hlog : t.log = s.log.record b data) :
    t.OpsInv S := by
  obtain ⟨hmem, hc⟩ := h.not_committing (p := p) (by rw [hp]; rfl)
  have hn := h.nonneg
  refine h.change hc hpc (iff_of_true hmem rfl) (fun _ _ => Iff.rfl) (by rw [hlog]; exact h.count)
    rfl (by rw [hlog]; exact hc) ?_ fun hS => absurd (hS ▸ hmem) (Finset.notMem_empty p)
  rw [hlog]
  change 0 ≤ (s.log.mem.lh.record b).n
  rw [LogHeader.record]
  dsimp only
  split_ifs <;> omega

/-- `end_op`, with the number of operations left. -/
lemma OpsInv.endOp (hp : s.pc p = .endAcquire) {l : Log} {doCommit : Bool}
    (hl : s.log.endOp = .ok (doCommit, l))
    (hpc : t.pc = update s.pc p (if doCommit then .endRelease true else .endWake))
    (hlog : t.log = l) : t.OpsInv (S.erase p) := by
  obtain ⟨hmem, hc⟩ := h.not_committing (p := p) (by rw [hp]; rfl)
  have hcard : ((S.erase p).card : ℤ) = S.card - 1 := by
    have := Finset.card_pos.mpr ⟨p, hmem⟩
    rw [Finset.card_erase_of_mem hmem]
    omega
  have hcount := h.count
  rw [Log.endOp, if_neg (by simp [hc])] at hl
  split_ifs at hl with h0
  · rw [Except.ok.injEq, Prod.mk.injEq] at hl
    obtain ⟨rfl, rfl⟩ := hl
    have hS : S.erase p = ∅ := Finset.card_eq_zero.mp (by omega)
    rw [if_pos rfl] at hpc
    have hcommits : ∀ q, (t.pc q).commits = true ↔ q = p := by
      rw [hpc]
      refine forall_update (Q := fun q x => x.commits = true ↔ q = p) (by simp [WaitPc.commits])
        fun q hq => ?_
      simp [h.not_commits hc q, hq]
    have hcounted : ∀ q, (t.pc q).counted = false := by
      rw [hpc]
      refine forall_update (Q := fun _ x => x.counted = false) rfl fun q hq => ?_
      have hno : q ∉ S := fun hqS => by
        have hq' := Finset.mem_erase.mpr ⟨hq, hqS⟩
        rw [hS] at hq'
        exact absurd hq' (Finset.notMem_empty q)
      rw [h.mem q] at hno
      simpa using hno
    refine ⟨fun q => ?_, ?_, fun _ => ⟨hS, p, (hcommits p).mpr rfl⟩, fun _ _ => by rw [hlog],
      fun q r hq hr => ((hcommits q).mp hq).trans ((hcommits r).mp hr).symm, by rw [hlog]; exact h.nonneg,
      fun q hq => ?_, fun _ hc' => ?_⟩
    · simp [hS, hcounted q]
    · rw [hlog, hcard, ← hcount]
    · obtain rfl := (hcommits q).mp (WaitPc.commits_of_emptied hq)
      rw [hpc, update_self] at hq
      cases hq
    · rw [hlog] at hc'
      exact absurd hc'.symm Bool.false_ne_true
  · rw [Except.ok.injEq, Prod.mk.injEq] at hl
    obtain ⟨rfl, rfl⟩ := hl
    refine h.change hc hpc (iff_of_false (Finset.notMem_erase p S) Bool.false_ne_true)
      (fun q hq => by simp [hq]) ?_ rfl
      (by rw [hlog]; exact hc) (by rw [hlog]; exact h.nonneg) fun hS => ?_
    · rw [hlog, hcard, ← hcount]
    · rw [hS, Finset.card_empty] at hcard
      omega

/-- A step of `commit`. -/
lemma OpsInv.commit {d : CommitPc} (hp : s.pc p = .commit d) (hd : d ≠ .done)
    (hpc : t.pc = update s.pc p (.commit (commitStep s.log.mem d).2))
    (hlog : t.log = { s.log with mem := (commitStep s.log.mem d).1 }) : t.OpsInv S := by
  have hcp : (s.pc p).commits = true := by rw [hp]; rfl
  have hc := h.commits p hcp
  obtain ⟨hS, -⟩ := h.committing hc
  have hn := h.nonneg
  have hemp := h.emptied p
  rw [hp] at hemp
  have hn' : (commitStep s.log.mem d).1.lh.n = s.log.mem.lh.n ∨ (commitStep s.log.mem d).1.lh.n = 0 := by
    cases d with
    | start | writeLog tail | install tail =>
      rw [commitStep]
      split_ifs <;> exact .inl rfl
    | clear => exact .inr rfl
    | writeHead | eraseHead | done => exact .inl rfl
  have hcleared : (WaitPc.commit (commitStep s.log.mem d).2).emptied = true →
      (commitStep s.log.mem d).1.lh.n = 0 := by
    cases d with
    | start =>
      rw [commitStep]
      split_ifs with hpos
      · rintro ⟨⟩
      · intro _
        dsimp only
        omega
    | writeLog tail | install tail =>
      rw [commitStep]
      split_ifs <;> rintro ⟨⟩
    | writeHead => rintro ⟨⟩
    | clear => exact fun _ => rfl
    | eraseHead => exact fun _ => hemp rfl
    | done => exact absurd rfl hd
  have hcommits : ∀ q, (t.pc q).commits = true ↔ q = p := by
    rw [hpc]
    refine forall_update (Q := fun q x => x.commits = true ↔ q = p) (by simp [WaitPc.commits])
      fun q hq => ⟨fun hq' => h.unique q p hq' hcp, fun hqp => absurd hqp hq⟩
  refine ⟨?_, by rw [hlog]; exact h.count, fun _ => ⟨hS, p, (hcommits p).mpr rfl⟩,
    fun _ _ => by rw [hlog]; exact hc,
    fun q r hq hr => ((hcommits q).mp hq).trans ((hcommits r).mp hr).symm, ?_, fun q hq => ?_,
    fun _ hc' => ?_⟩
  · rw [hpc]
    refine forall_update (Q := fun q x => q ∈ S ↔ x.counted = true) ?_ fun q _ => h.mem q
    rw [hS]
    exact iff_of_false (Finset.notMem_empty p) Bool.false_ne_true
  · rw [hlog]
    dsimp only
    omega
  · obtain rfl := (hcommits q).mp (WaitPc.commits_of_emptied hq)
    rw [hpc, update_self] at hq
    rw [hlog]
    exact hcleared hq
  · rw [hlog] at hc'
    exact absurd (hc.symm.trans hc').symm Bool.false_ne_true

/-- The commit is over. -/
lemma OpsInv.done (hp : s.pc p = .commit .done)
    (hpc : t.pc = update s.pc p .doneWake)
    (hlog : t.log = { s.log with committing := false }) : t.OpsInv S := by
  have hcp : (s.pc p).commits = true := by rw [hp]; rfl
  obtain ⟨hS, -⟩ := h.committing (h.commits p hcp)
  have hn : s.log.mem.lh.n = 0 := h.emptied p (by rw [hp]; rfl)
  have hnone : ∀ q, (t.pc q).commits = false := by
    rw [hpc]
    refine forall_update (Q := fun _ x => x.commits = false) rfl fun q hq => ?_
    by_contra hq'
    exact hq (h.unique q p (by simpa using hq') hcp)
  refine ⟨?_, by rw [hlog]; exact h.count, fun hc => ?_, fun q hq => ?_, fun q _ hq => ?_,
    by rw [hlog]; exact h.nonneg, fun _ _ => by rw [hlog]; exact hn, fun _ _ => by rw [hlog]; exact hn⟩
  · rw [hpc]
    refine forall_update (Q := fun q x => q ∈ S ↔ x.counted = true) ?_ fun q _ => h.mem q
    rw [hS]
    exact iff_of_false (Finset.notMem_empty p) Bool.false_ne_true
  · rw [hlog] at hc
    exact nomatch hc
  · simp [hnone] at hq
  · simp [hnone] at hq

/-- **Every step of a process keeps the count.** -/
lemma OpsInv.run (hrun : s.run p = .ok t) : ∃ S', t.OpsInv S' := by
  have hstay : ∀ {u : LogWait P} {c : WaitPc}, u.pc = update s.pc p c → u.log = s.log →
      c.counted = (s.pc p).counted → c.commits = (s.pc p).commits → c.emptied = (s.pc p).emptied →
      ∃ S', u.OpsInv S' := fun hpc hlog h1 h2 h3 => ⟨S, h.stay hpc hlog h1 h2 h3⟩
  have hsame : ∃ S', s.OpsInv S' := ⟨S, h⟩
  cases hp : s.pc p
  all_goals
    rw [LogWait.run, hp] at hrun
    rw [hp] at hstay
    dsimp only at hrun
  case idle | inOp => exact Except.ok.inj hrun ▸ hsame
  case acquire =>
    cases hrun
    rw [LogWait.enter]
    split_ifs
    · exact hstay rfl rfl rfl rfl rfl
    · exact hsame
  case test =>
    cases hl : s.log.beginOp with
    | none =>
      rw [hl] at hrun
      exact Except.ok.inj hrun ▸ hstay rfl rfl rfl rfl rfl
    | some l =>
      rw [hl] at hrun
      exact Except.ok.inj hrun ▸ ⟨_, h.begin hp hl⟩
  case sleepLock | asleep =>
    cases hrun
    split_ifs
    · exact hstay rfl rfl rfl rfl rfl
    · exact hsame
  case sleepRelease | sleepSet | entered | writeRelease | doneRelease =>
    exact Except.ok.inj hrun ▸ hstay rfl rfl rfl rfl rfl
  case writeAcquire b data =>
    cases hrun
    rw [LogWait.enter]
    split_ifs
    · exact ⟨S, h.record hp rfl rfl⟩
    · exact hsame
  case endAcquire =>
    split_ifs at hrun with hfree
    · cases hl : s.log.endOp with
      | error e => simp [hl] at hrun
      | ok r =>
        rw [hl] at hrun
        cases hrun
        rw [LogWait.enter, if_pos hfree]
        exact ⟨_, h.endOp hp hl rfl rfl⟩
    · exact Except.ok.inj hrun ▸ hsame
  case endWake | doneWake =>
    cases hrun
    rw [LogWait.wake]
    split_ifs
    · exact hstay rfl rfl rfl rfl rfl
    · exact hsame
  case endRelease doCommit =>
    cases doCommit <;> exact Except.ok.inj hrun ▸ hstay rfl rfl rfl rfl rfl
  case commit d =>
    cases d
    case done =>
      cases hrun
      rw [LogWait.enter]
      split_ifs
      · exact ⟨S, h.done hp rfl rfl⟩
      · exact hsame
    all_goals exact Except.ok.inj hrun ▸ ⟨S, h.commit hp (by simp) rfl rfl⟩

end

/-! ### Who waits -/

omit [DecidableEq P] in
/-- `begin_op` waits with reason: the log is empty when there is neither an operation nor a commit. -/
lemma OpsInv.blocked (h : s.OpsInv S) (hl : s.log.beginOp = none) : Log.Blocked s.log := by
  rw [Log.beginOp] at hl
  split_ifs at hl with hc hfull
  · exact .inl hc
  · refine .inr ⟨hfull, ?_⟩
    by_contra hout
    have hcount := h.count
    have hS : S = ∅ := Finset.card_eq_zero.mp (by omega)
    rw [h.empty hS (by simpa using hc), hcount, hS] at hfull
    simp [maxOpBlocks, logSize] at hfull

/-- **Nobody new waits, and whoever had reason to still has.** -/
lemma Pend.goto (h : s.Pend) (hpc : t.pc = update s.pc p c)
    (hw : ∀ q, t.sleeping q = true → s.Waits q) (hb : c.bound = true → s.Waits p)
    (hwakes : (s.pc p).wakes = false) (hlog : Log.Blocked s.log → Log.Blocked t.log) : t.Pend := by
  intro q hq
  have hwait : s.Waits q := by
    rcases hq with hq | hq
    · exact hw q hq
    · rw [hpc] at hq
      by_cases hqp : q = p
      · rw [hqp, update_self] at hq
        exact hqp ▸ hb hq
      · rw [update_of_ne hqp] at hq
        exact .inr hq
  refine (h q hwait).imp hlog ?_
  rintro ⟨r, hr⟩
  refine ⟨r, ?_⟩
  rw [hpc, update_of_ne]
  · exact hr
  · rintro rfl
    exact Bool.false_ne_true (hwakes.symm.trans hr)

/-- After `wakeup(&log)` nobody waits: a process that is going to sleep holds one of the locks. -/
lemma LockInv.not_waits (h : s.LockInv) (hp : (s.pc p).locked = true) (hpt : s.ptlock = none)
    (hc : c.bound = false) (q : P) : ¬ (s.wakeup.goto p c).Waits q := by
  rintro (hq | hq)
  · exact nomatch hq
  · change (update s.pc p c q).bound = true at hq
    by_cases hqp : q = p
    · rw [hqp, update_self, hc] at hq
      exact nomatch hq
    · rw [update_of_ne hqp] at hq
      have hl : (s.pc q).locked = false := by
        by_contra hl
        have := (h.lock q).mp (by simpa using hl)
        rw [(h.lock p).mp hp, Option.some.injEq] at this
        exact hqp this.symm
      have hpl : (s.pc q).ptlocked = false := by
        by_contra hpl
        have := (h.ptlock q).mp (by simpa using hpl)
        simp [hpt] at this
      revert hq hl hpl
      cases s.pc q <;> simp [WaitPc.bound, WaitPc.locked, WaitPc.ptlocked]

/-- **Every step of a process keeps those who wait from being forgotten.** -/
lemma Pend.run (h : s.Pend) (hlock : s.LockInv) (hops : s.OpsInv S) (hrun : s.run p = .ok t) :
    t.Pend := by
  have hgoto : ∀ {u : LogWait P} {c : WaitPc}, u.pc = update s.pc p c →
      u.sleeping = s.sleeping → (c.bound = true → (s.pc p).bound = true) → (s.pc p).wakes = false →
      (Log.Blocked s.log → Log.Blocked u.log) → u.Pend := fun hpc hs hb hw hlog =>
    h.goto hpc (fun q hq => .inl (by rwa [hs] at hq)) (fun hc => .inr (hb hc)) hw hlog
  have hwake : ∀ {c : WaitPc}, (s.pc p).locked = true → c.bound = false → (s.wake p c).Pend := by
    intro c hl hc
    rw [LogWait.wake]
    split_ifs with hpt
    · exact fun q hq => absurd hq (hlock.not_waits hl hpt hc q)
    · exact h
  have hwakes : ∀ {u : LogWait P} {c : WaitPc}, u.pc = update s.pc p c → c.wakes = true →
      u.Pend := by
    intro u c hpc hc q _
    refine .inr ⟨p, ?_⟩
    rw [hpc, update_self]
    exact hc
  cases hp : s.pc p
  all_goals
    rw [LogWait.run, hp] at hrun
    rw [hp] at hgoto hwake
    dsimp only at hrun
  case idle | inOp => exact Except.ok.inj hrun ▸ h
  case acquire =>
    cases hrun
    rw [LogWait.enter]
    split_ifs
    · exact hgoto rfl rfl id rfl id
    · exact h
  case test =>
    cases hl : s.log.beginOp with
    | none =>
      rw [hl] at hrun
      exact Except.ok.inj hrun ▸ fun _ _ => .inl (hops.blocked hl)
    | some l =>
      rw [hl] at hrun
      refine Except.ok.inj hrun ▸ hgoto rfl rfl id rfl ?_
      rw [Log.beginOp] at hl
      split_ifs at hl with hc hfull
      cases hl
      refine Or.imp_right fun hb => ?_
      simp only [Log.Blocked, maxOpBlocks, logSize, goto_log] at *
      omega
  case sleepLock | asleep =>
    cases hrun
    split_ifs
    · exact hgoto rfl rfl (by simp [WaitPc.bound]) rfl id
    · exact h
  case sleepRelease => exact Except.ok.inj hrun ▸ hgoto rfl rfl (fun _ => rfl) rfl id
  case sleepSet =>
    cases hrun
    refine h.goto rfl (fun q hq => ?_) (by rintro ⟨⟩) (by rw [hp]; rfl) id
    by_cases hqp : q = p
    · rw [hqp]
      exact .inr (by rw [hp]; rfl)
    · exact .inl (by simpa [hqp] using hq)
  case entered | writeRelease | doneRelease => exact Except.ok.inj hrun ▸ hgoto rfl rfl id rfl id
  case writeAcquire b data =>
    cases hrun
    rw [LogWait.enter]
    split_ifs
    · refine hgoto rfl rfl id rfl (Or.imp_right fun hb => ⟨?_, hb.2⟩)
      have hle : s.log.mem.lh.n ≤ (s.log.mem.lh.record b).n := by
        rw [LogHeader.record]
        dsimp only
        split_ifs <;> omega
      change (s.log.mem.lh.record b).n + (s.log.outstanding + 1) * maxOpBlocks > logSize
      omega
    · exact h
  case endAcquire =>
    split_ifs at hrun with hfree
    · cases hl : s.log.endOp with
      | error e => simp [hl] at hrun
      | ok r =>
        rw [hl] at hrun
        cases hrun
        rw [LogWait.enter, if_pos hfree]
        rw [Log.endOp] at hl
        split_ifs at hl
        · cases hl
          exact fun _ _ => .inl (.inl rfl)
        · cases hl
          exact hwakes rfl rfl
    · exact Except.ok.inj hrun ▸ h
  case endWake | doneWake => exact Except.ok.inj hrun ▸ hwake rfl rfl
  case endRelease doCommit =>
    cases doCommit <;> exact Except.ok.inj hrun ▸ hgoto rfl rfl id rfl id
  case commit d =>
    have hc := hops.commits p (by rw [hp]; rfl)
    cases d
    case done =>
      cases hrun
      rw [LogWait.enter]
      split_ifs
      · exact hwakes rfl rfl
      · exact h
    all_goals exact Except.ok.inj hrun ▸ fun _ _ => .inl (.inl hc)

/-! ### Whole runs -/

/-- The three together. -/
structure Inv (s : LogWait P) : Prop where
  lock : s.LockInv
  ops : ∃ S, s.OpsInv S
  pend : s.Pend

omit [DecidableEq P] in
lemma Inv.boot (m : LogMem) : (boot m : LogWait P).Inv := by
  refine ⟨⟨fun _ => by simp [LogWait.boot, WaitPc.locked], fun _ => by simp [LogWait.boot, WaitPc.ptlocked],
    nofun⟩, ⟨∅, ?_⟩, ?_⟩
  · exact ⟨fun p => iff_of_false (Finset.notMem_empty p) Bool.false_ne_true, rfl, nofun,
      nofun, nofun, le_rfl,
      nofun, fun _ _ => rfl⟩
  · rintro p (h | h) <;> exact nomatch h

/-- A process goes from one point outside the log's locks to another. -/
lemma Inv.call (h : s.Inv) {d : WaitPc} (hp : s.pc p = d) (hd : d ≠ .asleep)
    (hsame : c.locked = d.locked ∧ c.ptlocked = d.ptlocked ∧ c.counted = d.counted ∧
      c.commits = d.commits ∧ c.emptied = d.emptied) (hb : c.bound = false) (hw : d.wakes = false) :
    (s.goto p c).Inv := by
  subst hp
  obtain ⟨S, hops⟩ := h.ops
  obtain ⟨h1, h2, h3, h4, h5⟩ := hsame
  exact ⟨h.lock.goto rfl rfl hd rfl rfl h1 h2, ⟨S, hops.stay rfl rfl h3 h4 h5⟩,
    h.pend.goto rfl (fun _ hq => .inl hq) (fun hc => nomatch hb.symm.trans hc) hw id⟩

/-- **Every step keeps the invariant.** -/
lemma Inv.step (h : s.Inv) {a : WaitAct P} (hrun : s.step a = .ok t) : t.Inv := by
  cases a with
  | beginOp p | endOp p =>
    cases hrun
    split_ifs with hp
    · exact h.call hp (by simp) ⟨rfl, rfl, rfl, rfl, rfl⟩ rfl rfl
    · exact h
  | logWrite p b data =>
    rw [LogWait.step] at hrun
    split_ifs at hrun with hp
    · cases hl : s.log.logWrite b data with
      | error e => simp [hl] at hrun
      | ok l =>
        rw [hl] at hrun
        exact Except.ok.inj hrun ▸ h.call hp (by simp) ⟨rfl, rfl, rfl, rfl, rfl⟩ rfl rfl
    · exact Except.ok.inj hrun ▸ h
  | next p =>
    obtain ⟨S, hops⟩ := h.ops
    exact ⟨h.lock.run hrun, hops.run hrun, h.pend.run h.lock hops hrun⟩
  | kill p =>
    cases hrun
    split_ifs
    · have hsl : ∀ q, update s.sleeping p false q = true → s.sleeping q = true := by
        intro q hq
        by_cases hqp : q = p
        · simp [hqp] at hq
        · simpa [hqp] using hq
      obtain ⟨S, hops⟩ := h.ops
      refine ⟨⟨h.lock.lock, h.lock.ptlock, fun q hq => h.lock.asleep q (hsl q hq)⟩, ⟨S, ?_⟩, ?_⟩
      · exact ⟨hops.mem, hops.count, hops.committing, hops.commits, hops.unique, hops.nonneg,
          hops.emptied, hops.empty⟩
      · exact fun q hq => h.pend q (hq.imp_left (hsl q))
    · exact h

/-- **Nobody who waits for log space is forgotten.**  While `log.lock` is free, a process sleeps on
`&log` only if there is a commit, or the log is still too full for one more operation and there is an
operation; in both cases some other process has yet to go through `end_op`. -/
theorem log_wait {m : LogMem} (hreach : Reach step (fun _ _ => True) (boot m) s) (hfree : s.lock = none)
    (hsleep : s.sleeping p = true) :
    (s.log.committing = true ∧ ∃ q, q ≠ p ∧ (s.pc q).commits = true) ∨
    (s.log.mem.lh.n + (s.log.outstanding + 1) * maxOpBlocks > logSize ∧ 1 ≤ s.log.outstanding ∧
      ∃ q, q ≠ p ∧ (s.pc q).counted = true) := by
  have h : s.Inv := hreach.invariant (Inv.boot m) fun _ _ _ h _ hrun => h.step hrun
  obtain ⟨S, hops⟩ := h.ops
  have hp := h.lock.asleep p hsleep
  rcases h.pend p (.inl hsleep) with (hc | ⟨hfull, hout⟩) | ⟨q, hq⟩
  · obtain ⟨-, q, hq⟩ := hops.committing hc
    refine .inl ⟨hc, q, ?_, hq⟩
    rintro rfl
    rw [hp] at hq
    exact nomatch hq
  · have hcount := hops.count
    obtain ⟨q, hq⟩ := Finset.card_pos.mp (by omega : 0 < S.card)
    have hq := (hops.mem q).mp hq
    refine .inr ⟨hfull, hout, q, ?_, hq⟩
    rintro rfl
    rw [hp] at hq
    exact nomatch hq
  · have hl : (s.pc q).locked = true := by
      revert hq
      cases s.pc q <;> simp [WaitPc.wakes, WaitPc.locked]
    rw [(h.lock.lock q).mp hl] at hfree
    nomatch hfree

/-- A fourth operation waits for the first three. -/
theorem log_wait_fourth : ∃ s : LogWait (Fin 4),
    Reach step (fun _ _ => True) (boot (bootLog 2 30 fun _ => Bytes.zero bsize)) s ∧ s.lock = none ∧
    s.sleeping 3 = true ∧
    ((s.log.committing = true ∧ ∃ q, q ≠ 3 ∧ (s.pc q).commits = true) ∨
    (s.log.mem.lh.n + (s.log.outstanding + 1) * maxOpBlocks > logSize ∧ 1 ≤ s.log.outstanding ∧
      ∃ q, q ≠ 3 ∧ (s.pc q).counted = true)) := by
  obtain ⟨s, hreach, hlock, hsleep⟩ : ∃ s : LogWait (Fin 4), Reach step (fun _ _ => True)
      (boot (bootLog 2 30 fun _ => Bytes.zero bsize)) s ∧ s.lock = none ∧ s.sleeping 3 = true :=
    Reach.of_test ([0, 1, 2].flatMap (fun p => [.beginOp p, .next p, .next p, .next p]) ++
      [.beginOp 3, .next 3, .next 3, .next 3, .next 3, .next 3]) (by decide +kernel)
  exact ⟨s, hreach, hlock, hsleep, log_wait hreach hlock hsleep⟩

end LogWait

end Col331
