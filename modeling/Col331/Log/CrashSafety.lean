import Col331.Log.Commit

/-!
Crash atomicity of the log: whatever a crash leaves of a commit, recovery brings the home
blocks to their old contents or to their new ones, all of them together.

The disk is in one of two conditions as far as recovery is concerned.  `Clean`: the header
counts no entry.  `Committed t`: the header and the log entries describe the transaction `t`.
A crash of the commit leaves a clean disk before the first `write_head` reaches it and a
committed one after that (`commit_crash`), and recovery keeps these conditions through its own
crashes (`RecoverInv.crash`) and completes them (`RecoverInv.complete`).
-/

namespace Col331

open Function

/-- The header on disk counts no entry. -/
def Clean (start : ℕ) (d : Disk) : Prop := headN (d start) = 0

/-- The header and the log entries on disk describe the transaction `t`. -/
structure Committed (start : ℕ) (t : List (ℕ × Block)) (d : Disk) : Prop where
  count : headN (d start) = t.length
  entry : ∀ i (hi : i < t.length), (headBlock (d start) i).toNat = t[i].1 ∧
    d (start + i + 1) = t[i].2

/-- The blocks of a transaction lie outside the log area, which has room for its entries. -/
structure Placed (start size : ℕ) (t : List (ℕ × Block)) : Prop where
  room : t.length + 1 ≤ size
  home : ∀ w ∈ t, ¬ (start ≤ w.1 ∧ w.1 < start + size)

/-! ### What recovery writes in the two conditions -/

lemma headN_setHeadN_zero (b : Block) : headN (setHeadN b 0) = 0 :=
  headN_setHeadN b le_rfl (by decide)

lemma recoverWrites_of_clean {start size : ℕ} {d : Disk} (hsize : 0 < size)
    (h : Clean start d) : recoverWrites start size d = [(start, setHeadN (d start) 0)] := by
  have hout : HeadOutside start size d := by
    refine ⟨by rw [h]; omega, fun i hi => ?_⟩
    rw [h] at hi
    nomatch hi
  rw [recoverWrites_eq hout hsize, loggedHomes, h]
  rfl

lemma loggedHomes_of_committed {start : ℕ} {t : List (ℕ × Block)} {d : Disk}
    (h : Committed start t d) : loggedHomes start d = t := by
  apply List.ext_getElem
  · simp [loggedHomes, h.count]
  · intro i hi hi'
    obtain ⟨h1, h2⟩ := h.entry i hi'
    simp [loggedHomes, h1, h2]

lemma recoverWrites_of_committed {start size : ℕ} {t : List (ℕ × Block)} {d : Disk}
    (hp : Placed start size t) (h : Committed start t d) :
    recoverWrites start size d = t ++ [(start, setHeadN (d start) 0)] := by
  have hroom := hp.room
  have hout : HeadOutside start size d := by
    refine ⟨by rw [h.count]; omega, fun i hi b hb => ?_⟩
    have hit : i < t.length := by rw [h.count] at hi; omega
    rw [← hb, (h.entry i hit).1]
    exact hp.home _ (List.getElem_mem hit)
  rw [recoverWrites_eq hout (by omega), loggedHomes_of_committed h]

/-- Writes outside the log area keep a disk committed. -/
lemma Committed.applyWrites {start size : ℕ} {t ws : List (ℕ × Block)} {d : Disk}
    (h : Committed start t d) (hp : Placed start size t)
    (hws : ∀ w ∈ ws, ¬ (start ≤ w.1 ∧ w.1 < start + size)) :
    Committed start t (applyWrites ws d) := by
  have hroom := hp.room
  have hlog : ∀ b, start ≤ b → b < start + size → Col331.applyWrites ws d b = d b := by
    intro b hb1 hb2
    apply applyWrites_of_notMem
    intro w hw hwb
    exact hws w hw (by rw [hwb]; exact ⟨hb1, hb2⟩)
  constructor
  · rw [hlog start le_rfl (by omega)]
    exact h.count
  · intro i hi
    rw [hlog start le_rfl (by omega), hlog (start + i + 1) (by omega) (by omega)]
    exact h.entry i hi

/-! ### Recovery -/

section Recovery

variable {start size : ℕ} {t : List (ℕ × Block)} {target : Disk}

/-- What a recovery with final home contents `target` meets and keeps. -/
inductive RecoverInv (start size : ℕ) (t : List (ℕ × Block)) (target d : Disk) : Prop where
  | clean (hclean : Clean start d)
      (hhome : ∀ b, ¬ (start ≤ b ∧ b < start + size) → d b = target b)
  | committed (hcom : Committed start t d)
      (hhome : ∀ b, ¬ (start ≤ b ∧ b < start + size) → applyWrites t d b = target b)

/-- The disk at the end of a recovery. -/
def RecoverDone (start size : ℕ) (target d : Disk) : Prop :=
  headN (d start) = 0 ∧ ∀ b, ¬ (start ≤ b ∧ b < start + size) → d b = target b

/-- Clearing the header leaves the home blocks alone. -/
lemma recoverDone_update (hsize : 0 < size) {d : Disk} {b : Block}
    (hhome : ∀ x, ¬ (start ≤ x ∧ x < start + size) → d x = target x) :
    RecoverDone start size target (update d start (setHeadN b 0)) := by
  constructor
  · rw [update_self]
    exact headN_setHeadN_zero b
  · intro x hx
    rw [update_of_ne (by rintro rfl; exact hx ⟨le_rfl, by omega⟩)]
    exact hhome x hx

/-- A complete recovery. -/
lemma RecoverInv.complete (hp : Placed start size t) {d : Disk}
    (h : RecoverInv start size t target d) :
    RecoverDone start size target (applyWrites (recoverWrites start size d) d) := by
  have hsize : 0 < size := by have := hp.room; omega
  cases h with
  | clean hclean hhome =>
    rw [recoverWrites_of_clean hsize hclean]
    exact recoverDone_update hsize hhome
  | committed hcom hhome =>
    rw [recoverWrites_of_committed hp hcom, applyWrites_append]
    exact recoverDone_update hsize hhome

/-- A crashed recovery. -/
lemma RecoverInv.crash (hp : Placed start size t) {d : Disk} (k : ℕ)
    (h : RecoverInv start size t target d) :
    RecoverInv start size t target (crashAfter (recoverWrites start size d) k d) := by
  by_cases hk : (recoverWrites start size d).length ≤ k
  · -- every write was made
    rw [crashAfter, List.take_of_length_le hk]
    have hdone := h.complete hp
    exact .clean hdone.1 hdone.2
  · have hsize : 0 < size := by have := hp.room; omega
    cases h with
    | clean hclean hhome =>
      rw [recoverWrites_of_clean hsize hclean, List.length_singleton] at hk
      have hk0 : k = 0 := by omega
      subst hk0
      exact .clean hclean hhome
    | committed hcom hhome =>
      have hw := recoverWrites_of_committed hp hcom
      rw [hw, List.length_append, List.length_singleton] at hk
      rw [crashAfter, hw, List.take_append_of_le_length (by omega)]
      refine .committed (hcom.applyWrites hp fun w hw => hp.home w (List.mem_of_mem_take hw)) ?_
      intro b hb
      rw [applyWrites_redo]
      exact hhome b hb

/-- Recovery, crashed and started again any number of times. -/
lemma RecoverInv.recovers (hp : Placed start size t) {d d' : Disk}
    (h : RecoverInv start size t target d) (hrec : Recovers (recoverWrites start size) d d') :
    RecoverDone start size target d' :=
  hrec.induct (fun _ k hd => hd.crash hp k) (fun _ hd => hd.complete hp) h

end Recovery

/-! ### The commit -/

/-- A transaction that `commit` can run: `n` distinct home blocks outside the log area,
`0 < n <= log.size - 1`, with their new contents in pinned buffers.  `log.lh.block` has
`LOGSIZE` entries. -/
structure Transaction (m : LogMem) : Prop where
  pos : 0 < m.lh.n
  room : m.lh.n ≤ (m.size : ℤ) - 1
  fits : m.lh.n ≤ logSize
  distinct : ∀ i < m.lh.n.toNat, ∀ j < m.lh.n.toNat, m.lh.block i = m.lh.block j → i = j
  home : ∀ i < m.lh.n.toNat, ¬ m.InLog (m.lh.block i).toNat
  cached : ∀ i < m.lh.n.toNat, (m.pinned (m.lh.block i).toNat).isSome

/-- `b` is a home block of the transaction. -/
def LogMem.IsHome (m : LogMem) (b : ℕ) : Prop := ∃ i < m.lh.n.toNat, (m.lh.block i).toNat = b

/-- The number of blocks written when the first `write_head` has reached the disk. -/
def commitPoint (m : LogMem) : ℕ :=
  ({ m with writes := [] } : LogMem).writeLog.writeHead.writes.length

/-- The contents of the home blocks after recovery: the new ones where the commit point was
passed, the old ones otherwise. -/
noncomputable def homeAfter (m : LogMem) (k : ℕ) : Disk := fun b =>
  open Classical in if m.IsHome b ∧ commitPoint m ≤ k then m.bread b else m.disk b

namespace Transaction

variable {m : LogMem}

section

variable (h : Transaction m)

include h

lemma homesOutside : m.HomesOutside := ⟨h.room, h.home⟩

lemma placed : Placed m.start m.size (newHomes m) := by
  have hroom := h.room
  have hpos := h.pos
  constructor
  · simp only [newHomes, List.length_map, List.length_range]
    omega
  · intro w hw
    obtain ⟨i, hi, rfl⟩ := List.mem_map.mp hw
    exact h.home i (List.mem_range.mp hi)

lemma commitPoint_eq : commitPoint m = m.lh.n.toNat + 1 := by
  have h₀ : ({ m with writes := [] } : LogMem).HomesOutside := ⟨h.room, h.home⟩
  rw [commitPoint, LogMem.writeLog_eq h₀, LogMem.writeHead_eq]
  simp [LogMem.logCopies]

lemma start_inLog : m.InLog m.start := by
  have hroom := h.room
  have hpos := h.pos
  exact ⟨le_rfl, by omega⟩

/-- Writing some of the log entries leaves the header and the home blocks alone. -/
lemma applyWrites_logCopies_take (k : ℕ) {b : ℕ}
    (hb : b = m.start ∨ ¬ m.InLog b) :
    applyWrites (m.logCopies.take k) m.disk b = m.disk b := by
  have hroom := h.room
  apply applyWrites_of_notMem
  intro w hw
  obtain ⟨i, hi, rfl⟩ := List.mem_map.mp (List.mem_of_mem_take hw)
  rw [List.mem_range] at hi
  rintro rfl
  rcases hb with hb | hb
  · omega
  · exact hb ⟨by omega, by omega⟩

/-- The disk with the log entries and the header written is committed. -/
lemma committed_head :
    Committed m.start (newHomes m)
      (update (applyWrites m.logCopies m.disk) m.start (commitHead m)) := by
  have hpos := h.pos
  constructor
  · rw [update_self, commitHead, headN_encodeHead _ _ hpos.le h.fits]
    simp only [newHomes, List.length_map, List.length_range]
    omega
  · intro i hi
    have hi' : i < m.lh.n.toNat := by simpa [newHomes] using hi
    refine ⟨?_, ?_⟩
    · rw [update_self, commitHead, headBlock_encodeHead _ _ h.fits hi']
      simp [newHomes]
    · rw [update_of_ne (by omega), applyWrites_logCopies m _ hi']
      simp [newHomes]

end

/-- The new contents, written over any disk, in the home blocks. -/
lemma applyWrites_newHomes {d : Disk} {b : ℕ} (hd : ¬ m.InLog b → d b = m.disk b)
    (hb : ¬ m.InLog b) {k : ℕ} (hk : commitPoint m ≤ k) :
    applyWrites (newHomes m) d b = homeAfter m k b := by
  classical
  rw [homeAfter]
  by_cases hhome : m.IsHome b
  · rw [if_pos ⟨hhome, hk⟩]
    obtain ⟨i, hi, rfl⟩ := hhome
    apply applyWrites_of_mem
    · exact ⟨_, List.mem_map.mpr ⟨i, List.mem_range.mpr hi, rfl⟩, rfl⟩
    · intro w hw hwb
      obtain ⟨j, _, rfl⟩ := List.mem_map.mp hw
      dsimp only at hwb ⊢
      rw [hwb]
  · rw [if_neg (fun h => hhome h.1), applyWrites_of_notMem, hd hb]
    intro w hw hwb
    obtain ⟨i, hi, rfl⟩ := List.mem_map.mp hw
    exact hhome ⟨i, List.mem_range.mp hi, hwb⟩

/-- **What a crash of the commit leaves**: the invariant of recovery, with the old home contents
up to the first `write_head` and the new ones from there on. -/
lemma commit_crash (h : Transaction m) (hclean : Clean m.start m.disk) (k : ℕ) :
    RecoverInv m.start m.size (newHomes m) (homeAfter m k)
      (crashAfter (commitWrites m) k m.disk) := by
  have hcp := h.commitPoint_eq
  have hlen : m.logCopies.length = m.lh.n.toNat := by simp [LogMem.logCopies]
  rw [crashAfter, commitWrites_eq h.homesOutside h.pos]
  by_cases hk : k ≤ m.lh.n.toNat
  · -- the crash came while the log entries were being written
    rw [List.take_append_of_le_length (by omega)]
    refine .clean ?_ fun b hb => ?_
    · rw [Clean, h.applyWrites_logCopies_take k (.inl rfl)]
      exact hclean
    · rw [h.applyWrites_logCopies_take k (.inr hb), homeAfter, if_neg (by omega)]
  · -- the header is on disk
    have hk1 : k = m.logCopies.length + (k - m.lh.n.toNat - 1 + 1) := by omega
    have hkp : commitPoint m ≤ k := by omega
    have hhome : ∀ b, ¬ m.InLog b →
        update (applyWrites m.logCopies m.disk) m.start (commitHead m) b = m.disk b := by
      intro b hb
      rw [update_of_ne (by rintro rfl; exact hb h.start_inLog)]
      have := h.applyWrites_logCopies_take m.logCopies.length (.inr hb)
      rwa [List.take_length] at this
    rw [hk1, List.take_append, List.take_of_length_le (by omega), Nat.add_sub_cancel_left,
      List.take_succ_cons, applyWrites_append, applyWrites_cons, ← hk1]
    set d := update (applyWrites m.logCopies m.disk) m.start (commitHead m) with hd
    set j := k - m.lh.n.toNat - 1 with hj
    by_cases hjn : j ≤ (newHomes m).length
    · -- some of the home blocks are installed
      rw [List.take_append_of_le_length hjn]
      refine .committed (h.committed_head.applyWrites h.placed fun w hw =>
        h.placed.home w (List.mem_of_mem_take hw)) fun b hb => ?_
      rw [applyWrites_redo]
      exact applyWrites_newHomes (hhome b) hb hkp
    · -- the header is cleared again
      rw [List.take_of_length_le (by simp only [List.length_append, List.length_singleton]; omega),
        applyWrites_append]
      have hsize : 0 < m.size := by have := h.placed.room; omega
      have hdone : RecoverDone m.start m.size (homeAfter m k)
          (update (applyWrites (newHomes m) d) m.start (setHeadN (commitHead m) 0)) :=
        recoverDone_update hsize fun b hb => applyWrites_newHomes (hhome b) hb hkp
      exact .clean hdone.1 hdone.2

end Transaction

/-- **Crash atomicity of the log.** A commit on a clean disk is cut off after any number `k` of
its block writes, and recovery is run on what is left, itself cut off and started again any
number of times.  It ends with the header counting no entry, the transaction's home blocks all
new if the first `write_head` had reached the disk and all old otherwise, and every other home
block unchanged. -/
theorem commit_crash_atomic (m : LogMem) (ht : Transaction m) (hclean : headN (m.disk m.start) = 0)
    (k : ℕ) (d : Disk)
    (hrec : Recovers (recoverWrites m.start m.size) (crashAfter (commitWrites m) k m.disk) d) :
    headN (d m.start) = 0 ∧
      (∀ b, m.IsHome b → d b = if commitPoint m ≤ k then m.bread b else m.disk b) ∧
      ∀ b, ¬ m.InLog b → ¬ m.IsHome b → d b = m.disk b := by
  obtain ⟨hhead, hhome⟩ := (ht.commit_crash hclean k).recovers ht.placed hrec
  refine ⟨hhead, fun b hb => ?_, fun b hb hnb => ?_⟩
  · have hout : ¬ m.InLog b := by
      obtain ⟨i, hi, rfl⟩ := hb
      exact ht.home i hi
    rw [hhome b hout, homeAfter]
    by_cases hkp : commitPoint m ≤ k
    · rw [if_pos ⟨hb, hkp⟩, if_pos hkp]
    · rw [if_neg (fun h => hkp h.2), if_neg hkp]
  · rw [hhome b hb, homeAfter, if_neg (fun h => hnb h.1)]

/-- One modified block, block 45, on a disk of zeroes with the log area of `mkfs`. -/
def oneBlock : LogMem :=
  { start := 2
    size := 30
    lh := ⟨1, fun _ => 45⟩
    pinned := fun b => if b = 45 then some (fun _ => 7) else none
    disk := fun _ => Bytes.zero bsize
    writes := [] }

/-- What is left when its commit is cut off right after the first `write_head`. -/
def oneBlockCrashed : Disk := crashAfter (commitWrites oneBlock) 2 oneBlock.disk

/-- The recovery from there, cut off once after its first write. -/
def oneBlockRecovered : Disk :=
  let d := crashAfter (recoverWrites 2 30 oneBlockCrashed) 1 oneBlockCrashed
  applyWrites (recoverWrites 2 30 d) d

lemma transaction_oneBlock : Transaction oneBlock := by
  have hone : ∀ i < oneBlock.lh.n.toNat, i = 0 := by
    intro i hi
    exact Nat.lt_one_iff.mp hi
  refine ⟨by decide, by decide, by decide, fun i hi j hj _ => ?_, fun i _ => ?_, fun i _ => ?_⟩
  · rw [hone i hi, hone j hj]
  · rintro ⟨_, h⟩
    change 45 < 32 at h
    omega
  · rfl

theorem commit_crash_atomic_oneBlock :
    headN (oneBlockRecovered 2) = 0 ∧ oneBlockRecovered 45 = oneBlock.bread 45 := by
  have hrec : Recovers (recoverWrites 2 30) oneBlockCrashed oneBlockRecovered :=
    .crash 1 (.complete _)
  obtain ⟨hhead, hhome, _⟩ := commit_crash_atomic oneBlock transaction_oneBlock
    (by decide) 2 oneBlockRecovered hrec
  refine ⟨hhead, (hhome 45 ⟨0, by decide, rfl⟩).trans (if_pos ?_)⟩
  rw [transaction_oneBlock.commitPoint_eq]
  decide

end Col331
