import Col331.Log.Group

/-!
Group commit never splits an operation: the invariant of the log and the processes that use it,
kept by every step of every interleaving (`LogInv.step`), and what it says about the reachable
states (`group_commit`).

The invariant has three parts.  `CountInv`: `outstanding` counts the processes between
`begin_op` and `end_op`, `committing` tells that one process runs `commit`, and the two exclude
each other.  `HeadInv`: the header lists no block twice, and is empty when nobody is using the
log.  `HistoryInv`: where the calls of `log_write` went.
-/

namespace Col331

open Function

variable {P : Type} [DecidableEq P]

/-! ### The program points -/

variable {pc : P → Pc}

lemma update_eq_cases {p q : P} {x y : Pc} (h : update pc p x q = y) :
    (q = p ∧ x = y) ∨ (q ≠ p ∧ pc q = y) := by
  by_cases hq : q = p
  · subst hq
    rw [update_self] at h
    exact .inl ⟨rfl, h⟩
  · rw [update_of_ne hq] at h
    exact .inr ⟨hq, h⟩

/-- What holds of the points after a move, and of the mover before it, held of all before it. -/
lemma forall_of_update {C : Pc → Prop} {p : P} {x : Pc} (h : ∀ q, C (update pc p x q))
    (hp : C (pc p)) (q : P) : C (pc q) := by
  rcases eq_or_ne q p with rfl | hq
  · exact hp
  · exact update_of_ne hq x pc ▸ h q

lemma of_update {p q : P} {x y : Pc} (h : update pc p x q = y) (hx : x ≠ y) : q ≠ p ∧ pc q = y :=
  (update_eq_cases h).resolve_left fun hq => hx hq.2

omit [DecidableEq P] in
lemma wakeup_eq_inCommit {p : P} {c : CommitPc} :
    wakeup pc p = .inCommit c ↔ pc p = .inCommit c := by
  rw [wakeup]
  cases pc p <;> simp

omit [DecidableEq P] in
lemma wakeup_eq_inOp {p : P} {calls : List LogCall} :
    wakeup pc p = .inOp calls ↔ pc p = .inOp calls := by
  rw [wakeup]
  cases pc p <;> simp

omit [DecidableEq P] in
lemma wakeup_ne_asleep (pc : P → Pc) (p : P) : wakeup pc p ≠ .asleep := by
  rw [wakeup]
  cases pc p <;> simp

lemma inOp_iff {pc : Pc} : pc.InOp ↔ ∃ calls, pc = .inOp calls := by
  cases pc <;> simp [Pc.InOp]

/-- A process that comes to the loop of `begin_op` is in no operation and in no commit. -/
lemma not_busy {x : Pc} (h : x = .idle ∨ x = .woken) : ¬ x.InOp ∧ ∀ c, x ≠ .inCommit c := by
  rcases h with rfl | rfl <;> simp [Pc.InOp]

/-- A process and another one: after an update of the first, the second is in an operation if
it was. -/
lemma inOp_of_update {p q : P} {x : Pc} (hx : ¬ x.InOp)
    (h : (update pc p x q).InOp) : q ≠ p ∧ (pc q).InOp := by
  obtain ⟨calls, hc⟩ := inOp_iff.mp h
  rcases update_eq_cases hc with ⟨_, rfl⟩ | ⟨hq, hpc⟩
  · exact absurd trivial hx
  · exact ⟨hq, inOp_iff.mpr ⟨calls, hpc⟩⟩

section Count

variable [Fintype P]

/-- The number of processes between `begin_op` and `end_op`. -/
def opCount (pc : P → Pc) : ℤ := ∑ p, if (pc p).InOp then 1 else 0

lemma opCount_update (pc : P → Pc) (p : P) (x : Pc) :
    opCount (update pc p x) =
      opCount pc - (if (pc p).InOp then 1 else 0) + if x.InOp then 1 else 0 := by
  have hsplit : ∀ pc' : P → Pc, opCount pc' = (if (pc' p).InOp then 1 else 0) +
      ∑ q ∈ Finset.univ.erase p, if (pc' q).InOp then 1 else 0 := fun pc' =>
    (Finset.add_sum_erase _ _ (Finset.mem_univ p)).symm
  have hrest : ∑ q ∈ Finset.univ.erase p, (if (update pc p x q).InOp then (1 : ℤ) else 0) =
      ∑ q ∈ Finset.univ.erase p, if (pc q).InOp then 1 else 0 := by
    refine Finset.sum_congr rfl fun q hq => ?_
    rw [update_of_ne (Finset.ne_of_mem_erase hq)]
  rw [hsplit (update pc p x), hsplit pc, hrest, update_self]
  omega

omit [DecidableEq P] in
lemma opCount_wakeup (pc : P → Pc) : opCount (wakeup pc) = opCount pc := by
  refine Finset.sum_congr rfl fun p _ => if_congr ?_ rfl rfl
  simp only [inOp_iff, wakeup_eq_inOp]

omit [DecidableEq P] in
lemma opCount_eq_zero_iff {pc : P → Pc} : opCount pc = 0 ↔ ∀ p, ¬ (pc p).InOp := by
  rw [opCount, Finset.sum_eq_zero_iff_of_nonneg (fun p _ => by split_ifs <;> simp)]
  simp

omit [DecidableEq P] in
lemma opCount_nonneg (pc : P → Pc) : 0 ≤ opCount pc :=
  Finset.sum_nonneg fun p _ => by split_ifs <;> simp

/-! ### The processes and the counters -/

/-- The counters of the log say where the processes are. -/
structure CountInv (s : LogSys P) : Prop where
  outstanding : s.log.outstanding = opCount s.pc
  committing : s.log.committing = true ↔ ∃ p c, s.pc p = .inCommit c
  one : ∀ p q c c', s.pc p = .inCommit c → s.pc q = .inCommit c' → p = q
  alone : ∀ p c, s.pc p = .inCommit c → ∀ q, ¬ (s.pc q).InOp

omit [DecidableEq P] in
lemma CountInv.not_committing {s : LogSys P} (h : CountInv s) (hc : s.log.committing = false)
    (p : P) (c : CommitPc) : s.pc p ≠ .inCommit c := by
  intro hp
  rw [h.committing.mpr ⟨p, c, hp⟩] at hc
  nomatch hc

omit [DecidableEq P] in
/-- A process that runs `commit` is at the point of the one that does. -/
lemma CountInv.point_eq {s : LogSys P} (h : CountInv s) {p q : P} {c c' : CommitPc}
    (hp : s.pc p = .inCommit c) (hq : s.pc q = .inCommit c') : c' = c := by
  obtain rfl := h.one q p c' c hq hp
  rw [hp, Pc.inCommit.injEq] at hq
  exact hq.symm

omit [DecidableEq P] in
lemma CountInv.outstanding_eq_zero {s : LogSys P} (h : CountInv s)
    (hc : s.log.committing = true) : s.log.outstanding = 0 := by
  obtain ⟨p, c, hp⟩ := h.committing.mp hc
  rw [h.outstanding]
  exact opCount_eq_zero_iff.mpr (h.alone p c hp)

omit [DecidableEq P] in
lemma CountInv.not_committing_of_inOp {s : LogSys P} (h : CountInv s) {p : P}
    (hp : (s.pc p).InOp) : s.log.committing = false := by
  cases hc : s.log.committing with
  | false => rfl
  | true =>
    obtain ⟨q, c, hq⟩ := h.committing.mp hc
    exact absurd hp (h.alone q c hq p)

/-- A move of one process that neither starts nor ends a commit. -/
lemma CountInv.move {s s' : LogSys P} (h : CountInv s) {p : P} {x : Pc} {f : (P → Pc) → P → Pc}
    (hf : f = id ∨ f = wakeup) (hpc : s'.pc = update (f s.pc) p x)
    (hp : ∀ c, s.pc p ≠ .inCommit c) (hx : ∀ c, x ≠ .inCommit c)
    (hin : x.InOp → (s.pc p).InOp ∨ s.log.committing = false)
    (hcom : s'.log.committing = s.log.committing)
    (hout : s'.log.outstanding =
      s.log.outstanding - (if (s.pc p).InOp then 1 else 0) + if x.InOp then 1 else 0) :
    CountInv s' := by
  obtain ⟨hcommit, hop, hcount⟩ : (∀ q c, f s.pc q = .inCommit c ↔ s.pc q = .inCommit c) ∧
      (∀ q, (f s.pc q).InOp ↔ (s.pc q).InOp) ∧ opCount (f s.pc) = opCount s.pc := by
    rcases hf with rfl | rfl
    · exact ⟨fun _ _ => Iff.rfl, fun _ => Iff.rfl, rfl⟩
    · exact ⟨fun _ _ => wakeup_eq_inCommit, fun _ => by simp only [inOp_iff, wakeup_eq_inOp],
        opCount_wakeup s.pc⟩
  have hback : ∀ q c, s'.pc q = .inCommit c → s.pc q = .inCommit c := by
    intro q c hq
    rw [hpc] at hq
    rcases update_eq_cases hq with ⟨_, hx'⟩ | ⟨_, hq'⟩
    · exact absurd hx' (hx c)
    · exact (hcommit q c).mp hq'
  refine ⟨?_, ?_, ?_, ?_⟩
  · rw [hout, h.outstanding, hpc, opCount_update, hcount, if_congr (hop p) rfl rfl]
  · rw [hcom, h.committing]
    constructor
    · rintro ⟨q, c, hq⟩
      have hqp : q ≠ p := by
        rintro rfl
        exact hp c hq
      exact ⟨q, c, by rw [hpc, update_of_ne hqp]; exact (hcommit q c).mpr hq⟩
    · rintro ⟨q, c, hq⟩
      exact ⟨q, c, hback q c hq⟩
  · intro q q' c c' hq hq'
    exact h.one q q' c c' (hback q c hq) (hback q' c' hq')
  · intro q c hq r hr
    have hnone := h.alone q c (hback q c hq)
    obtain ⟨calls, hr'⟩ := inOp_iff.mp hr
    rw [hpc] at hr'
    rcases update_eq_cases hr' with ⟨_, rfl⟩ | ⟨_, hr''⟩
    · rcases hin trivial with hin | hin
      · exact hnone p hin
      · exact h.not_committing hin q c (hback q c hq)
    · exact hnone r ((hop r).mp (inOp_iff.mpr ⟨calls, hr''⟩))

lemma CountInv.step {s s' : LogSys P} (h : CountInv s) (hstep : LogStep s s') : CountInv s' := by
  cases hstep with
  | stutter => exact h
  | enter p hp hc hfit =>
    obtain ⟨hno, hnc⟩ := not_busy hp
    refine h.move (.inl rfl) rfl hnc (by simp) (fun _ => .inr hc) rfl ?_
    rw [if_neg hno]
    simp [Pc.InOp]
  | sleep p hp hwait =>
    obtain ⟨hno, hnc⟩ := not_busy hp
    refine h.move (.inl rfl) rfl hnc (by simp) (fun hx => absurd hx (by simp [Pc.InOp])) rfl ?_
    rw [if_neg hno]
    simp [Pc.InOp]
  | write p calls b data hp hroom =>
    have hin : (s.pc p).InOp := inOp_iff.mpr ⟨calls, hp⟩
    refine h.move (.inl rfl) rfl (by simp [hp]) (by simp) (fun _ => .inl hin) rfl ?_
    rw [if_pos hin]
    simp [Pc.InOp, Log.record]
  | leave p calls hp hc hout =>
    have hin : (s.pc p).InOp := inOp_iff.mpr ⟨calls, hp⟩
    refine h.move (.inr rfl) rfl (by simp [hp]) (by simp)
      (fun hx => absurd hx (by simp [Pc.InOp])) rfl ?_
    rw [if_pos hin]
    simp [Pc.InOp]
  | last p calls hp hc hout =>
    -- the caller was the only process in an operation, and becomes the only committer
    have hin : (s.pc p).InOp := inOp_iff.mpr ⟨calls, hp⟩
    have hzero : opCount (update s.pc p (.inCommit .start)) = 0 := by
      rw [opCount_update, if_pos hin, ← h.outstanding, hout]
      simp [Pc.InOp]
    have hback : ∀ q c, update s.pc p (.inCommit .start) q = .inCommit c → q = p := by
      intro q c hq
      rcases update_eq_cases hq with ⟨rfl, _⟩ | ⟨_, hq'⟩
      · rfl
      · exact absurd hq' (h.not_committing hc q c)
    refine ⟨hzero.symm, ?_, ?_, ?_⟩
    · exact ⟨fun _ => ⟨p, .start, update_self ..⟩, fun _ => rfl⟩
    · intro q q' c c' hq hq'
      rw [hback q c hq, hback q' c' hq']
    · intro q c _
      exact opCount_eq_zero_iff.mp hzero
  | commit p c hp hc =>
    have hback : ∀ q c', update s.pc p (.inCommit (commitStep s.log.mem c).2) q =
        .inCommit c' → q = p := by
      intro q c' hq
      rcases update_eq_cases hq with ⟨rfl, _⟩ | ⟨_, hq'⟩
      · rfl
      · exact h.one q p c' c hq' hp
    have hno : ¬ (s.pc p).InOp := by simp [hp, Pc.InOp]
    refine ⟨?_, ?_, ?_, ?_⟩
    · rw [opCount_update, if_neg hno, ← h.outstanding]
      simp [Pc.InOp]
    · exact ⟨fun _ => ⟨p, _, update_self ..⟩, fun _ => h.committing.mpr ⟨p, c, hp⟩⟩
    · intro q q' c₁ c₂ hq hq'
      rw [hback q c₁ hq, hback q' c₂ hq']
    · intro q c₁ _ r hr
      exact h.alone p c hp r (inOp_of_update (by simp [Pc.InOp]) hr).2
  | finish p hp =>
    have hback : ∀ q c, update (wakeup s.pc) p .idle q ≠ .inCommit c := by
      intro q c hq
      obtain ⟨hqp, hq'⟩ := of_update hq (by simp)
      exact hqp (h.one q p c .done (wakeup_eq_inCommit.mp hq') hp)
    have hno : ¬ (wakeup s.pc p).InOp := by
      rw [inOp_iff]
      rintro ⟨calls, hc⟩
      rw [wakeup_eq_inOp, hp] at hc
      nomatch hc
    refine ⟨?_, ?_, ?_, ?_⟩
    · rw [opCount_update, if_neg hno, opCount_wakeup, ← h.outstanding]
      simp [Pc.InOp]
    · simp [hback]
    · intro q q' c c' hq
      exact absurd hq (hback q c)
    · intro q c hq
      exact absurd hq (hback q c)

end Count

/-! ### The header -/

/-- The header lists at most `LOGSIZE` blocks, none twice, and none at all when no process is
using the log. -/
structure HeadInv (s : LogSys P) : Prop where
  nonneg : 0 ≤ s.log.mem.lh.n
  le : s.log.mem.lh.n ≤ logSize
  nodup : s.log.mem.lh.blocks.Nodup
  quiet : (∀ p, ¬ (s.pc p).InOp) → (∀ p c, s.pc p = .inCommit c → c.Cleared) →
    s.log.mem.lh.n = 0

lemma nodup_blocks_record {lh : LogHeader} (h0 : 0 ≤ lh.n) (h : lh.blocks.Nodup) (b : UInt32) :
    (lh.record b).blocks.Nodup := by
  rw [blocks_record h0]
  split_ifs with hb
  · exact h
  · exact List.nodup_append.mpr ⟨h, by simp, by
      rintro x hx y hy rfl
      rw [List.mem_singleton] at hy
      exact hb (hy ▸ hx)⟩

/-- A count stays within the entries. -/
lemma record_n {lh : LogHeader} (h0 : 0 ≤ lh.n) (b : UInt32) :
    lh.n ≤ (lh.record b).n ∧ (lh.record b).n ≤ lh.n + 1 := by
  by_cases hb : b ∈ lh.blocks
  · rw [record_of_mem h0 hb]
    omega
  · rw [record_of_notMem h0 hb]
    dsimp only
    omega

variable [Fintype P]

variable {s s' : LogSys P} {calls : List LogCall}

omit [DecidableEq P] in
/-- Once the committer has cleared the header, it is empty. -/
lemma HeadInv.empty (hcount : CountInv s) (h : HeadInv s) {p : P} {c : CommitPc}
    (hp : s.pc p = .inCommit c) (hc : c.Cleared) : s.log.mem.lh.n = 0 :=
  h.quiet (hcount.alone p c hp) fun _ _ hq => hcount.point_eq hp hq ▸ hc

lemma HeadInv.step (hcount : CountInv s) (h : HeadInv s)
    (hstep : LogStep s s') : HeadInv s' := by
  cases hstep with
  | stutter => exact h
  | enter p hp hc hfit =>
    refine ⟨h.nonneg, h.le, h.nodup, fun hno _ => ?_⟩
    exact absurd (show (update s.pc p (.inOp []) p).InOp by simp [Pc.InOp]) (hno p)
  | sleep p hp hwait =>
    obtain ⟨hnp, hnc⟩ := not_busy hp
    refine ⟨h.nonneg, h.le, h.nodup, fun hno hcl => h.quiet ?_ ?_⟩
    · exact forall_of_update (C := (¬ Pc.InOp ·)) hno hnp
    · exact forall_of_update (C := fun x => ∀ c, x = .inCommit c → c.Cleared) hcl fun c hc =>
        absurd hc (hnc c)
  | write p calls b data hp hroom =>
    obtain ⟨h1, h2⟩ := record_n h.nonneg b
    have h3 := h.nonneg
    refine ⟨?_, ?_, nodup_blocks_record h.nonneg h.nodup b, fun hno _ => ?_⟩
    · simp only [Log.record]
      omega
    · simp only [Log.record]
      omega
    · refine absurd ?_ (hno p)
      simp [Pc.InOp]
  | last p calls hp hc hout =>
    refine ⟨h.nonneg, h.le, h.nodup, fun _ hcl => ?_⟩
    exact absurd (hcl p .start (update_self ..)) (by simp)
  | leave p calls hp hc hout =>
    -- another process is still in an operation
    refine ⟨h.nonneg, h.le, h.nodup, fun hno _ => ?_⟩
    have hzero := opCount_eq_zero_iff.mpr hno
    have hin' : (wakeup s.pc p).InOp := inOp_iff.mpr ⟨calls, wakeup_eq_inOp.mpr hp⟩
    rw [opCount_update, if_pos hin', opCount_wakeup, ← hcount.outstanding,
      if_neg (show ¬ Pc.idle.InOp from id)] at hzero
    exact absurd (by omega) hout
  | commit p c hp hc =>
    by_cases hclear : c = .clear
    · subst hclear
      refine ⟨le_rfl, by simp [commitStep, LogMem.clearHead], ?_, fun _ _ => rfl⟩
      simp [commitStep, LogMem.clearHead, LogHeader.blocks]
    · have hlh := commitStep_lh s.log.mem hclear
      refine ⟨by rw [hlh]; exact h.nonneg, by rw [hlh]; exact h.le, by rw [hlh]; exact h.nodup,
        fun hno hcl => ?_⟩
      rw [hlh]
      have hcl' := hcl p _ (update_self ..)
      -- the step before a cleared point is a cleared point, or the test at the start
      cases c with
      | start =>
        rw [commitStep] at hcl'
        split_ifs at hcl' with hpos
        · simp at hcl'
        · have := h.nonneg
          omega
      | writeLog | install =>
        rw [commitStep] at hcl'
        split_ifs at hcl' <;> simp at hcl'
      | writeHead => simp [commitStep] at hcl'
      | clear => exact absurd rfl hclear
      | eraseHead => exact h.empty hcount hp trivial
      | done => exact absurd rfl hc
  | finish p hp =>
    have hn := h.empty hcount hp trivial
    exact ⟨h.nonneg, h.le, h.nodup, fun _ _ => hn⟩

/-! ### Where the calls of `log_write` go -/

/-- The block of a call is in the commit the call was made for: among the blocks it wrote, or
in the header it will be written from. -/
def LogSys.Lands (s : LogSys P) (w : LogCall) : Prop :=
  (w.commit < s.commits.length ∧ w.block ∈ s.commits.getD w.commit []) ∨
    (w.commit = s.commits.length ∧ w.block ∈ s.log.mem.lh.blocks)

/-- The calls of an operation all land in one commit. -/
def LogSys.OneCommit (s : LogSys P) (calls : List LogCall) : Prop :=
  ∃ c, ∀ w ∈ calls, w.commit = c ∧ s.Lands w

/-- The calls made so far: those of an operation under way belong to the commit to come, those
of an ended one all to the same commit.  Past its first `write_head` a commit leaves no call
behind. -/
structure HistoryInv (s : LogSys P) : Prop where
  current : ∀ p calls, s.pc p = .inOp calls → ∀ w ∈ calls,
    w.commit = s.commits.length ∧ w.block ∈ s.log.mem.lh.blocks
  ended : ∀ calls ∈ s.ended, s.OneCommit calls
  passed : ∀ p c, s.pc p = .inCommit c → c.Passed → s.group = [] ∧
    ∀ calls ∈ s.ended, ∀ w ∈ calls, w.commit < s.commits.length
  group : (∀ p c, s.pc p = .inCommit c → ¬ c.Passed) →
    ∀ b, b ∈ s.log.mem.lh.blocks ↔ b ∈ s.group

omit [DecidableEq P] [Fintype P] in
lemma LogSys.OneCommit.mono (h : s.OneCommit calls)
    (hlands : ∀ w ∈ calls, s.Lands w → s'.Lands w) : s'.OneCommit calls := by
  obtain ⟨c, hc⟩ := h
  exact ⟨c, fun w hw => ⟨(hc w hw).1, hlands w hw (hc w hw).2⟩⟩

omit [DecidableEq P] [Fintype P] in
lemma HistoryInv.ended_append {s : LogSys P} (h : HistoryInv s) {p : P}
    (hp : s.pc p = .inOp calls) : ∀ cs ∈ s.ended ++ [calls], s.OneCommit cs := by
  intro cs hcs
  rcases List.mem_append.mp hcs with hcs | hcs
  · exact h.ended cs hcs
  · rw [List.mem_singleton.mp hcs]
    exact ⟨s.commits.length, fun w hw =>
      ⟨(h.current p calls hp w hw).1, .inr (h.current p calls hp w hw)⟩⟩

omit [DecidableEq P] [Fintype P] in
/-- The commit takes the blocks in the header. -/
lemma HistoryInv.commit_take {s : LogSys P} (h : HistoryInv s)
    (hcalls : calls ∈ s.ended) (s' : LogSys P)
    (hcommits : s'.commits = s.commits ++ [s.log.mem.lh.blocks]) :
    s'.OneCommit calls ∧ ∀ w ∈ calls, w.commit < s'.commits.length := by
  obtain ⟨c, hc⟩ := h.ended calls hcalls
  have hlen : s'.commits.length = s.commits.length + 1 := by simp [hcommits]
  have key : ∀ w ∈ calls, w.commit < s'.commits.length ∧
      w.block ∈ s'.commits.getD w.commit [] := by
    intro w hw
    rcases (hc w hw).2 with ⟨hlt, hmem⟩ | ⟨heq, hmem⟩
    · refine ⟨by omega, ?_⟩
      rw [hcommits, List.getD_eq_getElem?_getD, List.getElem?_append_left hlt,
        ← List.getD_eq_getElem?_getD]
      exact hmem
    · refine ⟨by omega, ?_⟩
      rw [hcommits, heq, List.getD_eq_getElem?_getD, List.getElem?_append_right le_rfl]
      simpa using hmem
  exact ⟨⟨c, fun w hw => ⟨(hc w hw).1, .inl (key w hw)⟩⟩, fun w hw => (key w hw).1⟩

/-- A commit is past its first `write_head` if it was before the step or the step makes it. -/
lemma passed_commitStep (m : LogMem) (c : CommitPc) :
    (commitStep m c).2.Passed ↔ c.Passed ∨ commitPassed m c = true := by
  cases c with
  | start =>
    rw [commitStep]
    split_ifs with h <;> simp [commitPassed, h]
  | writeLog tail | install tail =>
    rw [commitStep]
    split_ifs <;> simp [commitPassed]
  | writeHead | clear | eraseHead | done => simp [commitStep, commitPassed]

lemma HistoryInv.step (hcount : CountInv s) (hhead : HeadInv s)
    (h : HistoryInv s) (hstep : LogStep s s') : HistoryInv s' := by
  cases hstep with
  | stutter => exact h
  | enter p hp hc hfit =>
    refine ⟨fun q calls hq w hw => ?_, h.ended, fun q c hq => ?_, fun hno => ?_⟩
    · rcases update_eq_cases hq with ⟨_, ⟨⟩⟩ | ⟨_, hq'⟩
      · nomatch hw
      · exact h.current q calls hq' w hw
    · exact absurd (of_update hq (by simp)).2 (hcount.not_committing hc q c)
    · exact h.group fun q c hq => absurd hq (hcount.not_committing hc q c)
  | sleep p hp hwait =>
    refine ⟨fun q calls hq => ?_, h.ended, fun q c hq => ?_, fun hno => ?_⟩
    · exact h.current q calls (of_update hq (by simp)).2
    · exact h.passed q c (of_update hq (by simp)).2
    · exact h.group (forall_of_update (C := fun x => ∀ c, x = .inCommit c → ¬ c.Passed) hno
        fun c hc => absurd hc ((not_busy hp).2 c))
  | write p calls b data hp hroom =>
    have hfalse := hcount.not_committing_of_inOp (inOp_iff.mpr ⟨calls, hp⟩)
    have hnone := hcount.not_committing hfalse
    have hmem : ∀ {b' : UInt32}, b' ∈ (s.log.record b data).mem.lh.blocks ↔
        b' ∈ s.log.mem.lh.blocks ∨ b' = b := mem_blocks_record hhead.nonneg
    refine ⟨fun q cs hq w hw => ?_, fun cs hcs => ?_, fun q c hq => ?_, fun _ b' => ?_⟩
    · rcases update_eq_cases hq with ⟨_, ⟨⟩⟩ | ⟨_, hq'⟩
      · rcases List.mem_append.mp hw with hw | hw
        · have hcur := h.current p calls hp w hw
          exact ⟨hcur.1, hmem.mpr (.inl hcur.2)⟩
        · rw [List.mem_singleton.mp hw]
          exact ⟨rfl, hmem.mpr (.inr rfl)⟩
      · have hcur := h.current q cs hq' w hw
        exact ⟨hcur.1, hmem.mpr (.inl hcur.2)⟩
    · refine (h.ended cs hcs).mono fun w _ hw => ?_
      rcases hw with hw | ⟨heq, hb⟩
      · exact .inl hw
      · exact .inr ⟨heq, hmem.mpr (.inl hb)⟩
    · exact absurd (of_update hq (by simp)).2 (hnone q c)
    · have hgroup := h.group (fun q c hq => absurd hq (hnone q c)) b'
      rw [hmem, hgroup, List.mem_append, List.mem_singleton]
  | last p calls hp hc hout =>
    have hnone := hcount.not_committing hc
    refine ⟨fun q cs hq => ?_, h.ended_append hp, fun q c hq hpass => ?_, fun _ => ?_⟩
    · exact h.current q cs (of_update hq (by simp)).2
    · rcases update_eq_cases hq with ⟨_, ⟨⟩⟩ | ⟨_, hq'⟩
      · exact absurd hpass (by simp)
      · exact absurd hq' (hnone q c)
    · exact h.group fun q c hq => absurd hq (hnone q c)
  | leave p calls hp hc hout =>
    have hnone := hcount.not_committing hc
    refine ⟨fun q cs hq => ?_, h.ended_append hp, fun q c hq => ?_, fun _ => ?_⟩
    · exact h.current q cs (wakeup_eq_inOp.mp (of_update hq (by simp)).2)
    · exact absurd (wakeup_eq_inCommit.mp (of_update hq (by simp)).2) (hnone q c)
    · exact h.group fun q c hq => absurd hq (hnone q c)
  | commit p c hp hc =>
    have hno : ∀ q calls, update s.pc p (.inCommit (commitStep s.log.mem c).2) q ≠
        .inOp calls := by
      intro q calls hq
      exact hcount.alone p c hp q (inOp_iff.mpr ⟨calls, (of_update hq (by simp)).2⟩)
    have hself := update_self p (Pc.inCommit (commitStep s.log.mem c).2) s.pc
    by_cases htake : commitPassed s.log.mem c = true
    · -- the step that makes the commit stand
      have hpass : (commitStep s.log.mem c).2.Passed :=
        (passed_commitStep _ _).mpr (.inr htake)
      refine ⟨fun q cs hq => absurd hq (hno q cs), fun cs hcs => ?_, fun q c' _ _ => ?_,
        fun hnot => absurd hpass (hnot p _ hself)⟩
      · exact (h.commit_take hcs _ (if_pos htake)).1
      · exact ⟨if_pos htake, fun cs hcs => (h.commit_take hcs _ (if_pos htake)).2⟩
    · simp only [if_neg htake]
      have hiff : (commitStep s.log.mem c).2.Passed ↔ c.Passed := by
        rw [passed_commitStep]
        simp [htake]
      refine ⟨fun q cs hq => absurd hq (hno q cs), fun cs hcs => ?_, fun q c' hq hpass => ?_,
        fun hnot => ?_⟩
      · refine (h.ended cs hcs).mono fun w hw hland => ?_
        by_cases hclear : c = .clear
        · have hlt := (h.passed p c hp (by rw [hclear]; trivial)).2 cs hcs w hw
          rcases hland with hland | ⟨heq, _⟩
          · exact .inl hland
          · omega
        · rw [LogSys.Lands, commitStep_lh _ hclear]
          exact hland
      · rcases update_eq_cases hq with ⟨_, ⟨⟩⟩ | ⟨_, hq'⟩
        · exact h.passed p c hp (hiff.mp hpass)
        · exact h.passed q c' hq' hpass
      · have hnp : ¬ c.Passed := fun hcp => hnot p _ hself (hiff.mpr hcp)
        have hclear : c ≠ .clear := by
          rintro rfl
          exact hnp trivial
        rw [commitStep_lh _ hclear]
        exact h.group fun q c' hq => by rwa [hcount.point_eq hp hq]
  | finish p hp =>
    have hpass := h.passed p .done hp trivial
    have hn := hhead.empty hcount hp trivial
    refine ⟨fun q cs hq => ?_, h.ended, fun q c hq => ?_, fun _ b => ?_⟩
    · have hq' := wakeup_eq_inOp.mp (of_update hq (by simp)).2
      exact absurd (inOp_iff.mpr ⟨cs, hq'⟩) (hcount.alone p _ hp q)
    · obtain ⟨hqp, hq'⟩ := of_update hq (by simp)
      exact absurd (hcount.one q p c _ (wakeup_eq_inCommit.mp hq') hp) hqp
    · simp [LogHeader.blocks, hn, hpass.1]

/-! ### The invariant of the system -/

/-- The sleepers of `begin_op` wait for a commit, or for room that the operations under way
will give up. -/
def SleepInv (s : LogSys P) : Prop :=
  ∀ p, s.pc p = .asleep → s.log.committing = true ∨
    (logSize < s.log.mem.lh.n + (s.log.outstanding + 1) * maxOpBlocks ∧ 1 ≤ s.log.outstanding)

/-- **The invariant of the log and its processes.** -/
structure LogInv (s : LogSys P) : Prop where
  count : CountInv s
  head : HeadInv s
  history : HistoryInv s
  sleep : SleepInv s

lemma LogInv.sleep_step (h : LogInv s) (hstep : LogStep s s') : SleepInv s' := by
  intro q hq
  have hpos : 0 ≤ s.log.outstanding := by
    rw [h.count.outstanding]
    exact opCount_nonneg s.pc
  cases hstep with
  | stutter => exact h.sleep q hq
  | enter p hp hc hfit =>
    rcases h.sleep q (of_update hq (by simp)).2 with hcom | ⟨hwait, hone⟩
    · exact .inl hcom
    · exact .inr ⟨by dsimp only; omega, by dsimp only; omega⟩
  | sleep p hp hwait =>
    rcases update_eq_cases hq with _ | ⟨_, hq'⟩
    · by_cases hcom : s.log.committing = true
      · exact .inl hcom
      · have hroom := hwait.resolve_left hcom
        refine .inr ⟨hroom, ?_⟩
        by_contra hlt
        -- nobody is in an operation, so the log is empty and there is room
        have hzero : opCount s.pc = 0 := by
          rw [← h.count.outstanding]
          dsimp only at hlt
          omega
        have hn := h.head.quiet (opCount_eq_zero_iff.mp hzero) fun p c hp =>
          absurd hp (h.count.not_committing (by simpa using hcom) p c)
        rw [h.count.outstanding, hzero, hn] at hroom
        simp only [logSize, maxOpBlocks] at hroom
        omega
    · exact h.sleep q hq'
  | write p calls b data hp hroom =>
    obtain ⟨hle, _⟩ := record_n h.head.nonneg b
    rcases h.sleep q (of_update hq (by simp)).2 with hcom | ⟨hwait, hone⟩
    · exact .inl hcom
    · refine .inr ⟨?_, hone⟩
      simp only [Log.record]
      omega
  | last p calls hp hc hout => exact .inl rfl
  | leave | finish => exact absurd (of_update hq (by simp)).2 (wakeup_ne_asleep s.pc q)
  | commit p c hp hc => exact .inl (h.count.committing.mpr ⟨p, c, hp⟩)

/-- One action keeps the invariant. -/
lemma LogInv.step {a : LogAct P} (h : LogInv s) (hs : s.step a = .ok s') :
    LogInv s' := by
  have hstep := LogStep.of_step hs
  exact ⟨h.count.step hstep, h.head.step h.count hstep, h.history.step h.count h.head hstep,
    h.sleep_step hstep⟩

omit [DecidableEq P] in
lemma LogInv.boot (start size : ℕ) (disk : Disk) : LogInv (LogSys.boot P start size disk) := by
  refine ⟨⟨?_, ?_, ?_, ?_⟩, ⟨le_rfl, by simp [LogSys.boot, bootLog], ?_, fun _ _ => rfl⟩,
    ⟨?_, ?_, ?_, ?_⟩, ?_⟩ <;> simp [LogSys.boot, opCount, Pc.InOp, bootLog, LogHeader.blocks,
      SleepInv]

/-- The states reached from `initlog` by any actions of any processes. -/
abbrev LogSys.Reachable (start size : ℕ) (disk : Disk) : LogSys P → Prop :=
  Reach LogSys.step (fun _ _ => True) (LogSys.boot P start size disk)

/-- The invariant holds in every reachable state. -/
lemma LogInv.of_reach {ok : LogSys P → LogAct P → Prop} {start size : ℕ} {disk : Disk}
    {s : LogSys P} (h : Reach LogSys.step ok (LogSys.boot P start size disk) s) : LogInv s :=
  h.invariant (LogInv.boot start size disk) fun _ _ _ hinv _ hs => hinv.step hs

/-- **Group commit never splits an operation.** In every state that any interleaving of any
number of processes reaches: the calls of `log_write` of an operation, ended or under way, land
in one and the same commit; nobody commits while a process is between `begin_op` and `end_op`;
`log_write` leaves the header alone while `committing` is set; no action panics with
`log.committing`; and the header lists no block twice. -/
theorem group_commit (start size : ℕ) (disk : Disk) (s : LogSys P)
    (h : s.Reachable start size disk) :
    (∀ calls, (calls ∈ s.ended ∨ ∃ p, s.pc p = .inOp calls) → s.OneCommit calls) ∧
      (∀ p c, s.pc p = .inCommit c → ∀ q calls, s.pc q ≠ .inOp calls) ∧
      (s.log.committing = true → ∀ b data l, Log.logWrite s.log b data = .ok l →
        l.mem.lh = s.log.mem.lh) ∧
      (∀ a, s.step a ≠ .error .logCommitting) ∧
      s.log.mem.lh.blocks.Nodup := by
  have hinv := LogInv.of_reach h
  refine ⟨?_, ?_, ?_, ?_, hinv.head.nodup⟩
  · rintro calls (hended | ⟨p, hp⟩)
    · exact hinv.history.ended calls hended
    · exact ⟨s.commits.length, fun w hw => ⟨(hinv.history.current p calls hp w hw).1,
        .inr (hinv.history.current p calls hp w hw)⟩⟩
  · intro p c hp q calls hq
    exact hinv.count.alone p c hp q (inOp_iff.mpr ⟨calls, hq⟩)
  · intro hcom b data l hl
    have hzero := hinv.count.outstanding_eq_zero hcom
    rw [Log.logWrite, hzero] at hl
    split_ifs at hl
    omega
  · intro a ha
    cases a with
    | beginOp p =>
      rw [LogSys.step] at ha
      split at ha
      · split at ha <;> simp at ha
      · split at ha <;> simp at ha
      · simp at ha
    | logWrite p b data =>
      rw [LogSys.step] at ha
      split at ha
      · rw [Log.logWrite] at ha
        split_ifs at ha <;> simp at ha
      · simp at ha
    | endOp p =>
      rw [LogSys.step] at ha
      split at ha
      · next calls hp =>
          have hcom := hinv.count.not_committing_of_inOp (inOp_iff.mpr ⟨calls, hp⟩)
          have hok : ∀ e, Log.endOp s.log ≠ .error e := by
            intro e he
            rw [Log.endOp, if_neg (by simp [hcom])] at he
            split_ifs at he
          split at ha
          · simp at ha
          · simp at ha
          · next e he => exact hok e he
      · simp at ha
    | commit p =>
      rw [LogSys.step] at ha
      split at ha <;> simp at ha

/-- Two operations that log block 45 end together, and the commit writes its header. -/
def twoOps : Option (LogSys (Fin 2)) :=
  runChecked LogSys.step (fun _ _ => True)
    [.beginOp 0, .beginOp 1, .logWrite 0 45 (Bytes.zero bsize), .logWrite 1 45 (Bytes.zero bsize),
      .endOp 0, .endOp 1, .commit 1, .commit 1, .commit 1, .commit 1]
    (LogSys.boot (Fin 2) 2 30 fun _ => Bytes.zero bsize)

theorem group_commit_twoOps : ∃ s : LogSys (Fin 2),
    s.Reachable 2 30 (fun _ => Bytes.zero bsize) ∧ s.commits = [[45]] ∧ s.ended.length = 2 ∧
      ∀ calls ∈ s.ended, s.OneCommit calls := by
  have hrun : twoOps.map (fun s => (s.commits, s.ended.length)) = some ([[45]], 2) := by rfl
  obtain ⟨s, hs, hval⟩ := Option.map_eq_some_iff.mp hrun
  rw [Prod.mk.injEq] at hval
  have hreach : s.Reachable 2 30 (fun _ => Bytes.zero bsize) := Reach.of_runChecked .init hs
  exact ⟨s, hreach, hval.1, hval.2, fun calls hc =>
    (group_commit 2 30 _ s hreach).1 calls (.inl hc)⟩

end Col331
