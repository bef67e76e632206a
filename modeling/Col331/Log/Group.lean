import Col331.Log.Commit
import Col331.Logic.Reach

/-!
Group commit (`log.c`): `begin_op`, `log_write` and `end_op` of any number of processes, each
atomic under `log.lock`, and the commit that the last `end_op` runs after it has dropped the
lock.

* `Log.beginOp`, `Log.logWrite`, `Log.endOp`: the critical sections, as functions of the log.
* `commitStep`: one step of `commit`, a block write or a test; `commitRuns_commit`: run to its
  end it is `LogMem.commit`.
* `LogSys.step`: the system, one action of one process at a time; `LogStep.of_step`: what an
  action can do.
-/

namespace Col331

open Function

/-! ### The critical sections -/

/-- `struct log` with the buffer cache and the disk below it. -/
structure Log where
  outstanding : ℤ
  committing : Bool
  mem : LogMem

/-- `lh.block[0..n)`. -/
def LogHeader.blocks (lh : LogHeader) : List UInt32 := (List.range lh.n.toNat).map lh.block

/-- One round of the loop of `begin_op`; `none` when the caller goes to sleep. -/
def Log.beginOp (l : Log) : Option Log :=
  if l.committing then none
  else if l.mem.lh.n + (l.outstanding + 1) * maxOpBlocks > logSize then none
  else some { l with outstanding := l.outstanding + 1 }

/-- The loop of `log_write`: the first entry that holds `b`, or `n`. -/
def absorbSlot (lh : LogHeader) (b : UInt32) : ℕ :=
  ((List.range lh.n.toNat).find? fun i => lh.block i = b).getD lh.n.toNat

/-- The header after `log_write` has recorded the block `b`. -/
def LogHeader.record (lh : LogHeader) (b : UInt32) : LogHeader :=
  let i := absorbSlot lh b
  { block := update lh.block i b
    n := if (i : ℤ) = lh.n then lh.n + 1 else lh.n }

/-- The log after `log_write` has recorded the block `b` and pinned its buffer. -/
def Log.record (l : Log) (b : UInt32) (data : Block) : Log :=
  { l with
    mem.lh := l.mem.lh.record b
    mem.pinned := update l.mem.pinned b.toNat (some data) }

/-- `log_write` of the buffer of block `b`, which the caller has set to `data`. -/
def Log.logWrite (l : Log) (b : UInt32) (data : Block) : Except Panic Log :=
  if l.mem.lh.n ≥ logSize ∨ l.mem.lh.n ≥ (l.mem.size : ℤ) - 1 then .error .tooBigTransaction
  else if l.outstanding < 1 then .error .outsideTrans
  else .ok (l.record b data)

/-- The first critical section of `end_op`; the flag is `do_commit`. -/
def Log.endOp (l : Log) : Except Panic (Bool × Log) :=
  if l.committing then .error .logCommitting
  else if l.outstanding - 1 = 0 then
    .ok (true, { l with outstanding := l.outstanding - 1, committing := true })
  else .ok (false, { l with outstanding := l.outstanding - 1 })

/-! ### The commit, step by step -/

/-- Where a commit is. -/
inductive CommitPc where
  | start
  | writeLog (tail : ℕ)
  | writeHead
  | install (tail : ℕ)
  | clear
  | eraseHead
  | done
  deriving DecidableEq, Repr

/-- The next step of `commit`. -/
def commitStep (m : LogMem) : CommitPc → LogMem × CommitPc
  | .start => if 0 < m.lh.n then (m, .writeLog 0) else (m, .done)
  | .writeLog tail =>
    if (tail : ℤ) < m.lh.n then
      (m.bwrite (m.start + tail + 1) (m.bread (m.lh.block tail).toNat), .writeLog (tail + 1))
    else (m, .writeHead)
  | .writeHead => (m.writeHead, .install 0)
  | .install tail =>
    if (tail : ℤ) < m.lh.n then
      (m.bwrite (m.lh.block tail).toNat (m.bread (m.start + tail + 1)), .install (tail + 1))
    else (m, .clear)
  | .clear => (m.clearHead, .eraseHead)
  | .eraseHead => (m.writeHead, .done)
  | .done => (m, .done)

/-- Some number of steps of `commit`. -/
abbrev CommitRuns : LogMem × CommitPc → LogMem × CommitPc → Prop :=
  Relation.ReflTransGen fun x y => commitStep x.1 x.2 = y

/-- A loop of block writes leaves the header in memory alone. -/
lemma foldl_bwrite_lh (f : LogMem → ℕ → ℕ) (g : LogMem → ℕ → Block) (l : List ℕ) (m : LogMem) :
    (l.foldl (fun m' t => m'.bwrite (f m' t) (g m' t)) m).lh = m.lh := by
  induction l generalizing m with
  | nil => rfl
  | cons t l ih => exact ih _

/-- A loop of `commit`, run to its end. -/
lemma commitRuns_loop {pc : ℕ → CommitPc} {out : CommitPc} {f : LogMem → ℕ → ℕ}
    {g : LogMem → ℕ → Block}
    (hpc : ∀ m t, commitStep m (pc t) =
      if (t : ℤ) < m.lh.n then (m.bwrite (f m t) (g m t), pc (t + 1)) else (m, out))
    (m : LogMem) :
    CommitRuns (m, pc 0)
      ((List.range m.lh.n.toNat).foldl (fun m' t => m'.bwrite (f m' t) (g m' t)) m, out) := by
  have key : ∀ k ≤ m.lh.n.toNat, CommitRuns (m, pc 0)
      ((List.range k).foldl (fun m' t => m'.bwrite (f m' t) (g m' t)) m, pc k) := by
    intro k
    induction k with
    | zero => exact fun _ => .refl
    | succ k ih =>
      intro hk
      refine (ih (by omega)).tail ?_
      rw [hpc, foldl_bwrite_lh, if_pos (by omega), List.range_succ, List.foldl_append]
      rfl
  refine (key _ le_rfl).tail ?_
  rw [hpc, foldl_bwrite_lh, if_neg (by omega)]

/-- **The steps of `commit` add up to `commit`.** -/
theorem commitRuns_commit (m : LogMem) : CommitRuns (m, .start) (m.commit, .done) := by
  by_cases hn : 0 < m.lh.n
  · have h1 : CommitRuns (m, .start) (m, .writeLog 0) :=
      .single (by rw [commitStep, if_pos hn])
    have h2 : CommitRuns (m, .writeLog 0) (m.writeLog, .writeHead) :=
      commitRuns_loop (fun _ _ => rfl) m
    have h3 : CommitRuns (m.writeLog, .writeHead) (m.writeLog.writeHead, .install 0) :=
      .single rfl
    have h4 : CommitRuns (m.writeLog.writeHead, .install 0)
        (m.writeLog.writeHead.installTrans, .clear) := commitRuns_loop (fun _ _ => rfl) _
    have h5 : CommitRuns (m.writeLog.writeHead.installTrans, .clear)
        (m.writeLog.writeHead.installTrans.clearHead, .eraseHead) := .single rfl
    have h6 : CommitRuns (m.writeLog.writeHead.installTrans.clearHead, .eraseHead)
        (m.writeLog.writeHead.installTrans.clearHead.writeHead, .done) := .single rfl
    rw [LogMem.commit, if_pos hn]
    exact ((((h1.trans h2).trans h3).trans h4).trans h5).trans h6
  · rw [LogMem.commit, if_neg hn]
    exact .single (by rw [commitStep, if_neg hn])

/-- The step after which the commit stands: the first `write_head`, or the test at the start
when nothing is logged. -/
def commitPassed (m : LogMem) : CommitPc → Bool
  | .start => ¬ 0 < m.lh.n
  | .writeHead => true
  | _ => false

/-- The first `write_head` has been made. -/
@[simp] def CommitPc.Passed : CommitPc → Prop
  | .install _ | .clear | .eraseHead | .done => True
  | _ => False

/-- The in-memory header has been cleared. -/
@[simp] def CommitPc.Cleared : CommitPc → Prop
  | .eraseHead | .done => True
  | _ => False

/-! ### The system -/

/-- A call of `log_write`: the block number, and the number of the commit that was to come. -/
structure LogCall where
  block : UInt32
  commit : ℕ

/-- Where a process is. -/
inductive Pc where
  /-- Outside `begin_op..end_op`. -/
  | idle
  /-- In `begin_op`, SLEEPING on `&log`. -/
  | asleep
  /-- In `begin_op`, woken up and about to test again. -/
  | woken
  /-- Between `begin_op` and `end_op`, having made the calls `calls` of `log_write`. -/
  | inOp (calls : List LogCall)
  /-- In `end_op`, running `commit`. -/
  | inCommit (pc : CommitPc)

/-- Between `begin_op` and `end_op`. -/
def Pc.InOp : Pc → Prop
  | .inOp _ => True
  | _ => False

instance : DecidablePred Pc.InOp
  | .inOp _ => .isTrue trivial
  | .idle | .asleep | .woken | .inCommit _ => .isFalse id

/-- The log and the processes that use it.  The last three fields are a history: the blocks of
each commit that was made, the calls of each operation that has ended, and the block numbers
passed to `log_write` since the last commit. -/
structure LogSys (P : Type) where
  log : Log
  pc : P → Pc
  commits : List (List UInt32)
  ended : List (List LogCall)
  group : List UInt32

/-- An action of the process `p`. -/
inductive LogAct (P : Type) where
  | beginOp (p : P)
  | logWrite (p : P) (b : UInt32) (data : Block)
  | endOp (p : P)
  | commit (p : P)

variable {P : Type} [DecidableEq P]

/-- `wakeup(&log)`. -/
def wakeup (pc : P → Pc) : P → Pc := fun p =>
  match pc p with
  | .asleep => .woken
  | c => c

/-- One action.  A process that is not at the point an action starts from does nothing. -/
def LogSys.step (s : LogSys P) : LogAct P → Except Panic (LogSys P)
  | .beginOp p =>
    match s.pc p with
    | .idle | .woken =>
      match Log.beginOp s.log with
      | some l => .ok { s with log := l, pc := update s.pc p (.inOp []) }
      | none => .ok { s with pc := update s.pc p .asleep }
    | _ => .ok s
  | .logWrite p b data =>
    match s.pc p with
    | .inOp calls =>
      match Log.logWrite s.log b data with
      | .ok l => .ok { s with
          log := l
          pc := update s.pc p (.inOp (calls ++ [⟨b, s.commits.length⟩]))
          group := s.group ++ [b] }
      | .error e => .error e
    | _ => .ok s
  | .endOp p =>
    match s.pc p with
    | .inOp calls =>
      match Log.endOp s.log with
      | .ok (true, l) => .ok { s with
          log := l
          pc := update s.pc p (.inCommit .start)
          ended := s.ended ++ [calls] }
      | .ok (false, l) => .ok { s with
          log := l
          pc := update (wakeup s.pc) p .idle
          ended := s.ended ++ [calls] }
      | .error e => .error e
    | _ => .ok s
  | .commit p =>
    match s.pc p with
    | .inCommit .done => .ok { s with
        log.committing := false
        pc := update (wakeup s.pc) p .idle }
    | .inCommit c =>
      let passed := commitPassed s.log.mem c
      .ok { s with
        log.mem := (commitStep s.log.mem c).1
        pc := update s.pc p (.inCommit (commitStep s.log.mem c).2)
        commits := if passed then s.commits ++ [s.log.mem.lh.blocks] else s.commits
        group := if passed then [] else s.group }
    | _ => .ok s

/-- The system after `initlog`: nothing is logged and no process uses the log. -/
def LogSys.boot (P : Type) (start size : ℕ) (disk : Disk) : LogSys P :=
  { log := ⟨0, false, bootLog start size disk⟩
    pc := fun _ => .idle
    commits := []
    ended := []
    group := [] }

/-! ### What one action can do -/

variable {lh : LogHeader} {b : UInt32}

lemma mem_blocks :
    b ∈ lh.blocks ↔ ∃ i < lh.n.toNat, lh.block i = b := by
  simp [LogHeader.blocks]

/-- A logged block is found in its entry. -/
lemma absorbSlot_of_mem (h : b ∈ lh.blocks) :
    absorbSlot lh b < lh.n.toNat ∧ lh.block (absorbSlot lh b) = b := by
  rw [absorbSlot]
  cases hf : (List.range lh.n.toNat).find? fun i => lh.block i = b with
  | none =>
    obtain ⟨i, hi, hib⟩ := mem_blocks.mp h
    have := List.find?_eq_none.mp hf i (List.mem_range.mpr hi)
    simp [hib] at this
  | some i =>
    have hmem := List.mem_of_find?_eq_some hf
    have hprop := List.find?_some hf
    exact ⟨List.mem_range.mp hmem, by simpa using hprop⟩

/-- A block that is not logged gets the next entry. -/
lemma absorbSlot_of_notMem (h : b ∉ lh.blocks) :
    absorbSlot lh b = lh.n.toNat := by
  rw [absorbSlot]
  cases hf : (List.range lh.n.toNat).find? fun i => lh.block i = b with
  | none => rfl
  | some i =>
    have hmem := List.mem_range.mp (List.mem_of_find?_eq_some hf)
    have hprop := List.find?_some hf
    exact absurd (mem_blocks.mpr ⟨i, hmem, by simpa using hprop⟩) h

/-- A logged block is absorbed. -/
lemma record_of_mem (h0 : 0 ≤ lh.n) (h : b ∈ lh.blocks) :
    lh.record b = lh := by
  obtain ⟨hlt, heq⟩ := absorbSlot_of_mem h
  have hupd : update lh.block (absorbSlot lh b) b = lh.block :=
    update_eq_self_iff.mpr heq.symm
  simp only [LogHeader.record, hupd, if_neg (show ¬ (absorbSlot lh b : ℤ) = lh.n by omega)]

/-- A new block is appended. -/
lemma record_of_notMem (h0 : 0 ≤ lh.n) (h : b ∉ lh.blocks) :
    lh.record b = { n := lh.n + 1, block := update lh.block lh.n.toNat b } := by
  simp only [LogHeader.record, absorbSlot_of_notMem h, Int.toNat_of_nonneg h0, if_pos]

/-- The blocks after `log_write`. -/
lemma blocks_record (h0 : 0 ≤ lh.n) (b : UInt32) :
    (lh.record b).blocks = if b ∈ lh.blocks then lh.blocks else lh.blocks ++ [b] := by
  by_cases h : b ∈ lh.blocks
  · rw [record_of_mem h0 h, if_pos h]
  · rw [record_of_notMem h0 h, if_neg h, LogHeader.blocks, LogHeader.blocks]
    simp only [Int.toNat_add h0 one_pos.le, Int.toNat_one, List.range_succ, List.map_append,
      List.map_cons, List.map_nil, update_self]
    congr 1
    refine List.map_congr_left fun i hi => update_of_ne ?_ _ _
    exact (List.mem_range.mp hi).ne

lemma mem_blocks_record (h0 : 0 ≤ lh.n) {b b' : UInt32} :
    b' ∈ (lh.record b).blocks ↔ b' ∈ lh.blocks ∨ b' = b := by
  rw [blocks_record h0]
  split_ifs with h
  · constructor
    · exact .inl
    · rintro (hb | rfl)
      · exact hb
      · exact h
  · simp

/-- The step of `commit` changes the header only where it clears it. -/
lemma commitStep_lh (m : LogMem) {c : CommitPc} (hc : c ≠ .clear) :
    (commitStep m c).1.lh = m.lh := by
  cases c with
  | start | writeLog | install =>
    rw [commitStep]
    split_ifs <;> rfl
  | writeHead | eraseHead | done => rfl
  | clear => exact absurd rfl hc

lemma commitStep_size (m : LogMem) (c : CommitPc) : (commitStep m c).1.size = m.size := by
  cases c with
  | start | writeLog | install =>
    rw [commitStep]
    split_ifs <;> rfl
  | writeHead | clear | eraseHead | done => rfl

/-- What an action that does not panic can do. -/
inductive LogStep (s : LogSys P) : LogSys P → Prop where
  | stutter : LogStep s s
  | enter (p : P) (hp : s.pc p = .idle ∨ s.pc p = .woken) (hc : s.log.committing = false)
      (hfit : s.log.mem.lh.n + (s.log.outstanding + 1) * maxOpBlocks ≤ logSize) :
      LogStep s { s with
        log.outstanding := s.log.outstanding + 1
        pc := update s.pc p (.inOp []) }
  | sleep (p : P) (hp : s.pc p = .idle ∨ s.pc p = .woken)
      (hwait : s.log.committing = true ∨
        logSize < s.log.mem.lh.n + (s.log.outstanding + 1) * maxOpBlocks) :
      LogStep s { s with pc := update s.pc p .asleep }
  | write (p : P) (calls : List LogCall) (b : UInt32) (data : Block) (hp : s.pc p = .inOp calls)
      (hroom : s.log.mem.lh.n < logSize) :
      LogStep s { s with
        log := s.log.record b data
        pc := update s.pc p (.inOp (calls ++ [⟨b, s.commits.length⟩]))
        group := s.group ++ [b] }
  | last (p : P) (calls : List LogCall) (hp : s.pc p = .inOp calls)
      (hc : s.log.committing = false) (hout : s.log.outstanding = 1) :
      LogStep s { s with
        log.outstanding := 0
        log.committing := true
        pc := update s.pc p (.inCommit .start)
        ended := s.ended ++ [calls] }
  | leave (p : P) (calls : List LogCall) (hp : s.pc p = .inOp calls)
      (hc : s.log.committing = false) (hout : s.log.outstanding ≠ 1) :
      LogStep s { s with
        log.outstanding := s.log.outstanding - 1
        pc := update (wakeup s.pc) p .idle
        ended := s.ended ++ [calls] }
  | commit (p : P) (c : CommitPc) (hp : s.pc p = .inCommit c) (hc : c ≠ .done) :
      LogStep s { s with
        log.mem := (commitStep s.log.mem c).1
        pc := update s.pc p (.inCommit (commitStep s.log.mem c).2)
        commits := if commitPassed s.log.mem c then s.commits ++ [s.log.mem.lh.blocks]
          else s.commits
        group := if commitPassed s.log.mem c then [] else s.group }
  | finish (p : P) (hp : s.pc p = .inCommit .done) :
      LogStep s { s with
        log.committing := false
        pc := update (wakeup s.pc) p .idle }

/-- **What one action can do**: every action that does not panic is one of the steps above. -/
lemma LogStep.of_step {s s' : LogSys P} {a : LogAct P} (h : s.step a = .ok s') : LogStep s s' := by
  cases a with
  | beginOp p =>
    have key : (s.pc p = .idle ∨ s.pc p = .woken) →
        (match Log.beginOp s.log with
          | some l => Except.ok { s with log := l, pc := update s.pc p (.inOp []) }
          | none => .ok { s with pc := update s.pc p .asleep }) =
            (.ok s' : Except Panic (LogSys P)) → LogStep s s' := by
      intro hp h
      rw [Log.beginOp] at h
      split_ifs at h with hc hfit
      · exact Except.ok.inj h ▸ .sleep p hp (.inl hc)
      · exact Except.ok.inj h ▸ .sleep p hp (.inr hfit)
      · exact Except.ok.inj h ▸ .enter p hp (by simpa using hc) (not_lt.mp hfit)
    cases hp : s.pc p <;> rw [LogSys.step, hp] at h
    case idle => exact key (.inl hp) h
    case woken => exact key (.inr hp) h
    all_goals exact Except.ok.inj h ▸ .stutter
  | logWrite p b data =>
    cases hp : s.pc p <;> rw [LogSys.step, hp] at h
    case inOp calls =>
      simp only [Log.logWrite] at h
      split_ifs at h with hbig hout
      exact Except.ok.inj h ▸ .write p calls b data hp (by omega)
    all_goals exact Except.ok.inj h ▸ .stutter
  | endOp p =>
    cases hp : s.pc p <;> rw [LogSys.step, hp] at h
    case inOp calls =>
      simp only [Log.endOp] at h
      split_ifs at h with hc hout
      · have hone : s.log.outstanding = 1 := by omega
        simp only [hout] at h
        exact Except.ok.inj h ▸ .last p calls hp (by simpa using hc) hone
      · exact Except.ok.inj h ▸ .leave p calls hp (by simpa using hc) (by omega)
    all_goals exact Except.ok.inj h ▸ .stutter
  | commit p =>
    cases hp : s.pc p <;> rw [LogSys.step, hp] at h
    case inCommit c =>
      cases c
      case done => exact Except.ok.inj h ▸ .finish p hp
      all_goals exact Except.ok.inj h ▸ .commit p _ hp (by simp)
    all_goals exact Except.ok.inj h ▸ .stutter

end Col331
