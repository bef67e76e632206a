import Col331.Log.GroupCommit

/-!
The reservation that `begin_op` makes: `MAXOPBLOCKS` of the log for each operation under way.

* `lh_n_eq_card`: the header counts the distinct block numbers passed to `log_write` since the
  last commit, repeated ones being absorbed.
* `logWrite_fits_iff`: with the log area of `mkfs`, `log_write` finds room exactly as long as
  these are fewer than `LOGSIZE-1`.
* `fullHouse_panics`: three operations of `MAXOPBLOCKS` blocks each do not fit, although
  `begin_op` admits them together.
-/

namespace Col331

variable {P : Type} [DecidableEq P]

/-- The operation of the caller has passed at most `MAXOPBLOCKS` distinct block numbers to
`log_write`, this call included. -/
def WithinBudget (s : LogSys P) : LogAct P → Prop
  | .logWrite p b _ =>
    match s.pc p with
    | .inOp calls => (insert b (calls.map LogCall.block).toFinset).card ≤ maxOpBlocks
    | _ => True
  | _ => True

instance (s : LogSys P) : DecidablePred (WithinBudget s)
  | .logWrite p b _ =>
    match h : s.pc p with
    | .inOp calls =>
      decidable_of_iff ((insert b (calls.map LogCall.block).toFinset).card ≤ maxOpBlocks)
        (by rw [WithinBudget, h])
    | .idle | .asleep | .woken | .inCommit _ => .isTrue (by simp [WithinBudget, h])
  | .beginOp _ | .endOp _ | .commit _ => .isTrue trivial

/-- `log.size` never changes. -/
lemma reach_size {ok : LogSys P → LogAct P → Prop} {start size : ℕ} {disk : Disk} {s : LogSys P}
    (h : Reach LogSys.step ok (LogSys.boot P start size disk) s) : s.log.mem.size = size := by
  refine Reach.invariant (I := fun s => s.log.mem.size = size) rfl (fun s a s' hs _ hstep => ?_) h
  cases LogStep.of_step hstep with
  | stutter | enter | sleep | write | last | leave | finish => exact hs
  | commit p c hp hc => exact (commitStep_size s.log.mem c).trans hs

variable [Fintype P]

omit [DecidableEq P] in
/-- While no commit has taken them, the header counts the distinct block numbers passed to
`log_write` since the last commit. -/
lemma lh_n_eq_card {s : LogSys P} (hinv : LogInv s)
    (hno : ∀ p c, s.pc p = .inCommit c → ¬ c.Passed) :
    s.log.mem.lh.n = s.group.toFinset.card := by
  have hset : s.log.mem.lh.blocks.toFinset = s.group.toFinset := by
    ext b
    rw [List.mem_toFinset, List.mem_toFinset, hinv.history.group hno b]
  have hcard := List.toFinset_card_of_nodup hinv.head.nodup
  have hpos := hinv.head.nonneg
  rw [hset, LogHeader.blocks, List.length_map, List.length_range] at hcard
  omega

/-- **When the reservation is sufficient**: a process in an operation finds room in the log
exactly when fewer than `LOGSIZE-1` distinct block numbers were passed to `log_write` since the
last commit. -/
theorem logWrite_fits_iff (start : ℕ) (disk : Disk) (s : LogSys P)
    (h : Reach LogSys.step WithinBudget (LogSys.boot P start logSize disk) s)
    (p : P) (calls : List LogCall) (hp : s.pc p = .inOp calls) (b : UInt32) (data : Block) :
    s.step (.logWrite p b data) ≠ .error .tooBigTransaction ↔
      s.group.toFinset.card < logSize - 1 := by
  have hinv := LogInv.of_reach h
  have hin : (s.pc p).InOp := inOp_iff.mpr ⟨calls, hp⟩
  have hcom := hinv.count.not_committing_of_inOp hin
  have hn := lh_n_eq_card hinv fun q c hq => absurd hq (hinv.count.not_committing hcom q c)
  have hsize := reach_size h
  have hone : 1 ≤ s.log.outstanding := by
    rw [hinv.count.outstanding]
    by_contra hlt
    have hzero : opCount s.pc = 0 := le_antisymm (by omega) (opCount_nonneg s.pc)
    exact opCount_eq_zero_iff.mp hzero p hin
  -- the test `lh.n >= log.size - 1` decides, the caller being in an operation
  rw [LogSys.step, hp]
  simp only [Log.logWrite, hn, hsize, logSize, maxOpBlocks]
  split_ifs with hbig hout
  · simp only [ne_eq, not_true_eq_false, false_iff]
    omega
  · omega
  · simp only [ne_eq, reduceCtorEq, not_false_eq_true, true_iff]
    omega

/-- The system after `begin_op` of its only process. -/
def oneBegun : Option (LogSys (Fin 1)) :=
  runChecked LogSys.step WithinBudget [.beginOp 0]
    (LogSys.boot (Fin 1) 2 logSize fun _ => Bytes.zero bsize)

theorem logWrite_fits_oneBegun : ∃ s : LogSys (Fin 1),
    Reach LogSys.step WithinBudget (LogSys.boot (Fin 1) 2 logSize fun _ => Bytes.zero bsize) s ∧
      s.pc 0 = .inOp [] ∧
      s.step (.logWrite 0 45 (Bytes.zero bsize)) ≠ .error .tooBigTransaction := by
  have hrun : oneBegun.map (fun s => (s.pc 0, s.group)) = some (.inOp [], []) := by rfl
  obtain ⟨s, hs, hval⟩ := Option.map_eq_some_iff.mp hrun
  rw [Prod.mk.injEq] at hval
  have hreach := Reach.of_runChecked .init hs
  refine ⟨s, hreach, hval.1, (logWrite_fits_iff 2 _ s hreach 0 [] hval.1 45 _).mpr ?_⟩
  rw [hval.2]
  decide

/-- Three operations, two of them with `MAXOPBLOCKS` distinct blocks logged and the third with
one block less. -/
def fullHouse : Option (LogSys (Fin 3)) :=
  runChecked LogSys.step WithinBudget
    ([.beginOp 0, .beginOp 1, .beginOp 2] ++ (List.range 29).map fun i =>
      .logWrite (Fin.ofNat 3 (i / 10)) (UInt32.ofNat (100 + i)) (Bytes.zero bsize))
    (LogSys.boot (Fin 3) 2 logSize fun _ => Bytes.zero bsize)

/-- The last block of the third operation finds no room. -/
theorem fullHouse_panics : ∃ s : LogSys (Fin 3),
    Reach LogSys.step WithinBudget (LogSys.boot (Fin 3) 2 logSize fun _ => Bytes.zero bsize) s ∧
      WithinBudget s (.logWrite 2 129 (Bytes.zero bsize)) ∧
      s.step (.logWrite 2 129 (Bytes.zero bsize)) = .error .tooBigTransaction := by
  have hrun : fullHouse.map (fun s => decide (WithinBudget s (.logWrite 2 129 (Bytes.zero bsize)) ∧
      stopsWith .tooBigTransaction (s.step (.logWrite 2 129 (Bytes.zero bsize))))) = some true := by
    decide +kernel
  obtain ⟨s, hs, hval⟩ := Option.map_eq_some_iff.mp hrun
  obtain ⟨hbudget, hpanic⟩ := of_decide_eq_true hval
  exact ⟨s, Reach.of_runChecked .init hs, hbudget, stopsWith_eq_true hpanic⟩

end Col331
