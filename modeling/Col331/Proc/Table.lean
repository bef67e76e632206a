import Col331.Kernel.Param

/-!
The process table of `proc.c`, and what the functions of `proc.c` do to it while they hold
`ptable.lock`.

* `ProcState`, `ProcState.slot`: the states, and the four stages in the life of a slot.
* `wakeup1`, `killProc`, `waitScan`, `reap`, `exitSection`: the critical sections.
* `wakeup1_slot`, `exitSection_slot`, `exitSection_parent`: what they leave alone.
-/

namespace Col331

open Function

/-- `enum procstate`. -/
inductive ProcState where
  | unused | embryo | sleeping | runnable | running | zombie
  deriving DecidableEq, Repr

/-- Where a slot of the process table is in its life. -/
inductive ProcSlot where
  | unused | embryo | used | zombie
  deriving DecidableEq, Repr

/-- A process sleeps, waits for a CPU or has one. -/
@[simp] def ProcState.slot : ProcState → ProcSlot
  | .unused => .unused
  | .embryo => .embryo
  | .sleeping | .runnable | .running => .used
  | .zombie => .zombie

/-- What a process sleeps on: a slot of the process table in `wait`, or any other address. -/
inductive ProcChan where
  | proc (p : Fin nproc)
  | other (a : ℕ)
  deriving DecidableEq, Repr

/-- The fields of `struct proc` that scheduling uses; a null pointer is `none`. -/
structure Proc where
  state : ProcState
  pid : ℤ
  parent : Option (Fin nproc)
  killed : Bool
  chan : Option ProcChan
  deriving DecidableEq, Repr

/-- `ptable.proc`. -/
abbrev ProcTable := Fin nproc → Proc

/-! ### Critical sections -/

/-- `wakeup1`. -/
def wakeup1 (t : ProcTable) (chan : Option ProcChan) : ProcTable := fun q =>
  if (t q).state = .sleeping ∧ (t q).chan = chan then { t q with state := .runnable } else t q

/-- The search of `allocproc`. -/
def findUnused (t : ProcTable) : Option (Fin nproc) :=
  (List.finRange nproc).find? fun q => (t q).state = .unused

/-- The search of `kill`. -/
def findPid (t : ProcTable) (pid : ℤ) : Option (Fin nproc) :=
  (List.finRange nproc).find? fun q => (t q).pid = pid

/-- `kill`, with what it returns. -/
def killProc (t : ProcTable) (pid : ℤ) : ℤ × ProcTable :=
  match findPid t pid with
  | none => (-1, t)
  | some q =>
    let p := { t q with killed := true }
    (0, update t q
      (if p.state = .sleeping then { p with state := .runnable } else p))

/-- What `wait` finds. -/
inductive WaitResult where
  /-- It returns the pid of the child in the slot `q`. -/
  | reaped (q : Fin nproc) (pid : ℤ)
  /-- It returns -1. -/
  | failed
  /-- It sleeps until a child exits. -/
  | sleeps
  deriving DecidableEq

/-- A round of the loop of `wait`. -/
def waitScan (t : ProcTable) (p : Fin nproc) : WaitResult :=
  match (List.finRange nproc).find? fun q => (t q).parent = some p ∧ (t q).state = .zombie with
  | some q => .reaped q (t q).pid
  | none =>
    let havekids := (List.finRange nproc).any fun q => (t q).parent = some p
    if !havekids || (t p).killed then .failed else .sleeps

/-- What `wait` does to the slot of the child it has found. -/
def reap (t : ProcTable) (q : Fin nproc) : ProcTable :=
  update t q { t q with state := .unused, pid := 0, parent := none, killed := false }

/-- A round of the loop of `exit` that passes abandoned children to `init`. -/
def passOn (p : Fin nproc) (t : ProcTable) (q : Fin nproc) : ProcTable :=
  if (t q).parent = some p then
    let t := update t q { t q with parent := some initproc }
    if (t q).state = .zombie then wakeup1 t (some (.proc initproc)) else t
  else t

/-- The critical section of `exit`. -/
def exitSection (t : ProcTable) (p : Fin nproc) : ProcTable :=
  let t := wakeup1 t ((t p).parent.map .proc)
  let t := (List.finRange nproc).foldl (passOn p) t
  update t p { t p with state := .zombie }

/-! ### What they leave alone -/

/-- The slot of a process: the same stage of its life, pid and `killed`, whatever its state. -/
structure SameProc (a b : Proc) : Prop where
  slot : b.state.slot = a.state.slot
  pid : b.pid = a.pid
  killed : b.killed = a.killed

lemma SameProc.refl (a : Proc) : SameProc a a := ⟨rfl, rfl, rfl⟩

lemma SameProc.trans {a b c : Proc} (h : SameProc a b) (h' : SameProc b c) : SameProc a c :=
  ⟨h'.slot.trans h.slot, h'.pid.trans h.pid, h'.killed.trans h.killed⟩

variable (t : ProcTable) (p q : Fin nproc)

lemma wakeup1_same (chan : Option ProcChan) : SameProc (t q) (wakeup1 t chan q) := by
  rw [wakeup1]
  split_ifs with h
  · exact ⟨by simp [h.1], rfl, rfl⟩
  · exact .refl _

@[simp] lemma wakeup1_parent (chan : Option ProcChan) : (wakeup1 t chan q).parent = (t q).parent := by
  rw [wakeup1]
  split_ifs <;> rfl

/-- `kill` sets `killed`, and wakes the process up at most. -/
lemma killProc_same (pid : ℤ) : ((killProc t pid).2 q).state.slot = (t q).state.slot ∧
    ((killProc t pid).2 q).pid = (t q).pid ∧ ((killProc t pid).2 q).parent = (t q).parent := by
  rw [killProc]
  split
  · exact ⟨rfl, rfl, rfl⟩
  · rename_i r _
    by_cases hq : q = r
    · subst hq
      dsimp only
      rw [update_self]
      split_ifs with h
      · exact ⟨by simp [h], rfl, rfl⟩
      · exact ⟨rfl, rfl, rfl⟩
    · dsimp only
      rw [update_of_ne hq]
      exact ⟨rfl, rfl, rfl⟩

/-- One child is passed to `init`. -/
lemma passOn_same (r : Fin nproc) : SameProc (t r) (passOn p t q r) := by
  have hset : SameProc (t r) (update t q { t q with parent := some initproc } r) := by
    by_cases hr : r = q
    · subst hr
      rw [update_self]
      exact ⟨rfl, rfl, rfl⟩
    · rw [update_of_ne hr]
      exact .refl _
  unfold passOn
  by_cases hq : (t q).parent = some p
  · rw [if_pos hq]
    split_ifs
    · exact hset.trans (wakeup1_same _ _ _)
    · exact hset
  · rw [if_neg hq]
    exact .refl _

lemma passOn_parent (r : Fin nproc) : (passOn p t q r).parent =
    if r = q ∧ (t q).parent = some p then some initproc else (t r).parent := by
  have hset : (update t q { t q with parent := some initproc } r).parent =
      if r = q then some initproc else (t r).parent := by
    by_cases hr : r = q
    · subst hr
      rw [update_self, if_pos rfl]
    · rw [update_of_ne hr, if_neg hr]
  unfold passOn
  by_cases hq : (t q).parent = some p
  · rw [if_pos hq]
    simp only [hq, and_true]
    rw [← hset]
    split_ifs
    · exact wakeup1_parent ..
    · rfl
  · simp [hq]

/-- The loop of `exit`. -/
lemma foldl_passOn_same (l : List (Fin nproc)) : SameProc (t q) (l.foldl (passOn p) t q) := by
  induction l generalizing t with
  | nil => exact .refl _
  | cons r l ih => exact (passOn_same t p r q).trans (ih (passOn p t r))

lemma foldl_passOn_parent (hp : p ≠ initproc) (l : List (Fin nproc)) :
    (l.foldl (passOn p) t q).parent =
      if q ∈ l ∧ (t q).parent = some p then some initproc else (t q).parent := by
  induction l generalizing t with
  | nil => simp
  | cons r l ih =>
    rw [List.foldl_cons, ih, passOn_parent]
    by_cases hq : (t q).parent = some p
    · by_cases hr : q = r
      · subst hr
        simp [hq, Ne.symm hp]
      · simp [hq, hr]
    · by_cases hr : q = r
      · subst hr
        simp [hq]
      · simp [hq, hr]

/-- The process becomes a zombie, and other slots stay at the stage they are at. -/
lemma exitSection_slot :
    (exitSection t p q).state.slot = if q = p then .zombie else (t q).state.slot := by
  rw [exitSection]
  by_cases hq : q = p
  · subst hq
    simp
  · rw [update_of_ne hq, if_neg hq]
    exact ((wakeup1_same t q _).trans (foldl_passOn_same _ p q _)).slot

lemma exitSection_same : (exitSection t p q).pid = (t q).pid ∧
    (exitSection t p q).killed = (t q).killed := by
  have h := (wakeup1_same t q ((t p).parent.map .proc)).trans
    (foldl_passOn_same _ p q (List.finRange nproc))
  rw [exitSection]
  by_cases hq : q = p
  · subst hq
    simp [h.pid, h.killed]
  · rw [update_of_ne hq]
    exact ⟨h.pid, h.killed⟩

/-- The children of the process are those of `init` from now on. -/
lemma exitSection_parent (hp : p ≠ initproc) : (exitSection t p q).parent =
    if (t q).parent = some p then some initproc else (t q).parent := by
  have h : ((List.finRange nproc).foldl (passOn p) (wakeup1 t ((t p).parent.map .proc)) q).parent =
      if (t q).parent = some p then some initproc else (t q).parent := by
    rw [foldl_passOn_parent _ _ _ hp, wakeup1_parent]
    simp [List.mem_finRange]
  rw [exitSection]
  by_cases hq : q = p
  · subst hq
    simpa using h
  · rw [update_of_ne hq]
    exact h

end Col331
