import Mathlib.Tactic

/-!
The scheduler of the user-level thread package (`uthread.h`, `uthread.c`,
`uthread_student.c`).

`thread_schedule` is to run the RUNNABLE thread of the numerically smallest priority, the
threads of one priority taking turns.  It walks the table once, cyclically, from the slot
after `current_thread`, and keeps the best candidate seen so far.

* `ScanInv`, `scanStep_inv` and `scan_inv`: the loop invariant, one step of the walk and the
  whole walk.  After `i` steps the candidate is the policy's choice among the first `i` slots.
* `threadSchedule_of_policy`: what the function does with the candidate, the wrap test left
  over from the original scheduler included.
* `threadSchedule_meetsPolicy_iff`: the scheduler follows its policy exactly when some thread
  is RUNNABLE and the leftover wrap test does not overrule the walk.
-/

namespace Col331.Uthread

/-! ### The thread table -/

/-- `MAX_THREAD`. -/
abbrev maxThread : ℕ := 8

instance : NeZero maxThread := ⟨by decide⟩

/-- `MAX_PRIORITY`. -/
abbrev maxPriority : ℤ := 100

/-- The values of `state`: `FREE`, `RUNNING` and `RUNNABLE`. -/
inductive ThreadState where
  | free | running | runnable
  deriving DecidableEq, Repr

/-- The fields of `struct thread` that the scheduler reads and writes. -/
structure Thread where
  state : ThreadState
  priority : ℤ
  deriving DecidableEq, Repr

/-- `all_thread`. -/
abbrev ThreadTable := Fin maxThread → Thread

/-- A thread of the table is RUNNABLE. -/
def Runnable (all : ThreadTable) (n : Fin maxThread) : Prop := (all n).state = .runnable

instance (all : ThreadTable) (n : Fin maxThread) : Decidable (Runnable all n) :=
  inferInstanceAs (Decidable ((all n).state = .runnable))

/-! ### `thread_schedule` -/

/-- The locals of the search loop.  The thread pointers `t` and `bestthread` are offsets from
`all_thread`, so `maxThread` is the address just past the table. -/
structure Scan where
  t : ℕ
  best : ℤ
  bestthread : ℕ
  deriving DecidableEq, Repr

/-- The wrap test at the top of the loop body. -/
def wrap (t : ℕ) : Fin maxThread := if h : t < maxThread then ⟨t, h⟩ else 0

/-- The body of the search loop. -/
def scanStep (all : ThreadTable) (σ : Scan) : Scan :=
  let t := wrap σ.t
  if (all t).state = .runnable then
    if (all t).priority < σ.best then
      { t := t + 1, best := (all t).priority, bestthread := t }
    else { σ with t := t + 1 }
  else { σ with t := t + 1 }

/-- `n` rounds of the search loop. -/
def scan (all : ThreadTable) : ℕ → Scan → Scan
  | 0, σ => σ
  | n + 1, σ => scan all n (scanStep all σ)

/-- The locals before the first round: `t = current_thread+1`, `best = 99999` and
`bestthread = t`. -/
def scanInit (cur : Fin maxThread) : Scan :=
  { t := cur + 1, best := 99999, bestthread := cur + 1 }

/-- How a call of `thread_schedule` ends. -/
inductive Outcome where
  /-- The message `thread_schedule: no runnable threads; deadlock` and `exit()`. -/
  | deadlock
  /-- `next_thread` is `current_thread`: the caller goes on running. -/
  | stay
  /-- `thread_switch()` to a slot of the table, which is `all` afterwards. -/
  | switch (next : Fin maxThread) (all : ThreadTable)
  /-- The write to `next_thread->state` and the switch hit the memory past the table. -/
  | wild

/-- `next_thread->state = RUNNING; thread_switch();` -/
def switchTo (all : ThreadTable) (next : ℕ) : Outcome :=
  if h : next < maxThread then
    .switch ⟨next, h⟩ (Function.update all ⟨next, h⟩ { all ⟨next, h⟩ with state := .running })
  else .wild

/-- `thread_schedule`.  `next_thread` is a pointer, `none` the null pointer. -/
def threadSchedule (all : ThreadTable) (cur : Fin maxThread) : Outcome :=
  let σ := scan all maxThread (scanInit cur)
  let next : Option ℕ := some σ.bestthread
  let next := if maxThread ≤ σ.t ∧ (all cur).state = .runnable then some cur.val else next
  match next with
  | none => .deadlock
  | some n => if cur.val ≠ n then switchTo all n else .stay

/-! ### The policy -/

/-- The number of slots passed before `m` on the cyclic walk that starts after `cur`; the
current thread comes last. -/
def cyc (cur m : Fin maxThread) : ℕ := (m.val + maxThread - (cur.val + 1)) % maxThread

/-- `n` is the policy's choice among the first `i` slots after `cur`: RUNNABLE, of smallest
priority, and the first of that priority. -/
structure Best (all : ThreadTable) (cur : Fin maxThread) (i : ℕ) (n : Fin maxThread) : Prop where
  near : cyc cur n < i
  runnable : Runnable all n
  least : ∀ m, cyc cur m < i → Runnable all m → (all n).priority ≤ (all m).priority
  first : ∀ m, cyc cur m < i → Runnable all m → (all m).priority = (all n).priority →
    cyc cur n ≤ cyc cur m

/-- The thread an outcome selects. -/
def Outcome.Selects (cur : Fin maxThread) (n : Fin maxThread) : Outcome → Prop
  | .deadlock => False
  | .stay => n = cur
  | .switch next _ => n = next
  | .wild => False

/-- **The stated policy**: the policy's choice among all slots is selected when some thread is
RUNNABLE, and the deadlock exit is taken when none is. -/
def MeetsPolicy (all : ThreadTable) (cur : Fin maxThread) (o : Outcome) : Prop :=
  ((∃ m, Runnable all m) → ∃ n, Best all cur maxThread n ∧ o.Selects cur n) ∧
    ((∀ m, ¬ Runnable all m) → o = .deadlock)

lemma cyc_lt (cur m : Fin maxThread) : cyc cur m < maxThread := Nat.mod_lt _ (by decide)

lemma cyc_injective (cur : Fin maxThread) : Function.Injective (cyc cur) := by
  intro m n h
  have hm := m.isLt
  have hn := n.isLt
  have hc := cur.isLt
  simp only [cyc, maxThread] at *
  exact Fin.ext (by omega)

variable {all : ThreadTable} {cur : Fin maxThread} {i : ℕ}

/-- One more slot on the walk is one more thread. -/
lemma cyc_lt_succ {cur x m : Fin maxThread} (hx : cyc cur x = i)
    (hm : cyc cur m < i + 1) : cyc cur m < i ∨ m = x := by
  rcases Nat.lt_succ_iff_lt_or_eq.mp hm with hlt | heq
  · exact .inl hlt
  · exact .inr (cyc_injective cur (heq.trans hx.symm))

/-- The current thread is the last slot of its own walk. -/
lemma cyc_self (cur : Fin maxThread) : cyc cur cur = maxThread - 1 := by
  have hc := cur.isLt
  simp only [cyc, maxThread] at *
  omega

/-- The policy's choice is unique. -/
lemma Best.unique {cur n n' : Fin maxThread}
    (h : Best all cur i n) (h' : Best all cur i n') : n = n' := by
  have hle := h.least n' h'.near h'.runnable
  have hge := h'.least n h.near h.runnable
  have heq : (all n').priority = (all n).priority := le_antisymm hge hle
  have h1 := h.first n' h'.near h'.runnable heq
  have h2 := h'.first n h.near h.runnable heq.symm
  exact cyc_injective cur (le_antisymm h1 h2)

/-! ### The walk -/

/-- The pointer `t` at the start of round `i`: it is wrapped only at the top of the body, so
just after slot `maxThread - 1` it points past the table. -/
def walkPtr (cur : Fin maxThread) (i : ℕ) : ℕ :=
  if i = 0 then cur + 1 else (cur + i) % maxThread + 1

/-- Round `i` looks at the slot at distance `i`. -/
lemma cyc_wrap_walkPtr (cur : Fin maxThread) (hi : i < maxThread) :
    cyc cur (wrap (walkPtr cur i)) = i := by
  have hc := cur.isLt
  simp only [cyc, wrap, walkPtr, maxThread] at *
  split_ifs with h0 h1 h1 <;> simp <;> omega

lemma walkPtr_succ (cur : Fin maxThread) (i : ℕ) :
    (wrap (walkPtr cur i)).val + 1 = walkPtr cur (i + 1) := by
  have hc := cur.isLt
  rw [show walkPtr cur (i + 1) = (cur + (i + 1)) % maxThread + 1 from if_neg (by omega)]
  simp only [wrap, walkPtr, maxThread] at *
  split_ifs with h0 h1 h1 <;> simp only [Fin.val_zero] at * <;> omega

/-- After the whole walk `t` is past the table exactly when the current thread is in the last
slot. -/
lemma walkPtr_maxThread (cur : Fin maxThread) : walkPtr cur maxThread = cur + 1 := by
  have hc := cur.isLt
  simp only [walkPtr, maxThread] at *
  rw [if_neg (by omega)]
  omega

/-- **The loop invariant** after `i` rounds: either no slot passed is RUNNABLE and the locals
are the initial ones, or `bestthread` is the policy's choice among the slots passed. -/
structure ScanInv (all : ThreadTable) (cur : Fin maxThread) (i : ℕ) (σ : Scan) : Prop where
  ptr : σ.t = walkPtr cur i
  cand : ((∀ m, cyc cur m < i → ¬ Runnable all m) ∧
      σ.best = 99999 ∧ σ.bestthread = cur + 1) ∨
    ∃ n : Fin maxThread, Best all cur i n ∧ σ.best = (all n).priority ∧ σ.bestthread = n

/-- A slot that is not the policy's choice leaves the choice as it is. -/
lemma Best.extend {cur n x : Fin maxThread} (h : Best all cur i n)
    (hx : cyc cur x = i) (hge : Runnable all x → (all n).priority ≤ (all x).priority) :
    Best all cur (i + 1) n := by
  refine ⟨Nat.lt_succ_of_lt h.near, h.runnable, fun m hm hr => ?_, fun m hm hr hp => ?_⟩
  · rcases cyc_lt_succ hx hm with hlt | rfl
    · exact h.least m hlt hr
    · exact hge hr
  · rcases cyc_lt_succ hx hm with hlt | rfl
    · exact h.first m hlt hr hp
    · have := h.near
      omega

/-- A RUNNABLE slot of strictly smaller priority than every RUNNABLE slot passed is the new
choice. -/
lemma Best.of_lt {cur x : Fin maxThread}
    (hx : cyc cur x = i) (hrun : Runnable all x)
    (hlt : ∀ m, cyc cur m < i → Runnable all m → (all x).priority < (all m).priority) :
    Best all cur (i + 1) x := by
  refine ⟨by omega, hrun, fun m hm hr => ?_, fun m hm hr hp => ?_⟩
  · rcases cyc_lt_succ hx hm with h | rfl
    · exact (hlt m h hr).le
    · exact le_rfl
  · rcases cyc_lt_succ hx hm with h | rfl
    · have := hlt m h hr
      omega
    · exact le_rfl

/-- The pointer part of the invariant does not depend on the slot looked at. -/
lemma scanStep_ptr (all : ThreadTable) (σ : Scan) : (scanStep all σ).t = wrap σ.t + 1 := by
  simp only [scanStep]
  split_ifs <;> rfl

/-- One round keeps the invariant. -/
lemma scanStep_inv {σ : Scan}
    (hprio : ∀ n, Runnable all n → (all n).priority ≤ maxPriority)
    (hi : i < maxThread) (h : ScanInv all cur i σ) :
    ScanInv all cur (i + 1) (scanStep all σ) := by
  have hx : cyc cur (wrap σ.t) = i := by rw [h.ptr]; exact cyc_wrap_walkPtr cur hi
  refine ⟨?_, ?_⟩
  · rw [scanStep_ptr, h.ptr, walkPtr_succ]
  · simp only [scanStep]
    by_cases hr : (all (wrap σ.t)).state = .runnable
    · rw [if_pos hr]
      rcases h.cand with ⟨hnone, hbest, _⟩ | ⟨n, hn, hbest, hthr⟩
      · -- the first RUNNABLE slot: any priority is below the start value
        have hle := hprio _ hr
        rw [if_pos (by rw [hbest]; simp only [maxPriority] at hle; omega)]
        exact .inr ⟨wrap σ.t, Best.of_lt hx hr fun m hm hm' => absurd hm' (hnone m hm), rfl, rfl⟩
      · by_cases hlt : (all (wrap σ.t)).priority < σ.best
        · rw [if_pos hlt]
          refine .inr ⟨wrap σ.t, Best.of_lt hx hr fun m hm hm' => ?_, rfl, rfl⟩
          rw [hbest] at hlt
          exact lt_of_lt_of_le hlt (hn.least m hm hm')
        · rw [if_neg hlt]
          refine .inr ⟨n, hn.extend hx fun _ => ?_, hbest, hthr⟩
          rw [hbest] at hlt
          exact not_lt.mp hlt
    · rw [if_neg hr]
      rcases h.cand with ⟨hnone, hbest, hthr⟩ | ⟨n, hn, hbest, hthr⟩
      · refine .inl ⟨fun m hm hm' => ?_, hbest, hthr⟩
        rcases cyc_lt_succ hx hm with hlt | rfl
        · exact hnone m hlt hm'
        · exact hr hm'
      · exact .inr ⟨n, hn.extend hx fun hx' => absurd hx' hr, hbest, hthr⟩

/-- The rounds left over keep the invariant up to the end of the walk. -/
lemma scan_inv
    (hprio : ∀ n, Runnable all n → (all n).priority ≤ maxPriority) :
    ∀ (k i : ℕ) (σ : Scan), i + k ≤ maxThread → ScanInv all cur i σ →
      ScanInv all cur (i + k) (scan all k σ) := by
  intro k
  induction k with
  | zero => exact fun i σ _ h => h
  | succ k ih =>
    intro i σ hik h
    have hstep := scanStep_inv hprio (by omega) h
    have hrest := ih (i + 1) (scanStep all σ) (by omega) hstep
    rw [show i + 1 + k = i + (k + 1) from by omega] at hrest
    exact hrest

/-- The whole walk. -/
lemma scan_scanInit (cur : Fin maxThread)
    (hprio : ∀ n, Runnable all n → (all n).priority ≤ maxPriority) :
    ScanInv all cur maxThread (scan all maxThread (scanInit cur)) := by
  have hinit : ScanInv all cur 0 (scanInit cur) :=
    ⟨rfl, .inl ⟨fun m hm => absurd hm (Nat.not_lt_zero _), rfl, rfl⟩⟩
  have h := scan_inv hprio maxThread 0 (scanInit cur) (by omega) hinit
  rwa [Nat.zero_add] at h

/-! ### What the call does with the candidate -/

/-- The leftover wrap test fires: the last slot is current and RUNNABLE, so the walk ends past
the table. -/
def Overruled (all : ThreadTable) (cur : Fin maxThread) : Prop :=
  cur.val + 1 = maxThread ∧ Runnable all cur

section

variable (hprio : ∀ n, Runnable all n → (all n).priority ≤ maxPriority)

include hprio

/-- With the wrap test in force the current thread goes on, whatever the walk found. -/
lemma threadSchedule_of_overruled
    (h : Overruled all cur) : threadSchedule all cur = .stay := by
  have hptr := (scan_scanInit cur hprio).ptr
  rw [walkPtr_maxThread] at hptr
  have hge : maxThread ≤ (scan all maxThread (scanInit cur)).t := by rw [hptr, h.1]
  have hrun : (all cur).state = .runnable := h.2
  simp [threadSchedule, hge, hrun]

/-- Otherwise the candidate of the walk is taken. -/
lemma threadSchedule_of_not_overruled
    (h : ¬ Overruled all cur) :
    threadSchedule all cur =
      if cur.val ≠ (scan all maxThread (scanInit cur)).bestthread then
        switchTo all (scan all maxThread (scanInit cur)).bestthread
      else .stay := by
  have hptr := (scan_scanInit cur hprio).ptr
  rw [walkPtr_maxThread] at hptr
  have hno : ¬ (maxThread ≤ (scan all maxThread (scanInit cur)).t ∧ (all cur).state = .runnable) := by
    rintro ⟨hge, hrun⟩
    have hc := cur.isLt
    exact h ⟨by omega, hrun⟩
  simp only [threadSchedule, if_neg hno]

/-- When the walk's choice stands, the call selects it. -/
lemma threadSchedule_of_policy {cur n : Fin maxThread}
    (hn : Best all cur maxThread n) (h : ¬ Overruled all cur) :
    (threadSchedule all cur).Selects cur n := by
  rw [threadSchedule_of_not_overruled hprio h]
  rcases (scan_scanInit cur hprio).cand with ⟨hnone, _⟩ | ⟨n', hn', _, hthr⟩
  · exact absurd hn.runnable (hnone n hn.near)
  · obtain rfl := hn.unique hn'
    rw [hthr]
    by_cases hcur : cur.val = n.val
    · rw [if_neg (not_not.mpr hcur)]
      exact (Fin.ext hcur).symm
    · rw [if_pos hcur, switchTo, dif_pos n.isLt]
      exact rfl

end

/-- With no RUNNABLE thread the deadlock exit is never taken: `next_thread` is the start value
`current_thread+1`, which is not null. -/
lemma threadSchedule_of_none
    (hnone : ∀ m, ¬ Runnable all m) :
    threadSchedule all cur = switchTo all (cur + 1) := by
  have hprio : ∀ n, Runnable all n → (all n).priority ≤ maxPriority :=
    fun n hn => absurd hn (hnone n)
  rw [threadSchedule_of_not_overruled hprio fun h => hnone cur h.2]
  rcases (scan_scanInit cur hprio).cand with ⟨_, _, hthr⟩ | ⟨n, hn, _, _⟩
  · rw [hthr, if_pos (by omega)]
  · exact absurd hn.runnable (hnone n)

lemma switchTo_ne_deadlock (all : ThreadTable) (next : ℕ) : switchTo all next ≠ .deadlock := by
  rw [switchTo]
  split_ifs <;> simp

/-- **When `thread_schedule` follows its policy**: some thread is RUNNABLE, and a RUNNABLE
current thread in the last slot has the smallest priority alone. -/
theorem threadSchedule_meetsPolicy_iff (all : ThreadTable) (cur : Fin maxThread)
    (hprio : ∀ n, Runnable all n → 1 ≤ (all n).priority ∧ (all n).priority ≤ maxPriority) :
    MeetsPolicy all cur (threadSchedule all cur) ↔
      (∃ m, Runnable all m) ∧
        (cur.val = maxThread - 1 → Runnable all cur →
          ∀ m, m ≠ cur → Runnable all m → (all cur).priority < (all m).priority) := by
  have hle : ∀ n, Runnable all n → (all n).priority ≤ maxPriority := fun n hn => (hprio n hn).2
  constructor
  · intro h
    have hex : ∃ m, Runnable all m := by
      by_contra hnone
      have hnone' : ∀ m, ¬ Runnable all m := fun m hm => hnone ⟨m, hm⟩
      have hd := h.2 hnone'
      rw [threadSchedule_of_none hnone'] at hd
      exact switchTo_ne_deadlock all _ hd
    refine ⟨hex, fun hlast hrun m hm hmr => ?_⟩
    -- the wrap test keeps the current thread, so the policy must have chosen it
    obtain ⟨n, hn, hsel⟩ := h.1 hex
    rw [threadSchedule_of_overruled hle ⟨by omega, hrun⟩] at hsel
    obtain rfl : n = cur := hsel
    refine lt_of_le_of_ne (hn.least m (cyc_lt n m) hmr) fun heq => hm ?_
    have hfirst := hn.first m (cyc_lt n m) hmr heq.symm
    rw [cyc_self] at hfirst
    have hlt := cyc_lt n m
    exact cyc_injective n (by rw [cyc_self]; omega)
  · rintro ⟨hex, hlast⟩
    refine ⟨fun _ => ?_, fun hnone => ?_⟩
    · by_cases hov : Overruled all cur
      · refine ⟨cur, ⟨cyc_lt cur cur, hov.2, fun m _ hm => ?_, fun m _ hm hp => ?_⟩, ?_⟩
        · by_cases hmc : m = cur
          · rw [hmc]
          · exact (hlast (by have := hov.1; omega) hov.2 m hmc hm).le
        · by_cases hmc : m = cur
          · rw [hmc]
          · have := hlast (by have := hov.1; omega) hov.2 m hmc hm
            omega
        · rw [threadSchedule_of_overruled hle hov]
          exact rfl
      · rcases (scan_scanInit cur hle).cand with ⟨hnone, _⟩ | ⟨n, hn, _, _⟩
        · obtain ⟨m, hm⟩ := hex
          exact absurd hm (hnone m (cyc_lt cur m))
        · exact ⟨n, hn, threadSchedule_of_policy hle hn hov⟩
    · obtain ⟨m, hm⟩ := hex
      exact absurd hm (hnone m)

/-- The table with the main thread RUNNING in slot 0, a RUNNABLE thread of priority 1 in
slot 1 and nothing else, as after the first `thread_create` of the demo program. -/
def oneCreated : ThreadTable := fun n =>
  if n = 0 then ⟨.running, 0⟩ else if n = 1 then ⟨.runnable, 1⟩ else ⟨.free, 0⟩

theorem threadSchedule_meetsPolicy_oneCreated :
    (∃ m, Runnable oneCreated m) ∧ MeetsPolicy oneCreated 0 (threadSchedule oneCreated 0) := by
  have hrun : Runnable oneCreated 1 := by decide
  refine ⟨⟨1, hrun⟩, (threadSchedule_meetsPolicy_iff oneCreated 0 ?_).mpr ⟨⟨1, hrun⟩, ?_⟩⟩
  · decide
  · intro h
    nomatch h

/-- The table when the last thread of the demo program has set its slot FREE: only the main
thread, RUNNING in slot 0, is left. -/
def allDone : ThreadTable := fun n => if n = 0 then ⟨.running, 0⟩ else ⟨.free, 0⟩

/-- The table in which the threads of slots 3 and 7 are RUNNABLE and slot 3 has the higher
priority. -/
def lastYields : ThreadTable := fun n =>
  if n = 3 then ⟨.runnable, 1⟩ else if n = 7 then ⟨.runnable, 2⟩ else ⟨.free, 0⟩

/-- With no RUNNABLE thread the call switches to a FREE slot; with the last slot current and
RUNNABLE it keeps that thread although one of higher priority is RUNNABLE. -/
theorem threadSchedule_breaks_policy :
    ¬ MeetsPolicy allDone 2 (threadSchedule allDone 2) ∧
      ¬ MeetsPolicy lastYields 7 (threadSchedule lastYields 7) := by
  constructor
  · intro h
    have hnone : ∀ m, ¬ Runnable allDone m := by decide
    have hd := h.2 hnone
    rw [threadSchedule_of_none hnone] at hd
    exact switchTo_ne_deadlock _ _ hd
  · intro h
    have h3 : Runnable lastYields 3 := by decide
    obtain ⟨n, hn, hsel⟩ := h.1 ⟨3, h3⟩
    have hstay : threadSchedule lastYields 7 = .stay := by rfl
    rw [hstay] at hsel
    obtain rfl : n = 7 := hsel
    have hle := hn.least 3 (cyc_lt _ _) h3
    nomatch hle

end Col331.Uthread
