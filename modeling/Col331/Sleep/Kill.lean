import Col331.Logic.Reach
import Col331.Sleep.Steps

/-!
Whether a process that is killed can go to sleep.

Between the test of `killed` and `acquire(&ptable.lock)` in `sleep`, `kill` finds a process that does not
sleep yet, and sets `killed` when it is too late.  Once the process has `ptable.lock`, `kill` has to wait
for it to be asleep.

* `SleepSys.Timely`: `kill` is not called in between.
* `SleepSys.Heeds`: the invariant.
* `SleepSys.kill_not_lost`: **then no process that is killed sleeps**.
-/

namespace Col331

open Function

/-! ### The process table -/

/-- Nobody is killed, and nobody falls asleep. -/
def Quieter (t t' : ProcTable) : Prop := ∀ q,
  ((t' q).killed = true → (t q).killed = true) ∧ ((t' q).state = .sleeping → (t q).state = .sleeping)

namespace Quieter

variable {t t' t'' : ProcTable}

lemma refl (t : ProcTable) : Quieter t t := fun _ => ⟨id, id⟩

lemma trans (h : Quieter t t') (h' : Quieter t' t'') : Quieter t t'' := fun q =>
  ⟨(h q).1 ∘ (h' q).1, (h q).2 ∘ (h' q).2⟩

lemma update {p : Fin nproc} {v : Proc} (hk : v.killed = true → (t p).killed = true)
    (hs : v.state = .sleeping → (t p).state = .sleeping) : Quieter t (Function.update t p v) := by
  intro q
  by_cases hq : q = p
  · subst hq
    rw [update_self]
    exact ⟨hk, hs⟩
  · rw [update_of_ne hq]
    exact ⟨id, id⟩

lemma wakeup1 (t : ProcTable) (chan : Option ProcChan) : Quieter t (wakeup1 t chan) := by
  intro q
  rw [Col331.wakeup1]
  split_ifs
  · exact ⟨id, (by simp)⟩
  · exact ⟨id, id⟩

lemma reap (t : ProcTable) (q : Fin nproc) : Quieter t (reap t q) := update nofun nofun

lemma passOn (p : Fin nproc) (t : ProcTable) (q : Fin nproc) : Quieter t (passOn p t q) := by
  have hparent : Quieter t (Function.update t q { t q with parent := some initproc }) := update id id
  rw [Col331.passOn]
  dsimp only
  split_ifs
  · exact hparent.trans (wakeup1 _ _)
  · exact hparent
  · exact refl t

lemma exitSection (t : ProcTable) (p : Fin nproc) : Quieter t (exitSection t p) := by
  have hfold : ∀ (qs : List (Fin nproc)) (t : ProcTable), Quieter t (qs.foldl (Col331.passOn p) t) := by
    intro qs
    induction qs with
    | nil => exact refl
    | cons q qs ih => exact fun t => (passOn p t q).trans (ih _)
  have hzombie : ∀ t : ProcTable, Quieter t (Function.update t p { t p with state := .zombie }) :=
    fun t => update id nofun
  exact ((wakeup1 t _).trans (hfold _ _)).trans (hzombie _)

end Quieter

/-- `wait` does not sleep if it is killed. -/
lemma killed_of_waitScan {t : ProcTable} {p : Fin nproc} (h : waitScan t p = .sleeps) :
    (t p).killed = false := by
  rw [waitScan] at h
  split at h
  · cases h
  · dsimp only at h
    split_ifs at h with hfail
    simp only [Bool.or_eq_true, not_or, Bool.not_eq_true] at hfail
    exact hfail.2

namespace SleepPoint

/-- After the test of `killed`, and before the process sleeps. -/
def closing : SleepPoint → Bool
  | .wake | .sleepLock | .sleepRelease | .sleepSet => true
  | _ => false

end SleepPoint

/-- The process holds `ptable.lock` between two steps. -/
def SleepPc.holds : SleepPc → Bool
  | .run _ .sleepRelease | .run _ .sleepSet | .run .wait .top => true
  | _ => false

namespace SleepSys

/-- `kill` is not called for a process that has looked at `killed` in a call of `C` and has not acquired
`ptable.lock` yet.  If `ilock` is in `C`, a process that is killed finds the inode free. -/
def Timely (C : SleepCall → Bool) (s : SleepSys) : SleepAct → Prop
  | .kill pid => ∀ q c, findPid s.proc pid = some q → C c = true →
      s.pc q ≠ .run c .wake ∧ s.pc q ≠ .run c .sleepLock
  | .next p => C .ilock = true → s.pc p = .run .ilock .top → (s.proc p).killed = true →
      s.data.busy = false
  | _ => True

/-- The invariant, for the calls of `C`. -/
structure Heeds (C : SleepCall → Bool) (s : SleepSys) : Prop where
  asleep : ∀ p, (s.proc p).state = .sleeping → ∃ c, s.pc p = .run c .asleep
  holds : ∀ p, (s.pc p).holds = true → s.ptlock = some p
  kept : ∀ p c x, s.pc p = .run c x → C c = true →
    x.closing = true ∨ (s.proc p).state = .sleeping → (s.proc p).killed = false

namespace Heeds

variable {C : SleepCall → Bool} {s t : SleepSys} {p : Fin nproc}

/-- A change of the process table only. -/
lemma quieter {proc : ProcTable} (h : s.Heeds C) (hproc : Quieter s.proc proc) :
    Heeds C { s with proc := proc } := by
  refine ⟨fun q hq => h.asleep q ((hproc q).2 hq), h.holds, fun q c x hx hC hq => ?_⟩
  have hold := h.kept q c x hx hC (hq.imp_right (hproc q).2)
  exact Bool.eq_false_iff.mpr fun hk => by simp [(hproc q).1 hk] at hold

variable {c : SleepCall} {x : SleepPoint}

section Move

variable (h : s.Heeds C) (hpc : t.pc = s.pc) (hproc : Quieter s.proc t.proc)
  (hpt : ∀ q, q ≠ p → s.ptlock = some q → t.ptlock = some q) (hawake : (s.proc p).state ≠ .sleeping)

include h hpc hproc hpt hawake

/-- The process `p`, which does not fall asleep, moves after a change to `t`. -/
lemma move {y : SleepPc} (hholds : y.holds = true → t.ptlock = some p)
    (hkept : ∀ c x, y = .run c x → C c = true → x.closing = true → (t.proc p).killed = false) :
    Heeds C { t with pc := Function.update t.pc p y } := by
  have hawake' : (t.proc p).state ≠ .sleeping := fun hs => hawake ((hproc p).2 hs)
  rw [hpc]
  refine ⟨fun q hq => ?_, (forall_update_iff s.pc fun q y => y.holds = true → t.ptlock = some q).mpr
    ⟨hholds, fun q hq => hpt q hq ∘ h.holds q⟩, fun q c x hx hC hq => ?_⟩
  · obtain ⟨c, hc⟩ := h.asleep q ((hproc q).2 hq)
    exact ⟨c, (update_of_ne (by rintro rfl; exact hawake' hq) ..).trans hc⟩
  · dsimp only at hx
    by_cases hqp : q = p
    · subst hqp
      rw [update_self] at hx
      exact hkept c x hx hC (hq.resolve_right hawake')
    · rw [update_of_ne hqp] at hx
      have hold := h.kept q c x hx hC (hq.imp_right (hproc q).2)
      exact Bool.eq_false_iff.mpr fun hk => by simp [(hproc q).1 hk] at hold

lemma go (hholds : (SleepPc.run c x).holds = true → t.ptlock = some p)
    (hkept : C c = true → x.closing = true → (t.proc p).killed = false) : (t.go p c x).Heeds C :=
  move h hpc hproc hpt hawake hholds fun _ _ hx => by
    cases hx
    exact hkept

lemma ret : (t.ret p).Heeds C := move h hpc hproc hpt hawake nofun nofun

end Move

section

variable (h : s.Heeds C)

include h

lemma awake (hpc : s.pc p = .run c x)
    (hx : x ≠ .asleep) : (s.proc p).state ≠ .sleeping := by
  intro hs
  obtain ⟨c', hc'⟩ := h.asleep p hs
  rw [hpc] at hc'
  cases hc'
  exact hx rfl

/-- The process `p` goes on where it need not hold `ptable.lock`. -/
lemma goto (hawake : (s.proc p).state ≠ .sleeping)
    (hpc : t.pc = s.pc) (hproc : t.proc = s.proc) (hpt : t.ptlock = s.ptlock)
    (hholds : (SleepPc.run c x).holds = false)
    (hkept : C c = true → x.closing = true → (s.proc p).killed = false) : (t.go p c x).Heeds C :=
  h.go hpc (hproc ▸ .refl _) (fun _ _ hq => hpt ▸ hq) hawake (fun hh => by simp [hholds] at hh)
    (hproc ▸ hkept)

lemma topStep (hpc : s.pc p = .run c .top)
    (ht : s.Timely C (.next p)) : (s.topStep p c).Heeds C := by
  have hawake := h.awake hpc nofun
  cases c with
  | piperead k n i =>
    rw [SleepSys.topStep]
    split_ifs with hempty hkilled
    · exact h.goto hawake rfl rfl rfl rfl nofun
    · exact h.goto hawake rfl rfl rfl rfl fun _ _ => Bool.eq_false_iff.mpr hkilled
    · exact h.goto hawake rfl rfl rfl rfl nofun
  | pipewrite k addr n i =>
    rw [SleepSys.topStep]
    split_ifs with hn hfull hkilled
    · exact h.goto hawake rfl rfl rfl rfl nofun
    · exact h.goto hawake rfl rfl rfl rfl fun _ _ =>
        Bool.eq_false_iff.mpr fun hk => hkilled (.inr hk)
    · exact h.goto hawake rfl rfl rfl rfl nofun
    · exact h.goto hawake rfl rfl rfl rfl nofun
  | consoleread n i =>
    rw [SleepSys.topStep]
    split_ifs with hn hempty hkilled
    · exact h.goto hawake rfl rfl rfl rfl nofun
    · exact h.goto hawake rfl rfl rfl rfl fun _ _ => Bool.eq_false_iff.mpr hkilled
    · obtain ⟨r, i', more⟩ := consoleByte s.data.input i
      cases more with
      | true | false => exact h.goto hawake rfl rfl rfl rfl nofun
    · exact h.goto hawake rfl rfl rfl rfl nofun
  | ilock =>
    rw [SleepSys.topStep]
    split_ifs with hbusy
    · refine h.goto hawake rfl rfl rfl rfl fun hC _ => Bool.eq_false_iff.mpr fun hk => ?_
      rw [ht hC hpc hk] at hbusy
      cases hbusy
    · exact h.goto hawake rfl rfl rfl rfl nofun
  | sleep n ticks0 =>
    cases ticks0 with
    | none => exact h.goto hawake rfl rfl rfl rfl nofun
    | some ticks0 =>
      rw [SleepSys.topStep]
      split_ifs with hn hkilled
      · exact h.goto hawake rfl rfl rfl rfl nofun
      · exact h.goto hawake rfl rfl rfl rfl fun _ _ => Bool.eq_false_iff.mpr hkilled
      · exact h.goto hawake rfl rfl rfl rfl nofun
  | wait =>
    have hpt : s.ptlock = some p := h.holds p (by rw [hpc]; rfl)
    have hother : ∀ q, q ≠ p → s.ptlock ≠ some q := fun q hq hq' =>
      hq (Option.some.inj (hq'.symm.trans hpt))
    rw [SleepSys.topStep]
    cases hscan : waitScan s.proc p with
    | reaped q pid => exact h.ret rfl (.reap _ q) (fun q hq hq' => (hother q hq hq').elim) hawake
    | failed => exact h.ret rfl (.refl _) (fun q hq hq' => (hother q hq hq').elim) hawake
    | sleeps =>
      exact h.go rfl (.refl _) (fun _ _ hq => hq) hawake (fun _ => hpt)
        fun _ _ => killed_of_waitScan hscan

/-- The process falls asleep. -/
lemma sleepSet (hpc : s.pc p = .run c .sleepSet) :
    (s.callStep p c .sleepSet).Heeds C := by
  have hpt : s.ptlock = some p := h.holds p (by rw [hpc]; rfl)
  have hself : (s.callStep p c .sleepSet).pc p = .run c .asleep := update_self ..
  have hother : ∀ q, q ≠ p → (s.callStep p c .sleepSet).pc q = s.pc q ∧
      (s.callStep p c .sleepSet).proc q = s.proc q := fun q hq =>
    ⟨update_of_ne hq .., update_of_ne hq ..⟩
  have hkilled : ((s.callStep p c .sleepSet).proc p).killed = (s.proc p).killed := by
    simp [SleepSys.callStep, SleepSys.go]
  refine ⟨fun q hq => ?_, fun q hq => ?_, fun q c' x hx hC hq => ?_⟩
  · by_cases hqp : q = p
    · exact ⟨c, hqp ▸ hself⟩
    · rw [(hother q hqp).2] at hq
      rw [(hother q hqp).1]
      exact h.asleep q hq
  · by_cases hqp : q = p
    · rw [hqp, hself] at hq
      cases hq
    · rw [(hother q hqp).1] at hq
      exact (hqp (Option.some.inj ((h.holds q hq).symm.trans hpt))).elim
  · by_cases hqp : q = p
    · subst hqp
      rw [hself] at hx
      cases hx
      rw [hkilled]
      exact h.kept q c _ hpc hC (.inl rfl)
    · rw [(hother q hqp).1] at hx
      rw [(hother q hqp).2] at hq ⊢
      exact h.kept q c' x hx hC hq

lemma callStep (hpc : s.pc p = .run c x)
    (ht : s.Timely C (.next p)) : (s.callStep p c x).Heeds C := by
  have hawake := h.awake hpc
  have hnone : s.ptlock = none → ∀ q, q ≠ p → s.ptlock ≠ some q := by
    intro hpt q _ hq
    rw [hpt] at hq
    cases hq
  cases x with
  | acquire =>
    rw [SleepSys.callStep]
    cases hl : c.lock with
    | none =>
      split_ifs with hpt
      · exact h.go rfl (.refl _) (fun q hq hq' => (hnone hpt q hq hq').elim) (hawake nofun) (fun _ => rfl) nofun
      · exact h
    | some l =>
      dsimp only
      split_ifs
      · refine h.goto (hawake nofun) rfl rfl rfl ?_ nofun
        cases c <;> first | rfl | cases hl
      · exact h
  | top => exact h.topStep hpc ht
  | copy =>
    rw [SleepSys.callStep]
    cases c with
    | piperead k n i =>
      rw [copyStep]
      split_ifs
      · exact h.goto (hawake nofun) rfl rfl rfl rfl nofun
      · exact h.goto (hawake nofun) rfl rfl rfl rfl nofun
    | pipewrite | consoleread | ilock | sleep | wait =>
      exact h.goto (hawake nofun) rfl rfl rfl rfl nofun
  | wake =>
    rw [SleepSys.callStep]
    split_ifs with hpt
    · refine h.go rfl (.wakeup1 _ _) (fun q hq hq' => hq') (hawake nofun) nofun fun hC _ => ?_
      have := h.kept p c _ hpc hC (.inl rfl)
      exact Bool.eq_false_iff.mpr fun hk => by simp [(Quieter.wakeup1 s.proc _ p).1 hk] at this
    · exact h
  | sleepLock =>
    rw [SleepSys.callStep]
    split_ifs with hpt
    · exact h.go rfl (.refl _) (fun q hq hq' => (hnone hpt q hq hq').elim) (hawake nofun) (fun _ => rfl)
        fun hC _ => h.kept p c _ hpc hC (.inl rfl)
    · exact h
  | sleepRelease =>
    have hpt : s.ptlock = some p := h.holds p (by rw [hpc]; rfl)
    have hkilled : C c = true → (s.proc p).killed = false := fun hC => h.kept p c _ hpc hC (.inl rfl)
    rw [SleepSys.callStep]
    split
    all_goals exact h.go rfl (.refl _) (fun _ _ hq => hq) (hawake nofun) (fun _ => hpt) fun hC _ => hkilled hC
  | sleepSet => exact h.sleepSet hpc
  | asleep =>
    rw [SleepSys.callStep]
    split_ifs with hwoken
    · obtain ⟨hawake, hpt⟩ := hwoken
      have hproc : Quieter s.proc (Function.update s.proc p
          { s.proc p with state := .running, chan := none }) := .update id nofun
      split
      · exact h.go rfl hproc (fun q hq hq' => (hnone hpt q hq hq').elim) hawake (fun _ => rfl) nofun
      · exact h.go rfl hproc (fun _ _ hq => hq) hawake nofun nofun
    · exact h
  | ending =>
    rw [SleepSys.callStep]
    split_ifs with hpt
    · exact h.go rfl (.wakeup1 _ _) (fun _ _ hq => hq) (hawake nofun) nofun nofun
    · exact h
  | release =>
    cases c with
    | consoleread n i =>
      exact h.goto (t := { s with lock := Function.update s.lock .cons none }) (hawake nofun) rfl rfl rfl rfl nofun
    | piperead | pipewrite | ilock | sleep | wait =>
      exact h.ret rfl (.refl _) (fun _ _ hq => hq) (hawake nofun)

/-- A process that does not sleep, or is woken up. -/
lemma setProc {r : Fin nproc} {v : Proc} (hstate : v.state ≠ .sleeping)
    (hkept : ∀ c x, s.pc r = .run c x → C c = true → x.closing = true → v.killed = false) :
    Heeds C { s with proc := Function.update s.proc r v } := by
  refine ⟨?_, h.holds, ?_⟩
  · exact (forall_update_iff s.proc fun q v => v.state = .sleeping → ∃ c, s.pc q = .run c .asleep).mpr
      ⟨fun hs => (hstate hs).elim, fun q _ => h.asleep q⟩
  · exact (forall_update_iff s.proc fun q v => ∀ c x, s.pc q = .run c x → C c = true →
      x.closing = true ∨ v.state = .sleeping → v.killed = false).mpr
      ⟨fun c x hx hC hq => hkept c x hx hC (hq.resolve_right hstate), fun q _ => h.kept q⟩

/-- `kill` wakes the process up that it kills, or comes before its test of `killed`. -/
lemma kill {pid : ℤ} (ht : s.Timely C (.kill pid)) (hpt : s.ptlock = none) :
    Heeds C { s with proc := (killProc s.proc pid).2 } := by
  rw [killProc]
  cases hfind : findPid s.proc pid with
  | none => exact h
  | some q =>
    refine h.setProc ?_ fun c x hx hC hclosing => ?_
    · split_ifs with hs
      · rintro ⟨⟩
      · exact hs
    · -- at the other points of `sleep` the process holds `ptable.lock`
      have hholds : (SleepPc.run c x).holds ≠ true := fun hh => by
        have := h.holds q (by rw [hx]; exact hh)
        simp [hpt] at this
      obtain ⟨hwake, hlock⟩ := ht q c hfind hC
      cases x with
      | wake => exact (hwake hx).elim
      | sleepLock => exact (hlock hx).elim
      | sleepRelease | sleepSet => exact (hholds rfl).elim
      | acquire | top | copy | asleep | ending | release => cases hclosing

/-- **The invariant is kept.** -/
lemma step {a : SleepAct} (ht : s.Timely C a) (hstep : s.step a = .ok t) :
    t.Heeds C := by
  cases a with
  | call p c =>
    cases hpc : s.pc p <;> rw [SleepSys.step, hpc] at hstep
    case run =>
      cases hstep
      exact h
    case idle =>
      have hawake : (s.proc p).state ≠ .sleeping := fun hs => by
        obtain ⟨c', hc'⟩ := h.asleep p hs
        rw [hpc] at hc'
        cases hc'
      split_ifs at hstep <;> cases hstep
      · exact h.goto hawake rfl rfl rfl rfl nofun
      · exact h
  | next p =>
    cases hpc : s.pc p <;> rw [SleepSys.step, hpc] at hstep <;> cases hstep
    · exact h
    · exact h.callStep hpc ht
  | kill pid =>
    rw [SleepSys.step] at hstep
    split_ifs at hstep with hpt <;> cases hstep
    · exact h.kill ht hpt
    · exact h
  | data d =>
    cases hstep
    exact ⟨h.asleep, h.holds, h.kept⟩
  | wakeup chan =>
    rw [SleepSys.step] at hstep
    split_ifs at hstep <;> cases hstep
    · exact h.quieter (.wakeup1 _ _)
    · exact h
  | exit p =>
    cases hpc : s.pc p <;> rw [SleepSys.step, hpc] at hstep
    case run =>
      cases hstep
      exact h
    case idle =>
      split_ifs at hstep <;> cases hstep
      · exact h.quieter (.exitSection _ _)
      · exact h

end

end Heeds

lemma Quiet.heeds {s : SleepSys} (h : s.Quiet) (C : SleepCall → Bool) : s.Heeds C := by
  refine ⟨fun p hp => (h.state p hp).elim, fun p hp => ?_, fun p c x hx => ?_⟩
  · rw [h.pc p] at hp
    cases hp
  · rw [h.pc p] at hx
    cases hx

lemma heeds_of_reach {C : SleepCall → Bool} {s₀ s : SleepSys} (h₀ : s₀.Quiet)
    (h : Reach step (Timely C) s₀ s) : s.Heeds C :=
  Reach.invariant (I := Heeds C) (h₀.heeds C) (fun _ _ _ hs ht => hs.step ht) h

/-- **No process that is killed sleeps**, as long as `kill` is not called between its test of `killed` and
its `acquire(&ptable.lock)`: in the calls that can be interrupted, and in `ilock` at the end of
`consoleread` too, as long as a process that is killed need not wait there. -/
theorem kill_not_lost {s₀ s : SleepSys} (h₀ : s₀.Quiet) :
    (Reach step (Timely SleepCall.interruptible) s₀ s → ∀ p c x, s.pc p = .run c x →
      c.interruptible = true → (s.proc p).state = .sleeping → (s.proc p).killed = false) ∧
    (Reach step (Timely fun _ => true) s₀ s → ∀ p, (s.proc p).state = .sleeping →
      (∃ c, s.pc p = .run c .asleep) ∧ (s.proc p).killed = false) := by
  constructor
  · intro h p c x hx hc hs
    exact (heeds_of_reach h₀ h).kept p c x hx hc (.inr hs)
  · intro h p hs
    obtain ⟨c, hc⟩ := (heeds_of_reach h₀ h).asleep p hs
    exact ⟨⟨c, hc⟩, (heeds_of_reach h₀ h).kept p c _ hc rfl (.inr hs)⟩

/-! ### A reader -/

/-- A test for `Timely`. -/
def timely (s : SleepSys) : SleepAct → Bool
  | .kill pid =>
    match (findPid s.proc pid).map s.pc with
    | some (.run _ .wake) | some (.run _ .sleepLock) => false
    | _ => true
  | .next p =>
    match s.pc p with
    | .run .ilock _ => false
    | _ => true
  | _ => true

lemma timely_of_test {C : SleepCall → Bool} {s : SleepSys} {a : SleepAct} (h : s.timely a = true) :
    s.Timely C a := by
  cases a with
  | kill pid =>
    intro q c hq _
    rw [timely, hq, Option.map_some] at h
    constructor <;> intro hpc <;> simp [hpc] at h
  | next p =>
    intro _ hpc _
    simp [timely, hpc] at h
  | call | data | wakeup | exit => trivial

/-- One process, and pipes that are empty. -/
def oneReader : SleepSys where
  proc q := if q = 0 then ⟨.running, 1, none, false, none⟩ else ⟨.unused, 0, none, false, none⟩
  ptlock := none
  lock _ := none
  pc _ := .idle
  data := ⟨fun _ => .alloc fun _ => 0, ⟨fun _ => 0, 0, 0, 0⟩, 0, false⟩

lemma quiet_oneReader : oneReader.Quiet := by
  refine ⟨fun _ => rfl, fun p => ?_, rfl⟩
  rw [oneReader]
  dsimp only
  split_ifs <;> nofun

/-- A reader that goes to sleep. -/
theorem kill_not_lost_read :
    ∃ s, Reach step (Timely fun _ => true) oneReader s ∧ (s.proc 0).state = .sleeping ∧
      (s.proc 0).killed = false := by
  obtain ⟨s, hs, hstate⟩ : ∃ s, runChecked step (fun s a => s.timely a = true)
      (.call 0 (.piperead 0 1 0) :: List.replicate 5 (.next 0)) oneReader = some s ∧
      (s.proc 0).state = .sleeping := ⟨_, rfl, rfl⟩
  have hreach : Reach step (Timely fun _ => true) oneReader s :=
    (Reach.of_runChecked .init hs).mono fun _ _ => timely_of_test
  exact ⟨s, hreach, hstate, ((kill_not_lost quiet_oneReader).2 hreach 0 hstate).2⟩

/-- `kill` between the test of `killed` in `piperead` and `acquire(&ptable.lock)` in `sleep`. -/
theorem kill_lost :
    ∃ s, Reach step (fun _ _ => True) oneReader s ∧ s.pc 0 = .run (.piperead 0 1 0) .asleep ∧
      (s.proc 0).state = .sleeping ∧ (s.proc 0).killed = true := by
  obtain ⟨s, hs, hpc, hstate, hkilled⟩ : ∃ s, runChecked step (fun _ _ => True)
      [.call 0 (.piperead 0 1 0), .next 0, .next 0, .kill 1, .next 0, .next 0, .next 0] oneReader =
        some s ∧ s.pc 0 = .run (.piperead 0 1 0) .asleep ∧ (s.proc 0).state = .sleeping ∧
      (s.proc 0).killed = true := ⟨_, rfl, rfl, rfl, rfl⟩
  exact ⟨s, .of_runChecked .init hs, hpc, hstate, hkilled⟩

end SleepSys

end Col331
