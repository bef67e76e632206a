import Col331.Ide.Calls

/-!
Every call of the interrupt-driven disk driver returns.

* `Ide.todo`: the work that is left; every step that changes the state makes it less.
* `Ide.Ready`, `Ide.ReadyIntr`: the process or the handler is not waiting for anybody.
* `ide_refines`: the driver does what the one in memory does.
-/

namespace Col331

open Function

/-! ### The work that is left -/

/-- The steps that a process has before it, up to the end of the call or to its next sleep. -/
@[simp] def IdePc.weight (sleeping : Bool) : IdePc → ℕ
  | .idle => 0
  | .acquire => 26
  | .queue => 25
  | .start => 11
  | .test => 5
  | .sleepLock => 4
  | .sleepRelease => 3
  | .sleepSet => 2
  | .asleep => if sleeping then 1 else 7
  | .woken => 6
  | .release => 1

lemma IdePc.weight_false_le (l : Bool) (c : IdePc) : c.weight false ≤ c.weight l + 6 := by
  cases c <;> cases l <;> decide

/-- The steps that the handler has before it, with those of the process it wakes. -/
@[simp] def IntrPc.weight {B : Type} : IntrPc B → ℕ
  | .idle => 0
  | .acquire _ => 3
  | .serve _ => 2
  | .wake _ => 14
  | .start => 7
  | .release => 1

/-- What a command or an interrupt leads to. -/
def devWeight (cmd : Option Cmd) (irq : Option ℕ) : ℕ :=
  (if cmd.isSome then 5 else 0) + if irq.isSome then 4 else 0

lemma devWeight_some (c : Cmd) (irq : Option ℕ) : devWeight (some c) irq = devWeight none irq + 5 := by
  simp [devWeight, Nat.add_comm]

namespace Ide

variable {B : Type} [Fintype B] {d₀ : Disk} {s s' : Ide B} {q : List B} {b : B}

/-- The work of the processes. -/
def procWork (pc : B → IdePc) (sleeping : B → Bool) : ℕ := ∑ b, (pc b).weight (sleeping b)

/-- The work of the controller and the handler. -/
def devWork (s : Ide B) : ℕ :=
  s.intr.weight + devWeight s.cmd s.irq + 13 * (s.queued.length - s.count)

/-- The work that is left. -/
def todo (s : Ide B) : ℕ := procWork s.pc s.sleeping + s.devWork

/-- The process is not waiting for anybody. -/
def Ready (s : Ide B) (b : B) : Prop :=
  match s.pc b with
  | .idle => False
  | .acquire | .woken => s.idelock = none
  | .sleepLock => s.ptlock = none
  | .asleep => s.sleeping b = false ∧ s.ptlock = none
  | _ => True

/-- The handler is not waiting for anybody. -/
def ReadyIntr (s : Ide B) : Prop :=
  match s.intr with
  | .idle => False
  | .acquire _ => s.idelock = none
  | .wake _ => s.ptlock = none
  | _ => True

/-! ### The controller -/

/-- Less is left when the controller and the handler have less before them. -/
lemma todo_lt_of_devWork (hpc : s'.pc = s.pc) (hsl : s'.sleeping = s.sleeping)
    (h : s'.devWork < s.devWork) : s'.todo < s.todo := by
  rw [todo, todo, hpc, hsl]
  omega

lemma Inv.complete_todo (h : Inv d₀ s q) {c : Cmd} (hc : s.cmd = some c) : (s.finish c).todo < s.todo := by
  obtain ⟨b, q, rfl, -, hirq, -⟩ := h.active hc
  rw [finish]
  split <;> refine todo_lt_of_devWork rfl rfl ?_ <;> simp [devWork, devWeight, hc, hirq, count]

lemma interrupt_todo {t : ℕ} (ht : s.irq = some t) (hi : s.intr = .idle) :
    ({ s with irq := none, intr := .acquire t } : Ide B).todo < s.todo := by
  refine todo_lt_of_devWork rfl rfl ?_
  simp only [devWork, devWeight, ht, hi, IntrPc.weight, count, Option.isSome_some, Option.isSome_none,
    if_true, Bool.false_eq_true, if_false]
  omega

/-! ### A process -/

variable [DecidableEq B]

/-- The work of the processes when only `b` has moved. -/
lemma procWork_update {pc : B → IdePc} {sl : B → Bool} {c : IdePc} {l : Bool} :
    procWork (update pc b c) (update sl b l) + (pc b).weight (sl b) =
      procWork pc sl + c.weight l := by
  have hrest : ∑ x ∈ Finset.univ.erase b, (update pc b c x).weight (update sl b l x) =
      ∑ x ∈ Finset.univ.erase b, (pc x).weight (sl x) := by
    refine Finset.sum_congr rfl fun x hx => ?_
    rw [update_of_ne (Finset.ne_of_mem_erase hx), update_of_ne (Finset.ne_of_mem_erase hx)]
  have h₁ := Finset.add_sum_erase Finset.univ
    (fun x => (update pc b c x).weight (update sl b l x)) (Finset.mem_univ b)
  have h₂ := Finset.add_sum_erase Finset.univ (fun x => (pc x).weight (sl x)) (Finset.mem_univ b)
  simp only [update_self] at h₁
  rw [procWork, procWork, ← h₁, ← h₂, hrest]
  omega

/-- Less is left when the process moves and has less before it. -/
lemma todo_lt {c : IdePc} {l : Bool} (hpc : s'.pc = update s.pc b c)
    (hsl : s'.sleeping = update s.sleeping b l)
    (h : c.weight l + s'.devWork < (s.pc b).weight (s.sleeping b) + s.devWork) : s'.todo < s.todo := by
  have hsum : procWork (update s.pc b c) (update s.sleeping b l) + _ = procWork s.pc s.sleeping + _ :=
    procWork_update
  rw [todo, todo, hpc, hsl]
  omega

/-- A process goes on, and only the locks and its own sleep change with it. -/
lemma todo_lt_of_move {c : IdePc} {l : Bool} (hpc : s'.pc = update s.pc b c)
    (hsl : s'.sleeping = update s.sleeping b l) (hdev : s'.devWork = s.devWork)
    (h : c.weight l < (s.pc b).weight (s.sleeping b)) : s'.todo < s.todo :=
  todo_lt hpc hsl (by omega)

/-- The steps of `iderw` that touch neither the queue nor the controller. -/
lemma run_todo (hqueue : s.pc b ≠ .queue) (hstart : s.pc b ≠ .start) :
    ∃ s', s.run b = .ok s' ∧ (s' = s ∧ ¬s.Ready b ∨ s'.todo < s.todo) := by
  have hsl := (update_eq_self b s.sleeping).symm
  rw [run, Ready]
  cases hp : s.pc b with
  | queue => exact absurd hp hqueue
  | start => exact absurd hp hstart
  | idle => exact ⟨s, rfl, .inl ⟨rfl, id⟩⟩
  | acquire | woken | sleepLock =>
    refine ⟨_, rfl, ?_⟩
    split_ifs with hfree
    · exact .inr (todo_lt_of_move rfl hsl rfl (by rw [hp]; simp))
    · exact .inl ⟨rfl, hfree⟩
  | test =>
    refine ⟨_, rfl, .inr (todo_lt_of_move rfl hsl rfl ?_)⟩
    rw [hp]
    split_ifs <;> simp
  | sleepRelease | release =>
    exact ⟨_, rfl, .inr (todo_lt_of_move rfl hsl rfl (by rw [hp]; simp))⟩
  | sleepSet =>
    exact ⟨_, rfl, .inr (todo_lt_of_move rfl rfl rfl (by rw [hp]; simp))⟩
  | asleep =>
    refine ⟨_, rfl, ?_⟩
    split_ifs with hwoken
    · exact .inr (todo_lt_of_move rfl hsl rfl (by rw [hp, hwoken.1]; simp))
    · exact .inl ⟨rfl, hwoken⟩

/-- **A process that is not waiting for anybody goes on**, and less is left then. -/
lemma Inv.run_todo (h : Inv d₀ s q) (b : B) :
    ∃ s', s.run b = .ok s' ∧ (s' = s ∧ ¬s.Ready b ∨ s'.todo < s.todo) := by
  have hsl := (update_eq_self b s.sleeping).symm
  by_cases hqueue : s.pc b = .queue
  · have hproc := h.procs b
    rw [hqueue] at hproc
    obtain ⟨qnext, head, happ, -⟩ := append_ok h.queue.link h.queue.nodup hproc.1
    refine ⟨s.push b qnext head, by rw [run, hqueue]; dsimp only; rw [happ]; rfl, .inr (todo_lt rfl hsl ?_)⟩
    have htotal := h.queue.total
    have hwork : (s.push b qnext head).devWork = s.devWork + 13 := by
      simp only [devWork, push, count, List.length_append, List.length_singleton] at htotal ⊢
      omega
    rw [hqueue, hwork]
    simp only [IdePc.weight]
    omega
  by_cases hstart : s.pc b = .start
  · have hmem : b ∈ q := by simpa only [hstart, ProcOk] using h.procs b
    rw [run, hstart]
    dsimp only
    split_ifs with hhead hbusy
    · obtain ⟨c, hc⟩ := Option.isSome_iff_exists.mp hbusy
      obtain ⟨a, q, rfl, hact⟩ := h.active hc
      rw [h.queue.link.head_eq] at hhead
      exact absurd (Option.some.inj hhead ▸ hstart) hact.2.2.2.1
    · rw [idestart, if_neg (Nat.not_le.mpr (h.good hmem).blockno)]
      refine ⟨_, rfl, .inr (todo_lt rfl hsl ?_)⟩
      rw [hstart]
      simp only [IdePc.weight, devWork, goto, count, devWeight_some, Option.not_isSome_iff_eq_none.mp hbusy]
      omega
    · exact ⟨_, rfl, .inr (todo_lt_of_move rfl hsl rfl (by rw [hstart]; simp))⟩
  exact Ide.run_todo hqueue hstart

/-! ### The handler -/

/-- The handler wakes a process. -/
lemma wake_todo (hi : s.intr = .wake b) :
    ({ s with sleeping := update s.sleeping b false, intr := .start } : Ide B).todo < s.todo := by
  refine todo_lt (c := s.pc b) (update_eq_self b s.pc).symm rfl ?_
  have hle := (s.pc b).weight_false_le (s.sleeping b)
  simp only [devWork, hi, IntrPc.weight, count]
  omega

/-- **The handler goes on** when it is not waiting for anybody, and less is left then. -/
lemma Inv.runIntr_todo (h : Inv d₀ s q) :
    ∃ s', s.runIntr = .ok s' ∧ (s' = s ∧ ¬s.ReadyIntr ∨ s'.todo < s.todo) := by
  rw [Ide.runIntr, ReadyIntr]
  cases hi : s.intr with
  | idle => exact ⟨s, rfl, .inl ⟨rfl, id⟩⟩
  | acquire t =>
    refine ⟨_, rfl, ?_⟩
    split_ifs with hfree
    · exact .inr (todo_lt_of_devWork rfl rfl (by simp [devWork, hi, count]))
    · exact .inl ⟨rfl, hfree⟩
  | serve t =>
    obtain ⟨rfl, b, q, rfl, hf⟩ := h.finished (.inr (.inr hi))
    refine ⟨_, rfl, .inr ?_⟩
    rw [serve_eq h hf]
    refine todo_lt_of_devWork rfl rfl ?_
    have htotal := h.queue.total
    rw [List.length_cons] at htotal
    simp only [devWork, count_pop, hi]
    simp only [pop, IntrPc.weight]
    omega
  | wake b =>
    refine ⟨_, rfl, ?_⟩
    split_ifs with hfree
    · exact .inr (wake_todo hi)
    · exact .inl ⟨rfl, hfree⟩
  | start =>
    dsimp only
    split
    · exact ⟨_, rfl, .inr (todo_lt_of_devWork rfl rfl (by simp [devWork, hi, count]))⟩
    · rename_i b hb
      have hmem : b ∈ q := List.mem_of_mem_head? (h.queue.link.head_eq ▸ hb)
      have hidle : s.cmd = none := by
        cases hc : s.cmd with
        | none => rfl
        | some c =>
          obtain ⟨a, q, rfl, hact⟩ := h.active hc
          simpa [hi] using hact.2.2.1
      rw [hidle, if_neg (by simp), idestart, if_neg (Nat.not_le.mpr (h.good hmem).blockno)]
      refine ⟨_, rfl, .inr (todo_lt_of_devWork rfl rfl ?_)⟩
      simp only [devWork, hi, hidle, IntrPc.weight, devWeight_some, count]
      omega
  | release => exact ⟨_, rfl, .inr (todo_lt_of_devWork rfl rfl (by simp [devWork, hi, count]))⟩

/-! ### What can be done -/

/-- The steps of the calls under way, of the controller and of the handler. -/
def Internal : IdeAct B → Prop
  | .iderw .. | .kill _ => False
  | _ => True

/-- Every such step that changes the state leaves less to do. -/
lemma Inv.todo_lt (h : Inv d₀ s q) {a : IdeAct B} (ha : Internal a) (hstep : s.step a = .ok s') (hne : s' ≠ s) :
    s'.todo < s.todo := by
  cases a with
  | iderw => exact ha.elim
  | kill => exact ha.elim
  | next b =>
    obtain ⟨t, ht, hor⟩ := h.run_todo b
    obtain rfl : t = s' := Except.ok.inj (ht.symm.trans hstep)
    exact hor.resolve_left fun hs => hne hs.1
  | complete =>
    rw [Ide.step] at hstep
    split at hstep
    · exact absurd (Except.ok.inj hstep).symm hne
    · exact Except.ok.inj hstep ▸ h.complete_todo (by assumption)
  | interrupt =>
    rw [Ide.step] at hstep
    split at hstep
    · exact Except.ok.inj hstep ▸ interrupt_todo (by assumption) (by assumption)
    · exact absurd (Except.ok.inj hstep).symm hne
  | handler =>
    obtain ⟨t, ht, hor⟩ := h.runIntr_todo
    obtain rfl : t = s' := Except.ok.inj (ht.symm.trans hstep)
    exact hor.resolve_left fun hs => hne hs.1

omit [DecidableEq B] in
lemma ne_of_todo (h : s'.todo < s.todo) : s' ≠ s := fun heq => absurd h (heq ▸ lt_irrefl _)

lemma Inv.moves (h : Inv d₀ s q) (hb : s.Ready b) : ∃ a s', Internal a ∧ s.step a = .ok s' ∧ s' ≠ s := by
  obtain ⟨s', hs', hor⟩ := h.run_todo b
  exact ⟨.next b, s', trivial, hs', ne_of_todo (hor.resolve_left fun hn => hn.2 hb)⟩

lemma Inv.movesIntr (h : Inv d₀ s q) (hi : s.ReadyIntr) : ∃ a s', Internal a ∧ s.step a = .ok s' ∧ s' ≠ s := by
  obtain ⟨s', hs', hor⟩ := h.runIntr_todo
  exact ⟨.handler, s', trivial, hs', ne_of_todo (hor.resolve_left fun hn => hn.2 hi)⟩

/-- The controller or the handler goes on with the first request, when nobody holds `idelock`. -/
lemma Inv.moves_dev (h : Inv d₀ s (b :: q)) (hl : s.idelock = none) :
    ∃ a s', Internal a ∧ s.step a = .ok s' ∧ s' ≠ s := by
  have hintr : s.intr.holds ≠ true := fun hh => absurd (hl.symm.trans (h.locks.intr.mp hh)) (by simp)
  have hproc : (s.pc b).holds ≠ true := fun hh => absurd (hl.symm.trans ((h.locks.proc b).mp hh)) (by simp)
  rcases h.dev with ⟨-, -, hx, -⟩ | ⟨hcmd, -⟩ | ⟨-, ⟨hirq, hi | hi⟩ | ⟨-, hi | hi⟩, -⟩
  · rcases hx with ⟨x, hx⟩ | hx | hx
    · exact absurd (by rw [hx]; rfl) hintr
    · exact absurd (by rw [hx]; rfl) hintr
    · exact absurd (by rw [hx.1]; rfl) hproc
  · exact ⟨.complete, _, trivial, by rw [Ide.step, hcmd], ne_of_todo (h.complete_todo hcmd)⟩
  · exact ⟨.interrupt, _, trivial, by rw [Ide.step, hirq, hi], ne_of_todo (interrupt_todo hirq hi)⟩
  · exact absurd (by rw [hi]; rfl) hintr
  · exact h.movesIntr (by rw [ReadyIntr, hi]; exact hl)
  · exact absurd (by rw [hi]; rfl) hintr

/-- **As long as a call is under way, there is a step to take.** -/
lemma Inv.progress (h : Inv d₀ s q) (hb : s.pc b ≠ .idle) : ∃ a s', Internal a ∧ s.step a = .ok s' ∧ s' ≠ s := by
  -- whoever holds `ptable.lock` can go on
  cases hpt : s.ptlock with
  | some w =>
    cases w with
    | intr => exact absurd hpt h.locks.ptIntr
    | proc x =>
      have hx := (h.locks.pt x).mpr hpt
      refine h.moves (b := x) ?_
      rw [Ready]
      cases hc : s.pc x <;> rw [hc] at hx <;> first | exact trivial | exact nomatch hx
  | none =>
    -- and then whoever holds `idelock`
    cases hl : s.idelock with
    | some w =>
      cases w with
      | intr =>
        have hi := h.locks.intr.mpr hl
        refine h.movesIntr ?_
        rw [ReadyIntr]
        cases hc : s.intr <;> rw [hc] at hi <;>
          first | exact trivial | exact hpt | exact nomatch hi
      | proc x =>
        have hx := (h.locks.proc x).mpr hl
        refine h.moves (b := x) ?_
        rw [Ready]
        cases hc : s.pc x <;> rw [hc] at hx <;>
          first | exact trivial | exact hpt | exact nomatch hx
    | none =>
      by_cases hready : s.Ready b
      · exact h.moves hready
      -- the process sleeps, and its request is in the queue
      have hproc := h.procs b
      rw [Ready] at hready
      cases hc : s.pc b <;> rw [hc] at hready hproc
      case idle => exact absurd hc hb
      case acquire | woken => exact absurd hl hready
      case sleepLock => exact absurd hpt hready
      case asleep =>
          have hsleep : s.sleeping b = true := by
            rw [← Bool.not_eq_false]
            exact fun hs => hready ⟨hs, hpt⟩
          have hmem : b ∈ q := hproc.resolve_right fun hd => by
            have hi := h.locks.intr.mp (by rw [hd.2 hsleep]; rfl)
            exact nomatch hl.symm.trans hi
          cases q with
          | nil => exact absurd hmem List.not_mem_nil
          | cons a q => exact h.moves_dev hl
      all_goals exact absurd trivial hready

/-! ### The two drivers -/

/-- The only panic is the one for a buffer with nothing to do, which the driver in memory raises too. -/
lemma Inv.step_error (h : Inv d₀ s q) {a : IdeAct B} (ha : Promised s a) {e : Option Panic}
    (hstep : s.step a = .error e) :
    ∃ b v, a = .iderw b v ∧ ∃ p, e = some p ∧ ∀ disk, memide fssize disk v = .error p := by
  cases a with
  | iderw b v =>
    refine ⟨b, v, rfl, .iderwNothing, ?_⟩
    rw [Ide.step, if_neg (by rw [ha.2.1]; decide)] at hstep
    split_ifs at hstep with hclean hdisk
    · refine ⟨(Except.error.inj hstep).symm, fun disk => ?_⟩
      rw [memide, if_neg (by rw [ha.2.1]; decide), if_pos hclean]
    · cases h.present.symm.trans hdisk.2
  | next b =>
    obtain ⟨t, ht, -⟩ := h.run_todo b
    cases ht.symm.trans hstep
  | handler =>
    obtain ⟨t, ht, -⟩ := h.runIntr_todo
    cases ht.symm.trans hstep
  | complete | interrupt =>
    rw [Ide.step] at hstep
    split at hstep <;> cases hstep
  | kill b => exact absurd hstep (by simp [Ide.step])

/-- **The interrupt-driven driver refines the one in memory.**  The requests, in the order in which they
were queued, have a run of `memide.c`.  A call returns the buffer that its request has there, and when
all requests are served, disk 1 is the disk of that run.  The requests are served in that order, each
once and by the interrupt for its own command; with no call under way, all have been served and
returned, once.  No call panics where `memide.c` does not, and no loop is endless.  And whatever order the
steps are taken in, all calls return. -/
theorem ide_refines (disk : Bool → Disk) (buf : B → IdeBuf) (s : Ide B)
    (h : Reach step Promised (boot disk buf) s) :
    (∃ rs d, memRun fssize (disk true) s.queued = .ok (rs, d) ∧ (∀ r ∈ s.returned, rs[r.1]? = some r.2) ∧
      (s.served.length = s.queued.length → s.disk true = d)) ∧
    (s.served = (List.range s.served.length).map fun t => (t, t)) ∧ s.served.length ≤ s.queued.length ∧
    (s.returned.map Prod.fst).Nodup ∧
    ((∀ b, s.pc b = .idle) → s.served.length = s.queued.length ∧
      (s.returned.map Prod.fst).Perm (List.range s.queued.length)) ∧
    (∀ a e, Promised s a → s.step a = .error e →
      ∃ b v, a = .iderw b v ∧ ∃ p, e = some p ∧ ∀ disk, memide fssize disk v = .error p) ∧
    Inevitable step Internal (fun s => ∀ b, s.pc b = .idle) s := by
  obtain ⟨⟨q, hinv⟩, hcalls⟩ : (∃ q, Inv (disk true) s q) ∧ CallsOk s :=
    Reach.invariant (I := fun s => (∃ q, Inv (disk true) s q) ∧ CallsOk s)
      ⟨⟨[], inv_boot disk buf⟩, callsOk_boot disk buf⟩
      (fun _ _ _ hI ha hstep => ⟨hI.1.elim fun _ hq => hq.step ha hstep, hI.1.elim fun _ hq => hI.2.step hq ha hstep⟩) h
  have htotal := hinv.queue.total
  refine ⟨?_, hinv.queue.served, by rw [htotal]; exact Nat.le_add_right .., hcalls.nodup,
    fun hidle => ⟨hinv.served_eq hidle, hcalls.returned hidle⟩, fun a e ha he => hinv.step_error ha he, ?_⟩
  · obtain ⟨rs, hrun, hrs⟩ := @memRun_good (disk true) _ hinv.queue.good
    exact ⟨rs, _, hrun, fun r hr => (hrs r.1).trans (hinv.queue.returned r hr), hinv.disk_eq⟩
  · refine Inevitable.of_measure (I := fun s => ∃ q, Inv (disk true) s q) todo ?_ ?_ ?_ ⟨q, hinv⟩
    · rintro s a s' ⟨q, hq⟩ ha hstep
      refine hq.step ?_ hstep
      cases a <;> first | exact trivial | exact ha.elim
    · exact fun s a s' ⟨q, hq⟩ ha hstep hne => hq.todo_lt ha hstep hne
    · rintro s ⟨q, hq⟩ hgoal
      obtain ⟨b, hb⟩ := not_forall.mp hgoal
      exact hq.progress hb

/-- A read of block 3 of disk 1. -/
def readBlock : IdeBuf where
  busy := true
  valid := false
  dirty := false
  dev := 1
  blockno := 3
  data := Bytes.zero bsize

instance (s : Ide B) (a : IdeAct B) : Decidable (Promised s a) := by
  cases a <;> dsimp only [Promised] <;> infer_instance

/-- A call that is served and returns. -/
def oneRead : Option (Ide Unit) :=
  runChecked step Promised
    ([.iderw () readBlock] ++ List.replicate 7 (.next ()) ++ [.complete, .interrupt] ++
      List.replicate 5 .handler ++ List.replicate 4 (.next ()))
    (boot (fun _ _ => Bytes.zero bsize) fun _ => readBlock)

theorem ide_refines_oneRead : ∃ s : Ide Unit,
    Reach step Promised (boot (fun _ _ => Bytes.zero bsize) fun _ => readBlock) s ∧
      s.served = [(0, 0)] ∧ s.returned.map Prod.fst = [0] ∧
      ∃ rs d, memRun fssize (fun _ => Bytes.zero bsize) s.queued = .ok (rs, d) ∧
        ∀ r ∈ s.returned, rs[r.1]? = some r.2 := by
  have hrun : oneRead.map (fun s => (s.served, s.returned.map Prod.fst)) = some ([(0, 0)], [0]) := by rfl
  obtain ⟨s, hs, hval⟩ := Option.map_eq_some_iff.mp hrun
  rw [Prod.mk.injEq] at hval
  have hreach := Reach.of_runChecked .init hs
  obtain ⟨rs, d, hmem, hret, -⟩ := (ide_refines _ _ s hreach).1
  exact ⟨s, hreach, hval.1, hval.2, rs, d, hmem, hret⟩

end Ide

end Col331
