import Col331.Pipe.Fifo

/-!
Whether a process can sleep on a pipe through the event it waits for.

A process that changes the pipe holds `p->lock` until it has called `wakeup`, with one exception:
a killed writer that finds the pipe full returns at once, and the bytes it has put in since its
last `wakeup(&p->nread)` are not announced.

* `PipeSys.Wants`: a process sleeps on a channel, or is bound to without a further look.
* `PipeSys.Pend`: whoever waits in vain will be woken by the process that holds the lock.
* `no_lost_wakeup`: nobody waits in vain while the lock is free, as long as no killed writer leaves
  bytes to a sleeping reader.
* `lost_wakeup`: a run in which one does.
-/

namespace Col331

open Function

/-- The end a call works on: the write end (`true`) or the read end. -/
def PipeOp.side : PipeOp → Bool
  | .write .. => true
  | .read .. => false
  | .close writable => writable

/-- The call is `pipeclose`. -/
def PipeOp.closes : PipeOp → Bool
  | .close _ => true
  | _ => false

/-- The points of a call where `ptable.lock` is held. -/
def PipePc.ptlocked : PipePc → Bool
  | .run _ .sleepRelease | .run _ .sleepSet => true
  | _ => false

/-- A process asleep on the channel could go on. -/
def Pipe.ready (p : Pipe) : Chan → Bool
  | .nread => !p.empty || !p.writeopen
  | .nwrite => !p.full || !p.readopen

/-- The process is going to call `wakeup` on the channel before it releases the lock. -/
def PipePc.willing : PipePc → Chan → Bool
  | .run (.write _ _ _ true) .top, .nread => true
  | .run (.write ..) .wake, .nread => true
  | .run (.read ..) .copy, .nwrite => true
  | .run o .ending, ch => ch = o.peer
  | _, _ => false

/-- The process is in `sleep` on the channel and past the point where it could still find out that
it need not. -/
def PipePc.bound : PipePc → Chan → Bool
  | .run o .sleepSet, ch => o.chan = ch
  | _, _ => false

/-- The process is in the loop of `pipewrite` with more bytes to put in, and has not yet announced
all it has put in. -/
def PipePc.unseen : PipePc → Bool
  | .run (.write _ n i true) .top => (i : ℤ) < n
  | _ => false

namespace PipeSys

variable {P : Type} {s t : PipeSys P} {p q : P} {o o' : PipeOp} {c : PipePoint} {ch : Chan}

/-- The process sleeps on the channel, or is bound to. -/
def Wants (s : PipeSys P) (p : P) (ch : Chan) : Prop :=
  s.sleeping p = some ch ∨ (s.pc p).bound ch = true

instance (s : PipeSys P) (p : P) (ch : Chan) : Decidable (s.Wants p ch) :=
  inferInstanceAs (Decidable (_ ∨ _))

/-- No process is to sleep on `&p->nread` when a killed writer, with bytes it has not announced,
finds the pipe full. -/
def Heard (s : PipeSys P) : PipeAct P → Prop
  | .next p => (s.pc p).unseen = true → s.pipe.full = true → s.killed p = true →
      ∀ q, ¬ s.Wants q .nread
  | _ => True

instance [Fintype P] (s : PipeSys P) : (a : PipeAct P) → Decidable (s.Heard a)
  | .next _ => inferInstanceAs (Decidable (_ → _ → _ → _))
  | .write .. | .read .. | .close .. | .kill _ => .isTrue trivial

/-- If somebody waits on the channel in vain, the process that holds the lock will wake it up. -/
def Pend (s : PipeSys P) (ch : Chan) : Prop :=
  ∀ p, s.Wants p ch → s.pipe.ready ch = true → ∃ q, s.lock = some q ∧ (s.pc q).willing ch = true

/-- What is known of a call at the points on the way to sleep. -/
def PointOk (p : Pipe) (o : PipeOp) : PipePoint → Prop
  | .copy => o.closes = false ∧ o.side = false
  | .wake => (o.closes = false ∧ o.side = true) ∧ p.ready .nwrite = false
  | .sleepLock | .sleepRelease => o.closes = false ∧ p.ready o.chan = false
  | .sleepSet | .asleep => o.closes = false
  | _ => True

/-- A call in progress, at the point `c`. -/
structure CallOk (s : PipeSys P) (o : PipeOp) (c : PipePoint) : Prop where
  point : PointOk s.pipe o c
  shut : s.shut o.side = o.closes

/-- `ptable.lock` is held by the process that is in `sleep`. -/
def PtOk (s : PipeSys P) : Prop := ∀ p, (s.pc p).ptlocked = true ↔ s.ptlock = some p

/-- Who sleeps, and who will be woken. -/
structure Inv (s : PipeSys P) : Prop where
  lock : s.LockOk
  ptlock : s.PtOk
  call : ∀ p o c, s.pc p = .run o c → s.CallOk o c
  asleep : ∀ p ch, s.sleeping p = some ch → ∃ o, s.pc p = .run o .asleep ∧ o.chan = ch
  readopen : s.pipe.readopen = false → s.shut false = true
  writeopen : s.pipe.writeopen = false → s.shut true = true
  pend : ∀ ch, s.Pend ch

/-! ### Waiting in vain -/

lemma bound_eq_true {pc : PipePc} : pc.bound ch = true ↔ ∃ o, pc = .run o .sleepSet ∧ o.chan = ch := by
  rcases pc with _ | ⟨o, c⟩
  · simp [PipePc.bound]
  · cases c <;> simp [PipePc.bound]

/-- A call that sleeps on `&p->nread` is a read, and one on `&p->nwrite` a write. -/
lemma side_eq_of_chan (ho : o.closes = false) : o.side = decide (o.chan = .nwrite) := by
  cases o with
  | write | read => rfl
  | close => exact absurd ho (by simp [PipeOp.closes])

/-- Nobody is to sleep on the channel of an end that is closed. -/
lemma Inv.not_wants_of_shut (h : s.Inv) (hs : s.shut (decide (ch = .nwrite)) = true) (p : P) :
    ¬ s.Wants p ch := by
  have hcall : ∀ o c, s.pc p = .run o c → o.chan = ch → o.closes = false → False := by
    intro o c hp hch ho
    have hopen := (h.call p o c hp).shut
    rw [side_eq_of_chan ho, hch, hs, ho] at hopen
    simp at hopen
  rintro (hsl | hb)
  · obtain ⟨o, hp, hch⟩ := h.asleep p ch hsl
    exact hcall o .asleep hp hch (h.call p o _ hp).point
  · obtain ⟨o, hp, hch⟩ := bound_eq_true.1 hb
    exact hcall o .sleepSet hp hch (h.call p o _ hp).point

/-- The process that holds the lock does not mean to wake anybody on the channel, so nobody waits
there in vain, and this stays so. -/
lemma Pend.keep (h : s.Pend ch) (hp : (s.pc p).willing ch = false)
    (hlock : t.lock = s.lock ∨ s.lock = none ∨ s.lock = some p)
    (hpc : ∀ q, q ≠ p → t.pc q = s.pc q) (hw : ∀ q, t.Wants q ch → s.Wants q ch)
    (hr : t.pipe.ready ch = true → s.pipe.ready ch = true) : t.Pend ch := by
  intro q hq hready
  obtain ⟨r, hr, hwill⟩ := h q (hw q hq) (hr hready)
  have hne : r ≠ p := by
    rintro rfl
    simp [hp] at hwill
  rcases hlock with he | hn | hn
  · exact ⟨r, he.trans hr, by rw [hpc r hne]; exact hwill⟩
  · simp [hn] at hr
  · exact absurd (Option.some.inj (hn.symm.trans hr)).symm hne

variable [DecidableEq P]

/-- A step that does not go to sleep gives nobody a reason to wait. -/
lemma Wants.of_go (h : (t.go p o c).Wants q ch) (hc : c ≠ .sleepSet)
    (hsl : t.sleeping q = some ch → s.sleeping q = some ch) (hpc : t.pc = s.pc) : s.Wants q ch := by
  rcases h with h | h
  · exact .inl (hsl h)
  · rcases eq_or_ne q p with rfl | hq
    · obtain ⟨o', h, -⟩ := bound_eq_true.1 h
      rw [go_pc_self, PipePc.run.injEq] at h
      exact absurd h.2 hc
    · rw [go_pc_of_ne hq, hpc] at h
      exact .inr h

omit [DecidableEq P] in
/-- `wakeup` wakes nobody else. -/
lemma wakeup_sleeping {ch' : Chan} (h : (s.wakeup ch').sleeping q = some ch) :
    s.sleeping q = some ch := by
  change (if s.sleeping q = some ch' then none else s.sleeping q) = some ch at h
  split_ifs at h
  exact h

omit [DecidableEq P] in
/-- After `wakeup` nobody sleeps on the channel. -/
lemma wakeup_sleeping_ne : (s.wakeup ch).sleeping q ≠ some ch := by
  change (if s.sleeping q = some ch then none else s.sleeping q) ≠ some ch
  split_ifs with hsl
  · simp
  · exact hsl

/-- After `wakeup` nobody is to sleep on the channel. -/
lemma Inv.pend_wakeup (h : s.Inv) (hpt : s.ptlock = none) (hc : c ≠ .sleepSet) :
    ((s.wakeup ch).go p o c).Pend ch := by
  intro q hq
  have hw : (s.wakeup ch).Wants q ch := hq.of_go hc id rfl
  rcases hw with hsl | hb
  · exact absurd hsl wakeup_sleeping_ne
  · obtain ⟨o, hp, -⟩ := bound_eq_true.1 hb
    have hown := (h.ptlock q).1 (by rw [show s.pc q = _ from hp]; rfl)
    simp [hpt] at hown

/-- The process that holds the lock is about to call `wakeup`. -/
lemma Pend.of_willing (hl : t.lock = some p) (hw : (PipePc.run o c).willing ch = true) :
    (t.go p o c).Pend ch :=
  fun _ _ _ => ⟨p, hl, by rw [go_pc_self]; exact hw⟩

/-- The process that holds the lock goes on within its critical section. -/
lemma Inv.pend_go {c' : PipePoint} (h : s.Inv) (hp : s.pc p = .run o c) (hc : c.locked = true)
    (hpc : t.pc = s.pc) (hlock : t.lock = s.lock) (hsl : t.sleeping = s.sleeping)
    (hc' : c'.locked = true) (hch : (PipePc.run o' c').willing ch = true ∨ (∀ q, ¬ s.Wants q ch) ∨
      (PipePc.run o c).willing ch = false ∧ (t.pipe.ready ch = true → s.pipe.ready ch = true)) :
    (t.go p o' c').Pend ch := by
  have hown : s.lock = some p := (h.lock p).1 (by rw [hp]; exact hc)
  have hne : c' ≠ .sleepSet := by
    rintro rfl
    simp [PipePoint.locked] at hc'
  have hw : ∀ q, (t.go p o' c').Wants q ch → s.Wants q ch :=
    fun q hq => hq.of_go hne (by rw [hsl]; exact id) hpc
  rcases hch with hwill | hnone | ⟨hnot, hready⟩
  · exact Pend.of_willing (hlock.trans hown) hwill
  · exact fun q hq => absurd (hw q hq) (hnone q)
  · exact (h.pend ch).keep (by rw [hp]; exact hnot) (.inr (.inr hown))
      (fun q hq => (go_pc_of_ne hq).trans (congrFun hpc q)) hw hready

omit [DecidableEq P] in
/-- A writer at the top of its loop wakes nobody on `&p->nwrite`, and nobody on `&p->nread` if it
has put nothing in. -/
lemma willing_top {addr : ℕ → UInt8} {n : ℤ} {i : ℕ} {u : Bool} :
    (PipePc.run (.write addr n i u) .top).willing ch = (u && decide (ch = .nread)) := by
  cases u <;> cases ch <;> rfl

/-- A step of the loop of `pipewrite`. -/
lemma Inv.pend_write {addr : ℕ → UInt8} {n : ℤ} {i : ℕ} {u : Bool} (h : s.Inv)
    (hp : s.pc p = .run (.write addr n i u) .top) (hheard : s.Heard (.next p)) (ch : Chan) :
    (s.topStep p (.write addr n i u)).Pend ch := by
  rw [topStep]
  split_ifs with hn hfull hgone
  · refine h.pend_go hp rfl rfl rfl rfl rfl (.inr ?_)
    by_cases hch : u = true ∧ ch = .nread
    · -- the way out without a `wakeup`
      obtain ⟨rfl, rfl⟩ := hch
      refine .inl ?_
      rcases hgone with hro | hk
      · exact h.not_wants_of_shut (h.readopen hro)
      · exact hheard (by rw [hp]; simpa [PipePc.unseen] using hn) hfull hk
    · exact .inr ⟨by rw [willing_top]; simpa using hch, id⟩
  · refine h.pend_go hp rfl rfl rfl rfl rfl ?_
    cases ch with
    | nread => exact .inl (by cases u <;> rfl)
    | nwrite => exact .inr (.inr ⟨by simp [willing_top], id⟩)
  · refine h.pend_go hp rfl rfl rfl rfl rfl ?_
    cases ch with
    | nread => exact .inl (by cases u <;> rfl)
    | nwrite => exact .inr (.inr ⟨by simp [willing_top], fun _ => by simp [Pipe.ready, hfull]⟩)
  · refine h.pend_go hp rfl rfl rfl rfl rfl ?_
    cases ch with
    | nread => exact .inl (by cases u <;> rfl)
    | nwrite => exact .inr (.inr ⟨by simp [willing_top], id⟩)

/-- The step at the top of a call. -/
lemma Inv.pend_top (h : s.Inv) (hp : s.pc p = .run o .top) (hheard : s.Heard (.next p)) (ch : Chan) :
    (s.topStep p o).Pend ch := by
  cases o with
  | write addr n i unseen => exact h.pend_write hp hheard ch
  | read n got =>
    rw [topStep]
    split_ifs with hwait hkill
    · exact h.pend_go hp rfl rfl rfl rfl rfl (.inr (.inr ⟨rfl, id⟩))
    · exact h.pend_go hp rfl rfl rfl rfl rfl (.inr (.inr ⟨rfl, id⟩))
    · refine h.pend_go hp rfl rfl rfl rfl rfl ?_
      cases ch with
      | nread => exact .inr (.inr ⟨rfl, id⟩)
      | nwrite => exact .inl rfl
  | close writable =>
    rw [topStep]
    refine h.pend_go hp rfl rfl rfl rfl rfl ?_
    cases writable <;> cases ch
    · exact .inr (.inr ⟨rfl, id⟩)
    · exact .inl rfl
    · exact .inl rfl
    · exact .inr (.inr ⟨rfl, id⟩)

/-- A step of the copy loop of `piperead`. -/
lemma Inv.pend_copy (h : s.Inv) (hp : s.pc p = .run o .copy) (ch : Chan) :
    (s.copyStep p o).Pend ch := by
  obtain ⟨hcl, hside⟩ := (h.call p o _ hp).point
  cases o with
  | close => simp [PipeOp.closes] at hcl
  | write => simp [PipeOp.side] at hside
  | read n got =>
    rw [copyStep]
    split_ifs with hmore
    · refine h.pend_go hp rfl rfl rfl rfl rfl ?_
      cases ch with
      | nread => exact .inr (.inr ⟨rfl, fun _ => by simp [Pipe.ready, hmore.2]⟩)
      | nwrite => exact .inl rfl
    · refine h.pend_go hp rfl rfl rfl rfl rfl ?_
      cases ch with
      | nread => exact .inr (.inr ⟨rfl, id⟩)
      | nwrite => exact .inl rfl

/-- The points from which a call can still wake somebody up before it releases the lock. -/
def PipePoint.wakes : PipePoint → Bool
  | .top | .copy | .wake | .ending => true
  | _ => false

omit [DecidableEq P] in
lemma willing_eq_false (hc : PipePoint.wakes c = false) : (PipePc.run o c).willing ch = false := by
  cases c with
  | top | copy | wake | ending => simp [PipePoint.wakes] at hc
  | acquire | sleepLock | sleepRelease | sleepSet | asleep | release =>
    rcases o with ⟨_, _, _, _ | _⟩ | _ | _ <;> rfl

/-- A process that will not wake anybody moves, and nobody begins to wait. -/
lemma Inv.pend_quiet {c' : PipePoint} (h : s.Inv) (hp : s.pc p = .run o c)
    (hwill : (PipePc.run o c).willing ch = false) (hpc : t.pc = s.pc)
    (hlock : t.lock = s.lock ∨ s.lock = none)
    (hsl : ∀ q, t.sleeping q = some ch → s.sleeping q = some ch) (hpipe : t.pipe = s.pipe)
    (hc' : c' ≠ .sleepSet) : (t.go p o' c').Pend ch := by
  refine (h.pend ch).keep (p := p) (by rw [hp]; exact hwill) (hlock.imp_right .inl)
    (fun q hq => (go_pc_of_ne hq).trans (congrFun hpc q))
    (fun q hq => hq.of_go hc' (hsl q) hpc) ?_
  change t.pipe.ready ch = true → _
  rw [hpipe]
  exact id

/-- When `sleep` releases the lock, the process has found the pipe not ready for it, and it has
`ptable.lock`. -/
lemma Inv.pend_sleepRelease (h : s.Inv) (hp : s.pc p = .run o .sleepRelease) (ch : Chan) :
    (s.opStep p o .sleepRelease).Pend ch := by
  have hown : s.lock = some p := (h.lock p).1 (by rw [hp]; rfl)
  have hblocked : s.pipe.ready o.chan = false := (h.call p o _ hp).point.2
  have hquiet : ∀ q, s.Wants q ch → s.pipe.ready ch = true → False := by
    intro q hq hr
    obtain ⟨r, hr, hwill⟩ := h.pend ch q hq hr
    obtain rfl := Option.some.inj (hown.symm.trans hr)
    rw [hp, willing_eq_false rfl] at hwill
    simp at hwill
  intro q hq hr
  rcases hq with hsl | hb
  · exact (hquiet q (.inl hsl) hr).elim
  · rcases eq_or_ne q p with rfl | hne
    · obtain ⟨o', ho', hch⟩ := bound_eq_true.1 hb
      rw [opStep, go_pc_self, PipePc.run.injEq] at ho'
      rw [← hch, ← ho'.1] at hr
      cases hblocked.symm.trans hr
    · refine (hquiet q (.inr ?_) hr).elim
      rwa [opStep, go_pc_of_ne hne] at hb

/-- Whoever waits in vain after a step of a call will be woken. -/
lemma Inv.pend_opStep (h : s.Inv) (hp : s.pc p = .run o c) (hheard : s.Heard (.next p)) (ch : Chan) :
    (s.opStep p o c).Pend ch := by
  cases c with
  | top => exact h.pend_top hp hheard ch
  | copy => exact h.pend_copy hp ch
  | acquire =>
    rw [opStep]
    split_ifs with hfree
    · exact h.pend_quiet hp (willing_eq_false rfl) rfl (.inr hfree) (fun _ => id) rfl (by simp)
    · exact h.pend ch
  | wake =>
    rw [opStep]
    split_ifs with hfree
    · cases ch with
      | nread => exact h.pend_wakeup hfree (by simp)
      | nwrite =>
        refine h.pend_quiet hp ?_ rfl (.inl rfl) (fun _ => wakeup_sleeping) rfl (by simp)
        rcases o with ⟨_, _, _, _ | _⟩ | _ | _ <;> rfl
    · exact h.pend ch
  | sleepLock | asleep =>
    rw [opStep]
    split_ifs
    · exact h.pend_quiet hp (willing_eq_false rfl) rfl (.inl rfl) (fun _ => id) rfl (by simp)
    · exact h.pend ch
  | sleepRelease => exact h.pend_sleepRelease hp ch
  | sleepSet =>
    refine (h.pend ch).keep (p := p) (by rw [hp]; exact willing_eq_false rfl) (.inl rfl)
      (fun q hq => go_pc_of_ne hq) (fun q hq => ?_) id
    rcases eq_or_ne q p with rfl | hne
    · rcases hq with hsl | hb
      · have hch : o.chan = ch := by simpa [opStep, go, goto] using hsl
        exact .inr (bound_eq_true.2 ⟨o, hp, hch⟩)
      · simp [opStep, go_pc_self, PipePc.bound] at hb
    · refine hq.of_go (c := .asleep) (by simp) (fun hsl => ?_) rfl
      simpa [update_of_ne hne] using hsl
  | ending =>
    rw [opStep]
    split_ifs with hfree
    · by_cases hch : ch = o.peer
      · exact hch ▸ h.pend_wakeup hfree (by simp)
      · refine h.pend_quiet hp ?_ rfl (.inl rfl) (fun _ => wakeup_sleeping) rfl (by simp)
        rcases o with ⟨_, _, _, _ | _⟩ | _ | _ <;> simpa [PipePc.willing] using hch
    · exact h.pend ch
  | release r =>
    have hown : s.lock = some p := (h.lock p).1 (by rw [hp]; rfl)
    refine (h.pend ch).keep (p := p) (by rw [hp]; exact willing_eq_false rfl)
      (.inr (.inr hown)) (fun q hq => update_of_ne hq ..) (fun q hq => ?_) id
    rcases hq with hsl | hb
    · exact .inl hsl
    · rcases eq_or_ne q p with rfl | hne
      · simp [opStep, releaseStep, PipePc.bound] at hb
      · exact .inr (by simpa [opStep, releaseStep, update_of_ne hne] using hb)

/-! ### One step -/

/-- A process moves and neither takes nor releases `ptable.lock`. -/
lemma PtOk.go {x : PipePc} (h : s.PtOk) (hp : s.pc p = x) (hpc : t.pc = s.pc)
    (hpt : t.ptlock = s.ptlock) (hx : (PipePc.run o c).ptlocked = x.ptlocked) : (t.go p o c).PtOk := by
  have ht : Held PipePc.ptlocked t.pc t.ptlock := by rwa [hpc, hpt]
  exact ht.stay (by rw [hpc, hp, hx])

omit [DecidableEq P] in
/-- The points where `PointOk` looks at the pipe hold the lock. -/
lemma PointOk.congr {p p' : Pipe} (h : PointOk p o c) (hc : c.locked = true → p' = p) :
    PointOk p' o c := by
  cases c with
  | acquire | top | copy | sleepSet | asleep | ending | release => exact h
  | wake | sleepLock | sleepRelease =>
    obtain rfl := hc rfl
    exact h

/-- What a step of a call leaves alone: it changes the pipe only under the lock, opens no end and
puts nobody else to sleep. -/
structure Frame (s t : PipeSys P) (p : P) (c : PipePoint) (sleeps : Chan → Prop) : Prop where
  pc : t.pc = s.pc
  shut : t.shut = s.shut
  pipe : c.locked = false → t.pipe = s.pipe
  readopen : t.pipe.readopen = false → s.shut false = true
  writeopen : t.pipe.writeopen = false → s.shut true = true
  sleeping : ∀ q ch, t.sleeping q = some ch → s.sleeping q = some ch ∨ q = p ∧ sleeps ch

/-- A process goes on in its call. -/
lemma Inv.go {c' : PipePoint} (h : s.Inv) (hp : s.pc p = .run o c)
    (hf : Frame s t p c fun ch => c' = .asleep ∧ o'.chan = ch)
    (hc : c = .asleep → t.sleeping p = none) (hside : o'.side = o.side)
    (hcloses : o'.closes = o.closes) (hpoint : PointOk t.pipe o' c')
    (hlock : (t.go p o' c').LockOk) (hpt : (t.go p o' c').PtOk)
    (hpend : ∀ ch, (t.go p o' c').Pend ch) : (t.go p o' c').Inv where
  lock := hlock
  ptlock := hpt
  pend := hpend
  readopen hr := (congrFun hf.shut false).trans (hf.readopen hr)
  writeopen hw := (congrFun hf.shut true).trans (hf.writeopen hw)
  call q o₁ c₁ hq := by
    rcases eq_or_ne q p with rfl | hne
    · rw [go_pc_self, PipePc.run.injEq] at hq
      obtain ⟨rfl, rfl⟩ := hq
      refine ⟨hpoint, ?_⟩
      change t.shut o'.side = o'.closes
      rw [hf.shut, hside, hcloses]
      exact (h.call q o c hp).shut
    · rw [go_pc_of_ne hne, hf.pc] at hq
      refine ⟨(h.call q o₁ c₁ hq).point.congr fun hloc => hf.pipe ?_, ?_⟩
      · -- not both hold the lock
        by_contra hcl
        exact hne (Held.eq (l := PipePc.locked) h.lock (by rw [hq]; exact hloc)
          (by rw [hp]; simpa [PipePc.locked] using hcl))
      · change t.shut o₁.side = o₁.closes
        rw [hf.shut]
        exact (h.call q o₁ c₁ hq).shut
  asleep q ch hsl := by
    rcases hf.sleeping q ch hsl with hs | ⟨rfl, rfl, hch⟩
    · obtain ⟨o₁, hq, hch⟩ := h.asleep q ch hs
      have hne : q ≠ p := by
        rintro rfl
        rw [hp, PipePc.run.injEq] at hq
        have hnone := hc hq.2
        simp [show t.sleeping q = _ from hsl] at hnone
      exact ⟨o₁, by rw [go_pc_of_ne hne, hf.pc]; exact hq, hch⟩
    · exact ⟨o', go_pc_self, hch⟩

omit [DecidableEq P] in
/-- A step that leaves the two `open` flags alone. -/
lemma Inv.frame {sleeps : Chan → Prop} (h : s.Inv) (hpc : t.pc = s.pc) (hshut : t.shut = s.shut)
    (hpipe : c.locked = false → t.pipe = s.pipe) (hr : t.pipe.readopen = s.pipe.readopen)
    (hw : t.pipe.writeopen = s.pipe.writeopen)
    (hsl : ∀ q ch, t.sleeping q = some ch → s.sleeping q = some ch) : Frame s t p c sleeps :=
  ⟨hpc, hshut, hpipe, fun e => h.readopen (hr ▸ e), fun e => h.writeopen (hw ▸ e),
    fun q ch e => .inl (hsl q ch e)⟩

lemma Inv.topStep (h : s.Inv) (hp : s.pc p = .run o .top) (hlock : (s.topStep p o).LockOk)
    (hpend : ∀ ch, (s.topStep p o).Pend ch) : (s.topStep p o).Inv := by
  have hf : ∀ {f}, Frame s s p .top f := h.frame rfl rfl (by simp) rfl rfl fun _ _ => id
  cases o with
  | write addr n i u =>
    rw [PipeSys.topStep] at hlock hpend ⊢
    split_ifs at hlock hpend ⊢ with hn hfull hgone
    · exact h.go hp hf (by simp) rfl rfl trivial hlock (h.ptlock.go hp rfl rfl rfl) hpend
    · have hready : s.pipe.ready .nwrite = false := by
        simp only [not_or, Bool.not_eq_false] at hgone
        simp [Pipe.ready, hfull, hgone.1]
      exact h.go hp hf (by simp) rfl rfl ⟨⟨rfl, rfl⟩, hready⟩ hlock (h.ptlock.go hp rfl rfl rfl) hpend
    · exact h.go hp (h.frame rfl rfl (by rintro ⟨⟩) rfl rfl fun _ _ => id) (by simp) rfl rfl trivial hlock
        (h.ptlock.go hp rfl rfl rfl) hpend
    · exact h.go hp hf (by simp) rfl rfl trivial hlock (h.ptlock.go hp rfl rfl rfl) hpend
  | read n got =>
    rw [PipeSys.topStep] at hlock hpend ⊢
    split_ifs at hlock hpend ⊢ with hwait hkill
    · exact h.go hp hf (by simp) rfl rfl trivial hlock (h.ptlock.go hp rfl rfl rfl) hpend
    · have hready : s.pipe.ready .nread = false := by simp [Pipe.ready, hwait.1, hwait.2]
      exact h.go hp hf (by simp) rfl rfl ⟨rfl, hready⟩ hlock (h.ptlock.go hp rfl rfl rfl) hpend
    · exact h.go hp hf (by simp) rfl rfl ⟨rfl, rfl⟩ hlock (h.ptlock.go hp rfl rfl rfl) hpend
  | close writable =>
    have hshut : s.shut writable = true := (h.call p _ _ hp).shut
    refine h.go hp ⟨rfl, rfl, (by rintro ⟨⟩), ?_, ?_, fun _ _ => .inl⟩ (by simp) rfl rfl trivial hlock
      (h.ptlock.go hp rfl rfl rfl) hpend
    · cases writable
      · exact fun _ => hshut
      · exact h.readopen
    · cases writable
      · exact h.writeopen
      · exact fun _ => hshut

lemma Inv.copyStep (h : s.Inv) (hp : s.pc p = .run o .copy) (hlock : (s.copyStep p o).LockOk)
    (hpend : ∀ ch, (s.copyStep p o).Pend ch) : (s.copyStep p o).Inv := by
  obtain ⟨hcl, hside⟩ := (h.call p o _ hp).point
  cases o with
  | close => simp [PipeOp.closes] at hcl
  | write => simp [PipeOp.side] at hside
  | read n got =>
    rw [PipeSys.copyStep] at hlock hpend ⊢
    split_ifs at hlock hpend ⊢
    · exact h.go hp (h.frame rfl rfl (by rintro ⟨⟩) rfl rfl fun _ _ => id) (by simp) rfl rfl ⟨rfl, rfl⟩ hlock
        (h.ptlock.go hp rfl rfl rfl) hpend
    · exact h.go hp (h.frame rfl rfl (by simp) rfl rfl fun _ _ => id) (by simp) rfl rfl trivial hlock
        (h.ptlock.go hp rfl rfl rfl) hpend

omit [DecidableEq P] in
lemma seen_side : (seen o).side = o.side := by cases o <;> rfl

omit [DecidableEq P] in
lemma seen_closes : (seen o).closes = o.closes := by cases o <;> rfl

omit [DecidableEq P] in
lemma seen_chan : (seen o).chan = o.chan := by cases o <;> rfl

omit [DecidableEq P] in
/-- A process that waits for room is a writer. -/
lemma chan_eq_nwrite (hcl : o.closes = false) (hside : o.side = true) : o.chan = .nwrite := by
  cases o with
  | write => rfl
  | read => simp [PipeOp.side] at hside
  | close => simp [PipeOp.closes] at hcl

/-- A call returns. -/
lemma Inv.releaseStep {r : ℤ} (h : s.Inv) (hp : s.pc p = .run o (.release r))
    (hlock : (s.releaseStep p o).LockOk) (hpend : ∀ ch, (s.releaseStep p o).Pend ch) :
    (s.releaseStep p o).Inv := by
  have hself : (s.releaseStep p o).pc p = .idle := update_self ..
  have hpc : ∀ q, q ≠ p → (s.releaseStep p o).pc q = s.pc q := fun q hq => update_of_ne hq ..
  refine ⟨hlock, Held.stay (l := PipePc.ptlocked) h.ptlock (by rw [hp]; rfl), fun q o₁ c₁ hq => ?_,
    fun q ch hsl => ?_, h.readopen, h.writeopen, hpend⟩
  · rcases eq_or_ne q p with rfl | hne
    · rw [hself] at hq
      exact absurd hq nofun
    · rw [hpc q hne] at hq
      exact ⟨(h.call q o₁ c₁ hq).point, (h.call q o₁ c₁ hq).shut⟩
  · obtain ⟨o₁, hq, hch⟩ := h.asleep q ch hsl
    have hne : q ≠ p := by
      rintro rfl
      simp [hp] at hq
    exact ⟨o₁, by rw [hpc q hne]; exact hq, hch⟩

lemma Inv.opStep (h : s.Inv) (hp : s.pc p = .run o c) (hheard : s.Heard (.next p)) :
    (s.opStep p o c).Inv := by
  have hlock := h.lock.opStep hp
  have hpend := h.pend_opStep hp hheard
  have hcall := h.call p o c hp
  cases c with
  | top => exact h.topStep hp hlock hpend
  | copy => exact h.copyStep hp hlock hpend
  | acquire =>
    rw [PipeSys.opStep] at hlock hpend ⊢
    split_ifs at hlock hpend ⊢
    · exact h.go hp (h.frame rfl rfl (fun _ => rfl) rfl rfl fun _ _ => id) (by simp) rfl rfl trivial
        hlock (h.ptlock.go hp rfl rfl rfl) hpend
    · exact h
  | wake =>
    obtain ⟨⟨hcl, hside⟩, hready⟩ := hcall.point
    rw [PipeSys.opStep] at hlock hpend ⊢
    split_ifs at hlock hpend ⊢
    · refine h.go hp (h.frame rfl rfl (by rintro ⟨⟩) rfl rfl fun _ _ => wakeup_sleeping) (by simp) seen_side
        seen_closes ⟨seen_closes.trans hcl, ?_⟩ hlock (h.ptlock.go hp rfl rfl rfl) hpend
      rw [seen_chan, chan_eq_nwrite hcl hside]
      exact hready
    · exact h
  | sleepLock =>
    rw [PipeSys.opStep] at hlock hpend ⊢
    split_ifs at hlock hpend ⊢ with hfree
    · exact h.go hp (h.frame rfl rfl (by simp) rfl rfl fun _ _ => id) (by simp) rfl rfl hcall.point hlock
        (Held.acquire (l := PipePc.ptlocked) h.ptlock hfree rfl) hpend
    · exact h
  | sleepRelease =>
    exact h.go hp (h.frame rfl rfl (by simp) rfl rfl fun _ _ => id) (by simp) rfl rfl hcall.point.1 hlock
      (h.ptlock.go hp rfl rfl rfl) hpend
  | sleepSet =>
    refine h.go hp ⟨rfl, rfl, fun _ => rfl, h.readopen, h.writeopen, fun q ch hsl => ?_⟩ (by simp) rfl rfl
      hcall.point hlock (Held.release (l := PipePc.ptlocked) h.ptlock (by rw [hp]; rfl) rfl) hpend
    rcases eq_or_ne q p with rfl | hne
    · exact .inr ⟨rfl, rfl, by simpa using hsl⟩
    · exact .inl (by simpa [update_of_ne hne] using hsl)
  | asleep =>
    rw [PipeSys.opStep] at hlock hpend ⊢
    split_ifs at hlock hpend ⊢ with hawake
    · exact h.go hp (h.frame rfl rfl (fun _ => rfl) rfl rfl fun _ _ => id) (fun _ => hawake.1) rfl
        rfl trivial hlock (h.ptlock.go hp rfl rfl rfl) hpend
    · exact h
  | ending =>
    rw [PipeSys.opStep] at hlock hpend ⊢
    split_ifs at hlock hpend ⊢
    · exact h.go hp (h.frame rfl rfl (by rintro ⟨⟩) rfl rfl fun _ _ => wakeup_sleeping) (by simp) seen_side
        seen_closes trivial hlock (h.ptlock.go hp rfl rfl rfl) hpend
    · exact h
  | release r => exact h.releaseStep hp hlock hpend

omit [DecidableEq P] in
lemma uses_eq_true (ho : o.closes = false) : uses o.side (.run o c) = true := by
  cases o with
  | write | read => rfl
  | close => simp [PipeOp.closes] at ho

/-- A process makes a call, and if it is `pipeclose`, nobody uses that end. -/
lemma Inv.call_start (h : s.Inv) (hp : s.pc p = .idle) (hpc : t.pc = s.pc) (hlock : t.lock = s.lock)
    (hpt : t.ptlock = s.ptlock) (hsl : t.sleeping = s.sleeping) (hpipe : t.pipe = s.pipe)
    (hshut : t.shut o.side = o.closes)
    (hmono : ∀ w, t.shut w ≠ s.shut w → t.shut w = true ∧ ∀ q, uses w (s.pc q) = false) :
    (t.go p o .acquire).Inv := by
  have hloc : (s.pc p).locked = false := by rw [hp]; rfl
  have hmono' : ∀ w, s.shut w = true → t.shut w = true := by
    intro w hw
    by_cases heq : t.shut w = s.shut w
    · exact heq.trans hw
    · exact (hmono w heq).1
  have hend : ∀ q o₁ c₁, s.pc q = .run o₁ c₁ → t.shut o₁.side = o₁.closes := by
    intro q o₁ c₁ hq
    have hs := (h.call q o₁ c₁ hq).shut
    by_cases heq : t.shut o₁.side = s.shut o₁.side
    · exact heq.trans hs
    · obtain ⟨ht, hnone⟩ := hmono _ heq
      have hu := hnone q
      cases hcl : o₁.closes with
      | true => exact ht
      | false => simp [hq, uses_eq_true hcl] at hu
  refine ⟨h.lock.go hloc hpc hlock, h.ptlock.go hp hpc hpt rfl, fun q o₁ c₁ hq => ?_,
    fun q ch hsl' => ?_, fun hr => ?_, fun hw => ?_, fun ch => ?_⟩
  · rcases eq_or_ne q p with rfl | hne
    · rw [go_pc_self, PipePc.run.injEq] at hq
      obtain ⟨rfl, rfl⟩ := hq
      exact ⟨trivial, hshut⟩
    · rw [go_pc_of_ne hne, hpc] at hq
      exact ⟨(h.call q o₁ c₁ hq).point.congr fun _ => hpipe, hend q o₁ c₁ hq⟩
  · obtain ⟨o₁, hq, hch⟩ := h.asleep q ch (hsl ▸ hsl')
    have hne : q ≠ p := by
      rintro rfl
      simp [hp] at hq
    exact ⟨o₁, by rw [go_pc_of_ne hne, hpc]; exact hq, hch⟩
  · exact hmono' false (h.readopen (hpipe ▸ hr))
  · exact hmono' true (h.writeopen (hpipe ▸ hw))
  · refine (h.pend ch).keep (p := p) (by rw [hp]; rfl) (.inl hlock)
      (fun q hq => (go_pc_of_ne hq).trans (congrFun hpc q))
      (fun q hq => hq.of_go nofun (fun e => hsl ▸ e) hpc) fun hr => ?_
    rw [← hpipe]
    exact hr

lemma Inv.step {s' : PipeSys P} {a : PipeAct P} (h : s.Inv) (ha : s.Promised a ∧ s.Heard a)
    (hs : s.step a = .ok s') : s'.Inv := by
  cases a with
  | write p addr n | read p n =>
    exact Except.ok.inj hs ▸ h.call_start ha.1.1 rfl rfl rfl rfl rfl ha.1.2 fun _ hw => absurd rfl hw
  | close p writable =>
    refine Except.ok.inj hs ▸ h.call_start (t := { s with shut := _ }) ha.1.1 rfl rfl rfl rfl rfl
      (update_self ..) fun w hw => ?_
    rcases eq_or_ne w writable with rfl | hne
    · exact ⟨update_self .., ha.1.2.2⟩
    · exact absurd (update_of_ne hne ..) hw
  | next p =>
    cases hp : s.pc p with
    | idle =>
      simp only [PipeSys.step, hp, Except.ok.injEq] at hs
      exact hs ▸ h
    | run o c =>
      simp only [PipeSys.step, hp, Except.ok.injEq] at hs
      exact hs ▸ h.opStep hp ha.2
  | kill p =>
    simp only [PipeSys.step] at hs
    split_ifs at hs
    · have hsl : ∀ q ch, update s.sleeping p none q = some ch → s.sleeping q = some ch := by
        intro q ch e
        rcases eq_or_ne q p with rfl | hne
        · simp at e
        · simpa [update_of_ne hne] using e
      cases hs
      exact ⟨h.lock, h.ptlock, fun q o c hq => ⟨(h.call q o c hq).point, (h.call q o c hq).shut⟩,
        fun q ch e => h.asleep q ch (hsl q ch e), h.readopen, h.writeopen,
        fun ch q hq => h.pend ch q (hq.imp_left (hsl q ch))⟩
    · exact Except.ok.inj hs ▸ h

omit [DecidableEq P] in
lemma boot_inv (data : Fin pipesize → UInt8) : (boot data : PipeSys P).Inv where
  lock p := by simp [boot, PipePc.locked]
  ptlock p := by simp [boot, PipePc.ptlocked]
  call p o c h := by simp [boot] at h
  asleep p ch h := by simp [boot] at h
  readopen h := by simp [boot, Pipe.alloc] at h
  writeopen h := by simp [boot, Pipe.alloc] at h
  pend ch p h := by simp [Wants, boot, PipePc.bound] at h

end PipeSys

open PipeSys

variable {P : Type} [DecidableEq P]

/-- **No wakeup is lost on a pipe**, in every state in which `p->lock` is free and that any number
of processes reach by steps that are all `Heard`: whoever sleeps on `&p->nread` sleeps because the
pipe is empty and its write end open, and whoever sleeps on `&p->nwrite` because the pipe is full
and its read end open. -/
theorem no_lost_wakeup (data : Fin pipesize → UInt8) (s : PipeSys P)
    (h : Reach PipeSys.step (fun s a => s.Promised a ∧ s.Heard a) (PipeSys.boot data) s)
    (hfree : s.lock = none) (p : P) :
    (s.sleeping p = some .nread → s.pipe.nread = s.pipe.nwrite ∧ s.pipe.writeopen = true) ∧
      (s.sleeping p = some .nwrite →
        s.pipe.nwrite = s.pipe.nread + 512 ∧ s.pipe.readopen = true) := by
  have hinv : s.Inv := h.invariant (I := PipeSys.Inv) (boot_inv data) fun s a s' hs ha => hs.step ha
  have hblocked : ∀ ch, s.sleeping p = some ch → s.pipe.ready ch = false := by
    intro ch hsl
    by_contra hr
    obtain ⟨q, hq, -⟩ := hinv.pend ch p (.inl hsl) (by simpa using hr)
    simp [hfree] at hq
  refine ⟨fun hsl => ?_, fun hsl => ?_⟩
  · simpa [Pipe.ready, Pipe.empty] using hblocked _ hsl
  · simpa [Pipe.ready, Pipe.full] using hblocked _ hsl

/-- A reader sleeps, is woken for one byte and sleeps again; the writer is killed then. -/
def oneByte : List (PipeAct (Fin 2)) := List.flatten
  [[.read 0 1], List.replicate 5 (.next 0), [.write 1 (fun _ => 7) 1], List.replicate 5 (.next 1),
    List.replicate 7 (.next 0), [.read 0 1], List.replicate 5 (.next 0), [.kill 1]]

theorem no_lost_wakeup_oneByte : ∃ s : PipeSys (Fin 2),
    Reach PipeSys.step (fun s a => s.Promised a ∧ s.Heard a) (PipeSys.boot fun _ => 0) s ∧
      (s.lock = none ∧ s.sleeping 0 = some .nread ∧ s.handed = [7]) ∧
      s.pipe.nread = s.pipe.nwrite ∧ s.pipe.writeopen = true := by
  obtain ⟨s, hreach, hval⟩ : ∃ s : PipeSys (Fin 2), Reach PipeSys.step
      (fun s a => s.Promised a ∧ s.Heard a) (PipeSys.boot fun _ => 0) s ∧ s.lock = none ∧
      s.sleeping 0 = some .nread ∧ s.handed = [7] :=
    Reach.of_test oneByte (by decide +kernel)
  exact ⟨s, hreach, hval, (no_lost_wakeup _ s hreach hval.1 0).1 hval.2.1⟩

/-- A reader sleeps on the empty pipe.  A writer puts in as many bytes as the pipe holds, is
killed, finds the pipe full and returns. -/
def killedWriter : List (PipeAct (Fin 2)) := List.flatten
  [[.read 0 1], List.replicate 5 (.next 0), [.write 1 (fun _ => 0) 513, .next 1],
    List.replicate 512 (.next 1), [.kill 1, .next 1, .next 1]]

set_option maxRecDepth 10000 in
/-- **The wakeup that is lost**: the reader sleeps on a pipe full of bytes, and nobody holds the
lock. -/
theorem lost_wakeup : ∃ s : PipeSys (Fin 2), Reach PipeSys.step Promised (PipeSys.boot fun _ => 0) s ∧
    s.lock = none ∧ s.sleeping 0 = some .nread ∧ s.pipe.nread ≠ s.pipe.nwrite ∧
      s.pc 1 = .idle :=
  Reach.of_test killedWriter (by decide +kernel)

end Col331
