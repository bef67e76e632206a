import Col331.Ide.Steps

/-!
The interrupt-driven disk driver against the one in memory.

* `IdeBuf.Good`: a request that both drivers accept; `IdeBuf.result` and `IdeBuf.apply` are what
  `memide.c` makes of it, and `memRun_good` of a list of requests.
* `Ide.Inv`: the queue holds the requests that are not served yet, in the order of their numbers; the
  controller works on the first one, and the disk is what the served requests have made of it.
* `Ide.Inv.step`: every step keeps this.
-/

namespace Col331

open Function

/-! ### The driver in memory -/

namespace IdeBuf

/-- The buffer of a call that `iderw` carries out. -/
structure Good (v : IdeBuf) : Prop where
  busy : v.busy = true
  todo : v.clean = false
  dev : v.dev = 1
  blockno : v.blockno.toNat < fssize

/-- The buffer when the request is done. -/
def result (disk : Disk) (v : IdeBuf) : IdeBuf :=
  { v with valid := true, dirty := false, data := if v.dirty then v.data else disk v.blockno.toNat }

/-- The disk when the request is done. -/
def apply (disk : Disk) (v : IdeBuf) : Disk :=
  if v.dirty then update disk v.blockno.toNat v.data else disk

lemma memide_good {disk : Disk} {v : IdeBuf} (h : v.Good) :
    memide fssize disk v = .ok (v.result disk, v.apply disk) := by
  have hb := h.busy
  have hr := h.blockno
  rw [memide, if_neg (by rw [hb]; decide), if_neg (by rw [h.todo]; decide), if_neg (not_not.mpr h.dev),
    if_neg (by omega), result, apply]
  split_ifs with hd
  · rfl
  · rw [Bool.not_eq_true] at hd
    rw [hd]

end IdeBuf

/-- The disk after the first `n` of the requests `l`. -/
def diskAt (disk : Disk) (l : List IdeBuf) (n : ℕ) : Disk := (l.take n).foldl IdeBuf.apply disk

/-- What request `n` of `l` returns. -/
def resultAt (disk : Disk) (l : List IdeBuf) (n : ℕ) : Option IdeBuf :=
  l[n]?.map (IdeBuf.result (diskAt disk l n))

section Mem

variable {disk : Disk} {l l' : List IdeBuf} {n : ℕ}

lemma diskAt_append (hn : n ≤ l.length) : diskAt disk (l ++ l') n = diskAt disk l n := by
  rw [diskAt, diskAt, List.take_append_of_le_length hn]

lemma resultAt_append (hn : n < l.length) : resultAt disk (l ++ l') n = resultAt disk l n := by
  rw [resultAt, resultAt, diskAt_append hn.le, List.getElem?_append_left hn]

lemma diskAt_succ {v : IdeBuf} (hv : l[n]? = some v) :
    diskAt disk l (n + 1) = v.apply (diskAt disk l n) := by
  rw [diskAt, diskAt, List.take_add_one, hv, List.foldl_append]
  rfl

lemma lt_of_resultAt {v : IdeBuf} (h : resultAt disk l n = some v) : n < l.length := by
  obtain ⟨w, hw, -⟩ := Option.map_eq_some_iff.mp h
  exact (List.getElem?_eq_some_iff.mp hw).1

/-- **The requests one after another, in memory.** -/
lemma memRun_good (h : ∀ v ∈ l, v.Good) : ∃ rs, memRun fssize disk l = .ok (rs, diskAt disk l l.length) ∧
    ∀ n, rs[n]? = resultAt disk l n := by
  induction l generalizing disk with
  | nil => exact ⟨[], rfl, fun n => rfl⟩
  | cons v l ih =>
    obtain ⟨rs, hrun, hrs⟩ := @ih (v.apply disk) fun x hx => h x (.tail _ hx)
    refine ⟨v.result disk :: rs, ?_, fun n => ?_⟩
    · rw [memRun, IdeBuf.memide_good (h v (.head _))]
      dsimp only
      rw [hrun]
      rfl
    · cases n with
      | zero => rfl
      | succ n =>
        rw [List.getElem?_cons_succ, hrs n]
        rfl

lemma lbaOf_eq {b : UInt32} (h : b.toNat < fssize) : lbaOf b = b.toNat := by
  simp only [lbaOf, fssize] at *
  omega

end Mem

/-! ### The invariant -/

namespace IdePc

/-- The process holds `idelock`. -/
def holds : IdePc → Bool
  | .queue | .start | .test | .sleepLock | .sleepRelease | .release => true
  | _ => false

/-- The process holds `ptable.lock`. -/
def ptholds : IdePc → Bool
  | .sleepRelease | .sleepSet => true
  | _ => false

end IdePc

/-- The handler holds `idelock`. -/
def IntrPc.holds {B : Type} : IntrPc B → Bool
  | .serve _ | .wake _ | .start | .release => true
  | _ => false

namespace Ide

variable {B : Type} {d₀ : Disk} {s s' : Ide B} {q : List B} {b : B}

/-- The number of requests served. -/
def count (s : Ide B) : ℕ := s.served.length

/-- The queue holds the requests that are not served, in the order of their numbers. -/
structure QueueOk (d₀ : Disk) (s : Ide B) (q : List B) : Prop where
  link : Linked s.qnext s.idequeue q
  nodup : q.Nodup
  served : s.served = (List.range s.count).map fun t => (t, t)
  total : s.queued.length = s.count + q.length
  ticket : ∀ i b, q[i]? = some b → s.ticket b = s.count + i
  pending : ∀ b ∈ q, s.queued[s.ticket b]? = some (s.buf b)
  good : ∀ v ∈ s.queued, v.Good
  returned : ∀ r ∈ s.returned, resultAt d₀ s.queued r.1 = some r.2

/-- Who holds the locks. -/
structure LocksOk (s : Ide B) : Prop where
  proc : ∀ b, (s.pc b).holds = true ↔ s.idelock = some (.proc b)
  intr : s.intr.holds = true ↔ s.idelock = some .intr
  pt : ∀ b, (s.pc b).ptholds = true ↔ s.ptlock = some (.proc b)
  ptIntr : s.ptlock ≠ some .intr

/-- The request for `b` is served, and its buffer is what the driver in memory returns. -/
def Done (d₀ : Disk) (s : Ide B) (q : List B) (b : B) : Prop :=
  b ∉ q ∧ resultAt d₀ s.queued (s.ticket b) = some (s.buf b)

/-- The process that has called `iderw` with `b`, at the point `c`. -/
def ProcOk (d₀ : Disk) (s : Ide B) (q : List B) (b : B) : IdePc → Prop
  | .idle => b ∉ q
  | .acquire | .queue => b ∉ q ∧ (s.buf b).Good
  | .start | .sleepLock | .sleepRelease => b ∈ q
  | .test | .woken => b ∈ q ∨ Done d₀ s q b
  | .sleepSet => b ∈ q ∨ (Done d₀ s q b ∧ s.intr = .wake b)
  | .asleep => b ∈ q ∨ (Done d₀ s q b ∧ (s.sleeping b = true → s.intr = .wake b))
  | .release => Done d₀ s q b

/-- The controller has not been told of the first request. -/
def Unstarted (d₀ : Disk) (s : Ide B) (b : B) : Prop :=
  s.cmd = none ∧ s.irq = none ∧
    ((∃ x, s.intr = .wake x) ∨ s.intr = .start ∨ (s.pc b = .start ∧ s.intr = .idle)) ∧
    s.disk true = diskAt d₀ s.queued s.count

/-- The controller works on the first request. -/
def Active (d₀ : Disk) (s : Ide B) (b : B) : Prop :=
  s.cmd = some (s.command b) ∧ s.irq = none ∧ (s.intr = .idle ∨ s.intr = .release) ∧
    s.pc b ≠ .start ∧ s.disk true = diskAt d₀ s.queued s.count

/-- The controller is done with the first request. -/
def Finished (d₀ : Disk) (s : Ide B) (b : B) : Prop :=
  s.cmd = none ∧
    ((s.irq = some s.count ∧ (s.intr = .idle ∨ s.intr = .release)) ∨
      (s.irq = none ∧ (s.intr = .acquire s.count ∨ s.intr = .serve s.count))) ∧
    s.pc b ≠ .start ∧ s.disk true = diskAt d₀ s.queued (s.count + 1) ∧
    ((s.buf b).dirty = false → s.latch = diskAt d₀ s.queued s.count (s.buf b).blockno.toNat)

/-- There is nothing for the controller to do. -/
def Quiet (d₀ : Disk) (s : Ide B) : Prop :=
  s.cmd = none ∧ s.irq = none ∧ (∀ t, s.intr ≠ .acquire t) ∧ (∀ t, s.intr ≠ .serve t) ∧
    s.disk true = diskAt d₀ s.queued s.count

/-- The controller, by the first request of the queue. -/
def DevOk (d₀ : Disk) (s : Ide B) : List B → Prop
  | [] => Quiet d₀ s
  | b :: _ => Unstarted d₀ s b ∨ Active d₀ s b ∨ Finished d₀ s b

/-- **The invariant.** -/
structure Inv (d₀ : Disk) (s : Ide B) (q : List B) : Prop where
  queue : QueueOk d₀ s q
  locks : LocksOk s
  procs : ∀ b, ProcOk d₀ s q b (s.pc b)
  dev : DevOk d₀ s q
  waking : ∀ b, s.intr = .wake b → b ∉ q
  present : s.havedisk1 = true

lemma inv_boot (disk : Bool → Disk) (buf : B → IdeBuf) : Inv (disk true) (boot disk buf) [] := by
  refine ⟨⟨rfl, List.nodup_nil, rfl, rfl, nofun, nofun,
    fun v h => absurd h (by simp [boot]), fun r h => absurd h (by simp [boot])⟩,
    ⟨fun b => iff_of_false Bool.false_ne_true (by simp [boot]), iff_of_false Bool.false_ne_true (by simp [boot]),
      fun b => iff_of_false Bool.false_ne_true (by simp [boot]), by simp [boot]⟩,
    fun b => List.not_mem_nil, ⟨rfl, rfl, nofun, nofun, rfl⟩,
    fun b _ => List.not_mem_nil, rfl⟩

/-! ### What does not move -/

lemma QueueOk.lt (h : QueueOk d₀ s q) (hb : b ∈ q) :
    s.count ≤ s.ticket b ∧ s.ticket b < s.queued.length := by
  obtain ⟨i, hi, rfl⟩ := List.getElem_of_mem hb
  have ht := h.ticket i _ (List.getElem?_eq_getElem hi)
  have htotal := h.total
  omega

lemma Inv.good (h : Inv d₀ s q) (hb : b ∈ q) : (s.buf b).Good :=
  h.queue.good _ (List.mem_of_getElem? (h.queue.pending b hb))

lemma QueueOk.congr (h : QueueOk d₀ s q) (hqnext : s'.qnext = s.qnext) (hhead : s'.idequeue = s.idequeue)
    (hserved : s'.served = s.served) (hqueued : s'.queued = s.queued) (hticket : s'.ticket = s.ticket)
    (hbuf : ∀ b ∈ q, s'.buf b = s.buf b)
    (hret : ∀ r ∈ s'.returned, r ∈ s.returned ∨ resultAt d₀ s.queued r.1 = some r.2) :
    QueueOk d₀ s' q := by
  have hcount : s'.count = s.count := congrArg List.length hserved
  refine ⟨by rw [hqnext, hhead]; exact h.link, h.nodup, by rw [hserved, hcount]; exact h.served,
    by rw [hqueued, hcount]; exact h.total, fun i b hb => by rw [hticket, hcount]; exact h.ticket i b hb,
    fun b hb => by rw [hqueued, hticket, hbuf b hb]; exact h.pending b hb,
    by rw [hqueued]; exact h.good, fun r hr => ?_⟩
  rw [hqueued]
  exact (hret r hr).elim (h.returned r) id

/-- The queue is not in the locks, the processes or the controller. -/
lemma QueueOk.rest (h : QueueOk d₀ s q) {pc idelock ptlock sleeping cmd irq intr disk latch} :
    QueueOk d₀ { s with pc, idelock, ptlock, sleeping, cmd, irq, intr, disk, latch } q :=
  h.congr rfl rfl rfl rfl rfl (fun _ _ => rfl) fun _ => .inl

variable {c : IdePc} {l : Option (Who B)}

lemma ProcOk.congr (h : ProcOk d₀ s q b c) (hbuf : s'.buf b = s.buf b)
    (hqueued : s'.queued = s.queued) (hticket : s'.ticket b = s.ticket b) (hintr : s'.intr = s.intr)
    (hsleep : s'.sleeping b = s.sleeping b) : ProcOk d₀ s' q b c := by
  cases c <;> simpa only [ProcOk, Done, hbuf, hqueued, hticket, hintr, hsleep] using h

lemma DevOk.congr (h : DevOk d₀ s q) (hcmd : s'.cmd = s.cmd) (hirq : s'.irq = s.irq)
    (hintr : s'.intr = s.intr) (hdisk : s'.disk = s.disk) (hlatch : s'.latch = s.latch)
    (hqueued : s'.queued = s.queued) (hserved : s'.served = s.served)
    (hbuf : ∀ b ∈ q, s'.buf b = s.buf b) (hticket : s'.ticket = s.ticket)
    (hpc : ∀ b ∈ q.head?, s'.pc b = .start ↔ s.pc b = .start) : DevOk d₀ s' q := by
  have hcount : s'.count = s.count := congrArg List.length hserved
  cases q with
  | nil => simpa only [DevOk, Quiet, hcmd, hirq, hintr, hdisk, hqueued, hcount] using h
  | cons b q =>
    have hb := hbuf b (.head _)
    have hp := hpc b rfl
    have hc : s'.command b = s.command b := by rw [command, command, hb, hticket]
    simpa only [DevOk, Unstarted, Active, Finished, hcmd, hirq, hintr, hdisk, hlatch, hqueued, hcount, hb,
      hc, ne_eq, hp] using h

/-- A lock that `b` takes. -/
lemma some_proc_iff (hl : l = none) (x : Who B) (hx : x ≠ .proc b) :
    (some (.proc b) = some x) ↔ l = some x := by
  rw [hl]
  exact iff_of_false (fun heq => hx (Option.some.inj heq).symm) (by simp)

/-- A lock that `b` gives back. -/
lemma none_iff (hl : l = some (.proc b)) (x : Who B) (hx : x ≠ .proc b) :
    (none = some x) ↔ l = some x := by
  rw [hl]
  exact iff_of_false (by simp) fun heq => hx (Option.some.inj heq).symm

/-- A buffer that is not clean is still in the queue, and one that is clean is done. -/
lemma Inv.clean_iff (h : Inv d₀ s q) (hb : b ∈ q ∨ Done d₀ s q b) : (s.buf b).clean = true ↔ b ∉ q := by
  constructor
  · intro hclean hmem
    rw [(h.good hmem).todo] at hclean
    exact nomatch hclean
  · intro hno
    obtain ⟨-, hres⟩ := hb.resolve_left hno
    obtain ⟨v, -, hv⟩ := Option.map_eq_some_iff.mp hres
    rw [← hv]
    rfl

/-- While a process holds `idelock`, the handler does not. -/
lemma LocksOk.intr_free (h : LocksOk s) (hl : s.idelock = some (.proc b)) : s.intr.holds = false := by
  by_contra hh
  rw [Bool.not_eq_false, h.intr, hl] at hh
  nomatch hh

/-! ### The controller -/

/-- A command is for the first request of the queue. -/
lemma Inv.active (h : Inv d₀ s q) {c : Cmd} (hc : s.cmd = some c) : ∃ b q', q = b :: q' ∧ Active d₀ s b := by
  cases q with
  | nil => exact nomatch h.dev.1.symm.trans hc
  | cons b q =>
    rcases h.dev with hu | ha | hf
    · exact nomatch hu.1.symm.trans hc
    · exact ⟨b, q, rfl, ha⟩
    · exact nomatch hf.1.symm.trans hc

/-- An interrupt is for the first request of the queue. -/
lemma Inv.finished (h : Inv d₀ s q) {t : ℕ} (ht : s.irq = some t ∨ s.intr = .acquire t ∨ s.intr = .serve t) :
    t = s.count ∧ ∃ b q', q = b :: q' ∧ Finished d₀ s b := by
  have hnot : ¬(s.irq = none ∧ (∀ t, s.intr ≠ .acquire t) ∧ ∀ t, s.intr ≠ .serve t) := by
    rintro ⟨h0, h1, h2⟩
    rcases ht with ht | ht | ht
    · exact nomatch h0.symm.trans ht
    · exact h1 t ht
    · exact h2 t ht
  cases q with
  | nil =>
    obtain ⟨-, hirq, hacq, hserve, -⟩ := h.dev
    exact absurd ⟨hirq, hacq, hserve⟩ hnot
  | cons b q =>
    rcases h.dev with ⟨-, hirq, hintr, -⟩ | ⟨-, hirq, hintr, -⟩ | hf
    · refine absurd ⟨hirq, fun t' h' => ?_, fun t' h' => ?_⟩ hnot <;> simp [h'] at hintr
    · refine absurd ⟨hirq, fun t' h' => ?_, fun t' h' => ?_⟩ hnot <;> simp [h'] at hintr
    · refine ⟨?_, b, q, rfl, hf⟩
      rcases hf.2.1 with ⟨hirq, hintr | hintr⟩ | ⟨hirq, hintr | hintr⟩ <;>
        simpa [hirq, hintr, eq_comm] using ht

/-- The first request has the number that the handler has reached. -/
lemma Inv.first {q : List B} (h : Inv d₀ s (b :: q)) : s.ticket b = s.count ∧
    s.queued[s.count]? = some (s.buf b) := by
  have ht : s.ticket b = s.count := h.queue.ticket 0 b rfl
  exact ⟨ht, ht ▸ h.queue.pending b (.head _)⟩

/-- **The controller completes the command**: the disk is what the first request makes of it. -/
lemma Inv.complete (h : Inv d₀ s q) {c : Cmd} (hc : s.cmd = some c) : Inv d₀ (s.finish c) q := by
  obtain ⟨b, q, rfl, hcmd, hirq, hintr, hpc, hdisk⟩ := h.active hc
  obtain ⟨ht, hv⟩ := h.first
  have hgood := h.good (.head _)
  obtain rfl : s.command b = c := Option.some.inj (hcmd.symm.trans hc)
  have hd1 : (s.command b).disk1 = true := by simp [command, hgood.dev]
  have hlba : (s.command b).lba = (s.buf b).blockno.toNat := lbaOf_eq hgood.blockno
  have hsucc : diskAt d₀ s.queued (s.count + 1) = _ := diskAt_succ hv
  have hdone : ∀ {disk latch}, disk true = diskAt d₀ s.queued (s.count + 1) →
      ((s.buf b).dirty = false → latch = diskAt d₀ s.queued s.count (s.buf b).blockno.toNat) →
      Inv d₀ { s with cmd := none, irq := some (s.command b).ticket, disk, latch } (b :: q) :=
    fun hdisk' hlatch => ⟨h.queue.rest, { h.locks with }, fun x => (h.procs x).congr rfl rfl rfl rfl rfl,
      .inr (.inr ⟨rfl, .inl ⟨congrArg some ht, hintr⟩, hpc, hdisk', hlatch⟩), h.waking, h.present⟩
  rw [IdeBuf.apply] at hsucc
  cases hdirty : (s.buf b).dirty with
  | false =>
    have hdata : (s.command b).data = none := by simp [command, hdirty]
    rw [finish, hdata]
    refine hdone ?_ fun _ => ?_
    · rw [hdirty] at hsucc
      exact hdisk.trans hsucc.symm
    · rw [hd1, hlba, hdisk]
  | true =>
    have hdata : (s.command b).data = some (s.buf b).data := by simp [command, hdirty]
    rw [finish, hdata]
    refine hdone ?_ fun hf => nomatch hdirty.symm.trans hf
    rw [hdirty] at hsucc
    rw [hd1, hlba, update_self, hdisk]
    exact hsucc.symm

/-- A buffer whose process is not being woken. -/
lemma ProcOk.intr (h : ProcOk d₀ s q b c) (hne : s.intr ≠ .wake b) (hbuf : s'.buf b = s.buf b)
    (hqueued : s'.queued = s.queued) (hticket : s'.ticket b = s.ticket b)
    (hsleep : s'.sleeping b = s.sleeping b) : ProcOk d₀ s' q b c := by
  cases c
  case sleepSet => exact h.imp id fun hd => absurd hd.2 hne
  case asleep =>
      refine h.imp id fun hd => ⟨?_, fun hs => absurd (hd.2 (hsleep ▸ hs)) hne⟩
      simpa only [Done, hbuf, hqueued, hticket] using hd.1
  all_goals simpa only [ProcOk, Done, hbuf, hqueued, hticket] using h

section

variable (h : Inv d₀ s q)

include h

/-- **The handler moves**, and with it only `idelock`, the command and the interrupt. -/
lemma Inv.moveIntr {i : IntrPc B} {cmd : Option Cmd} {irq : Option ℕ}
    (hl : i.holds = true ↔ l = some .intr) (hlx : ∀ b, l = some (.proc b) ↔ s.idelock = some (.proc b))
    (hwake : ∀ b, s.intr ≠ .wake b) (hi : ∀ b, i ≠ .wake b)
    (hdev : DevOk d₀ { s with intr := i, cmd, irq } q) :
    Inv d₀ { s with intr := i, idelock := l, cmd, irq } q := by
  refine ⟨h.queue.rest,
    ⟨fun b => (h.locks.proc b).trans (hlx b).symm, hl, h.locks.pt, h.locks.ptIntr⟩,
    fun b => (h.procs b).intr (hwake b) rfl rfl rfl rfl,
    hdev.congr rfl rfl rfl rfl rfl rfl rfl (fun _ _ => rfl) rfl fun _ _ => Iff.rfl,
    fun b hb => absurd hb (hi b), h.present⟩

/-- The processor takes the interrupt. -/
lemma Inv.interrupt {t : ℕ} (ht : s.irq = some t) (hi : s.intr = .idle) :
    Inv d₀ { s with irq := none, intr := .acquire t } q := by
  obtain ⟨rfl, b, q, rfl, hf⟩ := h.finished (.inl ht)
  have hl := h.locks.intr
  rw [hi] at hl
  refine h.moveIntr hl (fun _ => Iff.rfl) (fun b hb => ?_) (by simp) ?_
  · exact nomatch hi.symm.trans hb
  · exact .inr (.inr ⟨hf.1, .inr ⟨rfl, .inl rfl⟩, hf.2.2⟩)

lemma Inv.handler_acquire {t : ℕ} (hi : s.intr = .acquire t) (hfree : s.idelock = none) :
    Inv d₀ { s with idelock := some .intr, intr := .serve t } q := by
  obtain ⟨rfl, b, q, rfl, hf⟩ := h.finished (.inr (.inl hi))
  refine h.moveIntr (iff_of_true rfl rfl) (fun b => ?_) (fun b hb => ?_) (by simp) ?_
  · rw [hfree]
    exact iff_of_false (by simp) (by simp)
  · exact nomatch hi.symm.trans hb
  · refine .inr (.inr ⟨hf.1, .inr ⟨?_, .inr rfl⟩, hf.2.2⟩)
    exact hf.2.1.elim (fun hx => by simp [hi] at hx) And.left

lemma Inv.handler_release (hi : s.intr = .release) :
    Inv d₀ { s with idelock := none, intr := .idle } q := by
  have hl := h.locks.intr.mp (by rw [hi]; rfl)
  refine h.moveIntr (iff_of_false Bool.false_ne_true (by simp)) (fun b => ?_) (fun b hb => ?_) (by simp) ?_
  · rw [hl]
    exact iff_of_false (by simp) (by simp)
  · exact nomatch hi.symm.trans hb
  · cases q with
    | nil =>
      obtain ⟨hcmd, hirq, -, -, hdisk⟩ := h.dev
      exact ⟨hcmd, hirq, by simp, by simp, hdisk⟩
    | cons b q =>
      rcases h.dev with ⟨-, -, hx, -⟩ | ⟨hc, hq, -, hd⟩ | ⟨hc, hx, hd⟩
      · simp [hi] at hx
      · exact .inr (.inl ⟨hc, hq, .inl rfl, hd⟩)
      · refine .inr (.inr ⟨hc, .inl ⟨?_, .inl rfl⟩, hd⟩)
        exact hx.elim And.left fun hx => by simp [hi] at hx

/-- With all requests served, the disk is what they have made of it. -/
lemma Inv.disk_eq (hall : s.served.length = s.queued.length) :
    s.disk true = diskAt d₀ s.queued s.queued.length := by
  have htotal := h.queue.total
  rw [count, hall] at htotal
  obtain rfl : q = [] := List.length_eq_zero_iff.mp (by omega)
  rw [h.dev.2.2.2.2, count, hall]

lemma Inv.served_eq (hidle : ∀ b, s.pc b = .idle) : s.served.length = s.queued.length := by
  have hq : q = [] := List.eq_nil_iff_forall_not_mem.mpr fun b => by
    simpa only [hidle b, ProcOk] using h.procs b
  have htotal := h.queue.total
  rw [hq] at htotal
  exact htotal.symm

end

lemma ProcOk.tail {x : B} (h : ProcOk d₀ s (b :: q) x c) (hx : x ≠ b) : ProcOk d₀ s q x c := by
  have hmem : x ∈ b :: q ↔ x ∈ q := by simp [hx]
  cases c <;> simpa only [ProcOk, Done, hmem] using h

variable [DecidableEq B]

/-- The holders of a lock after a process has moved. -/
lemma holders_move {pc : B → IdePc} {f : IdePc → Bool} {l l' : Option (Who B)}
    (h : ∀ x, f (pc x) = true ↔ l = some (.proc x)) (hc : f c = true ↔ l' = some (.proc b))
    (hother : ∀ x, x ≠ b → (l' = some (.proc x) ↔ l = some (.proc x))) (x : B) :
    f (update pc b c x) = true ↔ l' = some (.proc x) := by
  by_cases hx : x = b
  · rw [hx, update_self]
    exact hc
  · rw [update_of_ne hx, hother x hx]
    exact h x

/-- **A process moves**, and with it only the locks, its own sleep and the command. -/
lemma Inv.move' (h : Inv d₀ s q) {l pl : Option (Who B)} {sl : B → Bool} {cmd : Option Cmd}
    (hdev : DevOk d₀ { s with pc := update s.pc b c, cmd } q)
    (hsl : ∀ x, x ≠ b → sl x = s.sleeping x) (hl : c.holds = true ↔ l = some (.proc b))
    (hlx : ∀ x, x ≠ .proc b → (l = some x ↔ s.idelock = some x))
    (hpl : c.ptholds = true ↔ pl = some (.proc b))
    (hplx : ∀ x, x ≠ .proc b → (pl = some x ↔ s.ptlock = some x))
    (hproc : ProcOk d₀ { s with sleeping := sl } q b c) :
    Inv d₀ { s with pc := update s.pc b c, idelock := l, ptlock := pl, sleeping := sl, cmd } q := by
  have hne : ∀ {x : B}, x ≠ b → (Who.proc x : Who B) ≠ .proc b := fun hx heq => hx (Who.proc.inj heq)
  refine ⟨h.queue.rest,
    ⟨holders_move h.locks.proc hl fun x hx => hlx _ (hne hx), ?_,
      holders_move h.locks.pt hpl fun x hx => hplx _ (hne hx), fun hp => ?_⟩, fun x => ?_,
    hdev.congr rfl rfl rfl rfl rfl rfl rfl (fun _ _ => rfl) rfl fun x _ => Iff.rfl, h.waking, h.present⟩
  · rw [h.locks.intr]
    exact (hlx .intr (by simp)).symm
  · exact h.locks.ptIntr ((hplx .intr (by simp)).mp hp)
  · dsimp only
    by_cases hx : x = b
    · rw [hx, update_self]
      exact hproc.congr rfl rfl rfl rfl rfl
    · rw [update_of_ne hx]
      exact (h.procs x).congr rfl rfl rfl rfl (hsl x hx)

/-- A process that is not about to start the controller moves. -/
lemma Inv.move (h : Inv d₀ s q) {l pl : Option (Who B)} {sl : B → Bool}
    (hstart : s.pc b ≠ .start) (hc : c ≠ .start) (hsl : ∀ x, x ≠ b → sl x = s.sleeping x)
    (hl : c.holds = true ↔ l = some (.proc b))
    (hlx : ∀ x, x ≠ .proc b → (l = some x ↔ s.idelock = some x))
    (hpl : c.ptholds = true ↔ pl = some (.proc b))
    (hplx : ∀ x, x ≠ .proc b → (pl = some x ↔ s.ptlock = some x))
    (hproc : ProcOk d₀ { s with sleeping := sl } q b c) :
    Inv d₀ { s with pc := update s.pc b c, idelock := l, ptlock := pl, sleeping := sl } q := by
  refine h.move' (h.dev.congr rfl rfl rfl rfl rfl rfl rfl (fun _ _ => rfl) rfl fun x _ => ?_) hsl hl hlx hpl
    hplx hproc
  dsimp only
  by_cases hx : x = b
  · rw [hx, update_self]
    exact iff_of_false hc hstart
  · rw [update_of_ne hx]

/-! ### The processes -/

/-- The steps of `iderw` that touch neither the queue nor the controller. -/
lemma Inv.run_move [Fintype B] (h : Inv d₀ s q) (hqueue : s.pc b ≠ .queue) (hstart : s.pc b ≠ .start)
    (hrel : s.pc b ≠ .release) (hrun : s.run b = .ok s') : Inv d₀ s' q := by
  have hproc := h.procs b
  have hlock := h.locks.proc b
  have hpt := h.locks.pt b
  rw [run] at hrun
  cases hp : s.pc b <;> rw [hp] at hrun hproc hlock hpt <;> dsimp only at hrun
  case queue => exact absurd hp hqueue
  case start => exact absurd hp hstart
  case release => exact absurd hp hrel
  case idle => exact Except.ok.inj hrun ▸ h
  case acquire | woken =>
      split_ifs at hrun with hfree
      · exact Except.ok.inj hrun ▸ h.move hstart (by decide) (fun _ _ => rfl) (by simp [IdePc.holds])
          (some_proc_iff hfree) hpt (fun _ _ => Iff.rfl) hproc
      · exact Except.ok.inj hrun ▸ h
  case test =>
      have hiff := h.clean_iff hproc
      have hl := hlock.mp rfl
      split_ifs at hrun with hclean
      · exact Except.ok.inj hrun ▸ h.move hstart (by decide) (fun _ _ => rfl) (by simp [IdePc.holds, hl])
          (fun _ _ => Iff.rfl) hpt (fun _ _ => Iff.rfl) (hproc.resolve_left (hiff.mp hclean))
      · refine Except.ok.inj hrun ▸ h.move hstart (by decide) (fun _ _ => rfl) (by simp [IdePc.holds, hl])
          (fun _ _ => Iff.rfl) hpt (fun _ _ => Iff.rfl) ?_
        by_contra hno
        exact hclean (hiff.mpr hno)
  case sleepLock =>
      have hl := hlock.mp rfl
      split_ifs at hrun with hfree
      · exact Except.ok.inj hrun ▸ h.move hstart (by decide) (fun _ _ => rfl) (by simp [IdePc.holds, hl])
          (fun _ _ => Iff.rfl) (by simp [IdePc.ptholds]) (some_proc_iff hfree) hproc
      · exact Except.ok.inj hrun ▸ h
  case sleepRelease =>
      exact Except.ok.inj hrun ▸ h.move hstart (by decide) (fun _ _ => rfl) (by simp [IdePc.holds])
        (none_iff (hlock.mp rfl)) (by simpa [IdePc.ptholds] using hpt) (fun _ _ => Iff.rfl) (.inl hproc)
  case sleepSet =>
      refine Except.ok.inj hrun ▸ h.move hstart (by decide) (fun x hx => update_of_ne hx _ _)
        hlock (fun _ _ => Iff.rfl) (by simp [IdePc.ptholds]) (none_iff (hpt.mp rfl)) ?_
      exact hproc.imp id fun hd => ⟨hd.1, fun _ => hd.2⟩
  case asleep =>
      split_ifs at hrun with hwoken
      · exact Except.ok.inj hrun ▸ h.move hstart (by decide) (fun _ _ => rfl) hlock
          (fun _ _ => Iff.rfl) hpt (fun _ _ => Iff.rfl) (hproc.imp id And.left)
      · exact Except.ok.inj hrun ▸ h

/-- `iderw` returns. -/
lemma Inv.run_release [Fintype B] (h : Inv d₀ s q) (hp : s.pc b = .release) (hrun : s.run b = .ok s') :
    Inv d₀ s' q := by
  have hproc := h.procs b
  have hl := (h.locks.proc b).mp (by rw [hp]; rfl)
  have hpt := h.locks.pt b
  rw [run, hp] at hrun
  rw [hp] at hproc hpt
  cases hrun
  have hmove : Inv d₀ { s with pc := update s.pc b .idle, idelock := none } q :=
    h.move (by rw [hp]; decide) (by decide) (fun _ _ => rfl) (by simp [IdePc.holds]) (none_iff hl) hpt
      (fun _ _ => Iff.rfl) hproc.1
  refine ⟨h.queue.congr rfl rfl rfl rfl rfl (fun _ _ => rfl) fun r hr => ?_, { hmove.locks with }, fun x => (hmove.procs x).congr rfl rfl rfl rfl rfl,
    hmove.dev.congr rfl rfl rfl rfl rfl rfl rfl (fun _ _ => rfl) rfl fun _ _ => Iff.rfl, hmove.waking,
    hmove.present⟩
  rcases List.mem_append.mp hr with hr | hr
  · exact .inl hr
  · rw [List.mem_singleton.mp hr]
    exact .inr hproc.2

/-- The first request is started by the process that has put it into the queue. -/
lemma Inv.run_start [Fintype B] (h : Inv d₀ s q) (hp : s.pc b = .start) (hrun : s.run b = .ok s') :
    Inv d₀ s' q := by
  have hmem : b ∈ q := by simpa only [hp, ProcOk] using h.procs b
  have hl := (h.locks.proc b).mp (by rw [hp]; rfl)
  have hpt := h.locks.pt b
  rw [hp] at hpt
  rw [run, hp] at hrun
  dsimp only at hrun
  rw [h.queue.link.head_eq] at hrun
  cases q with
  | nil => exact absurd hmem List.not_mem_nil
  | cons a q =>
    rw [List.head?_cons] at hrun
    by_cases hab : a = b
    · subst hab
      -- the handler is not at work, since the process holds the lock
      have hfree := h.locks.intr_free hl
      rcases h.dev with ⟨hcmd, hirq, hintr, hdisk⟩ | hact | hfin
      · have hidle : s.intr = .idle := by
          rcases hintr with ⟨x, hx⟩ | hx | hx
          on_goal 3 => exact hx.2
          all_goals
            rw [hx] at hfree
            nomatch hfree
        rw [if_pos rfl, hcmd, if_neg (by simp), idestart,
          if_neg (Nat.not_le.mpr (h.good hmem).blockno)] at hrun
        cases hrun
        refine h.move' (.inr (.inl ⟨rfl, hirq, .inl hidle, ?_, hdisk⟩)) (fun _ _ => rfl)
          (iff_of_true rfl hl) (fun _ _ => Iff.rfl) hpt (fun _ _ => Iff.rfl) (.inl hmem)
        dsimp only
        rw [update_self]
        decide
      · exact absurd hp hact.2.2.2.1
      · exact absurd hp hfin.2.2.1
    · rw [if_neg (fun heq => hab (Option.some.inj heq))] at hrun
      cases hrun
      refine h.move' (h.dev.congr rfl rfl rfl rfl rfl rfl rfl (fun _ _ => rfl) rfl fun x hx => ?_)
        (fun _ _ => rfl) (iff_of_true rfl hl) (fun _ _ => Iff.rfl) hpt (fun _ _ => Iff.rfl) (.inl hmem)
      obtain rfl : a = x := Option.some.inj hx
      exact iff_of_eq (congrArg (· = _) (update_of_ne hab _ _))

/-! ### A new request -/

/-- `b` comes to the end of the queue, and the loop that looks for the end ends. -/
lemma append_ok [Fintype B] (h : Linked s.qnext s.idequeue q) (hnd : q.Nodup) (hb : b ∉ q) :
    ∃ qnext head, s.append b = .ok { s with qnext, idequeue := head } ∧ Linked qnext head (q ++ [b]) := by
  have hlink : Linked (update s.qnext b none) s.idequeue q :=
    h.congr fun x hx => update_of_ne (ne_of_mem_of_not_mem hx hb) _ _
  have happ := hlink.append hnd hb (update_self ..)
  rw [append, hlink.lastNode_eq (List.Nodup.length_le_card hnd), Option.or_none]
  cases hlast : q.getLast? with
  | none =>
    rw [hlast] at happ
    rw [List.getLast?_eq_none_iff] at hlast
    subst hlast
    exact ⟨_, _, rfl, happ⟩
  | some x =>
    rw [hlast] at happ
    exact ⟨_, _, rfl, happ⟩

/-- The state in which `b` has become a request. -/
def push (s : Ide B) (b : B) (qnext : B → Option B) (head : Option B) : Ide B :=
  { s with
    qnext
    idequeue := head
    queued := s.queued ++ [s.buf b]
    ticket := update s.ticket b s.queued.length
    pc := update s.pc b .start }

section Push

variable {qnext : B → Option B} {head : Option B}

lemma QueueOk.push (h : QueueOk d₀ s q) (hlink : Linked qnext head (q ++ [b])) (hb : b ∉ q)
    (hgood : (s.buf b).Good) : QueueOk d₀ (s.push b qnext head) (q ++ [b]) := by
  have hne : ∀ {x : B}, x ∈ q → x ≠ b := fun hx => ne_of_mem_of_not_mem hx hb
  have htotal := h.total
  refine ⟨hlink, List.nodup_append.mpr ⟨h.nodup, List.nodup_singleton b, ?_⟩, h.served, ?_, fun i x hx => ?_,
    fun x hx => ?_, fun v hv => ?_, fun r hr => ?_⟩
  · rintro x hx y hy rfl
    exact hne hx (List.mem_singleton.mp hy)
  · rw [Ide.push, List.length_append, List.length_append, htotal]
    exact Nat.add_assoc ..
  · dsimp only [Ide.push]
    rcases Nat.lt_or_ge i q.length with hi | hi
    · rw [List.getElem?_append_left hi] at hx
      rw [update_of_ne (hne (List.mem_of_getElem? hx))]
      exact h.ticket i x hx
    · rw [List.getElem?_append_right hi, List.getElem?_singleton] at hx
      split_ifs at hx with h0
      cases hx
      have : i = q.length := by omega
      rw [update_self, htotal, this]
      rfl
  · dsimp only [Ide.push]
    rcases List.mem_append.mp hx with hx | hx
    · rw [update_of_ne (hne hx), List.getElem?_append_left (h.lt hx).2]
      exact h.pending x hx
    · obtain rfl := List.mem_singleton.mp hx
      rw [update_self, List.getElem?_concat_length]
  · rcases List.mem_append.mp hv with hv | hv
    · exact h.good v hv
    · exact List.mem_singleton.mp hv ▸ hgood
  · have hret := h.returned r hr
    exact (resultAt_append (lt_of_resultAt hret)).trans hret

lemma ProcOk.push {x : B} {c : IdePc} (h : ProcOk d₀ s q x c) (hx : x ≠ b) :
    ProcOk d₀ (s.push b qnext head) (q ++ [b]) x c := by
  have hmem : x ∈ q ++ [b] ↔ x ∈ q := by simp [hx]
  have hticket : (s.push b qnext head).ticket x = s.ticket x := update_of_ne hx _ _
  have hdone : Done d₀ s q x → Done d₀ (s.push b qnext head) (q ++ [b]) x := fun hd =>
    ⟨fun hm => hd.1 (hmem.mp hm), by
      rw [hticket]
      exact (resultAt_append (lt_of_resultAt hd.2)).trans hd.2⟩
  cases c <;> simp only [ProcOk, hmem] at h ⊢
  case idle | acquire | queue | start | sleepLock | sleepRelease => exact h
  case test | woken => exact h.imp id hdone
  case sleepSet | asleep => exact h.imp id fun hd => ⟨hdone hd.1, hd.2⟩
  case release => exact hdone h

/-- The controller has something to do with `b` at the end of the queue, and with the same request as
before if there was one. -/
lemma DevOk.push (h : DevOk d₀ s q) (htotal : s.queued.length = s.count + q.length) (hb : b ∉ q)
    (hfree : s.intr.holds = false) : DevOk d₀ (s.push b qnext head) (q ++ [b]) := by
  cases q with
  | nil =>
    obtain ⟨hcmd, hirq, hacq, hserve, hdisk⟩ := h
    refine .inl ⟨hcmd, hirq, .inr (.inr ⟨update_self .., ?_⟩), ?_⟩
    · change s.intr = .idle
      cases hi : s.intr with
      | idle => rfl
      | acquire t => exact absurd hi (hacq t)
      | serve t => exact absurd hi (hserve t)
      | wake | start | release =>
        rw [hi] at hfree
        exact absurd hfree.symm Bool.false_ne_true
    · exact hdisk.trans (diskAt_append (by simp [htotal])).symm
  | cons a q =>
    have hab : a ≠ b := fun heq => hb (heq ▸ .head _)
    rw [List.length_cons] at htotal
    have hpc : (s.push b qnext head).pc a = s.pc a := update_of_ne hab _ _
    have hcmd : (s.push b qnext head).command a = s.command a := by
      rw [command, command, show (s.push b qnext head).ticket a = s.ticket a from update_of_ne hab _ _]
      rfl
    have hd₀ : diskAt d₀ (s.queued ++ [s.buf b]) s.count = diskAt d₀ s.queued s.count :=
      diskAt_append (by omega)
    have hd₁ : diskAt d₀ (s.queued ++ [s.buf b]) (s.count + 1) = diskAt d₀ s.queued (s.count + 1) :=
      diskAt_append (by omega)
    refine h.imp (fun hu => ?_) (Or.imp (fun ha => ?_) fun hf => ?_)
    · rw [Unstarted, hpc]
      exact ⟨hu.1, hu.2.1, hu.2.2.1, hu.2.2.2.trans hd₀.symm⟩
    · rw [Active, hpc, hcmd]
      exact ⟨ha.1, ha.2.1, ha.2.2.1, ha.2.2.2.1, ha.2.2.2.2.trans hd₀.symm⟩
    · rw [Finished, hpc]
      refine ⟨hf.1, hf.2.1, hf.2.2.1, hf.2.2.2.1.trans hd₁.symm, fun hdirty => ?_⟩
      exact (hf.2.2.2.2 hdirty).trans (congrFun hd₀.symm _)

/-- **The buffer is put into the queue.** -/
lemma Inv.run_queue [Fintype B] (h : Inv d₀ s q) (hp : s.pc b = .queue) (hrun : s.run b = .ok s') :
    Inv d₀ s' (q ++ [b]) := by
  have hproc := h.procs b
  rw [hp] at hproc
  have hl := (h.locks.proc b).mp (by rw [hp]; rfl)
  obtain ⟨qnext, head, happ, hlink⟩ := append_ok h.queue.link h.queue.nodup hproc.1
  rw [run, hp] at hrun
  rw [happ] at hrun
  obtain rfl : s.push b qnext head = s' := Except.ok.inj hrun
  have hfree := h.locks.intr_free hl
  refine ⟨h.queue.push hlink hproc.1 hproc.2, ⟨holders_move h.locks.proc (iff_of_true rfl hl) fun _ _ => Iff.rfl,
    h.locks.intr, holders_move h.locks.pt ?_ fun _ _ => Iff.rfl, h.locks.ptIntr⟩, fun x => ?_,
    h.dev.push h.queue.total hproc.1 hfree, fun x hx => ?_, h.present⟩
  · change IdePc.ptholds .start = true ↔ s.ptlock = _
    rw [← h.locks.pt b, hp]
    rfl
  · by_cases hx : x = b
    · rw [hx, show (s.push b qnext head).pc b = .start from update_self ..]
      exact List.mem_append_right _ (List.mem_singleton_self b)
    · rw [show (s.push b qnext head).pc x = s.pc x from update_of_ne hx _ _]
      exact (h.procs x).push hx
  · rw [show s.intr = .wake x from hx] at hfree
    exact absurd hfree.symm Bool.false_ne_true

end Push

/-- A call begins. -/
lemma Inv.iderw (h : Inv d₀ s q) {v : IdeBuf} (hp : s.pc b = .idle) (hv : v.Good) :
    Inv d₀ { s with buf := update s.buf b v, pc := update s.pc b .acquire } q := by
  have hb : b ∉ q := by simpa only [hp, ProcOk] using h.procs b
  have hbuf : ∀ x ∈ q, update s.buf b v x = s.buf x := fun x hx =>
    update_of_ne (ne_of_mem_of_not_mem hx hb) _ _
  have hl := h.locks.proc b
  have hpt := h.locks.pt b
  rw [hp] at hl hpt
  refine ⟨h.queue.congr rfl rfl rfl rfl rfl hbuf fun r hr => .inl hr,
    ⟨holders_move h.locks.proc hl fun _ _ => Iff.rfl, h.locks.intr, holders_move h.locks.pt hpt fun _ _ => Iff.rfl,
      h.locks.ptIntr⟩, fun x => ?_, h.dev.congr rfl rfl rfl rfl rfl rfl rfl hbuf rfl fun x hx => ?_, h.waking,
    h.present⟩
  · dsimp only
    by_cases hx : x = b
    · rw [hx, update_self]
      refine ⟨hb, ?_⟩
      dsimp only
      rwa [update_self]
    · rw [update_of_ne hx]
      exact (h.procs x).congr (update_of_ne hx _ _) rfl rfl rfl rfl
  · dsimp only
    rw [update_of_ne (ne_of_mem_of_not_mem (List.mem_of_mem_head? hx) hb)]

/-! ### The handler -/

/-- The handler starts the next request. -/
lemma Inv.handler_start (h : Inv d₀ s q) (hi : s.intr = .start) (hrun : s.runIntr = .ok s') :
    Inv d₀ s' q := by
  have hl := h.locks.intr.mp (by rw [hi]; rfl)
  have hwake : ∀ b, s.intr ≠ .wake b := fun b hb => nomatch hi.symm.trans hb
  rw [runIntr, hi] at hrun
  dsimp only at hrun
  have hhead := h.queue.link.head_eq
  cases q with
  | nil =>
    obtain ⟨hcmd, hirq, -, -, hdisk⟩ := h.dev
    split at hrun
    case h_2 b hb => exact nomatch hhead.symm.trans hb
    cases hrun
    exact h.moveIntr (iff_of_true rfl hl) (fun _ => Iff.rfl) hwake (by simp)
      ⟨hcmd, hirq, by simp, by simp, hdisk⟩
  | cons b q =>
    have hgood := h.good (.head _)
    -- no process is about to start the request, since the handler holds the lock
    have hpc : s.pc b ≠ .start := fun hp => by
      have hb := (h.locks.proc b).mp (by rw [hp]; rfl)
      exact nomatch hl.symm.trans hb
    have hu : Unstarted d₀ s b := by
      rcases h.dev with hu | ⟨-, -, hx, -⟩ | ⟨-, hx, -⟩
      · exact hu
      · simp [hi] at hx
      · simp [hi] at hx
    split at hrun
    case h_1 hb => exact nomatch hhead.symm.trans hb
    obtain rfl : b = _ := Option.some.inj (hhead.symm.trans (by assumption))
    rw [hu.1, if_neg (by simp), idestart, if_neg (Nat.not_le.mpr hgood.blockno)] at hrun
    cases hrun
    exact h.moveIntr (iff_of_true rfl hl) (fun _ => Iff.rfl) hwake (by simp)
      (.inr (.inl ⟨rfl, hu.2.1, .inr rfl, hpc, hu.2.2.2⟩))

/-- The handler wakes the process of the buffer. -/
lemma Inv.handler_wake (h : Inv d₀ s q) (hi : s.intr = .wake b) (hfree : s.ptlock = none) :
    Inv d₀ { s with sleeping := update s.sleeping b false, intr := .start } q := by
  have hl := h.locks.intr.mp (by rw [hi]; rfl)
  refine ⟨h.queue.rest,
    ⟨h.locks.proc, iff_of_true rfl hl, h.locks.pt, h.locks.ptIntr⟩, fun x => ?_, ?_, by simp, h.present⟩
  · have hx := h.procs x
    by_cases hxb : x = b
    · subst hxb
      cases hc : s.pc x <;> rw [hc] at hx
      case sleepSet =>
          have hpt := (h.locks.pt x).mp (by rw [hc]; rfl)
          exact nomatch hfree.symm.trans hpt
      case asleep =>
          exact hx.imp id fun hd => ⟨hd.1, fun hs => absurd ((update_self ..).symm.trans hs) (by decide)⟩
      all_goals exact hx
    · refine hx.intr (fun hw => hxb ?_) rfl rfl rfl (update_of_ne hxb _ _)
      exact (IntrPc.wake.inj (hi.symm.trans hw)).symm
  · cases q with
    | nil =>
      obtain ⟨hcmd, hirq, -, -, hdisk⟩ := h.dev
      exact ⟨hcmd, hirq, by simp, by simp, hdisk⟩
    | cons a q =>
      rcases h.dev with ⟨hc, hq, -, hd⟩ | ⟨-, -, hx, -⟩ | ⟨-, hx, -⟩
      · exact .inl ⟨hc, hq, .inr (.inl rfl), hd⟩
      · simp [hi] at hx
      · simp [hi] at hx

/-- The state in which the handler has completed the request for `b`. -/
def pop (s : Ide B) (b : B) (v : IdeBuf) : Ide B :=
  { s with
    idequeue := s.qnext b
    buf := update s.buf b v
    served := s.served ++ [(s.count, s.count)]
    intr := .wake b }

lemma count_pop (v : IdeBuf) : (s.pop b v).count = s.count + 1 := by
  simp [count, pop]

lemma QueueOk.pop (h : QueueOk d₀ s (b :: q)) (v : IdeBuf) : QueueOk d₀ (s.pop b v) q := by
  have hnd := List.nodup_cons.mp h.nodup
  have hne : ∀ {x : B}, x ∈ q → x ≠ b := fun hx => ne_of_mem_of_not_mem hx hnd.1
  refine ⟨h.link.2, hnd.2, ?_, ?_, fun i x hx => ?_, fun x hx => ?_, h.good, h.returned⟩
  · rw [count_pop, List.range_succ, List.map_append, ← h.served]
    rfl
  · rw [count_pop, show (s.pop b v).queued = s.queued from rfl, h.total, List.length_cons]
    omega
  · rw [count_pop, show (s.pop b v).ticket = s.ticket from rfl, h.ticket (i + 1) x hx]
    omega
  · rw [show (s.pop b v).buf x = s.buf x from update_of_ne (hne hx) _ _]
    exact h.pending x (.tail _ hx)

/-- What the handler makes of the buffer is what the driver in memory returns. -/
lemma serve_eq (h : Inv d₀ s (b :: q)) (hf : Finished d₀ s b) :
    s.serve s.count = s.pop b ((s.buf b).result (diskAt d₀ s.queued s.count)) := by
  have hdata : (if (s.buf b).dirty then (s.buf b).data else s.latch) =
      if (s.buf b).dirty then (s.buf b).data else diskAt d₀ s.queued s.count (s.buf b).blockno.toNat := by
    split_ifs with hd
    · rfl
    · exact hf.2.2.2.2 (Bool.not_eq_true _ ▸ hd)
  rw [serve, h.queue.link.head_eq]
  dsimp only [List.head?_cons]
  rw [hdata, h.first.1]
  rfl

/-- **The handler completes the first request.** -/
lemma Inv.handler_serve (h : Inv d₀ s q) {t : ℕ} (hi : s.intr = .serve t) : Inv d₀ (s.serve t) q.tail := by
  obtain ⟨rfl, b, q, rfl, hf⟩ := h.finished (.inr (.inr hi))
  have hl := h.locks.intr.mp (by rw [hi]; rfl)
  have hno := (List.nodup_cons.mp h.queue.nodup).1
  have hirq : s.irq = none := hf.2.1.elim (fun hx => by simp [hi] at hx) And.left
  rw [serve_eq h hf]
  set v := (s.buf b).result (diskAt d₀ s.queued s.count) with hv
  have hdone : Done d₀ (s.pop b v) q b := by
    refine ⟨hno, ?_⟩
    rw [show (s.pop b v).ticket b = s.count from h.first.1, show (s.pop b v).buf b = v from update_self ..,
      show (s.pop b v).queued = s.queued from rfl, resultAt, h.first.2]
    rfl
  refine ⟨h.queue.pop v, ⟨h.locks.proc, iff_of_true rfl hl, h.locks.pt, h.locks.ptIntr⟩, fun x => ?_, ?_,
    fun x hx => ?_, h.present⟩
  · by_cases hx : x = b
    · subst hx
      have hproc := h.procs x
      have hfree : (s.pc x).holds = true → False := fun hh =>
        absurd (hl.symm.trans ((h.locks.proc x).mp hh)) (by simp)
      change ProcOk _ _ _ _ (s.pc x)
      cases hc : s.pc x <;> rw [hc] at hproc hfree
      case idle => exact hno
      case acquire => exact absurd (.head _) hproc.1
      case queue | start | sleepLock | sleepRelease | release | test => exact (hfree rfl).elim
      case woken => exact .inr hdone
      case sleepSet => exact .inr ⟨hdone, rfl⟩
      case asleep => exact .inr ⟨hdone, fun _ => rfl⟩
    · refine ((h.procs x).tail hx).intr ?_ (update_of_ne hx _ _) rfl rfl rfl
      rw [hi]
      simp
  · have hdisk : (s.pop b v).disk true = diskAt d₀ (s.pop b v).queued (s.pop b v).count := by
      rw [count_pop]
      exact hf.2.2.2.1
    cases hq : q with
    | nil => exact ⟨hf.1, hirq, by simp [Ide.pop], by simp [Ide.pop], hdisk⟩
    | cons a q => exact .inl ⟨hf.1, hirq, .inl ⟨b, rfl⟩, hdisk⟩
  · obtain rfl := IntrPc.wake.inj hx
    exact hno

/-! ### A step -/

/-- A process that is killed wakes up. -/
lemma Inv.kill (h : Inv d₀ s q) : Inv d₀ { s with sleeping := update s.sleeping b false } q := by
  refine ⟨h.queue.rest,
    { h.locks with }, fun x => ?_,
    h.dev.congr rfl rfl rfl rfl rfl rfl rfl (fun _ _ => rfl) rfl fun _ _ => Iff.rfl, h.waking, h.present⟩
  have hx := h.procs x
  cases hc : s.pc x <;> rw [hc] at hx
  case asleep =>
      refine hx.imp id fun hd => ⟨hd.1, fun hs => hd.2 ?_⟩
      by_cases hxb : x = b
      · rw [hxb] at hs
        exact absurd ((update_self ..).symm.trans hs) (by decide)
      · exact (update_of_ne hxb _ _).symm.trans hs
  all_goals exact hx

lemma Inv.runIntr (h : Inv d₀ s q) (hrun : s.runIntr = .ok s') : ∃ q', Inv d₀ s' q' := by
  cases hi : s.intr with
  | start => exact ⟨q, h.handler_start hi hrun⟩
  | idle =>
    rw [Ide.runIntr, hi] at hrun
    exact ⟨q, Except.ok.inj hrun ▸ h⟩
  | acquire t =>
    rw [Ide.runIntr, hi] at hrun
    dsimp only at hrun
    split_ifs at hrun with hfree
    · exact ⟨q, Except.ok.inj hrun ▸ h.handler_acquire hi hfree⟩
    · exact ⟨q, Except.ok.inj hrun ▸ h⟩
  | serve t =>
    rw [Ide.runIntr, hi] at hrun
    exact ⟨q.tail, Except.ok.inj hrun ▸ h.handler_serve hi⟩
  | wake b =>
    rw [Ide.runIntr, hi] at hrun
    dsimp only at hrun
    split_ifs at hrun with hfree
    · exact ⟨q, Except.ok.inj hrun ▸ h.handler_wake hi hfree⟩
    · exact ⟨q, Except.ok.inj hrun ▸ h⟩
  | release =>
    rw [Ide.runIntr, hi] at hrun
    exact ⟨q, Except.ok.inj hrun ▸ h.handler_release hi⟩

/-- **Every step keeps the invariant.** -/
theorem Inv.step [Fintype B] (h : Inv d₀ s q) {a : IdeAct B} (ha : Promised s a) (hstep : s.step a = .ok s') :
    ∃ q', Inv d₀ s' q' := by
  cases a with
  | iderw b v =>
    obtain ⟨hp, hbusy, hdev, hno⟩ := ha
    rw [Ide.step] at hstep
    split_ifs at hstep with _ hclean
    cases hstep
    exact ⟨q, h.iderw hp ⟨hbusy, Bool.not_eq_true _ ▸ hclean, hdev, hno⟩⟩
  | next b =>
    by_cases hqueue : s.pc b = .queue
    · exact ⟨_, h.run_queue hqueue hstep⟩
    by_cases hstart : s.pc b = .start
    · exact ⟨q, h.run_start hstart hstep⟩
    by_cases hrel : s.pc b = .release
    · exact ⟨q, h.run_release hrel hstep⟩
    exact ⟨q, h.run_move hqueue hstart hrel hstep⟩
  | complete =>
    rw [Ide.step] at hstep
    split at hstep
    · exact ⟨q, Except.ok.inj hstep ▸ h⟩
    · exact ⟨q, Except.ok.inj hstep ▸ h.complete (by assumption)⟩
  | interrupt =>
    rw [Ide.step] at hstep
    split at hstep
    · exact ⟨q, Except.ok.inj hstep ▸ h.interrupt (by assumption) (by assumption)⟩
    · exact ⟨q, Except.ok.inj hstep ▸ h⟩
  | handler => exact h.runIntr hstep
  | kill b =>
    rw [Ide.step] at hstep
    split_ifs at hstep
    · exact ⟨q, Except.ok.inj hstep ▸ h.kill⟩
    · exact ⟨q, Except.ok.inj hstep ▸ h⟩

end Ide

end Col331
