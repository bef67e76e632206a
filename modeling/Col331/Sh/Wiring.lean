import Col331.Sh.Run

/-!
How `runcmd` of `HW1/sh.c` connects the commands of a pipeline.

* `redirect`, `low`: what redirections make of the descriptors 0 and 1.
* `Staged`, `Main`, `Child`: what a process has open, by where it is.
* `Wiring`: the invariant of all processes.
* `pipeline_wiring`: **each command reads from the pipe before it and writes to the one after it**.
-/

namespace Col331

namespace Sh

/-! ### Redirections -/

/-- The descriptors 0 and 1. -/
abbrev Low := Option Obj × Option Obj

/-- `close(fd)` and `open`, for the descriptors 0 and 1. -/
def redirect (r : Redirection) (ok : Bool) (x : Low) : Low :=
  match r.1, ok with
  | .input, true => (some (.file r.2), x.2)
  | .input, false => (none, x.2)
  -- with the descriptor 0 closed, the file goes there
  | .output, true => if x.1 = none then (some (.file r.2), none) else (x.1, some (.file r.2))
  | .output, false => (x.1, none)

/-- The descriptors 0 and 1 after redirections, the last one first. -/
def low (base : Low) : List (Redirection × Bool) → Low
  | [] => base
  | d :: ds => redirect d.1 d.2 (low base ds)

/-- `close(fd)` and `open`. -/
lemma redirect_eq (t : Fds Obj) (r : Redirection) (ok : Bool) :
    let t' := if ok then (t.close r.1.fd).place (.file r.2) else t.close r.1.fd
    (t'.get 0, t'.get 1) = redirect r ok (t.get 0, t.get 1) := by
  obtain ⟨w, name⟩ := r
  cases ok with
  | false => cases w <;> simp [redirect, Way.fd]
  | true =>
    cases w with
    | input =>
      have hlow : (t.close 0).lowest = 0 := Fds.lowest_eq (by simp) (by simp)
      simp [redirect, Way.fd, hlow]
    | output =>
      by_cases h0 : t.get 0 = none
      · have hlow : (t.close 1).lowest = 0 := Fds.lowest_eq (by simp [h0]) (by simp)
        simp [redirect, Way.fd, hlow, h0]
      · have hlow : (t.close 1).lowest = 1 := by
          refine Fds.lowest_eq (by simp) fun j hj => ?_
          obtain rfl : j = 0 := by omega
          simpa [Option.isSome_iff_ne_none] using h0
        simp [redirect, Way.fd, hlow, h0]

/-! ### Where a process is, and what it has open -/

/-- A process with the command `c` to run, whose descriptors 0 and 1 were `base` at first. -/
inductive Staged (c : Stage) (base : Low) : RunProc → Prop where
  | run {t : Fds Obj} (ds : List (Redirection × Bool)) (rs : List Redirection)
      (hrs : c.redirs = (ds.map Prod.fst).reverse ++ rs) (hlow : (t.get 0, t.get 1) = low base ds) :
      Staged c base ⟨.run (stageTree c.argv rs), t, ds.map Prod.snd⟩
  | openFile {t : Fds Obj} (ds : List (Redirection × Bool)) (r : Redirection) (rs : List Redirection)
      (hrs : c.redirs = (ds.map Prod.fst).reverse ++ r :: rs)
      (hlow : (t.get 0, t.get 1) = low base ds) :
      Staged c base ⟨.openFile r.2 (stageTree c.argv rs), t.close r.1.fd, ds.map Prod.snd⟩
  | execv {t : Fds Obj} (ds : List (Redirection × Bool)) (hrs : c.redirs = (ds.map Prod.fst).reverse)
      (hlow : (t.get 0, t.get 1) = low base ds) :
      Staged c base ⟨.execv c.argv, t, ds.map Prod.snd⟩
  | exited {t : Fds Obj} {os : List Bool} : Staged c base ⟨.exited, t, os⟩

/-- The write ends in a table are those in `P`. -/
def Writes (P : ℕ → Prop) (t : Fds Obj) : Prop := ∀ k n, t.get k = some (.writeEnd n) → P n

section Writes

variable {P : ℕ → Prop} {t : Fds Obj}

lemma Writes.put {x : Option Obj} {fd : ℕ} (h : Writes P t) (hx : ∀ n, x = some (.writeEnd n) → P n) :
    Writes P (t.put x fd) := by
  intro k n hk
  rw [Fds.get_put] at hk
  split_ifs at hk
  · exact hx n hk
  · exact h k n hk

lemma Writes.close (h : Writes P t) (fd : ℕ) : Writes P (t.close fd) := h.put nofun

lemma Writes.dup2 (h : Writes P t) (old new : ℕ) : Writes P (t.dup2 old new) := h.put fun n => h old n

lemma Writes.file (h : Writes P t) (name : Str) : Writes P (t.place (.file name)) := h.put nofun

end Writes

/-- A step of a process that runs its command. -/
lemma Staged.step {c : Stage} {base : Low} {P : ℕ → Prop} {p : RunProc} (h : Staged c base p)
    (hw : Writes P p.fds) (s : Pipeline) (pid : ℕ) (ok : Bool) :
    ∃ p', s.procStep pid p ok = s.set pid p' ∧ Staged c base p' ∧ Writes P p'.fds := by
  cases h with
  | run ds rs hrs hlow =>
    cases rs with
    | nil =>
      rw [List.append_nil] at hrs
      refine ⟨_, rfl, ?_, hw⟩
      split_ifs
      · exact .exited
      · exact .execv ds hrs hlow
    | cons r rs => exact ⟨_, rfl, .openFile ds r rs hrs hlow, hw.close _⟩
  | @openFile t ds r rs hrs hlow =>
    refine ⟨_, rfl, .run ((r, ok) :: ds) rs (by simp [hrs]) ?_, ?_⟩
    · have := redirect_eq t r ok
      rw [hlow] at this
      exact this
    · dsimp only
      split_ifs
      · exact hw.file r.2
      · exact hw
  | execv | exited => exact ⟨_, rfl, .exited, nofun⟩

/-- What the command `n` of a pipeline reads from, but for redirections. -/
def source : ℕ → Obj
  | 0 => .inherited 0
  | n + 1 => .readEnd n

/-- Before the pipe `n` is made. -/
structure Clean (n : ℕ) (t : Fds Obj) : Prop where
  zero : t.get 0 = some (source n)
  one : t.get 1 = some (.inherited 1)
  writes : Writes (fun _ => False) t

/-- After the pipe `n` is made. -/
structure Piped (n : ℕ) (t : Fds Obj) (fids : ℕ × ℕ) : Prop where
  zero : t.get 0 = some (source n)
  one : t.get 1 = some (.inherited 1)
  rd : t.get fids.1 = some (.readEnd n)
  wr : t.get fids.2 = some (.writeEnd n)
  writes : ∀ k m, t.get k = some (.writeEnd m) → k = fids.2 ∧ m = n

/-- The process that runs the pipeline `cs`, by the numbers of processes and pipes there are. -/
inductive Main (cs : List Stage) : ℕ → ℕ → RunProc → Prop where
  | run {pre post : List Stage} {c c' : Stage} {t : Fds Obj} (hcs : cs = pre ++ c :: c' :: post)
      (ht : Clean pre.length t) :
      Main cs (pre.length + 1) pre.length ⟨.run (pipeTree c (c' :: post)), t, []⟩
  | forking {pre post : List Stage} {c c' : Stage} {t : Fds Obj} {fids : ℕ × ℕ}
      (hcs : cs = pre ++ c :: c' :: post) (ht : Piped pre.length t fids) :
      Main cs (pre.length + 1) (pre.length + 1)
        ⟨.forking (stageTree c.argv c.redirs) (pipeTree c' post) fids, t, []⟩
  | close0 {pre post : List Stage} {c c' : Stage} {t : Fds Obj} {fids : ℕ × ℕ}
      (hcs : cs = pre ++ c :: c' :: post) (ht : Piped pre.length t fids) :
      Main cs (pre.length + 2) (pre.length + 1) ⟨.close0 (pipeTree c' post) fids, t, []⟩
  | closeWrite {pre post : List Stage} {c c' : Stage} {t : Fds Obj} {fids : ℕ × ℕ}
      (hcs : cs = pre ++ c :: c' :: post) (ht : Piped pre.length t fids) :
      Main cs (pre.length + 2) (pre.length + 1) ⟨.closeWrite (pipeTree c' post) fids, t.close 0, []⟩
  | dupRead {pre post : List Stage} {c c' : Stage} {t : Fds Obj} {fids : ℕ × ℕ}
      (hcs : cs = pre ++ c :: c' :: post) (ht : Piped pre.length t fids) :
      Main cs (pre.length + 2) (pre.length + 1)
        ⟨.dupRead (pipeTree c' post) fids, (t.close 0).close fids.2, []⟩
  | last {pre : List Stage} {c : Stage} {p : RunProc} (hcs : cs = pre ++ [c])
      (hp : Staged c (some (source pre.length), some (.inherited 1)) p)
      (hw : Writes (fun _ => False) p.fds) : Main cs (pre.length + 1) pre.length p

/-- The process that the command `n` of the pipeline `cs` was given to. -/
inductive Child (cs : List Stage) (n : ℕ) : RunProc → Prop where
  | close1 {pre post : List Stage} {c c' : Stage} {t : Fds Obj} {fids : ℕ × ℕ}
      (hcs : cs = pre ++ c :: c' :: post) (hn : pre.length = n) (ht : Piped n t fids) :
      Child cs n ⟨.close1 (stageTree c.argv c.redirs) fids, t, []⟩
  | closeRead {pre post : List Stage} {c c' : Stage} {t : Fds Obj} {fids : ℕ × ℕ}
      (hcs : cs = pre ++ c :: c' :: post) (hn : pre.length = n) (ht : Piped n t fids) :
      Child cs n ⟨.closeRead (stageTree c.argv c.redirs) fids, t.close 1, []⟩
  | dupWrite {pre post : List Stage} {c c' : Stage} {t : Fds Obj} {fids : ℕ × ℕ}
      (hcs : cs = pre ++ c :: c' :: post) (hn : pre.length = n) (ht : Piped n t fids) :
      Child cs n ⟨.dupWrite (stageTree c.argv c.redirs) fids, (t.close 1).close fids.1, []⟩
  | stage {pre post : List Stage} {c c' : Stage} {p : RunProc} (hcs : cs = pre ++ c :: c' :: post)
      (hn : pre.length = n) (hp : Staged c (some (source n), some (.writeEnd n)) p)
      (hw : Writes (· = n) p.fds) : Child cs n p

/-! ### Steps -/

section Piped

variable {n : ℕ} {t : Fds Obj} {fids : ℕ × ℕ}

lemma source_ne_readEnd (n : ℕ) : source n ≠ .readEnd n := by
  cases n <;> simp [source]

/-- `pipe(fids)`. -/
lemma Clean.piped (h : Clean n t) : Piped n ((t.place (.readEnd n)).place (.writeEnd n))
    (t.lowest, (t.place (.readEnd n)).lowest) := by
  have hrd : ∀ {k x}, t.get k = some x → k ≠ t.lowest := by
    rintro k x hk rfl
    simp [Fds.get_lowest] at hk
  have hwr : ∀ {k x}, (t.place (.readEnd n)).get k = some x → k ≠ (t.place (.readEnd n)).lowest := by
    rintro k x hk rfl
    simp [Fds.get_lowest] at hk
  have h0 : (t.place (.readEnd n)).get 0 = some (source n) := by
    rw [Fds.get_place, if_neg (hrd h.zero), h.zero]
  have h1 : (t.place (.readEnd n)).get 1 = some (.inherited 1) := by
    rw [Fds.get_place, if_neg (hrd h.one), h.one]
  have h2 : (t.place (.readEnd n)).get t.lowest = some (.readEnd n) := by
    rw [Fds.get_place, if_pos rfl]
  refine ⟨?_, ?_, ?_, ?_, fun k m hk => ?_⟩
  · rw [Fds.get_place, if_neg (hwr h0), h0]
  · rw [Fds.get_place, if_neg (hwr h1), h1]
  · rw [Fds.get_place, if_neg (hwr h2), h2]
  · rw [Fds.get_place, if_pos rfl]
  · rw [Fds.get_place] at hk
    split_ifs at hk with hkw
    · cases hk
      exact ⟨hkw, rfl⟩
    · rw [Fds.get_place] at hk
      split_ifs at hk
      · cases hk
      · exact (h.writes k m hk).elim

/-- The parent, after its three calls. -/
lemma Piped.parent (h : Piped n t fids) : Clean (n + 1) (((t.close 0).close fids.2).dup2 fids.1 0) := by
  have hr0 : fids.1 ≠ 0 := Fds.ne_of_get h.rd h.zero (source_ne_readEnd n).symm
  have hrw : fids.1 ≠ fids.2 := Fds.ne_of_get h.rd h.wr (by simp)
  have hw1 : 1 ≠ fids.2 := Fds.ne_of_get h.one h.wr (by simp)
  refine ⟨?_, ?_, fun k m hk => ?_⟩
  · simp [hr0, hrw, h.rd, source]
  · simp [hw1, h.one]
  · rw [Fds.get_dup2] at hk
    split_ifs at hk with hk0
    · simp [hr0, hrw, h.rd] at hk
    · simp [hk0] at hk
      exact hk.1 (h.writes k m hk.2).1

/-- The child, after its three calls. -/
lemma Piped.child (h : Piped n t fids) :
    let t' := ((t.close 1).close fids.1).dup2 fids.2 1
    (t'.get 0, t'.get 1) = (some (source n), some (.writeEnd n)) ∧ Writes (· = n) t' := by
  have hr0 : 0 ≠ fids.1 := Fds.ne_of_get h.zero h.rd (source_ne_readEnd n)
  have hrw : fids.2 ≠ fids.1 := Fds.ne_of_get h.wr h.rd (by simp)
  have hw1 : fids.2 ≠ 1 := Fds.ne_of_get h.wr h.one (by simp)
  refine ⟨by simp [hr0, hrw, hw1, h.zero, h.wr], ?_⟩
  have hw : Writes (· = n) t := fun k m hk => (h.writes k m hk).2
  exact ((hw.close 1).close fids.1).dup2 fids.2 1

end Piped

variable {cs : List Stage} {p : RunProc} {s : Pipeline}

lemma Child.step {n : ℕ} (h : Child cs n p) (s : Pipeline) (pid : ℕ)
    (ok : Bool) : ∃ p', s.procStep pid p ok = s.set pid p' ∧ Child cs n p' := by
  cases h with
  | close1 hcs hn ht => exact ⟨_, rfl, .closeRead hcs hn ht⟩
  | closeRead hcs hn ht => exact ⟨_, rfl, .dupWrite hcs hn ht⟩
  | dupWrite hcs hn ht => exact ⟨_, rfl, .stage hcs hn (.run [] _ rfl ht.child.1) ht.child.2⟩
  | stage hcs hn hp hw =>
    obtain ⟨p', hstep, hp', hw'⟩ := hp.step hw s pid ok
    exact ⟨p', hstep, .stage hcs hn hp' hw'⟩

/-- The process that runs the rest of a pipeline, at its first command. -/
lemma Main.of_clean {cs pre post : List Stage} {c : Stage} {t : Fds Obj} (hcs : cs = pre ++ c :: post)
    (ht : Clean pre.length t) : Main cs (pre.length + 1) pre.length ⟨.run (pipeTree c post), t, []⟩ := by
  cases post with
  | nil => exact .last hcs (.run [] _ rfl (by rw [ht.zero, ht.one]; rfl)) ht.writes
  | cons c' post => exact .run hcs ht

/-- The processes and what they have open. -/
structure Wiring (cs : List Stage) (s : Pipeline) : Prop where
  main : ∃ p, s.procs 0 = some p ∧ Main cs s.npids s.npipes p
  child : ∀ n, n + 1 < s.npids → ∃ p, s.procs (n + 1) = some p ∧ Child cs n p
  none : ∀ pid, s.npids ≤ pid → s.procs pid = none

lemma Wiring.pos (h : Wiring cs s) : 0 < s.npids := by
  by_contra h0
  obtain ⟨p, hp, -⟩ := h.main
  rw [h.none 0 (by omega)] at hp
  cases hp

/-- A step of the first process that concerns nobody else. -/
lemma Wiring.of_main {s s' : Pipeline} (h : Wiring cs s)
    (h0 : s'.procs 0 = some p) (hsame : ∀ pid, pid ≠ 0 → s'.procs pid = s.procs pid)
    (hpids : s'.npids = s.npids) (hp : Main cs s.npids s'.npipes p) : Wiring cs s' := by
  have hpos := h.pos
  refine ⟨⟨p, h0, hpids ▸ hp⟩, fun n hn => ?_, fun pid hpid => ?_⟩
  · rw [hsame _ (Nat.succ_ne_zero n)]
    exact h.child n (hpids ▸ hn)
  · rw [hsame pid (by omega)]
    exact h.none pid (hpids ▸ hpid)

lemma Wiring.set_main (h : Wiring cs s)
    (hp : Main cs s.npids s.npipes p) : Wiring cs (s.set 0 p) :=
  h.of_main (s.set_self 0 p) (fun _ => Pipeline.set_of_ne) rfl hp

/-- A step of the first process. -/
lemma Wiring.step_main (h : Wiring cs s)
    (hp : Main cs s.npids s.npipes p) (ok : Bool) : Wiring cs (s.procStep 0 p ok) := by
  generalize hnp : s.npids = np at hp
  generalize hnpp : s.npipes = npp at hp
  cases hp with
  | @run pre post c c' t hcs ht =>
    refine h.of_main (s.set_self 0 _) (fun _ => Pipeline.set_of_ne) rfl ?_
    change Main cs s.npids (s.npipes + 1) _
    rw [hnp, hnpp]
    exact .forking hcs ht.piped
  | @forking pre post c c' t fids hcs ht =>
    -- the new process is the one of the command before the pipe
    have hpos : s.npids ≠ 0 := by omega
    have hnew : ∀ pid, pid ≠ s.npids → pid ≠ 0 →
        (s.procStep 0 ⟨.forking (stageTree c.argv c.redirs) (pipeTree c' post) fids, t, []⟩ ok).procs pid =
          s.procs pid := fun pid hpid hpid' =>
      (Pipeline.set_of_ne hpid).trans (Pipeline.set_of_ne hpid')
    refine ⟨⟨⟨.close0 (pipeTree c' post) fids, t, []⟩, ?_, ?_⟩, fun n hn => ?_, fun pid hpid => ?_⟩
    · exact (Pipeline.set_of_ne hpos.symm).trans (s.set_self 0 _)
    · change Main cs (s.npids + 1) s.npipes _
      rw [hnp, hnpp]
      exact .close0 hcs ht
    · change n + 1 < s.npids + 1 at hn
      by_cases hlast : n + 1 = s.npids
      · rw [hlast]
        exact ⟨_, Pipeline.set_self .., .close1 hcs (by omega) (by
          rw [show n = pre.length by omega]
          exact ht)⟩
      · rw [hnew (n + 1) hlast (Nat.succ_ne_zero n)]
        exact h.child n (by omega)
    · change s.npids + 1 ≤ pid at hpid
      rw [hnew pid (by omega) (by omega)]
      exact h.none pid (by omega)
  | close0 hcs ht => exact h.set_main (by rw [hnp, hnpp]; exact .closeWrite hcs ht)
  | closeWrite hcs ht => exact h.set_main (by rw [hnp, hnpp]; exact .dupRead hcs ht)
  | @dupRead pre post c c' t fids hcs ht =>
    have hnext : Main cs ((pre ++ [c]).length + 1) (pre ++ [c]).length
        ⟨.run (pipeTree c' post), ((t.close 0).close fids.2).dup2 fids.1 0, []⟩ :=
      .of_clean (by simp [hcs]) (by simpa using ht.parent)
    rw [List.length_append, List.length_singleton] at hnext
    exact h.set_main (by rw [hnp, hnpp]; exact hnext)
  | last hcs hp hw =>
    obtain ⟨p', hstep, hp', hw'⟩ := hp.step hw s 0 ok
    rw [hstep]
    exact h.set_main (by rw [hnp, hnpp]; exact .last hcs hp' hw')

/-- A step of another process. -/
lemma Wiring.set_child {n : ℕ} (h : Wiring cs s)
    (hn : n + 1 < s.npids) (hp : Child cs n p) : Wiring cs (s.set (n + 1) p) := by
  obtain ⟨q, hq, hmain⟩ := h.main
  refine ⟨⟨q, ?_, hmain⟩, fun m hm => ?_, fun pid hpid => ?_⟩
  · rw [Pipeline.set_of_ne (Nat.succ_ne_zero n).symm, hq]
  · by_cases hmn : m = n
    · subst hmn
      exact ⟨p, s.set_self _ p, hp⟩
    · rw [Pipeline.set_of_ne (by omega)]
      exact h.child m hm
  · change s.npids ≤ pid at hpid
    rw [Pipeline.set_of_ne (by omega)]
    exact h.none pid hpid

/-- **The invariant is kept.** -/
lemma Wiring.step {s s' : Pipeline} {a : ℕ × Bool} (h : Wiring cs s)
    (hstep : s.step a = .ok s') : Wiring cs s' := by
  obtain ⟨pid, ok⟩ := a
  rw [Pipeline.step] at hstep
  cases hp : s.procs pid with
  | none =>
    rw [hp] at hstep
    cases hstep
    exact h
  | some p =>
    rw [hp] at hstep
    cases hstep
    cases pid with
    | zero =>
      obtain ⟨q, hq, hmain⟩ := h.main
      obtain rfl : q = p := Option.some.inj (hq.symm.trans hp)
      exact h.step_main hmain ok
    | succ n =>
      have hn : n + 1 < s.npids := by
        by_contra hge
        rw [h.none _ (by omega)] at hp
        cases hp
      obtain ⟨q, hq, hchild⟩ := h.child n hn
      obtain rfl : q = p := Option.some.inj (hq.symm.trans hp)
      obtain ⟨p', hstep, hp'⟩ := hchild.step s (n + 1) ok
      rw [hstep]
      exact h.set_child hn hp'

lemma Wiring.start (c : Stage) (cs : List Stage) (rest : List (Option ℕ)) :
    Wiring (c :: cs) (.start (pipeTree c cs) rest) := by
  refine ⟨⟨⟨.run (pipeTree c cs), _, []⟩, rfl, ?_⟩, fun n hn => ?_, fun pid hpid => ?_⟩
  · refine @Main.of_clean _ [] cs c _ rfl ⟨rfl, rfl, fun k n hk => ?_⟩
    have hmem := Fds.mem_of_get hk
    simp at hmem
  · change n + 1 < 1 at hn
    omega
  · change 1 ≤ pid at hpid
    simp [Pipeline.start, show pid ≠ 0 by omega]

lemma Wiring.of_reach {c : Stage} {rest : List (Option ℕ)}
    {ok : Pipeline → ℕ × Bool → Prop}
    (h : Reach Pipeline.step ok (.start (pipeTree c cs) rest) s) : Wiring (c :: cs) s :=
  Reach.invariant (I := Wiring (c :: cs)) (.start c cs rest) (fun _ _ _ hs _ => hs.step) h

/-! ### At `execv` -/

/-- What the command `n` of a pipeline writes to, but for redirections; `last` if there is none after
it. -/
def sink (last : Bool) (n : ℕ) : Obj := if last then .inherited 1 else .writeEnd n

/-- The process of the command `n` of a pipeline. -/
def stagePid (last : Bool) (n : ℕ) : ℕ := if last then 0 else n + 1

/-- A process before `execv`: it has gone through all redirections of its command. -/
lemma Staged.at_execv {c : Stage} {base : Low} {argv : List Str} (h : Staged c base p)
    (hpc : p.pc = .execv argv) :
    argv = c.argv ∧ ∃ ds : List (Redirection × Bool), c.redirs = (ds.map Prod.fst).reverse ∧
      p.opened = ds.map Prod.snd ∧ (p.fds.get 0, p.fds.get 1) = low base ds := by
  cases h with
  | run | openFile | exited => cases hpc
  | execv ds hrs hlow =>
    cases hpc
    exact ⟨rfl, ds, hrs, rfl, hlow⟩

/-- The first process has a write end open only while it makes the pipe. -/
lemma Main.writes {np npp k m : ℕ} (h : Main cs np npp p)
    (hk : p.fds.get k = some (.writeEnd m)) : np ≤ m + 2 ∧ ∀ argv, p.pc ≠ .execv argv := by
  cases h with
  | run hcs ht => exact (ht.writes k m hk).elim
  | forking hcs ht | close0 hcs ht =>
    have := (ht.writes k m hk).2
    exact ⟨by omega, nofun⟩
  | closeWrite hcs ht =>
    have := (Writes.close (fun k m hk => (ht.writes k m hk).2) 0 : Writes _ _) k m hk
    exact ⟨by omega, nofun⟩
  | dupRead hcs ht =>
    have := ((Writes.close (fun k m hk => (ht.writes k m hk).2) 0 : Writes _ _).close _) k m hk
    exact ⟨by omega, nofun⟩
  | last hcs hp hw => exact (hw k m hk).elim

/-- The process of a command has the write end of no other pipe than its own open. -/
lemma Child.writes {n : ℕ} (h : Child cs n p) :
    Writes (· = n) p.fds := by
  cases h with
  | close1 hcs hn ht => exact fun k m hk => (ht.writes k m hk).2
  | closeRead hcs hn ht => exact Writes.close (fun k m hk => (ht.writes k m hk).2) 1
  | dupWrite hcs hn ht => exact (Writes.close (fun k m hk => (ht.writes k m hk).2) 1).close _
  | stage hcs hn hp hw => exact hw

/-- **A process before `execv`** is that of a command of the pipeline: what its descriptors are, and who
can still write to what it reads from. -/
lemma Wiring.at_execv {pid : ℕ} {argv : List Str}
    (h : Wiring cs s) (hp : s.procs pid = some p) (hpc : p.pc = .execv argv) :
    ∃ pre c post, cs = pre ++ c :: post ∧ pid = stagePid post.isEmpty pre.length ∧ argv = c.argv ∧
      (∃ ds : List (Redirection × Bool), c.redirs = (ds.map Prod.fst).reverse ∧
        p.opened = ds.map Prod.snd ∧
        (p.fds.get 0, p.fds.get 1) =
          low (some (source pre.length), some (sink post.isEmpty pre.length)) ds) ∧
      ∀ m, pre.length = m + 1 → ∀ pid' q k, s.procs pid' = some q →
        q.fds.get k = some (.writeEnd m) → pid' = m + 1 := by
  obtain ⟨p₀, hp₀, hmain⟩ := h.main
  have hwrites : ∀ pid' q k m, s.procs pid' = some q → q.fds.get k = some (.writeEnd m) →
      pid' = m + 1 ∨ s.npids ≤ m + 2 ∧ ∀ argv, p₀.pc ≠ .execv argv := by
    intro pid' q k m hq hk
    cases pid' with
    | zero =>
      obtain rfl : p₀ = q := Option.some.inj (hp₀.symm.trans hq)
      exact .inr (hmain.writes hk)
    | succ n =>
      obtain ⟨q', hq', hchild⟩ := h.child n (by
        by_contra hge
        rw [h.none _ (by omega)] at hq
        cases hq)
      obtain rfl : q' = q := Option.some.inj (hq'.symm.trans hq)
      exact .inl (by rw [hchild.writes k m hk])
  cases pid with
  | zero =>
    obtain rfl : p₀ = p := Option.some.inj (hp₀.symm.trans hp)
    generalize s.npids = np, s.npipes = npp at hmain
    cases hmain with
    | run | forking | close0 | closeWrite | dupRead => cases hpc
    | @last pre c p hcs hst hw =>
      obtain ⟨hargv, hds⟩ := hst.at_execv hpc
      refine ⟨pre, c, [], hcs, rfl, hargv, hds, fun m hm pid' q k hq hk => ?_⟩
      exact (hwrites pid' q k m hq hk).resolve_right fun hr => hr.2 argv hpc
  | succ n =>
    have hn : n + 1 < s.npids := by
      by_contra hge
      rw [h.none _ (by omega)] at hp
      cases hp
    obtain ⟨p', hp', hchild⟩ := h.child n hn
    obtain rfl : p' = p := Option.some.inj (hp'.symm.trans hp)
    cases hchild with
    | close1 | closeRead | dupWrite => cases hpc
    | @stage pre post c c' p hcs hlen hst hw =>
      obtain ⟨hargv, hds⟩ := hst.at_execv hpc
      subst hlen
      refine ⟨pre, c, c' :: post, hcs, rfl, hargv, hds, fun m hm pid' q k hq hk => ?_⟩
      exact (hwrites pid' q k m hq hk).resolve_right fun hr => by omega

/-! ### When every `open` succeeds -/

/-- Every `open` so far has succeeded. -/
def AllOpened (s : Pipeline) : Prop := ∀ pid p, s.procs pid = some p → ∀ b ∈ p.opened, b = true

lemma AllOpened.set (h : AllOpened s) (pid : ℕ) (p : RunProc)
    (hp : ∀ b ∈ p.opened, b = true) : AllOpened (s.set pid p) := by
  intro pid' q hq
  by_cases hpid : pid' = pid
  · subst hpid
    rw [s.set_self] at hq
    cases hq
    exact hp
  · rw [Pipeline.set_of_ne hpid] at hq
    exact h pid' q hq

lemma AllOpened.step {s s' : Pipeline} {a : ℕ × Bool} (h : AllOpened s) (ha : a.2 = true)
    (hstep : s.step a = .ok s') : AllOpened s' := by
  rw [Pipeline.step] at hstep
  cases hp : s.procs a.1 with
  | none =>
    rw [hp] at hstep
    cases hstep
    exact h
  | some p =>
    rw [hp] at hstep
    cases hstep
    have hopened := h _ p hp
    rw [ha]
    unfold Pipeline.procStep
    split
    · unfold Pipeline.runStep
      split
      all_goals exact h.set _ _ hopened
    · exact h.set _ _ (List.forall_mem_cons.mpr ⟨rfl, hopened⟩)
    · rename_i l r fids _
      have hparent := h.set a.1 ⟨.close0 r fids, p.fds, p.opened⟩ hopened
      exact hparent.set s.npids ⟨.close1 l fids, p.fds, p.opened⟩ hopened
    all_goals exact h.set _ _ hopened

lemma AllOpened.of_reach {cmd : Cmd Str} {rest : List (Option ℕ)}
    (h : Reach Pipeline.step (fun _ a => a.2 = true) (.start cmd rest) s) : AllOpened s := by
  refine Reach.invariant (I := AllOpened) (fun pid p hp => ?_) (fun _ _ _ hs ha => hs.step ha) h
  have hmem : p ∈ (Pipeline.start cmd rest).procs pid := hp
  by_cases hpid : pid = 0
  · simp [Pipeline.start, hpid] at hmem
    simp [← hmem]
  · simp [Pipeline.start, hpid] at hmem

/-- What a descriptor refers to after the redirections of a line: the file of the first one that is for
it, or what it was. -/
def refers (line : List Redirection) (w : Way) (x : Obj) : Obj :=
  match line.find? (·.1 = w) with
  | some r => .file r.2
  | none => x

lemma low_of_opened {ds : List (Redirection × Bool)} (h : ∀ d ∈ ds, d.2 = true) (x y : Obj) :
    low (some x, some y) ds =
      (some (refers (ds.map Prod.fst) .input x), some (refers (ds.map Prod.fst) .output y)) := by
  induction ds with
  | nil => rfl
  | cons d ds ih =>
    obtain ⟨⟨w, name⟩, ok⟩ := d
    obtain ⟨rfl, hds⟩ := List.forall_mem_cons.mp h
    rw [low, ih hds]
    cases w <;> simp [redirect, refers]

/-- **Pipelines**: a process before `execv` is that of a command of the line.  It reads from the pipe
before it and writes to the one after it, but for its redirections, and nobody but the command before it
can still write to the pipe that it reads from. -/
theorem pipeline_wiring {line : List UInt8} {cmd : Cmd Str} {rest : List (Option ℕ)} {s : Pipeline}
    (hcmd : Hw1.parsecmd line = .ok cmd)
    (h : Reach Pipeline.step (fun _ a => a.2 = true) (.start cmd rest) s) :
    ∃ c cs, cmd = pipeTree c cs ∧ ∀ pid p argv, s.procs pid = some p → p.pc = .execv argv →
      ∃ pre c' post, c :: cs = pre ++ c' :: post ∧ pid = stagePid post.isEmpty pre.length ∧
        argv = c'.argv ∧
        p.fds.get 0 = some (refers c'.redirs.reverse .input (source pre.length)) ∧
        p.fds.get 1 = some (refers c'.redirs.reverse .output (sink post.isEmpty pre.length)) ∧
        ∀ m, pre.length = m + 1 → ∀ pid' q k, s.procs pid' = some q →
          q.fds.get k = some (.writeEnd m) → pid' = stagePid false m := by
  obtain ⟨c, cs, rfl⟩ := Hw1.parsecmd_pipeTree hcmd
  refine ⟨c, cs, rfl, fun pid p argv hp hpc => ?_⟩
  obtain ⟨pre, c', post, hcs, hpid, hargv, ⟨ds, hrs, hopened, hlow⟩, hwrites⟩ :=
    (Wiring.of_reach h).at_execv hp hpc
  have hds : ∀ d ∈ ds, d.2 = true := fun d hd =>
    AllOpened.of_reach h pid p hp d.2 (hopened ▸ List.mem_map_of_mem hd)
  rw [low_of_opened hds, Prod.mk.injEq, show ds.map Prod.fst = c'.redirs.reverse by simp [hrs]] at hlow
  exact ⟨pre, c', post, hcs, hpid, hargv, hlow.1, hlow.2, hwrites⟩

/-- `a|b>f`. -/
theorem pipeline_wiring_output :
    let cmd : Cmd Str := .pipe (.exec [[97]]) (.redir (.exec [[98]]) [102] .wronlyCreateTrunc 1)
    ∃ s, runChecked Pipeline.step (fun _ a => a.2 = true) (List.replicate 8 (0, true))
        (.start cmd []) = some s ∧
      (s.procs 0).map RunProc.pc = some (.execv [[98]]) ∧
      ∃ c cs, cmd = pipeTree c cs ∧ ∀ pid p argv, s.procs pid = some p → p.pc = .execv argv →
        ∃ pre c' post, c :: cs = pre ++ c' :: post ∧ pid = stagePid post.isEmpty pre.length ∧
          argv = c'.argv ∧
          p.fds.get 0 = some (refers c'.redirs.reverse .input (source pre.length)) ∧
          p.fds.get 1 = some (refers c'.redirs.reverse .output (sink post.isEmpty pre.length)) ∧
          ∀ m, pre.length = m + 1 → ∀ pid' q k, s.procs pid' = some q →
            q.fds.get k = some (.writeEnd m) → pid' = stagePid false m := by
  intro cmd
  obtain ⟨s, hs, hpc⟩ : ∃ s, runChecked Pipeline.step (fun _ a => a.2 = true)
      (List.replicate 8 (0, true)) (.start cmd []) = some s ∧
      (s.procs 0).map RunProc.pc = some (.execv [[98]]) := ⟨_, rfl, rfl⟩
  have hcmd : Hw1.parsecmd [97, 124, 98, 62, 102] = .ok cmd := rfl
  exact ⟨s, hs, hpc, pipeline_wiring hcmd (.of_runChecked .init hs)⟩

/-- In `a|b` the first command can be at `execv` while the process that makes the pipe still has its write
end open. -/
theorem pipeline_writeEnd_shared :
    Hw1.parsecmd [97, 124, 98] = .ok (pipeTree ⟨[[97]], []⟩ [⟨[[98]], []⟩]) ∧
    ∃ s, Reach Pipeline.step (fun _ a => a.2 = true)
        (.start (pipeTree ⟨[[97]], []⟩ [⟨[[98]], []⟩]) []) s ∧
      (s.procs (stagePid false 0)).map RunProc.pc = some (.execv [[97]]) ∧
      ∃ pid q k, pid ≠ stagePid false 0 ∧ s.procs pid = some q ∧ q.fds.get k = some (.writeEnd 0) := by
  have hrun : ∃ s, runChecked Pipeline.step (fun _ a => a.2 = true)
      ([0, 0, 1, 1, 1, 1].map (·, true)) (.start (pipeTree ⟨[[97]], []⟩ [⟨[[98]], []⟩]) []) = some s ∧
      (s.procs (stagePid false 0)).map RunProc.pc = some (.execv [[97]]) ∧
      ∃ q, s.procs 0 = some q ∧ q.fds.get 4 = some (.writeEnd 0) := ⟨_, rfl, rfl, _, rfl, rfl⟩
  obtain ⟨s, hs, hpc, q, hq, hk⟩ := hrun
  exact ⟨rfl, s, .of_runChecked .init hs, hpc, 0, q, 4, by decide, hq, hk⟩

end Sh

end Col331
