import Col331.Sh.Wiring

/-!
What becomes of the redirections of a command when some of its files cannot be opened: `runcmd` of
`HW1/sh.c` goes on to `execv` all the same.

The redirections of a line are taken from its end to its beginning, each with whether its file was opened.

* `gap`: the descriptor 0 is left closed.
* `outputKept`, `inputKept`: the descriptors 1 and 0 are what their redirections say.
* `directed_iff_kept`: one command.
* `redirections_kept`: **this is what decides**.
-/

namespace Col331

namespace Sh

/-- Every descriptor that a redirection names refers to a file of such a redirection. -/
def Directed (rs : List Redirection) (t : Fds Obj) : Prop :=
  ∀ r ∈ rs, ∃ r' ∈ rs, r'.1 = r.1 ∧ t.get r.1.fd = some (.file r'.2)

/-- The redirections of a line leave the descriptor 0 closed: of those that are for it or were opened, the
first one is for it and was not opened. -/
def gap : List (Redirection × Bool) → Bool
  | [] => false
  | ((.input, _), ok) :: _ => !ok
  | ((.output, _), ok) :: ds => !ok && gap ds

/-- The first output of a line was opened, when the descriptor 0 was not closed. -/
def outputKept : List (Redirection × Bool) → Bool
  | [] => true
  | ((.input, _), _) :: ds => outputKept ds
  | ((.output, _), ok) :: ds => ok && !gap ds

/-- The first input of a line was opened, or the last output before it that was opened has a name in
`names`; `last` is the last one so far. -/
def inputKept (names : List Str) : Option Str → List (Redirection × Bool) → Bool
  | _, [] => true
  | last, ((.input, _), ok) :: _ => ok || last.any (· ∈ names)
  | last, ((.output, name), ok) :: ds => inputKept names (if ok then some name else last) ds

/-- The names of the inputs of a line. -/
def inputs (rs : List Redirection) : List Str := (rs.filter (·.1 = .input)).map Prod.snd

/-- The condition. -/
def Kept (ds : List (Redirection × Bool)) : Bool :=
  outputKept ds && inputKept (inputs (ds.map Prod.fst)) none ds

lemma mem_inputs {rs : List Redirection} {name : Str} : name ∈ inputs rs ↔ (.input, name) ∈ rs := by
  simp [inputs]

section Low

variable {x y : Obj}

/-- The descriptor 0 is closed. -/
lemma low_fst_eq_none (ds : List (Redirection × Bool)) :
    (low (some x, some y) ds).1 = none ↔ gap ds = true := by
  induction ds with
  | nil => simp [low, gap]
  | cons d ds ih =>
    obtain ⟨⟨w, name⟩, ok⟩ := d
    cases w with
    | input => cases ok <;> simp [low, redirect, gap]
    | output =>
      cases ok with
      | false => simpa [low, redirect, gap] using ih
      | true =>
        by_cases h0 : (low (some x, some y) ds).1 = none
        · simp [low, redirect, gap, h0]
        · simp [low, redirect, gap, h0]

/-- The descriptor 1, if there is an output. -/
lemma low_snd_iff {ds : List (Redirection × Bool)} (h : ∃ r ∈ ds.map Prod.fst, r.1 = .output) :
    (∃ r ∈ ds.map Prod.fst, r.1 = .output ∧ (low (some x, some y) ds).2 = some (.file r.2)) ↔
      outputKept ds = true := by
  induction ds with
  | nil => simp at h
  | cons d ds ih =>
    obtain ⟨⟨w, name⟩, ok⟩ := d
    cases w with
    | input =>
      have hlow : (low (some x, some y) (((.input, name), ok) :: ds)).2 =
          (low (some x, some y) ds).2 := by cases ok <;> rfl
      rw [hlow, outputKept, ← ih (by simpa using h)]
      simp
    | output =>
      rw [outputKept, low]
      cases ok with
      | false => simp [redirect]
      | true =>
        by_cases h0 : (low (some x, some y) ds).1 = none
        · simp [redirect, h0, (low_fst_eq_none ds).mp h0]
        · have hgap : gap ds = false := by
            rwa [low_fst_eq_none, Bool.not_eq_true] at h0
          simp [redirect, h0, hgap]

/-- What the descriptor 0 is after outputs of which `last` was the first to be opened. -/
def filled (last : Option Str) (x : Option Obj) : Option Obj := x.or (last.map .file)

/-- The descriptor 0, if there is an input. -/
lemma filled_iff {names : List Str} {last : Option Str} {ds : List (Redirection × Bool)}
    (h : ∃ r ∈ ds.map Prod.fst, r.1 = .input) (hnames : ∀ name ∈ inputs (ds.map Prod.fst), name ∈ names) :
    (∃ name ∈ names, filled last (low (some x, some y) ds).1 = some (.file name)) ↔
      inputKept names last ds = true := by
  induction ds generalizing last with
  | nil => simp at h
  | cons d ds ih =>
    obtain ⟨⟨w, name⟩, ok⟩ := d
    cases w with
    | input =>
      have hname : name ∈ names := hnames name (by simp [inputs])
      rw [inputKept, low]
      cases ok with
      | true => simpa [redirect, filled] using hname
      | false => cases last <;> simp [redirect, filled]
    | output =>
      -- an output that is opened fills the gap, if there is one
      have hlow : filled last (low (some x, some y) (((.output, name), ok) :: ds)).1 =
          filled (if ok then some name else last) (low (some x, some y) ds).1 := by
        rw [low]
        cases ok with
        | false => simp [redirect]
        | true => cases h0 : (low (some x, some y) ds).1 <;> simp [redirect, filled, h0]
      rw [hlow, inputKept]
      exact ih (by simpa using h) (by simpa [inputs] using hnames)

end Low

variable {ds : List (Redirection × Bool)}

lemma outputKept_of_not (h : ¬∃ r ∈ ds.map Prod.fst, r.1 = .output) :
    outputKept ds = true := by
  induction ds with
  | nil => rfl
  | cons d ds ih =>
    obtain ⟨⟨w, name⟩, ok⟩ := d
    cases w with
    | input => exact ih (by simpa using h)
    | output => simp at h

lemma inputKept_of_not {names : List Str} {last : Option Str}
    (h : ¬∃ r ∈ ds.map Prod.fst, r.1 = .input) : inputKept names last ds = true := by
  induction ds generalizing last with
  | nil => rfl
  | cons d ds ih =>
    obtain ⟨⟨w, name⟩, ok⟩ := d
    cases w with
    | input => simp at h
    | output => exact ih (by simpa using h)

/-- The redirections of one kind are in place. -/
def DirectedFor (rs : List Redirection) (t : Fds Obj) (w : Way) : Prop :=
  (∃ r ∈ rs, r.1 = w) → ∃ r ∈ rs, r.1 = w ∧ t.get w.fd = some (.file r.2)

lemma directed_iff (rs : List Redirection) (t : Fds Obj) :
    Directed rs t ↔ DirectedFor rs t .output ∧ DirectedFor rs t .input := by
  constructor
  · intro h
    constructor
    · rintro ⟨r, hr, hw⟩
      simpa [hw] using h r hr
    · rintro ⟨r, hr, hw⟩
      simpa [hw] using h r hr
  · rintro ⟨hout, hin⟩ r hr
    cases hw : r.1 with
    | input => exact hin ⟨r, hr, hw⟩
    | output => exact hout ⟨r, hr, hw⟩

/-- A command is executed with its redirections in place under the condition, and only then. -/
lemma directed_iff_kept {t : Fds Obj} {x y : Obj}
    (hlow : (t.get 0, t.get 1) = low (some x, some y) ds) :
    Directed (ds.map Prod.fst) t ↔ Kept ds = true := by
  obtain ⟨h0, h1⟩ : t.get 0 = (low (some x, some y) ds).1 ∧ t.get 1 = (low (some x, some y) ds).2 :=
    ⟨congrArg Prod.fst hlow, congrArg Prod.snd hlow⟩
  rw [directed_iff, Kept, Bool.and_eq_true]
  refine and_congr ?_ ?_
  · by_cases hout : ∃ r ∈ ds.map Prod.fst, r.1 = .output
    · rw [← low_snd_iff hout, ← h1]
      exact ⟨fun h => h hout, fun h _ => h⟩
    · exact iff_of_true (fun h => (hout h).elim) (outputKept_of_not hout)
  · by_cases hin : ∃ r ∈ ds.map Prod.fst, r.1 = .input
    · rw [← filled_iff hin fun _ => id, ← h0]
      constructor
      · intro h
        obtain ⟨⟨w, name⟩, hr, hw, hfile⟩ := h hin
        obtain rfl : w = .input := hw
        exact ⟨name, mem_inputs.mpr hr, by simpa [filled, Way.fd] using hfile⟩
      · rintro ⟨name, hname, hfile⟩ -
        exact ⟨(.input, name), mem_inputs.mp hname, rfl, by simpa [filled, Way.fd] using hfile⟩
    · exact iff_of_true (fun h => (hin h).elim) (inputKept_of_not hin)

/-- **Redirections**: a process before `execv` is that of a command of the line.  Whatever could be opened,
the redirections of the command are in place if they are `Kept`, and only then. -/
theorem redirections_kept {line : List UInt8} {cmd : Cmd Str} {rest : List (Option ℕ)} {s : Pipeline}
    (hcmd : Hw1.parsecmd line = .ok cmd)
    (h : Reach Pipeline.step (fun _ _ => True) (.start cmd rest) s) :
    ∃ c cs, cmd = pipeTree c cs ∧ ∀ pid p argv, s.procs pid = some p → p.pc = .execv argv →
      ∃ pre c' post, c :: cs = pre ++ c' :: post ∧ pid = stagePid post.isEmpty pre.length ∧
        argv = c'.argv ∧ p.opened.length = c'.redirs.length ∧
        (Directed c'.redirs p.fds ↔ Kept (c'.redirs.reverse.zip p.opened) = true) := by
  obtain ⟨c, cs, rfl⟩ := Hw1.parsecmd_pipeTree hcmd
  refine ⟨c, cs, rfl, fun pid p argv hp hpc => ?_⟩
  obtain ⟨pre, c', post, hcs, hpid, hargv, ⟨ds, hrs, hopened, hlow⟩, -⟩ :=
    (Wiring.of_reach h).at_execv hp hpc
  have hzip : c'.redirs.reverse.zip p.opened = ds := by
    rw [hrs, hopened, List.reverse_reverse, ← List.unzip_fst, ← List.unzip_snd]
    exact List.zip_unzip ds
  have hdir : Directed c'.redirs p.fds ↔ Directed (ds.map Prod.fst) p.fds := by
    simp [Directed, hrs]
  refine ⟨pre, c', post, hcs, hpid, hargv, by simp [hrs, hopened], ?_⟩
  rw [hzip, hdir]
  exact directed_iff_kept hlow

/-- `a>f<g`, with both files opened. -/
theorem redirections_kept_both :
    let cmd : Cmd Str := .redir (.redir (.exec [[97]]) [102] .wronlyCreateTrunc 1) [103] .rdonly 0
    ∃ s, runChecked Pipeline.step (fun _ _ => True) (List.replicate 5 (0, true)) (.start cmd []) = some s ∧
      (s.procs 0).map RunProc.pc = some (.execv [[97]]) ∧
      ∃ c cs, cmd = pipeTree c cs ∧ ∀ pid p argv, s.procs pid = some p → p.pc = .execv argv →
        ∃ pre c' post, c :: cs = pre ++ c' :: post ∧ pid = stagePid post.isEmpty pre.length ∧
          argv = c'.argv ∧ p.opened.length = c'.redirs.length ∧
          (Directed c'.redirs p.fds ↔ Kept (c'.redirs.reverse.zip p.opened) = true) := by
  intro cmd
  obtain ⟨s, hs, hpc⟩ : ∃ s, runChecked Pipeline.step (fun _ _ => True)
      (List.replicate 5 (0, true)) (.start cmd []) = some s ∧
      (s.procs 0).map RunProc.pc = some (.execv [[97]]) := ⟨_, rfl, rfl⟩
  have hcmd : Hw1.parsecmd [97, 62, 102, 60, 103] = .ok cmd := rfl
  exact ⟨s, hs, hpc, redirections_kept hcmd (.of_runChecked .init hs)⟩

/-- In `a>f<g`, if `g` cannot be opened, `f` becomes the input, and the output is closed. -/
theorem redirection_misdirected :
    let c : Stage := ⟨[[97]], [(.input, [103]), (.output, [102])]⟩
    Hw1.parsecmd [97, 62, 102, 60, 103] = .ok (pipeTree c []) ∧
    ∃ s p, Reach Pipeline.step (fun _ _ => True) (.start (pipeTree c []) []) s ∧ s.procs 0 = some p ∧
      p.pc = .execv c.argv ∧ p.fds.get 0 = some (.file [102]) ∧ p.fds.get 1 = none ∧
      ¬Directed c.redirs p.fds := by
  intro c
  obtain ⟨s, p, hs, hp, hpc, h0, h1⟩ : ∃ s p, runChecked Pipeline.step (fun _ _ => True)
      [(0, true), (0, false), (0, true), (0, true), (0, true)] (.start (pipeTree c []) []) = some s ∧
      s.procs 0 = some p ∧ p.pc = .execv c.argv ∧ p.fds.get 0 = some (.file [102]) ∧
      p.fds.get 1 = none := ⟨_, _, rfl, rfl, rfl, rfl, rfl⟩
  refine ⟨rfl, s, p, .of_runChecked .init hs, hp, hpc, h0, h1, fun hdir => ?_⟩
  obtain ⟨r', -, -, hr'⟩ := hdir (.output, [102]) (by simp [c])
  rw [show (Way.output).fd = 1 from rfl, h1] at hr'
  cases hr'

end Sh

end Col331
