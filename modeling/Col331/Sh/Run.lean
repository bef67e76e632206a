import Col331.Data.Fds
import Col331.Logic.Reach
import Col331.Sh.Agree

/-!
`runcmd` of `HW1/sh.c`, and the processes that it becomes.

A process takes one system call at a time, in any order with the others.  What can fail is `open`.

* `Obj`: what a descriptor can refer to.
* `RunPc`: where a process is in `runcmd`.
* `Pipeline.step`: one step of a process.
* `Stage`, `pipeTree`: the trees of the parser, with `Hw1.parsecmd_pipeTree`.
-/

namespace Col331

open Prog

namespace Sh

/-- A string. -/
abbrev Str := List UInt8

/-- What a descriptor refers to. -/
inductive Obj where
  /-- What the shell had there. -/
  | inherited (fd : ℕ)
  /-- The ends of the pipes, by the number of the pipe. -/
  | readEnd (n : ℕ)
  | writeEnd (n : ℕ)
  | file (name : Str)
  deriving DecidableEq

/-- Where a process is in `runcmd`. -/
inductive RunPc where
  /-- At the beginning of `runcmd(cmd)`. -/
  | run (cmd : Cmd Str)
  /-- In a redirection, before `open`. -/
  | openFile (file : Str) (cmd : Cmd Str)
  /-- In a pipe, before `fork`; `fids` are the descriptors. -/
  | forking (left right : Cmd Str) (fids : ℕ × ℕ)
  /-- In the child, before `close(1)`, `close(fids[0])` and `dup2(fids[1],1)`. -/
  | close1 (left : Cmd Str) (fids : ℕ × ℕ)
  | closeRead (left : Cmd Str) (fids : ℕ × ℕ)
  | dupWrite (left : Cmd Str) (fids : ℕ × ℕ)
  /-- In the parent, before `close(0)`, `close(fids[1])` and `dup2(fids[0],0)`. -/
  | close0 (right : Cmd Str) (fids : ℕ × ℕ)
  | closeWrite (right : Cmd Str) (fids : ℕ × ℕ)
  | dupRead (right : Cmd Str) (fids : ℕ × ℕ)
  /-- Before `execv`. -/
  | execv (argv : List Str)
  | exited
  deriving DecidableEq

/-- A process. -/
structure RunProc where
  pc : RunPc
  fds : Fds Obj
  /-- Which calls of `open` have succeeded, the last one first. -/
  opened : List Bool

/-- The processes. -/
structure Pipeline where
  procs : ℕ → Option RunProc
  /-- The number of processes so far. -/
  npids : ℕ
  /-- The number of pipes so far. -/
  npipes : ℕ

namespace Pipeline

/-- The process `pid` becomes `p`. -/
def set (s : Pipeline) (pid : ℕ) (p : RunProc) : Pipeline :=
  { s with procs := Function.update s.procs pid (some p) }

lemma set_self (s : Pipeline) (pid : ℕ) (p : RunProc) : (s.set pid p).procs pid = some p := by
  simp [set]

lemma set_of_ne {s : Pipeline} {pid pid' : ℕ} {p : RunProc} (h : pid' ≠ pid) :
    (s.set pid p).procs pid' = s.procs pid' := by
  simp [set, h]

/-- `runcmd(cmd)` up to its first system call. -/
def runStep (s : Pipeline) (pid : ℕ) (p : RunProc) : Cmd Str → Pipeline
  | .exec argv => s.set pid { p with pc := if argv = [] then .exited else .execv argv }
  | .redir cmd file _ fd => s.set pid { p with pc := .openFile file cmd, fds := p.fds.close fd }
  | .pipe l r =>
    let rd := p.fds.lowest
    let fds := p.fds.place (.readEnd s.npipes)
    { s.set pid { p with
        pc := .forking l r (rd, fds.lowest)
        fds := fds.place (.writeEnd s.npipes) } with npipes := s.npipes + 1 }
  -- `unknown runcmd`
  | .list _ _ | .back _ => s.set pid { p with pc := .exited }

/-- The next step of the process `pid`; `ok` is whether an `open` succeeds. -/
def procStep (s : Pipeline) (pid : ℕ) (p : RunProc) (ok : Bool) : Pipeline :=
  match p.pc with
  | .run cmd => s.runStep pid p cmd
  | .openFile file cmd => s.set pid { p with
      pc := .run cmd
      fds := if ok then p.fds.place (.file file) else p.fds
      opened := ok :: p.opened }
  | .forking l r fids =>
    { (s.set pid { p with pc := .close0 r fids }).set s.npids { p with pc := .close1 l fids } with
      npids := s.npids + 1 }
  | .close1 l fids => s.set pid { p with pc := .closeRead l fids, fds := p.fds.close 1 }
  | .closeRead l fids => s.set pid { p with pc := .dupWrite l fids, fds := p.fds.close fids.1 }
  | .dupWrite l fids => s.set pid { p with pc := .run l, fds := p.fds.dup2 fids.2 1 }
  | .close0 r fids => s.set pid { p with pc := .closeWrite r fids, fds := p.fds.close 0 }
  | .closeWrite r fids => s.set pid { p with pc := .dupRead r fids, fds := p.fds.close fids.2 }
  | .dupRead r fids => s.set pid { p with pc := .run r, fds := p.fds.dup2 fids.1 0 }
  | .execv _ | .exited => s.set pid { p with pc := .exited, fds := [] }

/-- One step: the process that takes it, and whether an `open` succeeds. -/
def step (s : Pipeline) (a : ℕ × Bool) : Except Empty Pipeline :=
  match s.procs a.1 with
  | none => .ok s
  | some p => .ok (s.procStep a.1 p a.2)

/-- One process that runs `cmd`, with the descriptors 0, 1 and 2 and those of `rest` open. -/
def start (cmd : Cmd Str) (rest : List (Option ℕ)) : Pipeline where
  procs := Function.update (fun _ => none) 0 (some
    { pc := .run cmd
      fds := [0, 1, 2].map (fun k => some (.inherited k)) ++ rest.map (Option.map .inherited)
      opened := [] })
  npids := 1
  npipes := 0

end Pipeline

/-! ### The trees of the parser -/

/-- `<` and `>`. -/
inductive Way where
  | input | output
  deriving DecidableEq

/-- The descriptor. -/
def Way.fd : Way → ℕ
  | .input => 0
  | .output => 1

/-- The mode. -/
def Way.mode : Way → Mode
  | .input => .rdonly
  | .output => .wronlyCreateTrunc

/-- A redirection, with the name of the file. -/
abbrev Redirection := Way × Str

/-- A command with its redirections, in the order in which `runcmd` comes to them: the last one of the
line first. -/
structure Stage where
  argv : List Str
  redirs : List Redirection

/-- The tree of a command with redirections. -/
def stageTree (argv : List Str) : List Redirection → Cmd Str
  | [] => .exec argv
  | r :: rs => .redir (stageTree argv rs) r.2 r.1.mode r.1.fd

/-- The tree of a pipeline. -/
def pipeTree : Stage → List Stage → Cmd Str
  | c, [] => stageTree c.argv c.redirs
  | c, c' :: cs => .pipe (stageTree c.argv c.redirs) (pipeTree c' cs)

section Trees

variable {s : List UInt8} {i : ℕ}

lemma addArg_stageTree (argv : List Str) (rs : List Redirection) (w : Str) :
    (stageTree argv rs).addArg w = stageTree (argv ++ [w]) rs := by
  induction rs with
  | nil => rfl
  | cons r rs ih => exact congrArg (fun c => Cmd.redir c _ _ _) ih

/-- What has the tree of a command. -/
def IsStage (t : Cmd Str) : Prop := ∃ argv rs, t = stageTree argv rs

variable {t : Cmd Str}

lemma IsStage.redircmd (h : IsStage t) (tok : Tok) (w : Str) :
    IsStage (redircmd hw1 t tok w) := by
  obtain ⟨argv, rs, rfl⟩ := h
  cases tok with
  | eof | word => exact ⟨argv, rs, rfl⟩
  | sym k =>
    cases k with
    | lt => exact ⟨argv, (.input, w) :: rs, rfl⟩
    | gt => exact ⟨argv, (.output, w) :: rs, rfl⟩
    | pipe | amp | semi | lparen | rparen | append => exact ⟨argv, rs, rfl⟩

/-- Whatever comes first. -/
lemma wp_after {α β : Type} {p : Parser α} {f : α → Parser β} {Q : β → ℕ → Prop}
    (h : ∀ a j, wp (f a) Q (fun _ => True) j) : wp (p >>= f) Q (fun _ => True) i := by
  rw [wp_bind]
  cases hp : p i with
  | error e => exact (wp_of_error hp).mpr trivial
  | ok r => exact (wp_of_ok hp).mpr (h _ _)

lemma isStage_parseredirs {fuel : ℕ} (h : IsStage t) :
    wp (parseredirs hw1 s fuel t) (fun t' _ => IsStage t') (fun _ => True) i := by
  induction fuel generalizing t i with
  | zero => trivial
  | succ fuel ih =>
    rw [parseredirs]
    refine wp_after fun b j => ?_
    split_ifs
    · refine wp_after fun tok j₁ => wp_after fun tok' j₂ => ?_
      dsimp only
      split_ifs
      · exact ih (h.redircmd _ _)
      · trivial
    · exact h

lemma isStage_parseargs {fuel argc : ℕ} (h : IsStage t) :
    wp (parseargs hw1 s fuel argc t) (fun t' _ => IsStage t') (fun _ => True) i := by
  induction fuel generalizing argc t i with
  | zero => trivial
  | succ fuel ih =>
    rw [parseargs]
    refine wp_after fun b j => ?_
    by_cases hb : b = true
    · rw [if_pos hb]
      exact h
    · rw [if_neg hb]
      refine wp_after fun tok j₁ => ?_
      obtain ⟨tok, w⟩ := tok
      cases tok with
      | eof => exact h
      | sym k => trivial
      | word =>
        split_ifs
        · trivial
        · refine wp_seq (isStage_parseredirs ?_) fun t' j₂ h' => ih h'
          obtain ⟨argv, rs, rfl⟩ := h
          exact ⟨_, rs, addArg_stageTree argv rs _⟩

lemma isPipe_parsepipe (fuel : ℕ) :
    wp (Hw1.parsepipe s fuel) (fun t _ => ∃ c cs, t = pipeTree c cs) (fun _ => True) i := by
  induction fuel generalizing i with
  | zero => trivial
  | succ fuel ih =>
    have hexec : wp (Hw1.parseexec s fuel) (fun t _ => IsStage t) (fun _ => True) i := by
      cases fuel with
      | zero => trivial
      | succ fuel =>
        rw [Hw1.parseexec, parsewords, wp_bind]
        exact wp_post (isStage_parseredirs ⟨[], [], rfl⟩) fun t j h => isStage_parseargs h
    rw [Hw1.parsepipe]
    refine wp_seq hexec ?_
    rintro t j ⟨argv, rs, rfl⟩
    refine wp_after fun b j₁ => ?_
    split_ifs
    · refine wp_after fun _ j₂ => ?_
      simp only [bind_pure_comp, wp_map]
      refine wp_post ih ?_
      rintro _ j₃ ⟨c, cs, rfl⟩
      exact ⟨⟨argv, rs⟩, c :: cs, rfl⟩
    · exact ⟨⟨argv, rs⟩, [], rfl⟩

/-- **What the parser builds**: pipelines of commands with redirections. -/
lemma Hw1.parsecmd_pipeTree (h : Hw1.parsecmd s = .ok t) : ∃ c cs, t = pipeTree c cs := by
  have hwp : wp (Hw1.parseall s) (fun t _ => ∃ c cs, t = pipeTree c cs) (fun _ => True) 0 := by
    rw [Hw1.parseall]
    refine wp_seq (isPipe_parsepipe (3 * s.length + 3)) fun t j ht => ?_
    refine wp_after fun _ j₁ => wp_after fun _ j₂ => ?_
    split_ifs
    · trivial
    · exact ht
  rw [Hw1.parsecmd] at h
  cases hr : Hw1.parseall s 0 with
  | error e =>
    rw [hr] at h
    cases h
  | ok r =>
    rw [hr] at h
    rw [wp_of_ok hr] at hwp
    cases h
    exact hwp

end Trees

end Sh

end Col331
