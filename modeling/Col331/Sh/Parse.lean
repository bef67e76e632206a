import Col331.Sh.Lex

/-!
The parser of the xv6 shell, `parsecmd` and what it calls in `sh.c`.

* `Cmd`: the trees; a string is what the parser keeps of it, of any type.
* `Dialect`: what differs between the two shells in the code that both have.
* `parseredirs`, `parsewords`: `parseredirs` and the rest of `parseexec`, for either shell.
* `parseline`, `parsepipe`, `parseexec`, `parseblock`, `nulterminate`, `parsecmd`: the xv6 shell.
-/

namespace Col331

namespace Sh

/-! ### Trees -/

/-- The flags that a file is opened with. -/
inductive Mode where
  | rdonly
  /-- `O_WRONLY|O_CREATE`. -/
  | wronlyCreate
  /-- `O_WRONLY|O_CREAT|O_TRUNC`. -/
  | wronlyCreateTrunc
  deriving DecidableEq

/-- `struct cmd` and its variants, with strings of the type `W`. -/
inductive Cmd (W : Type) where
  | exec (argv : List W)
  | redir (cmd : Cmd W) (file : W) (mode : Mode) (fd : ℕ)
  | pipe (left right : Cmd W)
  | list (left right : Cmd W)
  | back (cmd : Cmd W)
  deriving DecidableEq

namespace Cmd

variable {W V : Type}

/-- `cmd->argv[argc] = w; argc++` for the `execcmd` below the redirections. -/
def addArg (w : W) : Cmd W → Cmd W
  | exec argv => exec (argv ++ [w])
  | redir c file mode fd => redir (c.addArg w) file mode fd
  | c => c

/-- The tree with other strings. -/
def map (f : W → V) : Cmd W → Cmd V
  | exec argv => exec (argv.map f)
  | redir c file mode fd => redir (c.map f) (f file) mode fd
  | pipe l r => pipe (l.map f) (r.map f)
  | list l r => list (l.map f) (r.map f)
  | back c => back (c.map f)

/-- The strings of the tree. -/
def strings : Cmd W → List W
  | exec argv => argv
  | redir c file _ _ => file :: c.strings
  | pipe l r | list l r => l.strings ++ r.strings
  | back c => c.strings

lemma map_congr {f g : W → V} {c : Cmd W} (h : ∀ w ∈ c.strings, f w = g w) : c.map f = c.map g := by
  induction c with
  | exec argv => exact congrArg exec (List.map_congr_left h)
  | redir c file mode fd ih =>
    rw [map, map, ih fun w hw => h w (.tail _ hw), h file List.mem_cons_self]
  | pipe l r ihl ihr | list l r ihl ihr =>
    rw [map, map, ihl fun w hw => h w (List.mem_append_left _ hw),
      ihr fun w hw => h w (List.mem_append_right _ hw)]
  | back c ih => rw [map, map, ih h]

end Cmd

/-- What a string says; `mkcopy(q, eq)`. -/
def text (s : List UInt8) (w : Span) : List UInt8 := (s.drop w.q).take (w.eq - w.q)

/-! ### Redirections and words -/

/-- `MAXARGS`. -/
abbrev maxargs : ℕ := 10

/-- What differs between the shells. -/
structure Dialect (W : Type) extends Lexer where
  /-- What ends the words of a command. -/
  stop : List UInt8
  /-- The mode and the descriptor for a redirection, by the `switch` of `parseredirs`. -/
  redir : Sym → Option (Mode × ℕ)
  /-- What is kept of a string. -/
  keep : List UInt8 → Span → W

section Dialect

variable {W : Type} (D : Dialect W) (s : List UInt8)

/-- The `switch` of `parseredirs`. -/
def redircmd (cmd : Cmd W) (tok : Tok) (file : W) : Cmd W :=
  match tok with
  | .sym k =>
    match D.redir k with
    | some (mode, fd) => .redir cmd file mode fd
    | none => cmd
  | .eof | .word => cmd

/-- `parseredirs`. -/
def parseredirs : ℕ → Cmd W → Parser (Cmd W)
  | 0, _ => halt .loops
  | fuel + 1, cmd => do
    if ← peek s [Sym.lt.byte, Sym.gt.byte] then
      let (tok, _) ← gettoken D.toLexer s
      let (tok', w) ← gettoken D.toLexer s
      if tok' = .word then parseredirs fuel (redircmd D cmd tok (D.keep s w)) else halt .missingFile
    else return cmd

/-- The loop of `parseexec`. -/
def parseargs : ℕ → ℕ → Cmd W → Parser (Cmd W)
  | 0, _, _ => halt .loops
  | fuel + 1, argc, ret => do
    if ← peek s D.stop then return ret
    else
      let (tok, w) ← gettoken D.toLexer s
      match tok with
      | .eof => return ret
      | .sym _ => halt .badToken
      | .word =>
        if maxargs ≤ argc + 1 then halt .tooManyArgs
        else
          let ret ← parseredirs D s fuel (ret.addArg (D.keep s w))
          parseargs fuel (argc + 1) ret

/-- `parseexec` of a command that is not a block. -/
def parsewords (fuel : ℕ) : Parser (Cmd W) := do
  let ret ← parseredirs D s fuel (.exec [])
  parseargs D s fuel 0 ret

end Dialect

/-! ### The xv6 shell -/

/-- The xv6 shell. -/
def xv6 : Dialect Span where
  symbols := [.lt, .pipe, .gt, .amp, .semi, .lparen, .rparen]
  appends := true
  single := by decide
  stop := [Sym.pipe, .rparen, .amp, .semi].map Sym.byte
  redir
    | .lt => some (.rdonly, 0)
    | .gt | .append => some (.wronlyCreate, 1)
    | _ => none
  keep _ w := w

section Xv6

variable (s : List UInt8)

/-- The loop of `parseline`. -/
def parseamps : ℕ → Cmd Span → Parser (Cmd Span)
  | 0, _ => halt .loops
  | fuel + 1, cmd => do
    if ← peek s [Sym.amp.byte] then
      let _ ← gettoken xv6.toLexer s
      parseamps fuel (.back cmd)
    else return cmd

/-- `parseblock`, with the call of `parseline`. -/
def parseblock (line : Parser (Cmd Span)) (fuel : ℕ) : Parser (Cmd Span) := do
  if ← peek s [Sym.lparen.byte] then
    let _ ← gettoken xv6.toLexer s
    let cmd ← line
    if ← peek s [Sym.rparen.byte] then
      let _ ← gettoken xv6.toLexer s
      parseredirs xv6 s fuel cmd
    else halt .missingParen
  else halt .parseblock

mutual

/-- `parseline`. -/
def parseline : ℕ → Parser (Cmd Span)
  | 0 => halt .loops
  | fuel + 1 => do
    let cmd ← parsepipe fuel
    let cmd ← parseamps s fuel cmd
    if ← peek s [Sym.semi.byte] then
      let _ ← gettoken xv6.toLexer s
      let right ← parseline fuel
      return .list cmd right
    else return cmd

/-- `parsepipe`. -/
def parsepipe : ℕ → Parser (Cmd Span)
  | 0 => halt .loops
  | fuel + 1 => do
    let cmd ← parseexec fuel
    if ← peek s [Sym.pipe.byte] then
      let _ ← gettoken xv6.toLexer s
      let right ← parsepipe fuel
      return .pipe cmd right
    else return cmd

/-- `parseexec`. -/
def parseexec : ℕ → Parser (Cmd Span)
  | 0 => halt .loops
  | fuel + 1 => do
    if ← peek s [Sym.lparen.byte] then parseblock s (parseline fuel) fuel
    else parsewords xv6 s fuel

end

/-- `nulterminate`, on the buffer with the line. -/
def nulterminate : Cmd Span → List UInt8 → List UInt8
  | .exec argv, buf => argv.foldl (fun buf w => buf.set w.eq 0) buf
  | .redir c file _ _, buf => (nulterminate c buf).set file.eq 0
  | .pipe l r, buf | .list l r, buf => nulterminate r (nulterminate l buf)
  | .back c, buf => nulterminate c buf

/-- The string at the index `i` of a buffer. -/
def cstring (buf : List UInt8) (i : ℕ) : List UInt8 := (buf.drop i).takeWhile (· ≠ 0)

/-- `parsecmd` up to `nulterminate`. -/
def parseall : Parser (Cmd Span) := do
  let cmd ← parseline s (3 * s.length + 4)
  let _ ← peek s []
  if (← get) ≠ s.length then halt .leftovers else return cmd

/-- `parsecmd`: the tree, with the strings that are in the buffer afterwards. -/
def parsecmd : Except (ShPanic × ℕ) (Cmd (List UInt8)) := do
  let (cmd, _) ← parseall s 0
  return cmd.map fun w => cstring (nulterminate cmd (s ++ [0])) w.q

end Xv6

end Sh

end Col331
