import Col331.Data.Window
import Col331.Logic.Reach

/-!
The console (`console.c`): `consoleintr` and any number of processes in `consoleread`.

Who holds `cons.lock` is in its section, and nobody else is: `ConsSection` says who, and where.  A step is one
round of a loop, or what comes between two of them.

* `Input`: the variable `input`.
* `ConsSection`, `ConsReader`: where the holder of the lock is, and where a process without it is.
* `ConsSys.step`: one step.
-/

namespace Col331

open Function

/-- `INPUT_BUF`. -/
abbrev inputBuf : ℕ := 128

/-- `C('D')`, which ends a file. -/
abbrev ctrlD : UInt8 := 4

/-- `'\n'`. -/
abbrev newline : UInt8 := 10

/-- The variable `input`. -/
structure Input where
  buf : Fin inputBuf → UInt8
  /-- Read index. -/
  r : UInt32
  /-- Write index. -/
  w : UInt32
  /-- Edit index. -/
  e : UInt32

namespace Input

/-- `input.e--`. -/
def erase (i : Input) : Input := { i with e := i.e - 1 }

/-- `input.buf[input.e++ % INPUT_BUF] = c`. -/
def type (i : Input) (c : UInt8) : Input :=
  { i with buf := update i.buf (cell inputBuf i.e) c, e := i.e + 1 }

/-- `input.w = input.e`. -/
def commit (i : Input) : Input := { i with w := i.e }

/-- `input.buf[input.r % INPUT_BUF]`. -/
def front (i : Input) : UInt8 := i.buf (cell inputBuf i.r)

/-- The condition of the loop for `C('U')`. -/
def killing (i : Input) : Bool := i.e ≠ i.w ∧ i.buf (cell inputBuf (i.e - 1)) ≠ newline

/-- What is typed and not committed. -/
def edited (i : Input) : List UInt8 := window i.buf i.w i.e

end Input

/-- A call of `consoleread`: its argument, and the bytes it has stored. -/
structure ConsRead where
  n : ℤ
  got : List UInt8
  deriving DecidableEq

/-- Where the holder of `cons.lock` is. -/
inductive ConsSection (P : Type) where
  | free
  /-- In `consoleintr`, before `getc`; `todo` is what it will get. -/
  | intr (todo : List UInt8)
  /-- In `consoleintr`, at the loop for `C('U')`. -/
  | kill (todo : List UInt8)
  /-- In `consoleread`, at the top of the loops. -/
  | top (p : P) (o : ConsRead)
  /-- In `consoleread`, with the byte `c`. -/
  | taken (p : P) (o : ConsRead) (c : UInt8)

/-- Where a process is, as long as it does not hold `cons.lock`. -/
inductive ConsReader where
  | idle
  /-- Before `acquire(&cons.lock)`, at the start or at the end of `sleep`. -/
  | acquire (o : ConsRead)
  /-- In `sleep`. -/
  | asleep (o : ConsRead)
  /-- The process holds the lock. -/
  | inside

/-- A call that has come to its end, and whether it has taken a `C('D')` out of the buffer. -/
structure ConsDone where
  call : ConsRead
  eof : Bool
  deriving DecidableEq

/-- The console and its users. -/
structure ConsSys (P : Type) where
  input : Input
  sec : ConsSection P
  reader : P → ConsReader
  killed : P → Bool
  /-- The bytes that were committed so far. -/
  committed : List UInt8
  /-- The bytes that readers have stored so far. -/
  handed : List UInt8
  /-- The calls that have returned what they have stored. -/
  reads : List ConsDone

/-- What can happen next. -/
inductive ConsAct (P : Type) where
  /-- `consoleread(ip, dst, n)` is called. -/
  | read (p : P) (n : ℤ)
  /-- The process acquires the lock. -/
  | enter (p : P)
  /-- `consoleintr` acquires the lock; `todo` is what `getc` will return. -/
  | intr (todo : List UInt8)
  /-- The holder of the lock takes a step. -/
  | next
  | kill (p : P)

namespace ConsSys

variable {P : Type}

/-- The console at first. -/
def boot : ConsSys P where
  input := ⟨fun _ => 0, 0, 0, 0⟩
  sec := .free
  reader _ := .idle
  killed _ := false
  committed := []
  handed := []
  reads := []

/-- `wakeup(&input.r)`. -/
def wakeup (s : ConsSys P) : ConsSys P :=
  { s with reader := fun p =>
      match s.reader p with
      | .asleep o => .acquire o
      | x => x }

/-- The default case of `consoleintr`. -/
def typed (s : ConsSys P) (c : UInt8) : ConsSys P :=
  if c ≠ 0 ∧ s.input.e - s.input.r < 128 then
    let c := if c = 13 then newline else c
    let input := s.input.type c
    if c = newline ∨ c = ctrlD ∨ input.e = input.r + 128 then
      { s with input := input.commit, committed := s.committed ++ input.edited }.wakeup
    else { s with input }
  else s

/-- A round of the loop of `consoleintr`; `C('P')` is for `procdump`, after the lock is released. -/
def intrStep (s : ConsSys P) : List UInt8 → ConsSys P
  | [] => { s with sec := .free }
  | c :: todo =>
    if c = 0x10 then { s with sec := .intr todo }
    else if c = 0x15 then { s with sec := .kill todo }
    else if c = 8 ∨ c = 0x7f then
      if s.input.e ≠ s.input.w then { s with input := s.input.erase, sec := .intr todo }
      else { s with sec := .intr todo }
    else { s.typed c with sec := .intr todo }

/-- A round of the loop for `C('U')`. -/
def killStep (s : ConsSys P) (todo : List UInt8) : ConsSys P :=
  if s.input.killing then { s with input := s.input.erase } else { s with sec := .intr todo }

variable [DecidableEq P]

/-- The process `p` releases the lock, and is at `x`. -/
def leave (s : ConsSys P) (p : P) (x : ConsReader) : ConsSys P :=
  { s with sec := .free, reader := update s.reader p x }

/-- The end of `consoleread`. -/
def finish (s : ConsSys P) (p : P) (o : ConsRead) (eof : Bool) : ConsSys P :=
  { s with reads := s.reads ++ [ConsDone.mk o eof] }.leave p .idle

/-- The top of the loops of `consoleread`.  To a process that is killed it returns -1. -/
def topStep (s : ConsSys P) (p : P) (o : ConsRead) : ConsSys P :=
  if (o.got.length : ℤ) < o.n then
    if s.input.r = s.input.w then
      if s.killed p then s.leave p .idle else s.leave p (.asleep o)
    else { s with input := { s.input with r := s.input.r + 1 }, sec := .taken p o s.input.front }
  else s.finish p o false

/-- The rest of a round of `consoleread`.  `n < target` if a byte was stored. -/
def takenStep (s : ConsSys P) (p : P) (o : ConsRead) (c : UInt8) : ConsSys P :=
  if c = ctrlD then
    if o.got ≠ [] then { s with input := { s.input with r := s.input.r - 1 } }.finish p o false
    else s.finish p o true
  else
    let o := { o with got := o.got ++ [c] }
    let s := { s with handed := s.handed ++ [c] }
    if c = newline then s.finish p o false else { s with sec := .top p o }

/-- One step.  A process that needs the lock while somebody holds it does nothing. -/
def step (s : ConsSys P) : ConsAct P → Except Empty (ConsSys P)
  | .read p n =>
    match s.reader p with
    | .idle => .ok { s with reader := update s.reader p (.acquire ⟨n, []⟩) }
    | _ => .ok s
  | .enter p =>
    match s.sec, s.reader p with
    | .free, .acquire o =>
      .ok { s with sec := .top p o, reader := update s.reader p .inside }
    | _, _ => .ok s
  | .intr todo =>
    match s.sec with
    | .free => .ok { s with sec := .intr todo }
    | _ => .ok s
  | .next =>
    match s.sec with
    | .free => .ok s
    | .intr todo => .ok (s.intrStep todo)
    | .kill todo => .ok (s.killStep todo)
    | .top p o => .ok (s.topStep p o)
    | .taken p o c => .ok (s.takenStep p o c)
  | .kill p =>
    match s.reader p with
    | .asleep o => .ok { s with
        killed := update s.killed p true
        reader := update s.reader p (.acquire o) }
    | _ => .ok { s with killed := update s.killed p true }

end ConsSys

end Col331
