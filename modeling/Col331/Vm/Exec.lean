import Col331.Vm.Paging

/-!
`exec` of `exec.c`, `fork` and `growproc` of `proc.c`, as far as they are about memory.

* `Image`: the file that is executed, with `Image.readi`.
* `loaduvm`, `clearpteu`, `copyout`: the functions of `vm.c` that `exec` calls.
* `execFile`: the new address space.
* `Task.exec`, `Task.fork`, `Task.growproc`: the calls.
-/

namespace Col331

/-! ### The file -/

/-- The content of a regular file. -/
structure Image where
  bytes : List UInt8
  size_lt : bytes.length < 2 ^ 32

namespace Image

/-- `readi` of a regular file; `none` for the result -1. -/
def readi (ip : Image) (off n : ℕ) : Option (List UInt8) :=
  if ip.bytes.length < off ∨ 2 ^ 32 ≤ off + n then none else some ((ip.bytes.drop off).take n)

end Image

/-- The `ushort` at offset `i`. -/
def ushortAt (b : List UInt8) (i : ℕ) : ℕ := (b.getD i 0).toNat + 2 ^ 8 * (b.getD (i + 1) 0).toNat

/-- The `uint` at offset `i`. -/
def uintAt (b : List UInt8) (i : ℕ) : ℕ := ushortAt b i + 2 ^ 16 * ushortAt b (i + 2)

/-- The fields of `struct elfhdr` that `exec` reads. -/
structure Elfhdr where
  magic : ℕ
  entry : ℕ
  phoff : ℕ
  phnum : ℕ
  deriving DecidableEq

/-- `sizeof(struct elfhdr)`. -/
abbrev elfhdrSize : ℕ := 52

/-- The fields of `struct proghdr` that `exec` reads. -/
structure Proghdr where
  type : ℕ
  off : ℕ
  vaddr : ℕ
  filesz : ℕ
  memsz : ℕ
  deriving DecidableEq

/-- `sizeof(struct proghdr)`. -/
abbrev proghdrSize : ℕ := 32

/-- `ELF_MAGIC`. -/
abbrev elfMagic : ℕ := 0x464C457F

/-- `ELF_PROG_LOAD`. -/
abbrev elfProgLoad : ℕ := 1

/-- A `struct elfhdr`, from its bytes. -/
def Elfhdr.ofBytes (b : List UInt8) : Elfhdr := ⟨uintAt b 0, uintAt b 24, uintAt b 28, ushortAt b 44⟩

/-- A `struct proghdr`, from its bytes. -/
def Proghdr.ofBytes (b : List UInt8) : Proghdr :=
  ⟨uintAt b 0, uintAt b 4, uintAt b 8, uintAt b 16, uintAt b 20⟩

/-! ### `vm.c` -/

/-- The page `p` with `bs` at offset `i`. -/
def store (f : Frame) (i : ℕ) (bs : List UInt8) : Kern Mem Unit :=
  modify fun m => { m with data := Function.update m.data f ((m.data f).splice i bs) }

/-- The loop of `loaduvm`; `false` for the result -1.  What is stored through an entry that is not one
of a user page goes to memory of the kernel. -/
def loadLoop (d : Pgdir) (addr : ℕ) (ip : Image) (offset sz : ℕ) : ℕ → ℕ → Kern Mem Bool
  | 0, _ => return true
  | fuel + 1, i => do
    if i < sz then
      let va := (addr + i) % 2 ^ 32
      if d.hasTable va = false then panic .loaduvmExist
      else
        let n := if sz - i < pgsize then sz - i else pgsize
        match ip.readi ((offset + i) % 2 ^ 32) n with
        | none => return false
        | some bs =>
          match d.pte va with
          | some ⟨.page f, _⟩ => store f 0 bs
          | some ⟨.raw _, _⟩ | none => if bs ≠ [] then throw .wild
          if bs.length ≠ n then return false
          else loadLoop d addr ip offset sz fuel (i + pgsize)
    else return true

/-- `loaduvm`. -/
def loaduvm (d : Pgdir) (addr : ℕ) (ip : Image) (offset sz : ℕ) : Kern Mem Bool := do
  if addr % pgsize ≠ 0 then panic .loaduvmAligned
  else loadLoop d addr ip offset sz (sz / pgsize + 1) 0

/-- `clearpteu`. -/
def clearpteu (d : Pgdir) (uva : ℕ) : Kern Mem Pgdir := do
  if d.hasTable uva = false then panic .clearpteu
  else return d.setPte uva ((d.pte uva).map fun e => { e with perm := { e.perm with u := false } })

/-- The loop of `copyout`; `false` for the result -1.  Without a table, `uva2ka` reads through a null
pointer. -/
def copyout (d : Pgdir) : ℕ → ℕ → List UInt8 → Kern Mem Bool
  | 0, _, _ => return true
  | fuel + 1, va, buf => do
    if buf = [] then return true
    else
      let va0 := pgrounddown va
      if d.hasTable va0 = false then throw .wild
      else
        match d.pte va0 with
        | some ⟨.page f, ⟨_, true⟩⟩ =>
          let n := min (pgsize - (va - va0)) buf.length
          store f (va - va0) (buf.take n)
          copyout d fuel ((va0 + pgsize) % 2 ^ 32) (buf.drop n)
        | some ⟨.raw _, ⟨_, true⟩⟩ => throw .wild
        | some ⟨_, ⟨_, false⟩⟩ | none => return false

/-! ### `exec` -/

/-- The loop of `exec` over the program headers, with `n` of them to go: the size and the directory, and
whether it has come to its end. -/
def segments (ip : Image) : ℕ → ℕ → ℕ → Pgdir → Kern Mem (Bool × ℕ × Pgdir)
  | 0, _, sz, d => return (true, sz, d)
  | n + 1, off, sz, d => do
    match ip.readi off proghdrSize with
    | none => return (false, sz, d)
    | some b =>
      if b.length ≠ proghdrSize then return (false, sz, d)
      else
        let ph := Proghdr.ofBytes b
        if ph.type ≠ elfProgLoad then segments ip n ((off + proghdrSize) % 2 ^ 32) sz d
        else if ph.memsz < ph.filesz then return (false, sz, d)
        else
          let (sz, d) ← allocuvm d sz ((ph.vaddr + ph.memsz) % 2 ^ 32)
          if sz = 0 then return (false, sz, d)
          else if (← loaduvm d ph.vaddr ip ph.off ph.filesz) = false then return (false, sz, d)
          else segments ip n ((off + proghdrSize) % 2 ^ 32) sz d

/-- `MAXARG`. -/
abbrev maxarg : ℕ := 32

/-- The loop of `exec` over the arguments: the stack pointer and the addresses of the strings, last one
first; `none` if it goes to `bad`. -/
def pushArgs (d : Pgdir) : List (List UInt8) → ℕ → List ℕ → Kern Mem (Option (ℕ × List ℕ))
  | [], sp, args => return some (sp, args)
  | s :: ss, sp, args => do
    if maxarg ≤ args.length then return none
    else
      let sp := (sp + 2 ^ 32 - (s.length + 1)) % 2 ^ 32 / 4 * 4
      if (← copyout d (s.length + 1) sp (s ++ [0])) = false then return none
      else pushArgs d ss sp (sp :: args)

/-- The four bytes of a `uint`. -/
def uintBytes (n : ℕ) : List UInt8 := Bytes.le32 (UInt32.ofNat n)

/-- `ustack`. -/
def ustack (sp : ℕ) (args : List ℕ) : List ℕ :=
  [0xFFFFFFFF, args.length, (sp + 2 ^ 32 - (args.length + 1) * 4) % 2 ^ 32] ++ args.reverse ++ [0]

/-- What `exec` makes of a file. -/
structure NewImage where
  pgdir : Pgdir
  sz : ℕ
  eip : ℕ
  esp : ℕ

/-- `exec` from the directory that `setupkvm` has made on: the new image, or the directory that goes to
`bad`. -/
def load (ip : Image) (elf : Elfhdr) (argv : List (List UInt8)) (d : Pgdir) :
    Kern Mem (Except Pgdir NewImage) := do
  match ← segments ip elf.phnum elf.phoff 0 d with
  | (false, _, d) => return .error d
  | (true, sz, d) =>
    let sz := pgroundup sz
    let (sz, d) ← allocuvm d sz (sz + 2 * pgsize)
    if sz = 0 then return .error d
    else
      let d ← clearpteu d (sz - 2 * pgsize)
      match ← pushArgs d argv sz [] with
      | none => return .error d
      | some (sp, args) =>
        let words := ustack sp args
        let esp := (sp + 2 ^ 32 - words.length * 4) % 2 ^ 32
        let bytes := words.flatMap uintBytes
        if (← copyout d bytes.length esp bytes) = false then return .error d
        else return .ok ⟨d, sz, elf.entry, esp⟩

/-- `exec` up to the commit; `none` for the result -1. -/
def execFile (ip : Option Image) (argv : List (List UInt8)) : Kern Mem (Option NewImage) := do
  match ip with
  | none => return none
  | some ip =>
    -- this `readi` does not return -1, which would not be less than `sizeof(elf)` as a `uint`
    let b := (ip.readi 0 elfhdrSize).getD []
    if b.length < elfhdrSize then return none
    else
      let elf := Elfhdr.ofBytes b
      if elf.magic ≠ elfMagic then return none
      else
        match ← setupkvm with
        | none => return none
        | some d =>
          match ← load ip elf argv d with
          | .error d =>
            freevm d
            return none
          | .ok img => return some img

/-- Memory with the free pages `free`, of which nobody else takes any. -/
def Mem.fresh (free : List Frame) : Mem where
  free := free
  data _ := Bytes.zero pgsize
  refuse _ := false
  calls := 0
  starved := false
  kdata := ⟨0x200, frame200⟩

/-! ### Processes -/

/-- What a process has: its memory, where it is, and its open files. -/
structure Task where
  pgdir : Pgdir
  sz : ℕ
  eip : ℕ
  esp : ℕ
  ofile : Fin nofile → Option (Fin nfile)

namespace Task

/-- `exec`, with what it returns. -/
def exec (p : Task) (ip : Option Image) (argv : List (List UInt8)) : Kern Mem (ℤ × Task) := do
  match ← execFile ip argv with
  | none => return (-1, p)
  | some img =>
    freevm p.pgdir
    return (0, { p with pgdir := img.pgdir, sz := img.sz, eip := img.eip, esp := img.esp })

/-- `fork`, with what it returns, the caller and the child; `slot` is the pid that `allocproc` has for
it, if there is an unused slot. -/
def fork (p : Task) (slot : Option ℕ) : Kern Mem (ℤ × Task × Option Task) := do
  match slot with
  | none => return (-1, p, none)
  | some pid =>
    match ← kalloc with
    | none => return (-1, p, none)
    | some kstack =>
      match ← copyuvm p.pgdir p.sz with
      | none =>
        kfree kstack
        return (-1, p, none)
      | some d => return (pid, p, some { p with pgdir := d })

/-- `growproc`, with what it returns. -/
def growproc (p : Task) (n : ℤ) : Kern Mem (ℤ × Task) := do
  let newsz := ((p.sz + n) % 2 ^ 32).toNat
  if 0 < n then
    let (sz, d) ← allocuvm p.pgdir p.sz newsz
    if sz = 0 then return (-1, { p with pgdir := d }) else return (0, { p with pgdir := d, sz := sz })
  else if n < 0 then
    let (sz, d) ← deallocuvm p.pgdir p.sz newsz
    if sz = 0 then return (-1, { p with pgdir := d }) else return (0, { p with pgdir := d, sz := sz })
  else return (0, p)

end Task

end Col331
