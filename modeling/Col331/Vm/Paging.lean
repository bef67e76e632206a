import Col331.Kernel.Param

/-!
Physical pages and page tables: `kalloc.c` and `vm.c`.

A page directory is the tree of its page tables, with the physical pages that the directory and the
tables are in.  An address is a number below `2 ^ 32`.

* `Mem`: the free list and the contents of pages.
* `Pgdir`, `Pgdir.entry`: a page directory, and what it says of a page.
* `walkpgdir`, `mappages`, `setupkvm`, `allocuvm`, `deallocuvm`, `freevm`, `copyuvm`: of `vm.c`.
-/

namespace Col331

open Function

/-! ### `memlayout.h` and `mmu.h` -/

/-- `PGSIZE`: bytes mapped by a page. -/
abbrev pgsize : ℕ := 4096

/-- `NPDENTRIES` and `NPTENTRIES`. -/
abbrev nentries : ℕ := 1024

/-- `PDX(va)`. -/
def pdx (va : ℕ) : ℕ := va / 0x400000 % nentries

/-- `PTX(va)`. -/
def ptx (va : ℕ) : ℕ := va / pgsize % nentries

/-- `PGROUNDUP(sz)` of an address that is not in the last page. -/
def pgroundup (sz : ℕ) : ℕ := (sz + pgsize - 1) / pgsize * pgsize

/-- `PGROUNDDOWN(a)`. -/
def pgrounddown (a : ℕ) : ℕ := a / pgsize * pgsize

/-! ### Pages -/

/-- A page that `kalloc` can return, by its number: above the start of the kernel and below
`PHYSTOP`. -/
abbrev Frame := {no : ℕ // 0x100 < no ∧ no < 0xE000}

lemma frame200 : 0x100 < 0x200 ∧ 0x200 < 0xE000 := by decide

lemma frame201 : 0x100 < 0x201 ∧ 0x201 < 0xE000 := by decide

lemma frame300 : 0x100 < 0x300 ∧ 0x300 < 0xE000 := by decide

lemma frame301 : 0x100 < 0x301 ∧ 0x301 < 0xE000 := by decide

lemma frame302 : 0x100 < 0x302 ∧ 0x302 < 0xE000 := by decide

/-- The contents of a page. -/
abbrev Page := Bytes pgsize

/-- The physical page in a page table entry: one from `kalloc`, or whatever the kernel maps. -/
inductive Phys where
  | page (f : Frame)
  | raw (no : ℕ)
  deriving DecidableEq

/-- `pa += PGSIZE`. -/
def Phys.next : Phys → Phys
  | .page f => .raw (f.1 + 1)
  | .raw no => .raw (no + 1)

/-- `PTE_W` and `PTE_U`. -/
structure Perm where
  w : Bool
  u : Bool
  deriving DecidableEq

/-- A page table entry with `PTE_P`.  The others are zero. -/
structure Pte where
  pa : Phys
  perm : Perm
  deriving DecidableEq

/-- A page table, and the page it is in. -/
structure PageTable where
  frame : Frame
  pte : ℕ → Option Pte

/-- A page directory, and the page it is in. -/
structure Pgdir where
  frame : Frame
  pde : ℕ → Option PageTable

namespace Pgdir

/-- The entry for the page with the number `pn`. -/
def entry (d : Pgdir) (pn : ℕ) : Option Pte :=
  (d.pde (pn / nentries)).bind fun t => t.pte (pn % nentries)

/-- `pgdir[PDX(va)]` is present. -/
def hasTable (d : Pgdir) (va : ℕ) : Bool := (d.pde (pdx va)).isSome

/-- `*pte` for the pointer that `walkpgdir` returns. -/
def pte (d : Pgdir) (va : ℕ) : Option Pte := (d.pde (pdx va)).bind fun t => t.pte (ptx va)

/-- `*pte = e`. -/
def setPte (d : Pgdir) (va : ℕ) (e : Option Pte) : Pgdir :=
  { d with pde := update d.pde (pdx va) ((d.pde (pdx va)).map fun t =>
      { t with pte := update t.pte (ptx va) e }) }

/-- A new page table for `va`. -/
def addTable (d : Pgdir) (va : ℕ) (f : Frame) : Pgdir :=
  { d with pde := update d.pde (pdx va) (some ⟨f, fun _ => none⟩) }

end Pgdir

/-- Physical memory. -/
structure Mem where
  /-- `kmem.freelist`. -/
  free : List Frame
  /-- What is in the pages that are mapped for users. -/
  data : Frame → Page
  /-- Whether `kalloc` finds nothing on a call, because others have the pages. -/
  refuse : ℕ → Bool
  /-- The number of calls of `kalloc`. -/
  calls : ℕ
  /-- `walkpgdir` has not got a page for a page table. -/
  starved : Bool
  /-- The page number of `data`, where the writable data of the kernel begins. -/
  kdata : {no : ℕ // 0x100 < no ∧ no < 0xE000}

/-! ### `kalloc.c` -/

/-- `kalloc`. -/
def kalloc : Kern Mem (Option Frame) := fun m =>
  match m.free with
  | [] => .ok (none, { m with calls := m.calls + 1 })
  | f :: free =>
    if m.refuse m.calls then .ok (none, { m with calls := m.calls + 1 })
    else .ok (some f, { m with free, calls := m.calls + 1 })

/-- `memset(v, 0, PGSIZE)`, and other ways to fill a page. -/
def fill (f : Frame) (b : Page) : Kern Mem Unit :=
  modify fun m => { m with data := update m.data f b }

/-- `kfree`.  The page is not below `end` or above `PHYSTOP`. -/
def kfree (f : Frame) : Kern Mem Unit := do
  fill f fun _ => 1
  modify fun m => { m with free := f :: m.free }

/-! ### `vm.c` -/

/-- `walkpgdir(pgdir, va, 1)`: the directory afterwards, with a table for `va`; `none` for a null
pointer. -/
def walkpgdir (d : Pgdir) (va : ℕ) : Kern Mem (Option Pgdir) := do
  if d.hasTable va then return some d
  else
    match ← kalloc with
    | none =>
      modify fun m => { m with starved := true }
      return none
    | some f => return some (d.addTable va f)

/-- The loop of `mappages`, for the number of rounds that it takes; `false` for the result -1. -/
def mapLoop (perm : Perm) : ℕ → ℕ → Phys → Pgdir → Kern Mem (Bool × Pgdir)
  | 0, _, _, d => return (true, d)
  | n + 1, a, pa, d => do
    match ← walkpgdir d a with
    | none => return (false, d)
    | some d =>
      if (d.pte a).isSome then panic .remap
      else mapLoop perm n (a + pgsize) pa.next (d.setPte a (some ⟨pa, perm⟩))

/-- `mappages`.  The loop runs from `a` to `last`, around the end of the address space if need be. -/
def mappages (d : Pgdir) (va size : ℕ) (pa : Phys) (perm : Perm) : Kern Mem (Bool × Pgdir) :=
  let last := (va + size - 1) % 2 ^ 32 / pgsize
  mapLoop perm ((last + 2 ^ 20 - va / pgsize) % 2 ^ 20 + 1) (pgrounddown va) pa d

/-- An entry of `kmap`: where, from which physical page on, how many pages, and `PTE_W`. -/
structure Kmap where
  virt : ℕ
  phys : ℕ
  pages : ℕ
  w : Bool

/-- `kmap`. -/
def kmap (kdata : ℕ) : List Kmap :=
  [⟨kernbase, 0, 0x100, true⟩, ⟨kernbase + 0x100 * pgsize, 0x100, kdata - 0x100, false⟩,
    ⟨kernbase + kdata * pgsize, kdata, 0xE000 - kdata, true⟩, ⟨0xFE000 * pgsize, 0xFE000, 0x2000, true⟩]

/-- The loop of `setupkvm`; `none` for the result 0, with which the directory is lost. -/
def kmapLoop : List Kmap → Pgdir → Kern Mem (Option Pgdir)
  | [], d => return some d
  | k :: ks, d => do
    match ← mappages d k.virt (k.pages * pgsize) (.raw k.phys) ⟨k.w, false⟩ with
    | (false, _) => return none
    | (true, d) => kmapLoop ks d

/-- `setupkvm`. -/
def setupkvm : Kern Mem (Option Pgdir) := do
  match ← kalloc with
  | none => return none
  | some f => kmapLoop (kmap (← get).kdata) ⟨f, fun _ => none⟩

/-- The loop of `deallocuvm`; `fuel` bounds the number of rounds. -/
def deallocLoop (oldsz : ℕ) : ℕ → ℕ → Pgdir → Kern Mem Pgdir
  | 0, _, d => return d
  | fuel + 1, a, d => do
    if a < oldsz then
      if d.hasTable a then
        match d.pte a with
        | none => deallocLoop oldsz fuel (a + pgsize) d
        | some ⟨.page f, _⟩ =>
          kfree f
          deallocLoop oldsz fuel (a + pgsize) (d.setPte a none)
        -- no user page is one that the kernel maps for itself
        | some ⟨.raw _, _⟩ => throw .wild
      else deallocLoop oldsz fuel (a + (nentries - 1) * pgsize + pgsize) d
    else return d

/-- `deallocuvm`: the new size, and the directory afterwards. -/
def deallocuvm (d : Pgdir) (oldsz newsz : ℕ) : Kern Mem (ℕ × Pgdir) := do
  if oldsz ≤ newsz then return (oldsz, d)
  else return (newsz, ← deallocLoop oldsz (oldsz / pgsize + 1) (pgroundup newsz) d)

/-- The loop of `allocuvm`.  What `mappages` returns is not looked at. -/
def allocLoop (oldsz newsz : ℕ) : ℕ → ℕ → Pgdir → Kern Mem (ℕ × Pgdir)
  | 0, _, d => return (newsz, d)
  | fuel + 1, a, d => do
    if a < newsz then
      match ← kalloc with
      | none =>
        let (_, d) ← deallocuvm d newsz oldsz
        return (0, d)
      | some f =>
        fill f (Bytes.zero pgsize)
        let (_, d) ← mappages d a pgsize (.page f) ⟨true, true⟩
        allocLoop oldsz newsz fuel (a + pgsize) d
    else return (newsz, d)

/-- `allocuvm`: the new size or 0, and the directory afterwards. -/
def allocuvm (d : Pgdir) (oldsz newsz : ℕ) : Kern Mem (ℕ × Pgdir) := do
  if kernbase ≤ newsz then return (0, d)
  else if newsz < oldsz then return (oldsz, d)
  else allocLoop oldsz newsz (newsz / pgsize + 1) (pgroundup oldsz) d

/-- The loop of `freevm` over the page tables, with `n` rounds to go. -/
def freeTables (d : Pgdir) : ℕ → ℕ → Kern Mem Unit
  | 0, _ => return
  | n + 1, i => do
    match d.pde i with
    | none => pure ()
    | some t => kfree t.frame
    freeTables d n (i + 1)

/-- `freevm`. -/
def freevm (d : Pgdir) : Kern Mem Unit := do
  let (_, d) ← deallocuvm d kernbase 0
  freeTables d nentries 0
  kfree d.frame

/-- The loop of `copyuvm`: what has become of the directory `c` of the copy, and whether the loop has
come to its end. -/
def copyLoop (d : Pgdir) (sz : ℕ) : ℕ → ℕ → Pgdir → Kern Mem (Bool × Pgdir)
  | 0, _, c => return (true, c)
  | fuel + 1, i, c => do
    if i < sz then
      if d.hasTable i = false then panic .copyuvmPte
      else
        match d.pte i with
        | none => panic .copyuvmPage
        | some ⟨.raw _, _⟩ => throw .wild
        | some ⟨.page g, perm⟩ =>
          match ← kalloc with
          | none => return (false, c)
          | some f =>
            fill f ((← get).data g)
            match ← mappages c i pgsize (.page f) perm with
            | (false, c) => return (false, c)
            | (true, c) => copyLoop d sz fuel (i + pgsize) c
    else return (true, c)

/-- `copyuvm`. -/
def copyuvm (d : Pgdir) (sz : ℕ) : Kern Mem (Option Pgdir) := do
  match ← setupkvm with
  | none => return none
  | some c =>
    match ← copyLoop d sz (sz / pgsize + 1) 0 c with
    | (true, c) => return some c
    | (false, c) =>
      freevm c
      return none

end Col331
