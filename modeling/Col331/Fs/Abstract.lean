import Col331.Fs.Inode

/-!
The inode layer as its clients see it.

`InodeLayer σ` lists the operations on inodes that directories, path names and system calls are
built from.  It has two instances: the file system of `fs.c` (`Fs V`), and the abstract file
system `Afs V`, in which an inode is a `Node` with its attributes and its content as a list of
bytes.  There are no blocks, no free map and no in-memory copies in it; the entries of the inode
cache are those of the code, an unused one being forgotten.

A use of an operation that its callers must not make (an inode that is not held, one that is not
locked, a number behind the inode table) stops the abstract operation with `Stop.wild`.
-/

namespace Col331

/-- The fields of an inode that its holder may set. -/
structure Attr where
  major : Int16
  minor : Int16
  nlink : Int16

/-- The operations on inodes, over a state `σ`. -/
class InodeLayer (σ : Type) where
  /-- `begin_op`. -/
  beginOp : Kern σ Unit
  /-- `end_op`. -/
  endOp : Kern σ Unit
  /-- `iget`. -/
  iget : ℕ → Kern σ (Fin ninode)
  /-- `ialloc`. -/
  ialloc : Int16 → Kern σ (Fin ninode)
  /-- `idup`. -/
  idup : Fin ninode → Kern σ Unit
  /-- `ilock`. -/
  ilock : Fin ninode → Kern σ Unit
  /-- `iunlock`. -/
  iunlock : Fin ninode → Kern σ Unit
  /-- `iput`. -/
  iput : Fin ninode → Kern σ Unit
  /-- `ip->inum`. -/
  inum : Fin ninode → Kern σ ℕ
  /-- `ip->type`. -/
  type : Fin ninode → Kern σ Int16
  /-- `ip->nlink`. -/
  nlink : Fin ninode → Kern σ Int16
  /-- `ip->size`. -/
  size : Fin ninode → Kern σ ℕ
  /-- An assignment to `ip->major`, `ip->minor` or `ip->nlink`, and `iupdate(ip)`. -/
  change : Fin ninode → (Attr → Attr) → Kern σ Unit
  /-- `readi`. -/
  readi : Fin ninode → ℕ → ℕ → Kern σ (Option (List UInt8))
  /-- `writei`. -/
  writei : Fin ninode → List UInt8 → ℕ → Kern σ ℤ

variable {V : Volume}

/-! ### The code -/

namespace Fs

/-- The attributes of a disk inode. -/
def attr (d : Dinode) : Attr := ⟨d.major, d.minor, d.nlink⟩

/-- A disk inode with other attributes. -/
def setAttr (d : Dinode) (a : Attr) : Dinode :=
  { d with major := a.major, minor := a.minor, nlink := a.nlink }

/-- An assignment to attributes, and `iupdate`. -/
def change (k : Fin ninode) (f : Attr → Attr) : Kern (Fs V) Unit := do
  modify fun s =>
    let ip := s.inode k
    s.setInode k { ip with d := setAttr ip.d (f (attr ip.d)) }
  iupdate k

instance : InodeLayer (Fs V) where
  beginOp := beginOp
  endOp := endOp
  iget := iget
  ialloc := ialloc
  idup := idup
  ilock := ilock
  iunlock := iunlock
  iput := iput
  inum k := do return ((← get).inode k).inum
  type k := do return ((← get).inode k).d.type
  nlink k := do return ((← get).inode k).d.nlink
  size k := do return ((← get).inode k).d.size.toNat
  change := change
  readi := readi
  writei := writei

end Fs

/-! ### The abstract file system -/

/-- An entry of the inode cache. -/
structure Slot where
  inum : ℕ
  ref : ℤ
  busy : Bool
  valid : Bool
  deriving DecidableEq

/-- An entry that is not in use. -/
def Slot.free : Slot := ⟨0, 0, false, false⟩

/-- An inode with its content. -/
structure Node where
  type : Int16
  major : Int16
  minor : Int16
  nlink : Int16
  content : List UInt8
  deriving DecidableEq

/-- An inode that is not allocated. -/
def Node.free : Node := ⟨0, 0, 0, 0, []⟩

/-- The abstract file system. -/
structure Afs (V : Volume) where
  slot : Fin ninode → Slot
  node : ℕ → Node

namespace Afs

/-- Entry `k` of the cache is changed. -/
def setSlot (a : Afs V) (k : Fin ninode) (ip : Slot) : Afs V :=
  { a with slot := Function.update a.slot k ip }

/-- Inode `i` is changed. -/
def setNode (a : Afs V) (i : ℕ) (n : Node) : Afs V := { a with node := Function.update a.node i n }

/-- The inode that entry `k` caches. -/
def nodeOf (a : Afs V) (k : Fin ninode) : Node := a.node (a.slot k).inum

/-- The entry that caches inode `inum`. -/
def cached? (a : Afs V) (inum : ℕ) : Option (Fin ninode) :=
  (List.finRange ninode).find? fun k => 0 < (a.slot k).ref ∧ (a.slot k).inum = inum

/-- The first free entry of the cache. -/
def empty? (a : Afs V) : Option (Fin ninode) :=
  (List.finRange ninode).find? fun k => (a.slot k).ref = 0

/-- The first free inode. -/
def freeInode? (a : Afs V) : Option ℕ :=
  (List.range' 1 (V.ninodes - 1)).find? fun i => (a.node i).type = 0

/-- `iget`. -/
def iget (inum : ℕ) : Kern (Afs V) (Fin ninode) := do
  let a ← get
  if V.ninodes ≤ inum then throw .wild
  else
    match a.cached? inum with
    | some k =>
      set (a.setSlot k { a.slot k with ref := (a.slot k).ref + 1 })
      return k
    | none =>
      match a.empty? with
      | some k =>
        set (a.setSlot k ⟨inum, 1, false, false⟩)
        return k
      | none => panic .igetNone

/-- `ialloc`. -/
def ialloc (type : Int16) : Kern (Afs V) (Fin ninode) := do
  let a ← get
  match a.freeInode? with
  | none => panic .iallocNone
  | some i =>
    set (a.setNode i { Node.free with type := type })
    iget i

/-- `idup`. -/
def idup (k : Fin ninode) : Kern (Afs V) Unit := do
  let a ← get
  if (a.slot k).ref < 1 then throw .wild
  else set (a.setSlot k { a.slot k with ref := (a.slot k).ref + 1 })

/-- `ilock`. -/
def ilock (k : Fin ninode) : Kern (Afs V) Unit := do
  let a ← get
  let ip := a.slot k
  if ip.ref < 1 then panic .ilock
  else if ip.busy then throw .sleep
  else if ip.valid = false ∧ (a.nodeOf k).type = 0 then panic .ilockNoType
  else set (a.setSlot k { ip with busy := true, valid := true })

/-- `iunlock`. -/
def iunlock (k : Fin ninode) : Kern (Afs V) Unit := do
  let a ← get
  let ip := a.slot k
  if ip.ref < 1 then throw .wild
  else if ip.busy = false then panic .iunlock
  else set (a.setSlot k { ip with busy := false })

/-- `iput`: the last reference to an inode without links frees it. -/
def iput (k : Fin ninode) : Kern (Afs V) Unit := do
  let a ← get
  let ip := a.slot k
  if ip.ref < 1 then throw .wild
  else if ip.ref = 1 then
    if ip.valid ∧ (a.nodeOf k).nlink = 0 then
      if ip.busy then panic .iputBusy
      else set ((a.setNode ip.inum Node.free).setSlot k Slot.free)
    else set (a.setSlot k Slot.free)
  else set (a.setSlot k { ip with ref := ip.ref - 1 })

/-- The inode of an entry that is held and has been locked. -/
def held (k : Fin ninode) : Kern (Afs V) Node := do
  let a ← get
  if 0 < (a.slot k).ref ∧ (a.slot k).valid then return a.nodeOf k else throw .wild

/-- `ip->inum`. -/
def inum (k : Fin ninode) : Kern (Afs V) ℕ := do
  let a ← get
  if (a.slot k).ref < 1 then throw .wild else return (a.slot k).inum

/-- `ip->size`, of an inode with content. -/
def size (k : Fin ninode) : Kern (Afs V) ℕ := do
  let n ← held k
  if n.type = tDev then throw .wild else return n.content.length

/-- An assignment to attributes, and `iupdate`. -/
def change (k : Fin ninode) (f : Attr → Attr) : Kern (Afs V) Unit := do
  let n ← held k
  let b := f ⟨n.major, n.minor, n.nlink⟩
  modify fun a => a.setNode (a.slot k).inum
    { n with major := b.major, minor := b.minor, nlink := b.nlink }

/-- `readi`. -/
def readi (k : Fin ninode) (off n : ℕ) : Kern (Afs V) (Option (List UInt8)) := do
  let ip ← held k
  if ip.type = tDev then return (Fs.driver V ip.major).bind fun dev => dev.read n
  else if off > ip.content.length ∨ 2 ^ 32 ≤ off + n then return none
  else return some ((ip.content.drop off).take n)

/-- The content `c` with `src` written over it from offset `off` on. -/
def overlay (c src : List UInt8) (off : ℕ) : List UInt8 :=
  c.take off ++ src ++ c.drop (off + src.length)

/-- `writei`. -/
def writei (k : Fin ninode) (src : List UInt8) (off : ℕ) : Kern (Afs V) ℤ := do
  let ip ← held k
  if ip.type = tDev then
    return ((Fs.driver V ip.major).map fun dev => dev.write src).getD (-1)
  else if off > ip.content.length ∨ 2 ^ 32 ≤ off + src.length then return -1
  else if off + src.length > maxfile * bsize then return -1
  else
    modify fun a => a.setNode (a.slot k).inum { ip with content := overlay ip.content src off }
    return src.length

instance : InodeLayer (Afs V) where
  beginOp := pure ()
  endOp := pure ()
  iget := iget
  ialloc := ialloc
  idup := idup
  ilock := ilock
  iunlock := iunlock
  iput := iput
  inum := inum
  type k := return (← held k).type
  nlink k := return (← held k).nlink
  size := size
  change := change
  readi := readi
  writei := writei

end Afs

end Col331
