import Col331.Fs.Layout

/-!
The block and inode layers of the file system (`fs.c`), function by function: `balloc` and
`bfree`, the inode cache (`iget`, `idup`, `ilock`, `iunlock`, `iput`), `ialloc`, `iupdate`,
`bmap`, `itrunc`, `readi` and `writei`.

The state `Fs V` has the blocks as the buffer cache shows them, the inode cache, and the block
numbers passed to `log_write` between one `begin_op` and its `end_op`.  There is one device, so `dev` fields are left
out, and `readsb` in `bfree`, which reads a super block that never changes, is too.
-/

namespace Col331

/-- `struct inode`: an entry of the inode cache, with its copy of the disk inode. -/
structure Inode where
  inum : ℕ
  ref : ℤ
  busy : Bool
  valid : Bool
  d : Dinode

/-- The file system: blocks, inode cache, the blocks logged in this operation, and those logged in
each of the operations before it, last one first. -/
structure Fs (V : Volume) where
  blocks : Disk
  inode : Fin ninode → Inode
  logged : List ℕ
  ops : List (List ℕ)

namespace Fs

variable {V : Volume}

/-- Block `b` is changed to `v` and passed to `log_write`. -/
def write (s : Fs V) (b : ℕ) (v : Block) : Fs V :=
  { s with blocks := Function.update s.blocks b v, logged := s.logged ++ [b] }

/-- The cache entry `k` is changed to `ip`. -/
def setInode (s : Fs V) (k : Fin ninode) (ip : Inode) : Fs V :=
  { s with inode := Function.update s.inode k ip }

/-! ### Blocks -/

/-- `begin_op`: a new operation has logged nothing yet. -/
def beginOp : Kern (Fs V) Unit := modify fun s => { s with logged := [] }

/-- `end_op`: the commit leaves the blocks as the cache shows them. -/
def endOp : Kern (Fs V) Unit := modify fun s => { s with ops := s.logged :: s.ops }

/-- `bread`. -/
def bread (b : ℕ) : Kern (Fs V) Block := do return (← get).blocks b

/-- `log_write` of the buffer of block `b`, which the caller has set to `v`. -/
def logWrite (b : ℕ) (v : Block) : Kern (Fs V) Unit := modify fun s => s.write b v

/-- `bzero`. -/
def bzero (b : ℕ) : Kern (Fs V) Unit := logWrite b (Bytes.zero bsize)

/-- The two loops of `balloc`: the first block whose bit is clear. -/
def firstFree (s : Fs V) : Option ℕ :=
  (List.range (V.size / bpb + 1)).findSome? fun q =>
    ((List.range bpb).find? fun bi =>
      q * bpb + bi < V.size ∧ (s.blocks (V.bblock (q * bpb))).bit bi = false).map (q * bpb + ·)

/-- `balloc`. -/
def balloc : Kern (Fs V) ℕ := do
  let s ← get
  match s.firstFree with
  | none => panic .ballocOut
  | some b =>
    logWrite (V.bblock b) ((s.blocks (V.bblock b)).setBit (b % bpb))
    bzero b
    return b

/-- `bfree`. -/
def bfree (b : ℕ) : Kern (Fs V) Unit := do
  let bp ← bread (V.bblock b)
  if bp.bit (b % bpb) = false then panic .freeingFree
  logWrite (V.bblock b) (bp.clearBit (b % bpb))

/-! ### Inodes -/

/-- The entry that caches inode `inum`. -/
def cached? (s : Fs V) (inum : ℕ) : Option (Fin ninode) :=
  (List.finRange ninode).find? fun k => 0 < (s.inode k).ref ∧ (s.inode k).inum = inum

/-- The first free entry of the cache. -/
def empty? (s : Fs V) : Option (Fin ninode) :=
  (List.finRange ninode).find? fun k => (s.inode k).ref = 0

/-- `iget`: the entry that caches inode `inum`, or else the first free one. -/
def iget (inum : ℕ) : Kern (Fs V) (Fin ninode) := do
  let s ← get
  match s.cached? inum with
  | some k =>
    set (s.setInode k { s.inode k with ref := (s.inode k).ref + 1 })
    return k
  | none =>
    match s.empty? with
    | some k =>
      set (s.setInode k { s.inode k with inum, ref := 1, busy := false, valid := false })
      return k
    | none => panic .igetNone

/-- The first free inode on disk. -/
def freeInode? (s : Fs V) : Option ℕ :=
  (List.range' 1 (V.ninodes - 1)).find? fun i => (dino V s.blocks i).type = 0

/-- `ialloc`. -/
def ialloc (type : Int16) : Kern (Fs V) (Fin ninode) := do
  let s ← get
  match s.freeInode? with
  | none => panic .iallocNone
  | some i =>
    logWrite (V.iblock i)
      (setDinode (s.blocks (V.iblock i)) (i % ipb) { Dinode.zero with type := type })
    iget i

/-- `iupdate`. -/
def iupdate (k : Fin ninode) : Kern (Fs V) Unit := do
  let s ← get
  let ip := s.inode k
  logWrite (V.iblock ip.inum) (setDinode (s.blocks (V.iblock ip.inum)) (ip.inum % ipb) ip.d)

/-- `idup`. -/
def idup (k : Fin ninode) : Kern (Fs V) Unit :=
  modify fun s => s.setInode k { s.inode k with ref := (s.inode k).ref + 1 }

/-- `ilock`. -/
def ilock (k : Fin ninode) : Kern (Fs V) Unit := do
  let s ← get
  let ip := s.inode k
  if ip.ref < 1 then panic .ilock
  else if ip.busy then throw .sleep
  else if ip.valid then set (s.setInode k { ip with busy := true })
  else
    let d := dino V s.blocks ip.inum
    set (s.setInode k { ip with busy := true, valid := true, d })
    if d.type = 0 then panic .ilockNoType

/-- `iunlock`. -/
def iunlock (k : Fin ninode) : Kern (Fs V) Unit := do
  let s ← get
  let ip := s.inode k
  if ip.busy = false ∨ ip.ref < 1 then panic .iunlock
  else set (s.setInode k { ip with busy := false })

/-- `ip->addrs[i] = v`. -/
def setAddr (k : Fin ninode) (i : Fin (ndirect + 1)) (v : UInt32) : Kern (Fs V) Unit :=
  modify fun s =>
    let ip := s.inode k
    s.setInode k { ip with d.addrs := Function.update ip.d.addrs i v }

/-- `ip->size = n`. -/
def setSize (k : Fin ninode) (n : ℕ) : Kern (Fs V) Unit :=
  modify fun s => s.setInode k { s.inode k with d.size := UInt32.ofNat n }

/-- The direct blocks in `itrunc`. -/
def freeDirect (k : Fin ninode) (i : Fin (ndirect + 1)) : Kern (Fs V) Unit := do
  let addr := ((← get).inode k).d.addrs i
  if addr ≠ 0 then
    bfree addr.toNat
    setAddr k i 0

/-- `itrunc`. -/
def itrunc (k : Fin ninode) : Kern (Fs V) Unit := do
  (List.finRange ndirect).forM fun i => freeDirect k i.castSucc
  let ind := ((← get).inode k).d.addrs (Fin.last ndirect)
  if ind ≠ 0 then
    let bp ← bread ind.toNat
    (List.range nindirect).forM fun j => do
      if entry bp j ≠ 0 then bfree (entry bp j).toNat
    bfree ind.toNat
    setAddr k (Fin.last ndirect) 0
  setSize k 0
  iupdate k

/-- `iput`. -/
def iput (k : Fin ninode) : Kern (Fs V) Unit := do
  let ip := (← get).inode k
  if ip.ref = 1 ∧ ip.valid ∧ ip.d.nlink = 0 then
    if ip.busy then panic .iputBusy
    modify fun s => s.setInode k { s.inode k with busy := true }
    itrunc k
    modify fun s => s.setInode k { s.inode k with d.type := 0 }
    iupdate k
    modify fun s => s.setInode k { s.inode k with busy := false, valid := false }
  modify fun s => s.setInode k { s.inode k with ref := (s.inode k).ref - 1 }

/-! ### Inode content -/

/-- `ip->addrs[i]`, set to a new block if it is zero. -/
def slotBlock (k : Fin ninode) (i : Fin (ndirect + 1)) : Kern (Fs V) ℕ := do
  let addr := ((← get).inode k).d.addrs i
  if addr = 0 then
    let b ← balloc
    setAddr k i (UInt32.ofNat b)
    return b
  else return addr.toNat

/-- `a[j]` of the indirect block `ind`, set to a new block if it is zero. -/
def entryBlock (ind j : ℕ) : Kern (Fs V) ℕ := do
  let bp ← bread ind
  if entry bp j = 0 then
    let b ← balloc
    logWrite ind (setEntry bp j (UInt32.ofNat b))
    return b
  else return (entry bp j).toNat

/-- `bmap`: the disk block of block `bn` of an inode, allocated if there is none. -/
def bmap (k : Fin ninode) (bn : ℕ) : Kern (Fs V) ℕ := do
  if h : bn < ndirect then slotBlock k ⟨bn, Nat.lt_succ_of_lt h⟩
  else if bn - ndirect < nindirect then
    entryBlock (← slotBlock k (Fin.last ndirect)) (bn - ndirect)
  else panic .bmapRange

/-- `devsw[major]`. -/
def driver (V : Volume) (major : Int16) : Option Driver :=
  if h : 0 ≤ major.toInt ∧ major.toInt < ndev then V.devsw ⟨major.toInt.toNat, by omega⟩ else none

/-- The loop of `readi`: `n` bytes from offset `off`, at most one block at a time.  `fuel` bounds
the number of rounds. -/
def readLoop (k : Fin ninode) : ℕ → ℕ → ℕ → Kern (Fs V) (List UInt8)
  | 0, _, _ => return []
  | fuel + 1, off, n => do
    if n = 0 then return []
    else
      let bp ← bread (← bmap k (off / bsize))
      let m := min n (bsize - off % bsize)
      let rest ← readLoop k fuel (off + m) (n - m)
      return bp.slice (off % bsize) m ++ rest

/-- `readi`; `none` for the result `-1`, and otherwise the bytes read.  The test `off + n < off`
is whether the sum overflows a `uint`. -/
def readi (k : Fin ninode) (off n : ℕ) : Kern (Fs V) (Option (List UInt8)) := do
  let ip := (← get).inode k
  if ip.d.type = tDev then
    return (driver V ip.d.major).bind fun dev => dev.read n
  else if off > ip.d.size.toNat ∨ 2 ^ 32 ≤ off + n then return none
  else
    let n := if off + n > ip.d.size.toNat then ip.d.size.toNat - off else n
    some <$> readLoop k n off n

/-- The loop of `writei`. -/
def writeLoop (k : Fin ninode) : ℕ → ℕ → List UInt8 → Kern (Fs V) Unit
  | 0, _, _ => return
  | fuel + 1, off, src => do
    if src = [] then return
    else
      let b ← bmap k (off / bsize)
      let bp ← bread b
      let m := min src.length (bsize - off % bsize)
      logWrite b (bp.splice (off % bsize) (src.take m))
      writeLoop k fuel (off + m) (src.drop m)

/-- `writei`. -/
def writei (k : Fin ninode) (src : List UInt8) (off : ℕ) : Kern (Fs V) ℤ := do
  let ip := (← get).inode k
  let n := src.length
  if ip.d.type = tDev then
    return ((driver V ip.d.major).map fun dev => dev.write src).getD (-1)
  else if off > ip.d.size.toNat ∨ 2 ^ 32 ≤ off + n then return -1
  else if off + n > maxfile * bsize then return -1
  else
    writeLoop k n off src
    if 0 < n ∧ off + n > ip.d.size.toNat then
      setSize k (off + n)
      iupdate k
    return n

end Fs

end Col331
