import Col331.Fs.Image

/-!
`mkfs.c`, the program that writes the first disk image.

`mkfs` keeps two counters, `freeinode` and `freeblock`, and the image file; every access to the image
is a read or a write of one whole sector, and a read behind the end of the file ends the program.

* `Mkfs.State`: the image file and the counters, with the numbers of the inodes written so far.
* `rsect`, `wsect`, `rinode`, `winode`, `ialloc`, `iappend`, `balloc`: the functions of `mkfs.c`.
* `Arg`: one command line argument with the results of reading the file it names.
* `mkfs args`: the program; it returns when `mkfs` exits with status 0.
-/

namespace Col331

namespace Mkfs

/-- How `mkfs` ends without an image: `exit(1)`, or an assertion that fails. -/
inductive Stop
  | exit1
  | abort
  deriving Repr, DecidableEq

/-- The image file `fsfd`, which is `len` sectors long, and the global variables. -/
structure State where
  blocks : Disk
  len : ℕ
  freeinode : ℕ
  freeblock : ℕ
  /-- The inode numbers `winode` was called with, the last one first. -/
  inodes : List ℕ

/-- The code of `mkfs`. -/
abbrev Mk (α : Type) := Prog State Stop α

/-- `assert`. -/
def assert (p : Prop) [Decidable p] : Mk Unit := if p then pure () else throw .abort

/-! ### Sectors -/

/-- The sector at the file offset `sec * BSIZE`, which is computed in 32 bits. -/
def sector (sec : ℕ) : ℕ := sec * bsize % 2 ^ 32 / bsize

/-- `wsect`. -/
def wsect (sec : ℕ) (buf : Block) : Mk Unit :=
  modify fun s => { s with
    blocks := Function.update s.blocks (sector sec) buf
    len := max s.len (sector sec + 1) }

/-- `rsect`: the read is short behind the end of the file. -/
def rsect (sec : ℕ) : Mk Block := do
  let s ← get
  if sector sec < s.len then return s.blocks (sector sec) else throw .exit1

/-! ### Inodes -/

/-- `IBLOCK(inum, sb)`. -/
abbrev iblock (inum : ℕ) : ℕ := mkfsVolume.iblock inum

/-- `winode`. -/
def winode (inum : ℕ) (din : Dinode) : Mk Unit := do
  let buf ← rsect (iblock inum)
  wsect (iblock inum) (setDinode buf (inum % ipb) din)
  modify fun s => { s with inodes := inum :: s.inodes }

/-- `rinode`. -/
def rinode (inum : ℕ) : Mk Dinode := do
  let buf ← rsect (iblock inum)
  return dinodeAt buf (inum % ipb)

/-- `ialloc`. -/
def ialloc (type : Int16) : Mk ℕ := do
  let inum := (← get).freeinode
  modify fun s => { s with freeinode := inum + 1 }
  winode inum { Dinode.zero with type := type, nlink := 1 }
  return inum

/-! ### Appending to a file -/

/-- `freeblock++`. -/
def newBlock : Mk ℕ := do
  let b := (← get).freeblock
  modify fun s => { s with freeblock := b + 1 }
  return b

/-- `if(din.addrs[i] == 0) din.addrs[i] = freeblock++`. -/
def fillSlot (din : Dinode) (i : Fin (ndirect + 1)) : Mk Dinode := do
  if din.addrs i = 0 then
    let b ← newBlock
    return { din with addrs := Function.update din.addrs i (UInt32.ofNat b) }
  else return din

/-- The same for the entry `j` of the indirect block `ind`; the block number in the entry. -/
def fillEntry (ind : UInt32) (j : ℕ) : Mk UInt32 := do
  let indirect ← rsect ind.toNat
  if entry indirect j = 0 then
    let b ← newBlock
    wsect ind.toNat (setEntry indirect j (UInt32.ofNat b))
    return UInt32.ofNat b
  else return entry indirect j

/-- The block `x` for the block `fbn` of the file, and the inode with its addresses. -/
def appendBlock (din : Dinode) (fbn : ℕ) : Mk (UInt32 × Dinode) := do
  if h : fbn < ndirect then
    let din ← fillSlot din ⟨fbn, Nat.lt_succ_of_lt h⟩
    return (din.addrs ⟨fbn, Nat.lt_succ_of_lt h⟩, din)
  else
    let din ← fillSlot din (Fin.last ndirect)
    let x ← fillEntry din.ind (fbn - ndirect)
    return (x, din)

/-- One round of the loop of `iappend`: the bytes `p` go into the block that holds offset `off`. -/
def appendRound (din : Dinode) (off : ℕ) (p : List UInt8) : Mk Dinode := do
  assert (off / bsize < maxfile)
  let (x, din) ← appendBlock din (off / bsize)
  let buf ← rsect x.toNat
  wsect x.toNat (buf.splice (off - off / bsize * bsize) p)
  return din

/-- The loop of `iappend`; a round takes at least one byte, so `p.length` rounds are enough. -/
def appendLoop : ℕ → Dinode → ℕ → List UInt8 → Mk (Dinode × ℕ)
  | 0, din, off, _ => return (din, off)
  | fuel + 1, din, off, p => do
    if p = [] then return (din, off)
    else
      let n1 := min p.length ((off / bsize + 1) * bsize - off)
      let din ← appendRound din off (p.take n1)
      appendLoop fuel din (off + n1) (p.drop n1)

/-- `iappend`. -/
def iappend (inum : ℕ) (p : List UInt8) : Mk Unit := do
  let din ← rinode inum
  let (din, off) ← appendLoop p.length din din.size.toNat p
  winode inum { din with size := UInt32.ofNat off }

/-! ### The program -/

/-- `balloc`: the block map with the first `used` blocks marked. -/
def balloc (used : ℕ) : Mk Unit := do
  assert (used < bsize * 8)
  wsect mkfsVolume.bmapstart ((List.range used).foldl Bytes.setBit (Bytes.zero bsize))

/-- The super block, as `main` copies it into `buf`. -/
def superBlock : Block :=
  (Bytes.zero bsize).splice 0 <| [mkfsVolume.size, mkfsVolume.nblocks, mkfsVolume.ninodes,
    mkfsVolume.nlog, mkfsVolume.logstart, mkfsVolume.inodestart, mkfsVolume.bmapstart].flatMap
      fun n => Bytes.le32 (UInt32.ofNat n)

/-- A command line argument: its bytes without the terminator and, unless the file cannot be opened,
what the calls of `read` return up to the end of the file. -/
structure Arg where
  name : List UInt8
  nul : 0 ∉ name
  reads : Option (List (List UInt8))

/-- The character `_`. -/
abbrev underscore : UInt8 := 95

/-- The name in the image: one leading `_` is dropped. -/
def Arg.base (arg : Arg) : List UInt8 :=
  if arg.name.head? = some underscore then arg.name.tail else arg.name

/-- The content of the file. -/
def Arg.content (arg : Arg) : List UInt8 := (arg.reads.getD []).flatten

/-- The directory entry that `main` makes of an inode number and a name. -/
def dirent (inum : ℕ) (name : List UInt8) : Dirent := ⟨UInt16.ofNat inum, strncpy name dirsiz⟩

/-- The body of the loop over the arguments. -/
def addFile (arg : Arg) : Mk Unit := do
  assert (slash ∉ arg.name)
  match arg.reads with
  | none => throw .exit1
  | some reads =>
    let inum ← ialloc tFile
    iappend rootino (dirent inum arg.base).bytes
    reads.forM (iappend inum)

/-- `main` up to the loop: an image of zeroes with the super block and the root directory. -/
def format : Mk Unit := do
  (List.range fssize).forM fun i => wsect i (Bytes.zero bsize)
  wsect 1 superBlock
  let root ← ialloc tDir
  assert (root = rootino)
  iappend root (dirent root [46]).bytes
  iappend root (dirent root [46, 46]).bytes

/-- `main` behind the loop: the size of the root directory is rounded, and the map is written. -/
def finish : Mk Unit := do
  let din ← rinode rootino
  let off := (din.size.toNat / bsize + 1) * bsize
  winode rootino { din with size := UInt32.ofNat off }
  balloc (← get).freeblock

/-- The image file after `open` has truncated it. -/
def start : State := ⟨fun _ => Bytes.zero bsize, 0, 1, mkfsVolume.nmeta, []⟩

/-- **`mkfs fs.img args`.** -/
def mkfs (args : List Arg) : Mk Unit := do
  format
  args.forM addFile
  finish

end Mkfs

end Col331
