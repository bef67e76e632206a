import Col331.Fs.Layout

/-!
`read` from a regular file, from the argument checks of `syscall.c` down to the addresses that `readi`
writes to.

The count is an `int` for `sys_read` and `fileread`.  `argptr` adds it to an address, and `readi` takes
it as a `uint`.

* `User.fetchint`, `User.argint`, `User.argptr`: the arguments, from the user stack.
* `RegFile.readi`, `OpenFile.fileread`, `User.sysRead`: the call, with what it stores where.
* `readi_eq`: what `readi` stores, without its loop.
* `sysRead_inBounds_iff`: **the call stays within the buffer unless the count is negative**.
-/

namespace Col331

/-! ### Arguments -/

/-- What the kernel sees of the process that makes a system call. -/
structure User where
  /-- `proc->sz`. -/
  sz : UInt32
  /-- `proc->tf->esp`. -/
  esp : UInt32
  /-- The memory of the process. -/
  mem : UInt32 → UInt8

namespace User

/-- `*(int*)addr`. -/
def word (u : User) (addr : UInt32) : Int32 :=
  (UInt32.ofNat ((u.mem addr).toNat + 2 ^ 8 * (u.mem (addr + 1)).toNat +
    2 ^ 16 * (u.mem (addr + 2)).toNat + 2 ^ 24 * (u.mem (addr + 3)).toNat)).toInt32

/-- `fetchint`; `none` for the result -1. -/
def fetchint (u : User) (addr : UInt32) : Option Int32 :=
  if addr ≥ u.sz ∨ addr + 4 > u.sz then none else some (u.word addr)

/-- `argint`. -/
def argint (u : User) (n : UInt32) : Option Int32 := u.fetchint (u.esp + 4 + 4 * n)

/-- `argptr`. -/
def argptr (u : User) (n : UInt32) (size : Int32) : Option UInt32 :=
  match u.argint n with
  | none => none
  | some i =>
    if i.toUInt32 ≥ u.sz ∨ i.toUInt32 + size.toUInt32 > u.sz then none else some i.toUInt32

end User

/-! ### The file -/

/-- The inode of a regular file.  `writei` keeps the size to what `bmap` can address. -/
structure RegFile where
  size : UInt32
  /-- The contents of the block that `bmap` finds for a block of the file. -/
  block : ℕ → Block
  size_le : size.toNat ≤ maxfile * bsize

/-- What is stored at user addresses, in the order in which it is stored. -/
abbrev Stores := List (UInt32 × UInt8)

namespace RegFile

/-- `bread(ip->dev, bmap(ip, bn))`. -/
def bmap (ip : RegFile) (bn : UInt32) : Except Panic Block :=
  if bn.toNat < maxfile then .ok (ip.block bn.toNat) else .error .bmapRange

/-- `memmove(dst, src, m)` for the bytes `src`. -/
def memmove (dst : UInt32) (src : List UInt8) : Stores :=
  src.mapIdx fun j b => (dst + UInt32.ofNat j, b)

/-- The loop of `readi`; `fuel` bounds the number of rounds. -/
def readLoop (ip : RegFile) (n : UInt32) : ℕ → UInt32 → UInt32 → UInt32 → Except Panic Stores
  | 0, _, _, _ => .ok []
  | fuel + 1, tot, off, dst =>
    if tot < n then do
      let bp ← ip.bmap (off / 512)
      let m := if n - tot < 512 - off % 512 then n - tot else 512 - off % 512
      let rest ← readLoop ip n fuel (tot + m) (off + m) (dst + m)
      return memmove dst (bp.slice (off % 512).toNat m.toNat) ++ rest
    else .ok []

/-- `readi` of a regular file: what it returns and what it stores. -/
def readi (ip : RegFile) (dst off n : UInt32) : Except Panic (Int32 × Stores) :=
  if off > ip.size ∨ off + n < off then .ok (-1, [])
  else
    let n := if off + n > ip.size then ip.size - off else n
    do return (n.toInt32, ← ip.readLoop n n.toNat 0 off dst)

end RegFile

/-- A `struct file` for a regular file. -/
structure OpenFile where
  readable : Bool
  ip : RegFile
  off : UInt32

/-- What a call returns, what it stores, and the offset of the file afterwards. -/
structure ReadResult where
  ret : Int32
  stores : Stores
  off : UInt32

/-- `fileread` of a regular file. -/
def OpenFile.fileread (f : OpenFile) (addr : UInt32) (n : Int32) : Except Panic ReadResult :=
  if f.readable = false then .ok ⟨-1, [], f.off⟩
  else do
    let (r, stores) ← f.ip.readi addr f.off n.toUInt32
    return ⟨r, stores, if r > 0 then f.off + r.toUInt32 else f.off⟩

namespace User

/-- `argfd`. -/
def argfd (u : User) (ofile : Fin nofile → Option OpenFile) (n : UInt32) : Option OpenFile :=
  match u.argint n with
  | none => none
  | some fd =>
    if h : 0 ≤ fd.toInt ∧ fd.toInt < nofile then ofile ⟨fd.toInt.toNat, by omega⟩ else none

/-- `sys_read`; `none` if an argument check fails. -/
def sysRead (u : User) (ofile : Fin nofile → Option OpenFile) : Option (Except Panic ReadResult) := do
  let f ← u.argfd ofile 0
  let n ← u.argint 2
  let p ← u.argptr 1 n
  return f.fileread p n

end User

/-! ### What `readi` stores -/

namespace RegFile

/-- The byte at offset `i`. -/
def byte (ip : RegFile) (i : ℕ) : UInt8 := (ip.block (i / bsize)).byte (i % bsize)

/-- The `k` bytes from offset `off` on. -/
def bytes (ip : RegFile) (off k : ℕ) : List UInt8 := (List.range k).map fun j => ip.byte (off + j)

@[simp] lemma bytes_length (ip : RegFile) (off k : ℕ) : (ip.bytes off k).length = k := by
  simp [bytes]

lemma bytes_add (ip : RegFile) (off m k : ℕ) :
    ip.bytes off (m + k) = ip.bytes off m ++ ip.bytes (off + m) k := by
  rw [bytes, List.range_add, List.map_append, List.map_map]
  congr 1
  refine List.map_congr_left fun j _ => ?_
  simp [Nat.add_assoc]

/-- A run of bytes within one block. -/
lemma bytes_eq_slice (ip : RegFile) {off m : ℕ} (h : off % bsize + m ≤ bsize) :
    ip.bytes off m = (ip.block (off / bsize)).slice (off % bsize) m := by
  refine List.map_congr_left fun j hj => ?_
  have hj : j < m := List.mem_range.mp hj
  have hb : 0 < bsize := by decide
  have hlt : off % bsize + j < bsize := by omega
  have hsum : off + j = off % bsize + j + bsize * (off / bsize) := by
    have := Nat.mod_add_div off bsize
    omega
  rw [byte, hsum, Nat.add_mul_div_left _ _ hb, Nat.div_eq_of_lt hlt, Nat.zero_add,
    Nat.add_mul_mod_self_left, Nat.mod_eq_of_lt hlt]

lemma memmove_append (dst : UInt32) (xs ys : List UInt8) :
    memmove dst (xs ++ ys) = memmove dst xs ++ memmove (dst + UInt32.ofNat xs.length) ys := by
  rw [memmove, List.mapIdx_append]
  simp only [memmove, UInt32.ofNat_add, UInt32.add_assoc, UInt32.add_comm (UInt32.ofNat xs.length)]

/-- The loop stores the bytes of the file one after the other. -/
lemma readLoop_eq (ip : RegFile) {n tot off dst : UInt32} {fuel : ℕ} (htot : tot.toNat ≤ n.toNat)
    (hfuel : n.toNat ≤ tot.toNat + fuel) (hoff : off.toNat + n.toNat ≤ ip.size.toNat + tot.toNat) :
    ip.readLoop n fuel tot off dst =
      .ok (memmove dst (ip.bytes off.toNat (n.toNat - tot.toNat))) := by
  induction fuel generalizing tot off dst with
  | zero =>
    obtain h0 : n.toNat - tot.toNat = 0 := by omega
    rw [h0]
    rfl
  | succ fuel ih =>
    rw [readLoop]
    by_cases hlt : tot < n
    · rw [if_pos hlt]
      have hlt' : tot.toNat < n.toNat := hlt
      have hsize := ip.size_le
      have hmax : maxfile * bsize = 71680 := by decide
      have hbn : (off / 512).toNat = off.toNat / 512 := by simp
      have hmod : (off % 512).toNat = off.toNat % 512 := by simp
      -- `m` bytes are left in the block or in the request
      obtain ⟨m, hm, hmv⟩ : ∃ m : UInt32, m.toNat = min (n.toNat - tot.toNat) (512 - off.toNat % 512) ∧
          m = if n - tot < 512 - off % 512 then n - tot else 512 - off % 512 := by
        refine ⟨_, ?_, rfl⟩
        have h₁ : (n - tot).toNat = n.toNat - tot.toNat := UInt32.toNat_sub_of_le _ _ htot
        have h₂ : (512 - off % 512).toNat = 512 - off.toNat % 512 := by
          rw [UInt32.toNat_sub_of_le _ _ ?_, hmod]
          · rfl
          · rw [UInt32.le_iff_toNat_le, hmod]
            exact (Nat.mod_lt _ (by norm_num)).le
        split_ifs with hc
        · rw [UInt32.lt_iff_toNat_lt, h₁, h₂] at hc
          omega
        · rw [UInt32.lt_iff_toNat_lt, h₁, h₂] at hc
          omega
      have hn := n.toNat_lt
      have htot' : (tot + m).toNat = tot.toNat + m.toNat := by
        rw [UInt32.toNat_add, Nat.mod_eq_of_lt]
        omega
      have hoff' : (off + m).toNat = off.toNat + m.toNat := by
        rw [UInt32.toNat_add, Nat.mod_eq_of_lt]
        omega
      have hbmap : ip.bmap (off / 512) = .ok (ip.block (off.toNat / bsize)) := by
        rw [bmap, hbn, if_pos]
        rw [show maxfile = 140 by decide]
        omega
      rw [hbmap, ← hmv]
      simp only [bind, Except.bind, pure, Except.pure]
      rw [ih (by omega) (by omega) (by omega), hoff', htot', hmod]
      have hsplit : n.toNat - tot.toNat = m.toNat + (n.toNat - (tot.toNat + m.toNat)) := by omega
      have hfit : off.toNat % bsize + m.toNat ≤ bsize := by
        change off.toNat % 512 + m.toNat ≤ 512
        omega
      rw [hsplit, bytes_add, memmove_append, bytes_length, UInt32.ofNat_toNat,
        ip.bytes_eq_slice hfit]
    · rw [if_neg hlt]
      have hlt' : ¬ tot.toNat < n.toNat := hlt
      obtain h0 : n.toNat - tot.toNat = 0 := by omega
      rw [h0]
      rfl

/-- How many bytes `readi` stores: none if it returns -1. -/
def count (ip : RegFile) (off n : UInt32) : ℕ :=
  if 2 ^ 32 ≤ off.toNat + n.toNat then 0 else min n.toNat (ip.size.toNat - off.toNat)

/-- **`readi`** stores a run of bytes of the file, one after the other. -/
lemma readi_eq (ip : RegFile) (dst off n : UInt32) : ∃ r, ip.readi dst off n =
    .ok (r, memmove dst (ip.bytes off.toNat (ip.count off n))) := by
  have hoff := off.toNat_lt
  have hn := n.toNat_lt
  have hadd := UInt32.toNat_add off n
  rw [readi]
  by_cases h : off > ip.size ∨ off + n < off
  · have hnone : ip.count off n = 0 := by
      rw [count]
      split_ifs with hwrap
      · rfl
      · rcases h with h | h
        · have : ip.size.toNat < off.toNat := h
          omega
        · have : (off + n).toNat < off.toNat := h
          omega
    rw [if_pos h, hnone]
    exact ⟨-1, rfl⟩
  · rw [if_neg h]
    rw [not_or] at h
    have hle : off.toNat ≤ ip.size.toNat := not_lt.mp h.1
    have hnowrap : ¬ (off + n).toNat < off.toNat := h.2
    have hwrap : ¬ 2 ^ 32 ≤ off.toNat + n.toNat := by omega
    rw [count, if_neg hwrap]
    -- the count is cut off at the end of the file
    have hrun : ∀ k : UInt32, k.toNat = min n.toNat (ip.size.toNat - off.toNat) → ∃ r,
        (do return (k.toInt32, ← ip.readLoop k k.toNat 0 off dst) : Except Panic (Int32 × Stores)) =
          .ok (r, memmove dst (ip.bytes off.toNat (min n.toNat (ip.size.toNat - off.toNat)))) := by
      intro k hk
      refine ⟨k.toInt32, ?_⟩
      rw [ip.readLoop_eq (by simp) (by simp) (by simp; omega), ← hk]
      simp [bind, Except.bind, pure, Except.pure]
    refine hrun _ ?_
    split_ifs with hclip
    · have : ip.size.toNat < (off + n).toNat := hclip
      rw [UInt32.toNat_sub_of_le _ _ hle]
      omega
    · have : ¬ ip.size.toNat < (off + n).toNat := hclip
      omega

lemma memmove_addr {dst : UInt32} {src : List UInt8} {w : UInt32 × UInt8} (h : w ∈ memmove dst src) :
    ∃ j < src.length, w.1 = dst + UInt32.ofNat j := by
  obtain ⟨j, hj, rfl⟩ := List.mem_mapIdx.mp h
  exact ⟨j, hj, rfl⟩

@[simp] lemma memmove_length (dst : UInt32) (src : List UInt8) : (memmove dst src).length = src.length := by
  simp [memmove]

end RegFile

/-! ### Bounds -/

/-- An `int` as a `uint`. -/
lemma toNat_toUInt32 (n : Int32) : (n.toUInt32.toNat : ℤ) = if 0 ≤ n.toInt then n.toInt else n.toInt + 2 ^ 32 := by
  have h : n.toInt = n.toUInt32.toBitVec.toInt := rfl
  have hlt := n.toUInt32.toNat_lt
  rw [h, BitVec.toInt_eq_toNat_cond]
  change (n.toUInt32.toNat : ℤ) = _
  have : n.toUInt32.toBitVec.toNat = n.toUInt32.toNat := rfl
  split_ifs <;> omega

namespace User

variable {u : User} {ofile : Fin nofile → Option OpenFile} {f : OpenFile} {n : Int32} {p : UInt32}

/-- What the call stores is in the memory of the process, and no more than it asked for. -/
def InBounds (u : User) (n : Int32) (r : ReadResult) : Prop :=
  (∀ w ∈ r.stores, w.1 < u.sz) ∧ (r.stores.length : ℤ) ≤ max n.toInt 0

/-- What `fileread` stores. -/
lemma fileread_eq (f : OpenFile) (p : UInt32) (n : Int32) : ∃ r off, f.fileread p n =
    .ok ⟨r, RegFile.memmove p (f.ip.bytes f.off.toNat
      (if f.readable then f.ip.count f.off n.toUInt32 else 0)), off⟩ := by
  obtain ⟨r, hr⟩ := f.ip.readi_eq p f.off n.toUInt32
  rw [OpenFile.fileread, hr]
  cases f.readable with
  | false => exact ⟨_, _, rfl⟩
  | true => exact ⟨_, _, rfl⟩

/-- A count that is not negative is for a buffer within the process. -/
lemma argptr_le (hsz : u.sz.toNat < kernbase) (hp : u.argptr 1 n = some p) (hn : 0 ≤ n.toInt) :
    (p.toNat : ℤ) + n.toInt ≤ u.sz.toNat := by
  rw [argptr] at hp
  split at hp
  · cases hp
  · rename_i i _
    split_ifs at hp with h
    cases hp
    rw [not_or] at h
    have hlt : ¬ u.sz.toNat ≤ i.toUInt32.toNat := h.1
    have hle : ¬ u.sz.toNat < (i.toUInt32 + n.toUInt32).toNat := h.2
    have hcast := toNat_toUInt32 n
    rw [if_pos hn] at hcast
    have hmax : n.toInt < 2 ^ 31 := n.toInt_lt
    have hsz : u.sz.toNat < 2 ^ 31 := hsz
    rw [UInt32.toNat_add, Nat.mod_eq_of_lt (by omega)] at hle
    omega

lemma sysRead_eq (hf : u.argfd ofile 0 = some f) (hn : u.argint 2 = some n)
    (hp : u.argptr 1 n = some p) : u.sysRead ofile = some (f.fileread p n) := by
  simp [sysRead, hf, hn, hp]

/-- **`read` of a regular file stays within the process and the count**, exactly if the count is not
negative or the call ends without looking at it: for a file not open for reading, at the end of the file
or past it, or at an offset that makes the sum with the count overflow. -/
theorem sysRead_inBounds_iff (hsz : u.sz.toNat < kernbase) (hf : u.argfd ofile 0 = some f)
    (hn : u.argint 2 = some n) (hp : u.argptr 1 n = some p) :
    (∃ r, u.sysRead ofile = some (.ok r) ∧ u.InBounds n r) ↔
      0 ≤ n.toInt ∨ f.readable = false ∨ f.ip.size ≤ f.off ∨ -n.toInt ≤ f.off.toNat := by
  obtain ⟨r, off, hr⟩ := fileread_eq f p n
  have hcast := toNat_toUInt32 n
  have hmin : -2 ^ 31 ≤ n.toInt := n.le_toInt
  rw [sysRead_eq hf hn hp, hr]
  constructor
  · rintro ⟨r', he, -, hlen⟩
    obtain rfl := Except.ok.inj (Option.some.inj he)
    by_contra hno
    push Not at hno
    obtain ⟨hneg, hread, hend, hover⟩ := hno
    have hsize := f.ip.size_le
    have hmax : maxfile * bsize = 71680 := by decide
    have hend' : f.off.toNat < f.ip.size.toNat := not_le.mp hend
    have hread' : f.readable = true := by simpa using hread
    rw [if_neg (by omega)] at hcast
    rw [RegFile.memmove_length, RegFile.bytes_length, hread', if_pos rfl, RegFile.count,
      if_neg (by omega)] at hlen
    omega
  · intro hc
    refine ⟨_, rfl, ?_⟩
    rcases lt_or_ge n.toInt 0 with hneg | hpos
    · have hzero : (if f.readable then f.ip.count f.off n.toUInt32 else 0) = 0 := by
        rw [if_neg (by omega)] at hcast
        split_ifs with hread
        · rw [RegFile.count]
          split_ifs with hover
          · rfl
          · rcases hc with hc | hc | hc | hc
            · omega
            · simp [hread] at hc
            · have : f.ip.size.toNat ≤ f.off.toNat := hc
              omega
            · omega
        · rfl
      rw [hzero]
      exact ⟨by simp [RegFile.bytes, RegFile.memmove], by simp [RegFile.bytes, RegFile.memmove]⟩
    · have hbuf := argptr_le hsz hp hpos
      rw [if_pos hpos] at hcast
      have hcount : (if f.readable then f.ip.count f.off n.toUInt32 else 0) ≤ n.toUInt32.toNat := by
        split_ifs
        · rw [RegFile.count]
          split_ifs <;> omega
        · omega
      refine ⟨fun w hw => ?_, ?_⟩
      · obtain ⟨j, hj, hw⟩ := RegFile.memmove_addr hw
        rw [RegFile.bytes_length] at hj
        rw [hw, UInt32.lt_iff_toNat_lt, UInt32.toNat_add, UInt32.toNat_ofNat']
        have hsz : u.sz.toNat < 2 ^ 31 := hsz
        rw [Nat.mod_eq_of_lt (a := j) (by omega), Nat.mod_eq_of_lt (by omega)]
        omega
      · rw [RegFile.memmove_length, RegFile.bytes_length]
        omega

/-- A process of one page that calls `read(0, 4000, n)`, with `n` given by its last byte; -1 for
255. -/
def reader (n : UInt8) : User where
  sz := 4096
  esp := 3000
  mem a := if a = 3008 then 160 else if a = 3009 then 15 else if 3012 ≤ a ∧ a < 3016 then
    (if a = 3012 then n else if n = 255 then 255 else 0) else 0

/-- A file of 200 bytes, at its beginning. -/
def shortFile : OpenFile where
  readable := true
  ip := ⟨200, fun _ => Bytes.zero bsize, by decide⟩
  off := 0

lemma argfd_const {u : User} (f : OpenFile) (h : u.argint 0 = some 0) :
    u.argfd (fun _ => some f) 0 = some f := by
  rw [argfd, h]
  exact dif_pos (by decide)

theorem sysRead_inBounds_reader : ∃ r, (reader 96).sysRead (fun _ => some shortFile) = some (.ok r) ∧
    (reader 96).InBounds 96 r :=
  (sysRead_inBounds_iff (p := 4000) (by decide) (argfd_const shortFile (by decide +kernel))
    (by decide +kernel) (by decide +kernel)).2 (.inl (by decide))

/-- `read(0, 4000, -1)` stores 200 bytes, also beyond the end of the process. -/
theorem sysRead_negative : ∃ (u : User) (ofile : Fin nofile → Option OpenFile) (f : OpenFile)
    (p : UInt32) (r : ReadResult), u.sz.toNat < kernbase ∧ u.argfd ofile 0 = some f ∧
    u.argint 2 = some (-1) ∧ u.argptr 1 (-1) = some p ∧ u.sysRead ofile = some (.ok r) ∧
    r.stores.length = 200 ∧ (4096, 0) ∈ r.stores ∧ u.sz = 4096 := by
  obtain ⟨r, off, hr⟩ := fileread_eq shortFile 4000 (-1)
  have hfd : (reader 255).argfd (fun _ => some shortFile) 0 = some shortFile :=
    argfd_const shortFile (by decide +kernel)
  have hn : (reader 255).argint 2 = some (-1) := by decide +kernel
  have hp : (reader 255).argptr 1 (-1) = some 4000 := by decide +kernel
  have hcount : (if shortFile.readable then shortFile.ip.count shortFile.off (-1 : Int32).toUInt32 else 0) =
      200 := by decide
  rw [hcount] at hr
  obtain ⟨l, hl⟩ : ∃ l, l = RegFile.memmove 4000 (shortFile.ip.bytes shortFile.off.toNat 200) := ⟨_, rfl⟩
  have hmem : (4096, 0) ∈ l := by
    rw [hl]
    decide +kernel
  have hlen : l.length = 200 := by rw [hl, RegFile.memmove_length, RegFile.bytes_length]
  rw [← hl] at hr
  exact ⟨reader 255, fun _ => some shortFile, shortFile, 4000, ⟨r, l, off⟩, by decide, hfd, hn, hp,
    (sysRead_eq hfd hn hp).trans (congrArg some hr), hlen, hmem, rfl⟩

end User

end Col331
