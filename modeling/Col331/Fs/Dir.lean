import Col331.Fs.Abstract

/-!
Directories and path names (`fs.c`), over any inode layer, and the string functions they use
(`string.c`).

* `strncmp`, `strncpy`, `namecmp`: names of at most `DIRSIZ` bytes, with or without a terminator;
  `strncmp_eq_zero_iff` says that names are compared up to their first zero byte.
* `Dirent`: a directory entry as it lies in a directory.
* `dirlookup`, `dirlink`, `isdirempty`, `skipelem`, `namex`.

A path is the list of the bytes before its terminator.  `namex` goes through the elements that
`skipelem` takes from it, its parts between slashes (`pathElements_eq`).
-/

namespace Col331

/-- `DIRSIZ`. -/
abbrev dirsiz : ℕ := 14

/-! ### Strings -/

/-- `strncmp`; the end of a list reads as the terminator. -/
def strncmp : List UInt8 → List UInt8 → ℕ → ℤ
  | _, _, 0 => 0
  | p, q, n + 1 =>
    if p.headD 0 ≠ 0 ∧ p.headD 0 = q.headD 0 then strncmp p.tail q.tail n
    else (p.headD 0).toNat - (q.headD 0).toNat

/-- `strncpy`: the `n` bytes it stores. -/
def strncpy : List UInt8 → ℕ → List UInt8
  | _, 0 => []
  | t, n + 1 =>
    if t.headD 0 = 0 then 0 :: List.replicate n 0 else t.headD 0 :: strncpy t.tail n

/-- `namecmp`. -/
def namecmp (s t : List UInt8) : ℤ := strncmp s t dirsiz

/-- The string that the first `n` bytes of `t` hold: it ends at the first zero byte. -/
def cstr (n : ℕ) (t : List UInt8) : List UInt8 := (t.take n).takeWhile (· ≠ 0)

lemma cstr_succ (n : ℕ) (t : List UInt8) :
    cstr (n + 1) t = if t.headD 0 = 0 then [] else t.headD 0 :: cstr n t.tail := by
  cases t with
  | nil => simp [cstr]
  | cons c t => by_cases hc : c = 0 <;> simp [cstr, hc]

/-- **Names are compared as strings.** -/
lemma strncmp_eq_zero_iff {n : ℕ} : ∀ {p q : List UInt8}, strncmp p q n = 0 ↔ cstr n p = cstr n q := by
  induction n with
  | zero => intro p q; simp [strncmp, cstr]
  | succ n ih =>
    intro p q
    rw [strncmp, cstr_succ, cstr_succ]
    by_cases hp : p.headD 0 = 0
    · rw [if_neg (fun h => h.1 hp), if_pos hp, hp]
      by_cases hq : q.headD 0 = 0
      · rw [hq, if_pos rfl]
        simp
      · have : (q.headD 0).toNat ≠ 0 := fun h => hq (UInt8.toNat_inj.mp h)
        rw [if_neg hq]
        simpa using this
    · by_cases hpq : p.headD 0 = q.headD 0
      · rw [if_pos ⟨hp, hpq⟩, if_neg hp, if_neg (by rwa [← hpq]), hpq, List.cons_inj_right]
        exact ih
      · rw [if_neg (fun h => hpq h.2), if_neg hp]
        have hne : (p.headD 0).toNat ≠ (q.headD 0).toNat := fun h => hpq (UInt8.toNat_inj.mp h)
        constructor
        · intro h
          omega
        · intro h
          split_ifs at h with hq
          exact absurd (List.cons.inj h).1 hpq

lemma namecmp_eq_zero_iff {p q : List UInt8} : namecmp p q = 0 ↔ cstr dirsiz p = cstr dirsiz q :=
  strncmp_eq_zero_iff

@[simp] lemma strncpy_length (t : List UInt8) (n : ℕ) : (strncpy t n).length = n := by
  induction n generalizing t with
  | zero => rfl
  | succ n ih =>
    rw [strncpy]
    split_ifs
    · simp
    · simp [ih]

/-- A name that is stored is the name that is found. -/
lemma cstr_strncpy (t : List UInt8) (n : ℕ) : cstr n (strncpy t n) = cstr n t := by
  induction n generalizing t with
  | zero => simp [cstr]
  | succ n ih =>
    rw [cstr_succ, cstr_succ, strncpy]
    split_ifs with h h' <;> simp_all

/-- The string in a string is that string. -/
lemma cstr_cstr (n : ℕ) (t : List UInt8) : cstr n (cstr n t) = cstr n t := by
  induction n generalizing t with
  | zero => simp [cstr]
  | succ n ih =>
    rw [cstr_succ n t]
    split_ifs with h
    · simp [cstr]
    · rw [cstr_succ, List.headD_cons, if_neg h, List.tail_cons, ih]

/-! ### Directory entries -/

/-- `struct dirent`. -/
structure Dirent where
  inum : UInt16
  name : List UInt8
  deriving DecidableEq

/-- `sizeof(struct dirent)`. -/
abbrev direntSize : ℕ := 2 + dirsiz

/-- The entry that lies at some place in memory. -/
def Dirent.ofBytes (bs : List UInt8) : Dirent where
  inum := UInt16.ofNat ((bs.getD 0 0).toNat + 256 * (bs.getD 1 0).toNat)
  name := (bs.drop 2).take dirsiz

/-- The bytes of an entry. -/
def Dirent.bytes (de : Dirent) : List UInt8 := Bytes.le16 de.inum ++ de.name

/-- An entry reads back as it was written. -/
lemma Dirent.ofBytes_bytes (de : Dirent) (h : de.name.length = dirsiz) :
    Dirent.ofBytes de.bytes = de := by
  obtain ⟨inum, name⟩ := de
  have hlt : inum.toNat < 65536 := inum.toNat_lt
  simp only [Dirent.ofBytes, Dirent.bytes, Bytes.le16, Dirent.mk.injEq]
  constructor
  · apply UInt16.toNat_inj.mp
    simp
    omega
  · simp [← h]

/-- The offsets `off, off + sizeof(de), ...` below `size`. -/
def direntOffsets (off size : ℕ) : List ℕ :=
  (List.range ((size - off + (direntSize - 1)) / direntSize)).map fun j => off + direntSize * j

section Layer

open InodeLayer

variable {σ : Type} [InodeLayer σ]

/-- `iunlockput`. -/
def iunlockput (ip : Fin ninode) : Kern σ Unit := do
  iunlock ip
  iput ip

/-- `readi(dp, (char*)&de, off, sizeof(de)) != sizeof(de)` panics with `msg`. -/
def readDirent (msg : Panic) (dp : Fin ninode) (off : ℕ) : Kern σ Dirent := do
  match ← readi dp off direntSize with
  | some bs => if bs.length = direntSize then return Dirent.ofBytes bs else panic msg
  | none => panic msg

/-- The loop of `dirlookup`. -/
def lookupLoop (dp : Fin ninode) (name : List UInt8) :
    List ℕ → Kern σ (Option (Fin ninode × ℕ))
  | [] => return none
  | off :: offs => do
    let de ← readDirent .dirlinkRead dp off
    if de.inum = 0 then lookupLoop dp name offs
    else if namecmp name de.name = 0 then return some (← iget de.inum.toNat, off)
    else lookupLoop dp name offs

/-- `dirlookup`: the inode and the offset of its entry. -/
def dirlookup (dp : Fin ninode) (name : List UInt8) : Kern σ (Option (Fin ninode × ℕ)) := do
  if (← type dp) ≠ tDir then panic .dirlookupNotDir
  else lookupLoop dp name (direntOffsets 0 (← size dp))

/-- The loop of `dirlink`: the offset of the first empty entry, and else the one behind the last
entry. -/
def emptyLoop (dp : Fin ninode) (last : ℕ) : List ℕ → Kern σ ℕ
  | [] => return last
  | off :: offs => do
    let de ← readDirent .dirlinkRead dp off
    if de.inum = 0 then return off else emptyLoop dp last offs

/-- `dirlink`. -/
def dirlink (dp : Fin ninode) (name : List UInt8) (inum : ℕ) : Kern σ ℤ := do
  match ← dirlookup dp name with
  | some (ip, _) =>
    iput ip
    return -1
  | none =>
    let offs := direntOffsets 0 (← size dp)
    let off ← emptyLoop dp (direntSize * offs.length) offs
    let de : Dirent := ⟨UInt16.ofNat inum, strncpy name dirsiz⟩
    if (← writei dp de.bytes off) ≠ direntSize then panic .dirlink
    return 0

/-- The loop of `isdirempty`. -/
def isdiremptyLoop (dp : Fin ninode) : List ℕ → Kern σ Bool
  | [] => return true
  | off :: offs => do
    let de ← readDirent .isdiremptyReadi dp off
    if de.inum ≠ 0 then return false else isdiremptyLoop dp offs

/-- `isdirempty`. -/
def isdirempty (dp : Fin ninode) : Kern σ Bool := do
  isdiremptyLoop dp (direntOffsets (2 * direntSize) (← size dp))

end Layer

/-! ### Paths -/

/-- The character `/`. -/
abbrev slash : UInt8 := 47

/-- `skipelem`: the next path element, cut to `DIRSIZ` bytes, and the path behind it. -/
def skipelem (path : List UInt8) : Option (List UInt8 × List UInt8) :=
  let path := path.dropWhile (· = slash)
  if path.headD 0 = 0 then none
  else
    let elem := path.takeWhile fun c => c ≠ slash ∧ c ≠ 0
    some (elem.take dirsiz, (path.drop elem.length).dropWhile (· = slash))

/-- The elements that `skipelem` takes from a path; `fuel` bounds their number. -/
def elements : ℕ → List UInt8 → List (List UInt8)
  | 0, _ => []
  | fuel + 1, path =>
    match skipelem path with
    | none => []
    | some (name, path) => name :: elements fuel path

/-- The elements of a path. -/
def pathElements (path : List UInt8) : List (List UInt8) := elements path.length path

/-- The parts of a string between slashes, up to its NUL, each cut to `DIRSIZ` bytes. -/
def pathParts (path : List UInt8) : List (List UInt8) :=
  (((path.takeWhile (· ≠ 0)).splitOn slash).filter (· ≠ [])).map (·.take dirsiz)

lemma pathParts_slash (path : List UInt8) : pathParts (slash :: path) = pathParts path := by
  rw [pathParts, List.takeWhile_cons_of_pos (by decide), List.splitOn, List.splitOnP_cons_eq_if_modifyHead]
  rfl

lemma pathParts_dropWhile (path : List UInt8) :
    pathParts (path.dropWhile (· = slash)) = pathParts path := by
  induction path with
  | nil => rfl
  | cons c t ih =>
    by_cases hc : c = slash
    · simp [hc, ih, pathParts_slash]
    · simp [hc]

/-- The first element is taken off. -/
lemma pathParts_append {e r : List UInt8} (he : ∀ c ∈ e, c ≠ slash ∧ c ≠ 0) (hne : e ≠ [])
    (hr : r.headD 0 = slash ∨ r.headD 0 = 0) : pathParts (e ++ r) = e.take dirsiz :: pathParts r := by
  have hslash : slash ∉ e := fun h => (he _ h).1 rfl
  rw [pathParts, List.takeWhile_append_of_pos (by simpa using fun c hc => (he c hc).2)]
  cases r with
  | nil => simp [pathParts, List.splitOn_eq_singleton hslash, hne]
  | cons d r =>
    rcases hr with rfl | rfl
    · rw [pathParts_slash, List.takeWhile_cons_of_pos (by decide),
        List.splitOn_append_cons_self_of_not_mem hslash]
      simp [pathParts, hne]
    · simp [pathParts, List.splitOn_eq_singleton hslash, hne]

lemma elements_eq {fuel : ℕ} {path : List UInt8} (h : path.length ≤ fuel) :
    elements fuel path = pathParts path := by
  induction fuel generalizing path with
  | zero =>
    rw [List.eq_nil_of_length_eq_zero (Nat.le_zero.mp h)]
    rfl
  | succ fuel ih =>
    have hdrop (l : List UInt8) := (l.dropWhile_suffix fun c => decide (c = slash)).length_le
    have hle := hdrop path
    have hhead := List.head?_dropWhile_not (fun c : UInt8 => decide (c = slash)) path
    rw [elements, skipelem, ← pathParts_dropWhile path]
    generalize path.dropWhile (· = slash) = p at *
    generalize hq : (fun c : UInt8 => decide (c ≠ slash ∧ c ≠ 0)) = q
    have hall := List.all_takeWhile (p := q) (l := p)
    have hout := List.head?_dropWhile_not q p
    have hcat := List.takeWhile_append_dropWhile (p := q) (l := p)
    generalize p.takeWhile q = e at *
    generalize p.dropWhile q = r at *
    subst hq hcat
    have hr : r.headD 0 = slash ∨ r.headD 0 = 0 := by
      cases r with
      | nil => exact .inr rfl
      | cons d r => simpa [or_iff_not_imp_left] using hout
    have he : ∀ c ∈ e, c ≠ slash ∧ c ≠ 0 := by simpa using hall
    cases e with
    | nil =>
      cases r with
      | nil => rfl
      | cons d r =>
        obtain rfl : d = 0 := hr.resolve_left (by simpa using hhead)
        rfl
    | cons c e =>
      rw [pathParts_append he (List.cons_ne_nil c e) hr, ← pathParts_dropWhile r, ← ih]
      · simp [(he c _).2]
      · have := hdrop r
        rw [List.length_append, List.length_cons] at hle
        omega

/-- **The elements that `skipelem` takes from a path, call by call, are its parts between slashes.** -/
theorem pathElements_eq (path : List UInt8) : pathElements path = pathParts path :=
  elements_eq le_rfl

example : pathElements [47, 97, 47, 47, 98, 98, 47] = [[97], [98, 98]] := by decide

section Layer

open InodeLayer

variable {σ : Type} [InodeLayer σ]

/-- The loop of `namex`: `*path == '\0'` is that there is no element left. -/
def namexLoop (parent : Bool) (ip : Fin ninode) :
    List (List UInt8) → Kern σ (Option (Fin ninode × List UInt8))
  | [] =>
    if parent then do
      iput ip
      return none
    else return some (ip, [])
  | name :: path => do
    ilock ip
    if (← type ip) ≠ tDir then
      iunlockput ip
      return none
    else if parent ∧ path = [] then
      iunlock ip
      return some (ip, name)
    else
      match ← dirlookup ip name with
      | none =>
        iunlockput ip
        return none
      | some (next, _) =>
        iunlockput ip
        namexLoop parent next path

/-- `namex`, for a process with current directory `cwd`: the inode, and the last element in
`name`. -/
def namex (cwd : Fin ninode) (path : List UInt8) (parent : Bool) :
    Kern σ (Option (Fin ninode × List UInt8)) := do
  if path.headD 0 = slash then
    namexLoop parent (← iget rootino) (pathElements path)
  else
    idup cwd
    namexLoop parent cwd (pathElements path)

/-- `namei`. -/
def namei (cwd : Fin ninode) (path : List UInt8) : Kern σ (Option (Fin ninode)) := do
  return (← namex cwd path false).map (·.1)

/-- `nameiparent`. -/
def nameiparent (cwd : Fin ninode) (path : List UInt8) :
    Kern σ (Option (Fin ninode × List UInt8)) := namex cwd path true

end Layer

end Col331
