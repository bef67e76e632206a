import Col331.Fs.Entries
import Col331.Fs.Syscall

/-!
The calls that change directories use the inode layer as they must.

* `Safe base τ a`: the call holds the references in `τ`, and every directory entry names an inode
  of the inode table.
* `Uses base τ x Q`: from a state with the references `τ`, the code `x` ends in one with references
  as `Q` says, and never leaves the contract of the inode layer.
* `uses_create`, `uses_sysLink`, `uses_sysUnlink`: the calls, on directories of whatever content.
-/

namespace Col331

open InodeLayer Prog

variable {V : Volume} {α β : Type}

/-- The ways to stop other than a use outside the contract, or a broken free map. -/
def Stop.Sound (e : Stop) : Prop := e ∉ [.wild, .panic .freeingFree, .panic .bmapRange]

instance : DecidablePred Stop.Sound := fun _ => inferInstanceAs (Decidable (_ ∉ _))

lemma Stop.Tame.sound {e : Stop} (h : e.Tame) : e.Sound := by
  simp only [Stop.Tame, Stop.Sound, List.mem_cons, List.not_mem_nil, not_or] at *
  tauto

/-- The references `τ` are held, and every entry names an inode of the table. -/
structure Safe (base : Fin ninode → Slot) (τ : List Ref) (a : Afs V) : Prop where
  holds : Holds base τ a
  range : ∀ i < V.ninodes, (a.node i).InRange V

/-- A freed inode has no entries. -/
lemma inRange_free : Node.free.InRange V := fun j i x hx => by
  rw [Node.entry_of_not_dir (by decide)] at hx
  nomatch hx

/-- One inode is changed. -/
lemma Safe.setNode {base : Fin ninode → Slot} {τ : List Ref} {a : Afs V} (ha : Safe base τ a) {i : ℕ}
    {n : Node} (hn : n.InRange V) : Safe base τ (a.setNode i n) := by
  refine ⟨ha.holds.setNode _ _, fun j hj => ?_⟩
  rw [Afs.setNode]
  dsimp only
  by_cases hji : j = i
  · subst hji
    rw [Function.update_self]
    exact hn
  · rw [Function.update_of_ne hji]
    exact ha.range j hj

/-- The code `x` turns the references `τ` into references as in `Q`. -/
def Uses (base : Fin ninode → Slot) (τ : List Ref) (x : Kern (Afs V) α)
    (Q : α → List Ref → Prop) : Prop :=
  ∀ a, Safe base τ a → wp x (fun r a' => ∃ τ', Q r τ' ∧ Safe base τ' a') Stop.Sound a

namespace Uses

variable {base : Fin ninode → Slot} {τ τ' : List Ref} {k : Fin ninode} {i : ℕ} {v : Bool}

/-! ### Rules -/

variable {Q : α → List Ref → Prop} {x : Kern (Afs V) α} {R : β → List Ref → Prop}

lemma pure {r : α} (h : Q r τ) :
    Uses base τ (Pure.pure r : Kern (Afs V) α) Q := fun _ ha => ⟨τ, h, ha⟩

lemma panic {p : Panic} (h : Stop.Sound (.panic p)) :
    Uses base τ (Col331.panic p : Kern (Afs V) α) Q := fun _ _ => h

lemma bind {f : α → Kern (Afs V) β}
    (hx : Uses base τ x Q)
    (hf : ∀ r τ', Q r τ' → Uses base τ' (f r) R) : Uses base τ (x >>= f) R := by
  intro a ha
  refine wp_seq (hx a ha) ?_
  rintro r a' ⟨τ', hQ, ha'⟩
  exact hf r τ' hQ a' ha'

lemma map {f : α → β}
    (hx : Uses base τ x Q) (hf : ∀ r τ', Q r τ' → R (f r) τ') : Uses base τ (f <$> x) R := by
  intro a ha
  rw [wp_map]
  refine wp_post (hx a ha) ?_
  rintro r a' ⟨τ', hQ, ha'⟩
  exact ⟨τ', hf r τ' hQ, ha'⟩

/-- A step after which the references are known. -/
lemma seq {f : α → Kern (Afs V) β}
    (hx : Uses base τ x fun _ τ₁ => τ₁ = τ') (hf : ∀ r, Uses base τ' (f r) R) :
    Uses base τ (x >>= f) R :=
  hx.bind fun r _ h => h ▸ hf r

lemma ite {c : Prop} [Decidable c] {x y : Kern (Afs V) α}
    (hx : Uses base τ x Q) (hy : Uses base τ y Q) : Uses base τ (if c then x else y) Q := by
  split_ifs
  · exact hx
  · exact hy

lemma swap {t u : Ref}
    (h : Uses base (u :: t :: τ) x Q) : Uses base (t :: u :: τ) x Q :=
  fun a ha => h a ⟨ha.holds.swap, ha.range⟩

/-! ### The inode layer -/

lemma iget (hi : i < V.ninodes) :
    Uses base τ (iget i : Kern (Afs V) _) fun k τ' => τ' = ⟨k, i, false⟩ :: τ := by
  intro a ha
  refine wp_mono (ha.holds.iget hi) ?_ fun _ => Stop.Tame.sound
  rintro k a' ⟨hh, hn⟩
  exact ⟨_, rfl, hh, by rw [hn]; exact ha.range⟩

lemma ilock : Uses base (⟨k, i, v⟩ :: τ) (ilock k : Kern (Afs V) _)
    fun _ τ' => τ' = ⟨k, i, true⟩ :: τ := by
  intro a ha
  refine wp_post (ha.holds.ilock (fun _ => Stop.Tame.sound) (.inr (.inr ?_))) ?_
  · exact (by decide : Stop.Sound (.panic .ilockNoType))
  · rintro _ a' ⟨hh, hn⟩
    exact ⟨_, rfl, hh, by rw [hn]; exact ha.range⟩

lemma iunlock (ht : ⟨k, i, v⟩ ∈ τ) :
    Uses base τ (iunlock k : Kern (Afs V) _) fun _ τ' => τ' = τ := by
  intro a ha
  refine wp_mono (ha.holds.iunlock (ha.holds.pos ht)) ?_ fun _ => Stop.Tame.sound
  rintro _ a' ⟨hh, hn⟩
  exact ⟨_, rfl, hh, by rw [hn]; exact ha.range⟩

lemma idup (hk : 0 < (base k).ref) : Uses base τ (idup k : Kern (Afs V) _)
    fun _ τ' => τ' = ⟨k, (base k).inum, (base k).valid⟩ :: τ := by
  intro a ha
  refine wp_mono (ha.holds.idup hk) ?_ fun _ => Stop.Tame.sound
  rintro _ a' ⟨hh, hn⟩
  exact ⟨_, rfl, hh, by rw [hn]; exact ha.range⟩

/-- `iput` may free the inode: it has no entries then. -/
lemma iput : Uses base (⟨k, i, v⟩ :: τ) (iput k : Kern (Afs V) _) fun _ τ' => τ' = τ := by
  intro a ha
  refine wp_mono ha.holds.iput ?_ fun _ => Stop.Tame.sound
  rintro _ a' ⟨hh, hn⟩
  refine ⟨_, rfl, hh, ?_⟩
  rw [hn, Afs.putNodes]
  split_ifs
  · exact (ha.setNode inRange_free).range
  · exact ha.range

lemma iunlockput : Uses base (⟨k, i, v⟩ :: τ) (iunlockput k : Kern (Afs V) _) fun _ τ' => τ' = τ :=
  (iunlock (.head _)).seq fun _ => iput

/-- `ialloc` of a type. -/
lemma ialloc (type : Int16) : Uses base τ (ialloc type : Kern (Afs V) _)
    fun k τ' => ∃ i, τ' = ⟨k, i, false⟩ :: τ := by
  intro a ha
  change wp (Afs.ialloc type) _ _ _
  simp only [Afs.ialloc, wp_bind, wp_get]
  cases hf : a.freeInode? with
  | none => exact (by decide : Stop.Sound (.panic .iallocNone))
  | some i =>
    have hi : i < V.ninodes := by
      have := List.mem_of_find?_eq_some hf
      rw [List.mem_range'_1] at this
      omega
    simp only [wp_bind, wp_set]
    have hnew : ({ Node.free with type := type } : Node).InRange V := fun q i' x hx => by
      rw [Node.entry_of_length_le (Nat.zero_le _)] at hx
      cases hx
    have ha₁ : Safe base τ (a.setNode i { Node.free with type := type }) := ha.setNode hnew
    refine wp_mono (ha₁.holds.iget hi) ?_ fun _ => Stop.Tame.sound
    rintro k a' ⟨hh, hn⟩
    exact ⟨_, ⟨i, rfl⟩, hh, by rw [hn]; exact ha₁.range⟩

section Locked

variable (ht : ⟨k, i, true⟩ ∈ τ)

include ht

lemma type : Uses base τ (type k : Kern (Afs V) _) fun _ τ' => τ' = τ :=
  fun _ ha => (ha.holds.wp_type ht).mpr ⟨τ, rfl, ha⟩

lemma nlink : Uses base τ (nlink k : Kern (Afs V) _) fun _ τ' => τ' = τ :=
  fun _ ha => (ha.holds.wp_nlink ht).mpr ⟨τ, rfl, ha⟩

lemma change (f : Attr → Attr) : Uses base τ (change k f : Kern (Afs V) _) fun _ τ' => τ' = τ := by
  intro a ha
  rw [ha.holds.wp_change ht]
  refine ⟨τ, rfl, ha.setNode fun j i' x hx => ?_⟩
  exact ha.range i (ha.holds.lt ht) j i' x hx

/-- A free entry, or one that names an inode of the table, is written to a slot. -/
lemma writei_dirent {de : Dirent} (hname : de.name.length = dirsiz)
    (hde : ∀ i' x, de.entry = some (i', x) → i' < V.ninodes) (j : ℕ) :
    Uses base τ (writei k de.bytes (direntSize * j) : Kern (Afs V) _) fun _ τ' => τ' = τ := by
  intro a ha
  by_cases hdev : (a.node i).type = tDev
  · change wp (Afs.writei k _ _) _ _ _
    rw [Afs.writei, wp_bind, wp_of_ok (ha.holds.held ht), if_pos hdev]
    exact ⟨τ, rfl, ha⟩
  · refine wp_mono (ha.holds.writei ht hdev _ _) ?_ fun _ => Stop.Tame.sound
    rintro r a' (⟨-, rfl⟩ | ⟨-, hj, rfl⟩)
    · exact ⟨τ, rfl, ha⟩
    · refine ⟨τ, rfl, ha.setNode fun j' i' x hx => ?_⟩
      change ((a.node i).setEntry j de).entry j' = _ at hx
      by_cases hdir : (a.node i).type = tDir
      · rw [Node.entry_setEntry hdir hname hj] at hx
        split_ifs at hx
        · exact hde i' x hx
        · exact ha.range i (ha.holds.lt ht) j' i' x hx
      · exact absurd (Node.lt_of_entry hx).1 hdir

/-- `dirlookup`, of an inode of whatever type. -/
lemma dirlookup (name : List UInt8) : Uses base τ (dirlookup k name : Kern (Afs V) _) fun r τ' =>
    match r with
    | none => τ' = τ
    | some (k', off) => ∃ i' j, off = direntSize * j ∧ τ' = ⟨k', i', false⟩ :: τ := by
  intro a ha
  by_cases hdir : (a.node i).type = tDir
  · refine wp_mono (ha.holds.dirlookup ht hdir (ha.range i (ha.holds.lt ht)) name) ?_
      fun _ => Stop.Tame.sound
    rintro (_ | ⟨k', off⟩) a' hr
    · obtain ⟨rfl, -⟩ := hr
      exact ⟨τ, rfl, ha⟩
    · obtain ⟨j, i', hoff, -, hh, hn⟩ := hr
      exact ⟨_, ⟨i', j, hoff, rfl⟩, hh, by rw [hn]; exact ha.range⟩
  · rw [Col331.dirlookup, wp_bind, ha.holds.wp_type ht, if_pos hdir]
    exact (by decide : Stop.Sound (.panic .dirlookupNotDir))

/-- `dirlink` of an inode of the table. -/
lemma dirlink (name : List UInt8) {q : ℕ} (hq : q < V.ninodes) :
    Uses base τ (dirlink k name q : Kern (Afs V) _) fun _ τ' => τ' = τ := by
  intro a ha
  have hin := ha.range i (ha.holds.lt ht)
  by_cases hdir : (a.node i).type = tDir
  · refine wp_mono (ha.holds.dirlink ht hdir hin name q) ?_ fun _ => Stop.Tame.sound
    rintro r a' (⟨-, hh, -, i', -, hn | ⟨-, hn⟩⟩ | ⟨-, -, -, j, -, hj, rfl⟩)
    · exact ⟨τ, rfl, hh, by rw [hn]; exact ha.range⟩
    · exact ⟨τ, rfl, hh, by rw [hn]; exact (ha.setNode inRange_free).range⟩
    · refine ⟨τ, rfl, ha.setNode fun j' i' x hx => ?_⟩
      rw [Node.entry_setEntry hdir (strncpy_length _ _) hj] at hx
      split_ifs at hx
      · rw [Dirent.entry] at hx
        split_ifs at hx
        have hinums := V.inums
        rw [← (Prod.mk.inj (Option.some.inj hx)).1]
        simp only [UInt16.toNat_ofNat_of_lt' (show q < UInt16.size by
          simp only [UInt16.size]; omega)]
        exact hq
      · exact hin j' i' x hx
  · rw [Col331.dirlink, wp_bind, Col331.dirlookup, wp_bind, ha.holds.wp_type ht,
      if_pos hdir]
    exact (by decide : Stop.Sound (.panic .dirlookupNotDir))

lemma nonemptyDir : Uses base τ (nonemptyDir k : Kern (Afs V) _) fun _ τ' => τ' = τ := by
  intro a ha
  rw [Col331.nonemptyDir, wp_bind, ha.holds.wp_type ht]
  split_ifs with hdir
  · rw [wp_bind]
    refine wp_mono (ha.holds.isdirempty ht hdir) ?_ fun _ => Stop.Tame.sound
    rintro b a' ⟨rfl, -⟩
    exact ⟨τ, rfl, ha⟩
  · exact ⟨τ, rfl, ha⟩

end Locked

lemma inum (ht : ⟨k, i, v⟩ ∈ τ) : Uses base τ (inum k : Kern (Afs V) _)
    fun r τ' => (r = i ∧ i < V.ninodes) ∧ τ' = τ :=
  fun _ ha => (ha.holds.wp_inum ht).mpr ⟨τ, ⟨⟨rfl, ha.holds.lt ht⟩, rfl⟩, ha⟩

/-! ### Path names -/

/-- The references after a walk. -/
def Walked (τ : List Ref) (r : Option (Fin ninode × List UInt8)) (τ' : List Ref) : Prop :=
  match r with
  | none => τ' = τ
  | some (k, _) => ∃ i v, τ' = ⟨k, i, v⟩ :: τ

/-- The loop of `namex`, by induction on the elements left: it holds one inode at a time. -/
lemma namexLoop (parent : Bool) (path : List (List UInt8)) (k : Fin ninode) (i : ℕ) (v : Bool) :
    Uses base (⟨k, i, v⟩ :: τ) (namexLoop parent k path : Kern (Afs V) _) (Walked τ) := by
  induction path generalizing k i v with
  | nil =>
    rw [Col331.namexLoop]
    exact ite (iput.seq fun _ => pure rfl) (pure ⟨i, v, rfl⟩)
  | cons name path ih =>
    rw [Col331.namexLoop]
    refine ilock.seq fun _ => (type (.head _)).seq fun ty => ?_
    refine ite (iunlockput.seq fun _ => pure rfl) (ite ?_ ?_)
    · exact (iunlock (.head _)).seq fun _ => pure ⟨i, true, rfl⟩
    · refine (dirlookup (.head _) name).bind ?_
      rintro (_ | ⟨k', off⟩) τ' hr
      · subst hr
        exact iunlockput.seq fun _ => pure rfl
      · obtain ⟨i', -, -, rfl⟩ := hr
        exact swap (iunlockput.seq fun _ => ih k' i' false)

/-- The current directory may be used by a path that is not absolute. -/
def CwdOk (base : Fin ninode → Slot) (cwd : Fin ninode) (path : List UInt8) : Prop :=
  path.headD 0 ≠ slash → 0 < (base cwd).ref

variable {cwd : Fin ninode} {path : List UInt8}

lemma namex (parent : Bool) (hcwd : CwdOk base cwd path) :
    Uses base τ (namex cwd path parent : Kern (Afs V) _) (Walked τ) := by
  rw [Col331.namex]
  split_ifs with hslash
  · exact (iget V.rootIno).bind fun k τ' h => h ▸ namexLoop parent _ k _ _
  · exact (idup (hcwd hslash)).seq fun _ => namexLoop parent _ cwd _ _

lemma namei (hcwd : CwdOk base cwd path) : Uses base τ (namei cwd path : Kern (Afs V) _)
    fun r τ' => match r with
      | none => τ' = τ
      | some k => ∃ i v, τ' = ⟨k, i, v⟩ :: τ := by
  refine (namex false hcwd).bind ?_
  rintro (_ | ⟨k, name⟩) τ' hr
  · exact pure hr
  · exact pure hr

/-! ### Calls -/

/-- `begin_op` and `end_op` do nothing to inodes. -/
lemma beginOp : Uses base τ (beginOp : Kern (Afs V) _) fun _ τ' => τ' = τ := pure rfl

lemma endOp : Uses base τ (endOp : Kern (Afs V) _) fun _ τ' => τ' = τ := pure rfl

lemma linkBad : Uses base (⟨k, i, v⟩ :: τ) (linkBad k : Kern (Afs V) _) fun _ τ' => τ' = τ :=
  ilock.seq fun _ => (change (.head _) _).seq fun _ => iunlockput.seq fun _ =>
    endOp.seq fun _ => pure rfl

/-- **`sys_link`.** -/
lemma sysLink {old new : List UInt8} (hold : CwdOk base cwd old) (hnew : CwdOk base cwd new) :
    Uses base τ (sysLink cwd old new : Kern (Afs V) _) fun _ τ' => τ' = τ := by
  refine beginOp.seq fun _ => (namei hold).bind ?_
  rintro (_ | ip) τ₁ hr
  · subst hr
    exact endOp.seq fun _ => pure rfl
  obtain ⟨i, v, rfl⟩ := hr
  refine ilock.seq fun _ => (type (.head _)).seq fun _ => ite ?_ ?_
  · exact iunlockput.seq fun _ => endOp.seq fun _ => pure rfl
  refine (change (.head _) _).seq fun _ => (iunlock (.head _)).seq
    fun _ => (namex true hnew).bind ?_
  rintro (_ | ⟨dp, name⟩) τ₂ hr
  · subst hr
    exact linkBad
  obtain ⟨j, w, rfl⟩ := hr
  refine ilock.seq fun _ => (inum (.tail _ (.head _))).bind ?_
  rintro _ _ ⟨⟨rfl, hi⟩, rfl⟩
  refine (dirlink (.head _) name hi).seq fun _ => ite ?_ ?_
  · exact iunlockput.seq fun _ => linkBad
  · exact iunlockput.seq fun _ => iput.seq fun _ => endOp.seq fun _ => pure rfl

lemma unlinkBad : Uses base (⟨k, i, v⟩ :: τ) (unlinkBad k : Kern (Afs V) _) fun _ τ' => τ' = τ :=
  iunlockput.seq fun _ => endOp.seq fun _ => pure rfl

/-- **`sys_unlink`.** -/
lemma sysUnlink (hcwd : CwdOk base cwd path) :
    Uses base τ (sysUnlink cwd path : Kern (Afs V) _) fun _ τ' => τ' = τ := by
  refine beginOp.seq fun _ => (namex true hcwd).bind ?_
  rintro (_ | ⟨dp, name⟩) τ₁ hr
  · subst hr
    exact endOp.seq fun _ => pure rfl
  obtain ⟨i, v, rfl⟩ := hr
  refine ilock.seq fun _ => ite unlinkBad ((dirlookup (.head _) name).bind ?_)
  rintro (_ | ⟨ip, off⟩) τ₂ hr
  · subst hr
    exact unlinkBad
  obtain ⟨i', j, rfl, rfl⟩ := hr
  refine ilock.seq fun _ => (nlink (.head _)).seq fun _ => ite
    (panic (by decide)) ((nonemptyDir (.head _)).seq fun _ => ite ?_ ?_)
  · exact iunlockput.seq fun _ => unlinkBad
  have hip : (⟨ip, i', true⟩ : Ref) ∈ (⟨ip, i', true⟩ :: ⟨dp, i, true⟩ :: τ) := .head _
  have hdp : (⟨dp, i, true⟩ : Ref) ∈ (⟨ip, i', true⟩ :: ⟨dp, i, true⟩ :: τ) :=
    .tail _ (.head _)
  refine (writei_dirent hdp (by simp) (fun _ _ h => absurd h (by simp [Dirent.entry])) j).seq
    fun _ => ite (panic (by decide)) ((type hip).seq fun _ => ?_)
  have hrest : Uses base (⟨ip, i', true⟩ :: ⟨dp, i, true⟩ :: τ) (do
      Col331.iunlockput dp
      decNlink ip
      Col331.iunlockput ip
      InodeLayer.endOp
      return 0 : Kern (Afs V) ℤ) fun _ τ' => τ' = τ :=
    swap (iunlockput.seq fun _ => (change (.head _) _).seq fun _ =>
      iunlockput.seq fun _ => endOp.seq fun _ => pure rfl)
  split_ifs
  · exact (change hdp _).seq fun _ => hrest
  · exact hrest

lemma createDotEntries {dp ip : Fin ninode} {j : ℕ} (hdp : ⟨dp, j, true⟩ ∈ τ) (hip : ⟨ip, i, true⟩ ∈ τ) :
    Uses base τ (createDotEntries dp ip : Kern (Afs V) _) fun _ τ' => τ' = τ := by
  refine (change hdp _).seq fun _ => (inum hip).bind ?_
  rintro _ _ ⟨⟨rfl, hi⟩, rfl⟩
  refine (dirlink hip _ hi).seq fun _ => ite (panic (by decide)) ((inum hdp).bind ?_)
  rintro _ _ ⟨⟨rfl, hj⟩, rfl⟩
  exact (dirlink hip _ hj).seq fun _ => ite (panic (by decide)) (pure rfl)

lemma createNew {dp : Fin ninode} (name : List UInt8) (type major minor : Int16) :
    Uses base (⟨dp, i, true⟩ :: τ) (createNew dp name type major minor : Kern (Afs V) _)
      fun ip τ' => ∃ i', τ' = ⟨ip, i', true⟩ :: τ := by
  refine (ialloc type).bind ?_
  rintro ip _ ⟨i', rfl⟩
  have hip : (⟨ip, i', true⟩ : Ref) ∈ (⟨ip, i', true⟩ :: ⟨dp, i, true⟩ :: τ) := .head _
  have hdp : (⟨dp, i, true⟩ : Ref) ∈ (⟨ip, i', true⟩ :: ⟨dp, i, true⟩ :: τ) :=
    .tail _ (.head _)
  refine ilock.seq fun _ => (change hip _).seq fun _ => ?_
  have hrest : Uses base (⟨ip, i', true⟩ :: ⟨dp, i, true⟩ :: τ) (do
      if (← Col331.dirlink dp name (← InodeLayer.inum ip)) < 0 then Col331.panic .createDirlink
      else
        Col331.iunlockput dp
        return ip : Kern (Afs V) (Fin ninode)) fun ip τ' => ∃ i', τ' = ⟨ip, i', true⟩ :: τ := by
    refine (inum hip).bind ?_
    rintro _ _ ⟨⟨rfl, hi⟩, rfl⟩
    refine (dirlink hdp name hi).seq fun _ => ite (panic (by decide)) ?_
    exact swap (iunlockput.seq fun _ => pure ⟨_, rfl⟩)
  split_ifs
  · exact (createDotEntries hdp hip).seq fun _ => hrest
  · exact hrest

/-- **`create`.** -/
lemma create (hcwd : CwdOk base cwd path) (type major minor : Int16) :
    Uses base τ (create cwd path type major minor : Kern (Afs V) _) fun r τ' => match r with
      | none => τ' = τ
      | some ip => ∃ i, τ' = ⟨ip, i, true⟩ :: τ := by
  refine (namex true hcwd).bind ?_
  rintro (_ | ⟨dp, name⟩) τ₁ hr
  · exact pure hr
  obtain ⟨i, v, rfl⟩ := hr
  refine ilock.seq fun _ => (dirlookup (.head _) name).bind ?_
  rintro (_ | ⟨ip, off⟩) τ₂ hr
  · subst hr
    exact (createNew name type major minor).map fun ip τ' hr => hr
  · obtain ⟨i', j, -, rfl⟩ := hr
    refine swap (iunlockput.seq fun _ => ilock.seq fun _ => (Uses.type (.head _)).seq
      fun _ => ite (pure ⟨i', rfl⟩) (iunlockput.seq fun _ => pure rfl))

end Uses

end Col331
