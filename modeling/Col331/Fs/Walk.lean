import Col331.Fs.Links

/-!
What the operations do to references and inodes, and walks through linked directories.

* `Does base τ n x Q`: from a state with the references `τ` and the inodes `n`, the code `x` leads to
  references and inodes as in `Q`; it never stops in `ilock` or in `sys_unlink`.
* `Walkable V n`: the directories form a tree, and what is linked has links.
* `Does.namex`: a walk from a linked directory changes no inode and ends at a linked one.
-/

namespace Col331

open InodeLayer Function Prog

variable {V : Volume} {α β : Type}

/-- The code `x` turns the references `τ` and the inodes `n` into some as in `Q`. -/
def Does (base : Fin ninode → Slot) (τ : List Ref) (n : ℕ → Node) (x : Kern (Afs V) α)
    (Q : α → List Ref → (ℕ → Node) → Prop) : Prop :=
  ∀ a, Holds base τ a → a.node = n →
    wp x (fun r a' => ∃ τ', Q r τ' a'.node ∧ Holds base τ' a') Stop.Tame a

namespace Does

variable {base : Fin ninode → Slot} {τ τ' : List Ref} {n n' : ℕ → Node} {k : Fin ninode} {i : ℕ}
  {v : Bool}

/-! ### Rules -/

variable {Q : α → List Ref → (ℕ → Node) → Prop} {R : β → List Ref → (ℕ → Node) → Prop}
  {x : Kern (Afs V) α} {f : α → Kern (Afs V) β}

lemma pure {r : α} (h : Q r τ n) :
    Does base τ n (Pure.pure r : Kern (Afs V) α) Q := fun _ ha hn => ⟨τ, hn ▸ h, ha⟩

lemma bind
    (hx : Does base τ n x Q)
    (hf : ∀ r τ' n', Q r τ' n' → Does base τ' n' (f r) R) : Does base τ n (x >>= f) R := by
  intro a ha hn
  refine wp_seq (hx a ha hn) ?_
  rintro r a' ⟨τ', hQ, ha'⟩
  exact hf r τ' _ hQ a' ha' rfl

lemma mono {Q R : α → List Ref → (ℕ → Node) → Prop} (hx : Does base τ n x Q)
    (h : ∀ r τ' n', Q r τ' n' → R r τ' n') : Does base τ n x R := by
  intro a ha hn
  refine wp_post (hx a ha hn) ?_
  rintro r a' ⟨τ', hQ, ha'⟩
  exact ⟨τ', h r τ' _ hQ, ha'⟩

lemma map {f : α → β}
    (hx : Does base τ n x Q)
    (hf : ∀ r τ' n', Q r τ' n' → R (f r) τ' n') : Does base τ n (f <$> x) R := by
  intro a ha hn
  rw [wp_map]
  refine wp_post (hx a ha hn) ?_
  rintro r a' ⟨τ', hQ, ha'⟩
  exact ⟨τ', hf r τ' _ hQ, ha'⟩

/-- A step after which references and inodes are known. -/
lemma seq
    (hx : Does base τ n x fun _ τ₁ n₁ => τ₁ = τ' ∧ n₁ = n') (hf : ∀ r, Does base τ' n' (f r) R) :
    Does base τ n (x >>= f) R := by
  refine hx.bind ?_
  rintro r _ _ ⟨rfl, rfl⟩
  exact hf r

/-- A step that reads a value and changes nothing. -/
lemma read {w : α}
   
    (hx : Does base τ n x fun r τ₁ n₁ => r = w ∧ τ₁ = τ ∧ n₁ = n) (hf : Does base τ n (f w) R) :
    Does base τ n (x >>= f) R := by
  refine hx.bind ?_
  rintro _ _ _ ⟨rfl, rfl, rfl⟩
  exact hf

/-- A step that changes no inode. -/
lemma look {Q : α → List Ref → Prop}
    (hx : Does base τ n x fun r τ₁ n₁ => n₁ = n ∧ Q r τ₁)
    (hf : ∀ r τ₁, Q r τ₁ → Does base τ₁ n (f r) R) : Does base τ n (x >>= f) R := by
  refine hx.bind ?_
  rintro r τ₁ _ ⟨rfl, hQ⟩
  exact hf r τ₁ hQ

lemma swap {t u : Ref}
    (h : Does base (u :: t :: τ) n x Q) : Does base (t :: u :: τ) n x Q :=
  fun a ha hn => h a ha.swap hn

/-! ### The inode layer -/

lemma iget (hi : i < V.ninodes) : Does base τ n (iget i : Kern (Afs V) _)
    fun k τ' n' => τ' = ⟨k, i, false⟩ :: τ ∧ n' = n := by
  rintro a ha rfl
  refine wp_post (ha.iget hi) ?_
  rintro k a' ⟨hh, hn⟩
  exact ⟨_, ⟨rfl, hn⟩, hh⟩

lemma ilock (htype : v = true ∨ (n i).type ≠ 0) : Does base (⟨k, i, v⟩ :: τ) n (ilock k : Kern (Afs V) _)
    fun _ τ' n' => τ' = ⟨k, i, true⟩ :: τ ∧ n' = n := by
  rintro a ha rfl
  refine wp_post (ha.ilock (fun _ he => he) (htype.imp_right .inl)) ?_
  rintro _ a' ⟨hh, hn⟩
  exact ⟨_, ⟨rfl, hn⟩, hh⟩

lemma iunlock (ht : ⟨k, i, v⟩ ∈ τ) : Does base τ n (iunlock k : Kern (Afs V) _)
    fun _ τ' n' => τ' = τ ∧ n' = n := by
  rintro a ha rfl
  refine wp_post (ha.iunlock (ha.pos ht)) ?_
  rintro _ a' ⟨hh, hn⟩
  exact ⟨_, ⟨rfl, hn⟩, hh⟩

lemma idup (hk : 0 < (base k).ref) : Does base τ n (idup k : Kern (Afs V) _)
    fun _ τ' n' => τ' = ⟨k, (base k).inum, (base k).valid⟩ :: τ ∧ n' = n := by
  rintro a ha rfl
  refine wp_post (ha.idup hk) ?_
  rintro _ a' ⟨hh, hn⟩
  exact ⟨_, ⟨rfl, hn⟩, hh⟩

/-- `iput` of an inode that has links. -/
lemma iput (hi : (n i).nlink ≠ 0) : Does base (⟨k, i, v⟩ :: τ) n (iput k : Kern (Afs V) _)
    fun _ τ' n' => τ' = τ ∧ n' = n := by
  rintro a ha rfl
  refine wp_post ha.iput ?_
  rintro _ a' ⟨hh, hn⟩
  rw [Afs.putNodes, if_neg fun h => hi h.2.2] at hn
  exact ⟨_, ⟨rfl, hn⟩, hh⟩

lemma iunlockput (hi : (n i).nlink ≠ 0) : Does base (⟨k, i, v⟩ :: τ) n (iunlockput k : Kern (Afs V) _)
    fun _ τ' n' => τ' = τ ∧ n' = n :=
  (iunlock (.head _)).seq fun _ => iput hi

/-- `ialloc` takes a free inode. -/
lemma ialloc (type : Int16) : Does base τ n (ialloc type : Kern (Afs V) _)
    fun k τ' n' => ∃ i, (0 < i ∧ i < V.ninodes ∧ (n i).type = 0) ∧ τ' = ⟨k, i, false⟩ :: τ ∧
      n' = update n i { Node.free with type := type } := by
  rintro a ha rfl
  change wp (Afs.ialloc type) _ _ _
  simp only [Afs.ialloc, wp_bind, wp_get]
  cases hf : a.freeInode? with
  | none => exact (by decide : Stop.Tame (.panic .iallocNone))
  | some i =>
    have hmem := List.mem_of_find?_eq_some hf
    rw [List.mem_range'_1] at hmem
    have htype : (a.node i).type = 0 := by simpa using List.find?_some hf
    simp only [wp_bind, wp_set]
    refine wp_post ((ha.setNode i _).iget (by omega)) ?_
    rintro k a' ⟨hh, hn⟩
    exact ⟨_, ⟨i, ⟨by omega, by omega, htype⟩, rfl, hn⟩, hh⟩

lemma inum (ht : ⟨k, i, v⟩ ∈ τ) : Does base τ n (inum k : Kern (Afs V) _)
    fun r τ' n' => r = i ∧ τ' = τ ∧ n' = n :=
  fun _ ha hn => (ha.wp_inum ht).mpr ⟨τ, ⟨rfl, rfl, hn⟩, ha⟩

lemma beginOp : Does base τ n (beginOp : Kern (Afs V) _) fun _ τ' n' => τ' = τ ∧ n' = n :=
  pure ⟨rfl, rfl⟩

lemma endOp : Does base τ n (endOp : Kern (Afs V) _) fun _ τ' n' => τ' = τ ∧ n' = n := pure ⟨rfl, rfl⟩

section Locked

variable (ht : ⟨k, i, true⟩ ∈ τ)

include ht

lemma type : Does base τ n (type k : Kern (Afs V) _)
    fun r τ' n' => r = (n i).type ∧ τ' = τ ∧ n' = n := by
  rintro a ha rfl
  exact (ha.wp_type ht).mpr ⟨τ, ⟨rfl, rfl, rfl⟩, ha⟩

lemma nlink : Does base τ n (nlink k : Kern (Afs V) _)
    fun r τ' n' => r = (n i).nlink ∧ τ' = τ ∧ n' = n := by
  rintro a ha rfl
  exact (ha.wp_nlink ht).mpr ⟨τ, ⟨rfl, rfl, rfl⟩, ha⟩

/-- An assignment to the attributes. -/
lemma change (f : Attr → Attr) : Does base τ n (change k f : Kern (Afs V) _) fun _ τ' n' =>
    τ' = τ ∧ n' = update n i { n i with
      major := (f ⟨(n i).major, (n i).minor, (n i).nlink⟩).major
      minor := (f ⟨(n i).major, (n i).minor, (n i).nlink⟩).minor
      nlink := (f ⟨(n i).major, (n i).minor, (n i).nlink⟩).nlink } := by
  rintro a ha rfl
  rw [ha.wp_change ht]
  exact ⟨τ, ⟨rfl, rfl⟩, ha.setNode _ _⟩

lemma incNlink : Does base τ n (incNlink k : Kern (Afs V) _) fun _ τ' n' =>
    τ' = τ ∧ n' = update n i { n i with nlink := (n i).nlink + 1 } := change ht _

lemma decNlink : Does base τ n (decNlink k : Kern (Afs V) _) fun _ τ' n' =>
    τ' = τ ∧ n' = update n i { n i with nlink := (n i).nlink - 1 } := change ht _

variable (hdir : (n i).type = tDir)

include hdir

/-- `dirlookup` in a directory. -/
lemma dirlookup (hrange : (n i).InRange V) (name : List UInt8) :
    Does base τ n (dirlookup k name : Kern (Afs V) _) fun r τ' n' => n' = n ∧ match r with
      | none => τ' = τ ∧ ∀ j i', (n i).entry j ≠ some (i', cstr dirsiz name)
      | some (k', off) => ∃ j i', off = direntSize * j ∧
          (n i).entry j = some (i', cstr dirsiz name) ∧ τ' = ⟨k', i', false⟩ :: τ := by
  rintro a ha rfl
  refine wp_post (ha.dirlookup ht hdir hrange name) ?_
  rintro (_ | ⟨k', off⟩) a' hr
  · obtain ⟨rfl, hr⟩ := hr
    refine ⟨τ, ⟨rfl, rfl, fun j i' heq => ?_⟩, ha⟩
    by_cases hlt : direntSize * j < (a'.node i).content.length
    · exact (hr j hlt).2 i' heq
    · rw [Node.entry_of_length_le (not_lt.mp hlt)] at heq
      nomatch heq
  · obtain ⟨j, i', hoff, hentry, hh, hn⟩ := hr
    exact ⟨_, ⟨hn, j, i', hoff, hentry, rfl⟩, hh⟩

/-- `dirlink` in a directory whose entries name inodes with links. -/
lemma dirlink (hrange : (n i).InRange V) (name : List UInt8) (q : ℕ)
    (hfound : ∀ j i', (n i).entry j = some (i', cstr dirsiz name) → (n i').nlink ≠ 0) :
    Does base τ n (dirlink k name q : Kern (Afs V) _) fun r τ' n' => τ' = τ ∧
      ((r = -1 ∧ n' = n ∧ ∃ j i', (n i).entry j = some (i', cstr dirsiz name)) ∨
        (r = 0 ∧ (∀ j i', (n i).entry j ≠ some (i', cstr dirsiz name)) ∧
          ∃ j, (n i).entry j = none ∧ direntSize * j ≤ (n i).content.length ∧
            n' = update n i
              ((n i).setEntry j ⟨UInt16.ofNat q, strncpy name dirsiz⟩))) := by
  rintro a ha rfl
  refine wp_post (ha.dirlink ht hdir hrange name q) ?_
  rintro r a' (⟨hr, hh, j, i', hentry, hn⟩ | ⟨hr, -, hfresh, j, hnone, hle, rfl⟩)
  · refine ⟨τ, ⟨rfl, .inl ⟨hr, ?_, j, i', hentry⟩⟩, hh⟩
    rcases hn with hn | ⟨h0, -⟩
    · exact hn
    · exact absurd h0 (hfound j i' hentry)
  · exact ⟨τ, ⟨rfl, .inr ⟨hr, hfresh, j, hnone, hle, rfl⟩⟩, ha.setNode _ _⟩

omit hdir in
/-- `ip->type == T_DIR && !isdirempty(ip)`. -/
lemma nonemptyDir : Does base τ n (nonemptyDir k : Kern (Afs V) _) fun r τ' n' => τ' = τ ∧ n' = n ∧
    (r = false → (n i).type = tDir → ∀ j, 2 ≤ j → (n i).entry j = none) := by
  rintro a ha rfl
  rw [Col331.nonemptyDir, wp_bind, ha.wp_type ht]
  split_ifs with hdir
  · refine wp_seq (ha.isdirempty ht hdir) ?_
    rintro b a' ⟨rfl, hb⟩
    exact ⟨τ, ⟨rfl, rfl, fun hr _ => hb (by simpa using hr)⟩, ha⟩
  · exact ⟨τ, ⟨rfl, rfl, fun _ h => absurd h hdir⟩, ha⟩

/-- An entry is written to a slot. -/
lemma writei_dirent (de : Dirent) (j : ℕ) :
    Does base τ n (writei k de.bytes (direntSize * j) : Kern (Afs V) _) fun r τ' n' =>
      r = direntSize → τ' = τ ∧ n' = update n i ((n i).setEntry j de) := by
  rintro a ha rfl
  refine wp_post (ha.writei ht (by rw [hdir]; decide) _ _) ?_
  rintro r a' (⟨rfl, rfl⟩ | ⟨-, -, rfl⟩)
  · exact ⟨τ, nofun, ha⟩
  · exact ⟨τ, fun _ => ⟨rfl, rfl⟩, ha.setNode _ _⟩

end Locked

end Does

/-! ### Walks -/

/-- The directories form a tree, and what is linked has links. -/
structure Walkable (V : Volume) (n : ℕ → Node) : Prop where
  tree : (dirsOf V n).Tree
  nlink : ∀ i, (dirsOf V n).Linked i → (n i).nlink ≠ 0

lemma Links.walkable {n : ℕ → Node} (h : Links V n) : Walkable V n :=
  ⟨h.tree, fun _ hi => h.nlink_ne_zero hi⟩

namespace Walkable

variable {n : ℕ → Node} (h : Walkable V n) {d i j : ℕ} {x : List UInt8}

include h

lemma type (hi : (dirsOf V n).Linked i) : i < V.ninodes ∧ (n i).type ≠ 0 := h.tree.alloc_of_linked hi

/-- The entries of a linked directory name linked inodes. -/
lemma linked_of_entry (hd : (dirsOf V n).Linked d) (hx : (n d).entry j = some (i, x)) :
    (dirsOf V n).Linked i := h.tree.linked_of_ent hd ((ent_dirsOf (h.type hd).1 j).trans hx)

lemma inRange (hd : (dirsOf V n).Linked d) : (n d).InRange V := fun _ _ _ hx =>
  (h.type (h.linked_of_entry hd hx)).1

end Walkable

namespace Does

variable {base : Fin ninode → Slot} {τ : List Ref} {n : ℕ → Node}

/-- The end of a walk: nothing, or a linked inode, which for `nameiparent` is a directory and has been
locked. -/
def Walked (V : Volume) (τ : List Ref) (n : ℕ → Node) (parent : Bool)
    (r : Option (Fin ninode × List UInt8)) (τ' : List Ref) : Prop :=
  match r with
  | none => τ' = τ
  | some (k, _) => ∃ i v, τ' = ⟨k, i, v⟩ :: τ ∧ (dirsOf V n).Linked i ∧
      (parent = true → (n i).type = tDir ∧ v = true)

/-- The loop of `namex`, by induction on the elements left: every inode on the way is linked. -/
lemma namexLoop (h : Walkable V n) (parent : Bool) (path : List (List UInt8)) (k : Fin ninode) (i : ℕ)
    (v : Bool) (hi : (dirsOf V n).Linked i) :
    Does base (⟨k, i, v⟩ :: τ) n (namexLoop parent k path : Kern (Afs V) _)
      fun r τ' n' => n' = n ∧ Walked V τ n parent r τ' := by
  induction path generalizing k i v with
  | nil =>
    rw [Col331.namexLoop]
    split_ifs with hp
    · exact (iput (h.nlink i hi)).seq fun _ => pure ⟨rfl, rfl⟩
    · exact pure ⟨rfl, i, v, rfl, hi, fun h0 => absurd h0 hp⟩
  | cons name path ih =>
    rw [Col331.namexLoop]
    refine (ilock (.inr (h.type hi).2)).seq fun _ => (type (.head _)).read ?_
    split_ifs with hdir hlast
    · exact (iunlockput (h.nlink i hi)).seq fun _ => pure ⟨rfl, rfl⟩
    · exact (iunlock (.head _)).seq fun _ =>
        pure ⟨rfl, i, true, rfl, hi, fun _ => ⟨not_not.mp hdir, rfl⟩⟩
    · refine (dirlookup (.head _) (not_not.mp hdir) (h.inRange hi) name).look ?_
      rintro (_ | ⟨k', off⟩) τ' hr
      · obtain ⟨rfl, -⟩ := hr
        exact (iunlockput (h.nlink i hi)).seq fun _ => pure ⟨rfl, rfl⟩
      · obtain ⟨j, i', -, hentry, rfl⟩ := hr
        exact swap ((iunlockput (h.nlink i hi)).seq fun _ =>
          ih k' i' false (h.linked_of_entry hi hentry))

/-- A path that is not absolute starts from a linked directory. -/
def CwdLinked (V : Volume) (base : Fin ninode → Slot) (n : ℕ → Node) (cwd : Fin ninode)
    (path : List UInt8) : Prop :=
  path.headD 0 ≠ slash → 0 < (base cwd).ref ∧ (dirsOf V n).Linked (base cwd).inum

variable {cwd : Fin ninode} {path : List UInt8}

/-- **Walks from linked directories.** -/
lemma namex (h : Walkable V n) (parent : Bool) (hcwd : CwdLinked V base n cwd path) :
    Does base τ n (namex cwd path parent : Kern (Afs V) _)
      fun r τ' n' => n' = n ∧ Walked V τ n parent r τ' := by
  rw [Col331.namex]
  split_ifs with hslash
  · refine (iget V.rootIno).bind ?_
    rintro k _ _ ⟨rfl, rfl⟩
    exact namexLoop h parent _ k _ _ (.inl rfl)
  · obtain ⟨hk, hlinked⟩ := hcwd hslash
    exact (idup hk).seq fun _ => namexLoop h parent _ cwd _ _ hlinked

lemma namei (h : Walkable V n) (hcwd : CwdLinked V base n cwd path) :
    Does base τ n (namei cwd path : Kern (Afs V) _) fun r τ' n' => n' = n ∧ match r with
      | none => τ' = τ
      | some k => ∃ i v, τ' = ⟨k, i, v⟩ :: τ ∧ (dirsOf V n).Linked i := by
  refine (namex h false hcwd).look ?_
  rintro (_ | ⟨k, name⟩) τ' hr
  · exact pure ⟨rfl, hr⟩
  · obtain ⟨i, v, rfl, hi, -⟩ := hr
    exact pure ⟨rfl, i, v, rfl, hi⟩

end Does

end Col331
