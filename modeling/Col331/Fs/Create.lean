import Col331.Fs.Calls

/-!
The calls that create inodes, or find them, keep the tree and the link counts.

* `Does.createDotEntries`: the first two entries of a new directory.
* `Does.createNew`, `Does.create`: a new file, device or directory, or one that is there already.
* `Does.openInode`, `Does.chdirInode`: the inode that `sys_open` and `sys_chdir` go on with.
-/

namespace Col331

open InodeLayer Function

variable {V : Volume} {base : Fin ninode → Slot} {ty : Fin ninode → Int16} {τ : List Ref}
  {n n' : ℕ → Node}

/-- A new inode of the table, named by a new entry, is held. -/
lemma Ready.create (h : Ready V base ty τ n) {d i : ℕ} (hi : (n i).type = 0)
    (hl : Links V n' ∧ (dirsOf V n').Linked i) (hdt : (n' d).type = (n d).type) (hdl : (n' d).nlink ≠ 0)
    (hother : ∀ i', i' ≠ d → i' ≠ i → n' i' = n i') (ip : Fin ninode) :
    Ready V base ty (⟨ip, i, true⟩ :: τ) n' := by
  refine h.change hl.1 (fun i' hi' => ?_) (fun t ht => ?_)
    (fun t ht hv => .inl ⟨t, .tail _ ht, rfl, hv⟩) fun i' hi' h0 => ?_
  · by_cases h1 : i' = d
    · rw [h1, hdt]
    · by_cases h2 : i' = i
      · rw [h2] at hi'
        exact absurd hi hi'
      · rw [hother i' h1 h2]
  · rcases List.mem_cons.mp ht with rfl | ht
    · exact .inr (hl.1.type_of_linked hl.2).2
    · exact .inl ht
  · by_cases h1 : i' = d
    · rw [h1] at h0
      exact absurd h0 hdl
    · by_cases h2 : i' = i
      · rw [h2] at h0
        exact absurd h0 (hl.1.nlink_ne_zero hl.2)
      · rw [hother i' h1 h2] at h0
        refine .inl ⟨⟨hi'.1, ?_⟩, h0⟩
        have := hi'.2
        rwa [hother i' h1 h2] at this

namespace Does

variable {cwd k dp ip : Fin ninode} {d i : ℕ}

/-- A name that is not there is linked at the slot that `dirlink` finds. -/
lemma dirlink_new (ht : ⟨k, i, true⟩ ∈ τ) (hdir : (n i).type = tDir) (hrange : (n i).InRange V)
    (name : List UInt8) (q : ℕ) (hfresh : ∀ j i', (n i).entry j ≠ some (i', cstr dirsiz name)) :
    Does base τ n (Col331.dirlink k name q : Kern (Afs V) _) fun r τ' n' => r = 0 ∧ τ' = τ ∧
      ∃ j, (n i).entry j = none ∧ direntSize * j ≤ (n i).content.length ∧
        n' = update n i ((n i).setEntry j ⟨UInt16.ofNat q, strncpy name dirsiz⟩) := by
  refine (dirlink ht hdir hrange name q fun j i' he => absurd he (hfresh j i')).mono ?_
  rintro r _ _ ⟨rfl, ⟨-, -, j, i', he⟩ | ⟨rfl, -, hj⟩⟩
  · exact absurd he (hfresh j i')
  · exact ⟨rfl, rfl, hj⟩

/-- **The first two entries of a new directory.** -/
lemma createDotEntries (hdp : ⟨dp, d, true⟩ ∈ τ) (hip : ⟨ip, i, true⟩ ∈ τ) (hne : i ≠ d)
    (hd : 0 < d ∧ d < V.ninodes) (hi : 0 < i ∧ i < V.ninodes) (htype : (n i).type = tDir)
    (hcontent : (n i).content = []) :
    Does base τ n (createDotEntries dp ip : Kern (Afs V) _) fun _ τ' n' => τ' = τ ∧
      (∀ i', i' ≠ d → i' ≠ i → n' i' = n i') ∧ n' d = { n d with nlink := (n d).nlink + 1 } ∧
      (n' i).type = tDir ∧ (n' i).nlink = (n i).nlink ∧
      ∀ j, (n' i).entry j = if j = 0 then some (i, dot) else if j = 1 then some (d, dotdot) else none := by
  have hcdot : cstr dirsiz dot = dot := by decide
  have hcdotdot : cstr dirsiz dotdot = dotdot := by decide
  have hnone : ∀ j, (n i).entry j = none := fun j =>
    Node.entry_of_length_le (by rw [hcontent]; exact Nat.zero_le _)
  refine (incNlink hdp).seq fun _ => (inum hip).read ?_
  set n₁ := update n d { n d with nlink := (n d).nlink + 1 }
  have hn₁ : n₁ i = n i := update_of_ne hne ..
  have hn₁d : n₁ d = { n d with nlink := (n d).nlink + 1 } := update_self ..
  have hn₁o : ∀ i', i' ≠ d → n₁ i' = n i' := fun i' h => update_of_ne h ..
  -- the directory is empty, so `.` goes to slot 0
  refine (dirlink_new hip (by rw [hn₁]; exact htype) (fun j i' x hx => ?_) dot i
    (fun j i' hx => ?_)).bind ?_
  · rw [hn₁, hnone] at hx
    nomatch hx
  · rw [hn₁, hnone] at hx
    nomatch hx
  rintro _ _ _ ⟨rfl, rfl, j₀, -, hle₀, rfl⟩
  rw [hn₁] at hle₀ ⊢
  have hj₀ : j₀ = 0 := by
    rw [hcontent] at hle₀
    simp only [direntSize, dirsiz, List.length_nil] at hle₀
    omega
  subst hj₀
  set c₁ := (n i).setEntry 0 ⟨UInt16.ofNat i, strncpy dot dirsiz⟩
  have htype₁ : c₁.type = tDir := htype
  have hent₁ : ∀ j, c₁.entry j = if j = 0 then some (i, dot) else none := by
    intro j
    rw [Node.entry_setEntry htype (strncpy_length _ _) hle₀, Dirent.entry_new hi.1 hi.2, hcdot, hnone]
  have hlen₁ : c₁.content.length = direntSize := by
    rw [Node.length_setEntry (strncpy_length _ _) hle₀, hcontent]
    rfl
  rw [if_neg (by decide)]
  refine (inum hdp).read ?_
  set n₂ := update n₁ i c₁
  have hn₂ : n₂ i = c₁ := update_self ..
  have hn₂o : ∀ i', i' ≠ i → n₂ i' = n₁ i' := fun i' h => update_of_ne h ..
  -- slot 0 is taken and there is one slot only, so `..` goes to slot 1
  refine (dirlink_new hip (by rw [hn₂]; exact htype₁) (fun j i' x hx => ?_) dotdot d
    (fun j i' hx => ?_)).bind ?_
  · rw [hn₂, hent₁] at hx
    split_ifs at hx
    rw [← (Prod.mk.inj (Option.some.inj hx)).1]
    exact hi.2
  · rw [hn₂, hent₁, hcdotdot] at hx
    split_ifs at hx
    exact absurd (Prod.mk.inj (Option.some.inj hx)).2 (by decide)
  rintro _ _ _ ⟨rfl, rfl, j₁, hfree₁, hle₁, rfl⟩
  rw [hn₂] at hfree₁ hle₁ ⊢
  have hj₁ : j₁ = 1 := by
    rw [hlen₁] at hle₁
    have h0 : j₁ ≠ 0 := fun h0 => by
      rw [hent₁, if_pos h0] at hfree₁
      nomatch hfree₁
    simp only [direntSize, dirsiz] at hle₁
    omega
  subst hj₁
  rw [if_neg (by decide)]
  refine pure ⟨rfl, fun i' h1 h2 => ?_, ?_, ?_, ?_, fun j => ?_⟩
  · rw [update_of_ne h2, hn₂o i' h2, hn₁o i' h1]
  · rw [update_of_ne (Ne.symm hne), hn₂o d (Ne.symm hne), hn₁d]
  · rw [update_self]
    exact htype
  · rw [update_self]
    rfl
  · rw [update_self, Node.entry_setEntry htype₁ (strncpy_length _ _) hle₁,
      Dirent.entry_new hd.1 hd.2, hcdotdot, hent₁]
    by_cases h1 : j = 1
    · simp [h1]
    · simp [h1]

/-- The end of `create`: the new inode is linked into the directory. -/
lemma createLink (hdir : (n d).type = tDir) (hrange : (n d).InRange V) (hnlink : (n d).nlink ≠ 0)
    {name : List UInt8} (hfresh : ∀ j i', (n d).entry j ≠ some (i', cstr dirsiz name)) :
    Does base (⟨ip, i, true⟩ :: ⟨dp, d, true⟩ :: τ) n (do
      if (← Col331.dirlink dp name (← InodeLayer.inum ip)) < 0 then Col331.panic .createDirlink
      else
        Col331.iunlockput dp
        return ip : Kern (Afs V) (Fin ninode)) fun r τ' n' => r = ip ∧ τ' = ⟨ip, i, true⟩ :: τ ∧
      ∃ j, (n d).entry j = none ∧ direntSize * j ≤ (n d).content.length ∧
        n' = update n d ((n d).setEntry j ⟨UInt16.ofNat i, strncpy name dirsiz⟩) := by
  refine (inum (.head _)).read ?_
  refine (dirlink_new (.tail _ (.head _)) hdir hrange name i hfresh).bind ?_
  rintro _ _ _ ⟨rfl, rfl, j, hfree, hle, rfl⟩
  rw [if_neg (by decide)]
  refine swap ((iunlockput ?_).seq fun _ => pure ⟨rfl, rfl, j, hfree, hle, rfl⟩)
  rw [update_self]
  exact hnlink

/-- **A new inode.** -/
lemma createNew (h : Ready V base ty τ n) (hr : Roomy V n) (hd : (dirsOf V n).Linked d)
    (hdir : (n d).type = tDir) {name : List UInt8} {type : Int16} (htype : type ≠ 0)
    (major minor : Int16) (hfresh : ∀ j i', (n d).entry j ≠ some (i', cstr dirsiz name)) :
    Does base (⟨dp, d, true⟩ :: τ) n (createNew dp name type major minor : Kern (Afs V) _)
      fun ip τ' n' => ∃ i, τ' = ⟨ip, i, true⟩ :: τ ∧ Ready V base ty τ' n' ∧
        (dirsOf V n').Linked i ∧ (n' i).type = type := by
  have hl := h.links
  have hdlt := hl.type_of_linked hd
  refine (ialloc type).bind ?_
  rintro ip _ _ ⟨i, ⟨hi0, hilt, hfree⟩, rfl, rfl⟩
  have hne : i ≠ d := fun h0 => hdlt.2 (h0 ▸ hfree)
  refine (ilock (.inr (by rw [update_self]; exact htype))).seq fun _ => ?_
  refine (change (.head _) _).seq fun _ => ?_
  rw [update_self, update_idem]
  set n₂ := update n i { Node.free with type := type, major := major, minor := minor, nlink := 1 }
  have hn₂i : n₂ i = ⟨type, major, minor, 1, []⟩ := update_self ..
  have hn₂o : ∀ i', i' ≠ i → n₂ i' = n i' := fun i' hi' => update_of_ne hi' ..
  have hn₂d : n₂ d = n d := hn₂o d (Ne.symm hne)
  have hroom : ∀ j, (n d).entry j = none → (dirsOf V n).Room d j (cstr dirsiz name) := fun j hj =>
    room_of_entry hl hd hdir hj hfresh
  -- the entry for the new inode, in a directory whose content is that of `d`
  have hent : ∀ (m : Node) j, m.type = tDir → m.content = (n d).content →
      direntSize * j ≤ m.content.length → ∀ j',
      (m.setEntry j ⟨UInt16.ofNat i, strncpy name dirsiz⟩).entry j' =
        if j' = j then some (i, cstr dirsiz name) else (n d).entry j' := by
    intro m j hm hc hle j'
    rw [Node.entry_setEntry hm (strncpy_length _ _) hle, Dirent.entry_new hi0 hilt,
      Node.entry_congr (hm.trans hdir.symm) hc]
  by_cases ht : type = tDir
  · rw [if_pos ht]
    subst ht
    refine (createDotEntries (.tail _ (.head _)) (.head _) hne
      ⟨pos_of_linked hd, hdlt.1⟩ ⟨hi0, hilt⟩ (by rw [hn₂i]) (by rw [hn₂i])).bind ?_
    rintro _ _ n₃ ⟨rfl, hother, hn₃d, hn₃t, hn₃l, hn₃e⟩
    rw [hn₂d] at hn₃d
    have hadd := hr d hdlt
    have hpos := hl.nlink_pos hd
    have hn₃dl : (n₃ d).nlink ≠ 0 := fun h0 => by
      rw [hn₃d] at h0
      have : ((n d).nlink + 1).toInt = 0 := congrArg Int16.toInt h0
      omega
    have hn₃dt : (n₃ d).type = tDir := by rw [hn₃d]; exact hdir
    have hn₃dc : (n₃ d).content = (n d).content := by rw [hn₃d]
    have hsame : ∀ j, (n₃ d).entry j = (n d).entry j := fun j =>
      Node.entry_congr (hn₃dt.trans hdir.symm) hn₃dc j
    refine (createLink hn₃dt (fun j i' x hx => hl.walkable.inRange hd j i' x (hsame j ▸ hx)) hn₃dl
      (fun j i' => by rw [hsame]; exact hfresh j i')).mono ?_
    rintro _ _ _ ⟨rfl, rfl, j, hj, hle, rfl⟩
    rw [hsame] at hj
    have hoth : ∀ i', i' ≠ d → i' ≠ i → update n₃ d ((n₃ d).setEntry j
        ⟨UInt16.ofNat i, strncpy name dirsiz⟩) i' = n i' := fun i' h1 h2 => by
      rw [update_of_ne h1, hother i' h1 h2, hn₂o i' h2]
    have hlinks := Links.addDir hoth (hroom j hj) hilt (by rw [update_self]; exact hn₃dt)
      (by rw [update_self]; exact hent _ j hn₃dt hn₃dc hle) hl hfree
      (by rw [update_of_ne hne]; exact hn₃t)
      (by rw [update_of_ne hne]; exact hn₃e)
      (by rw [update_self, hn₃d]; exact hadd)
      (by rw [update_of_ne hne, hn₃l, hn₂i])
    refine ⟨i, rfl, h.create hfree hlinks ?_ ?_ hoth _, hlinks.2, ?_⟩
    · rw [update_self]
      exact hn₃dt.trans hdir.symm
    · rw [update_self]
      exact hn₃dl
    · rw [update_of_ne hne]
      exact hn₃t
  · rw [if_neg ht]
    refine (createLink (by rw [hn₂d]; exact hdir) (by rw [hn₂d]; exact hl.walkable.inRange hd)
      (by rw [hn₂d]; exact hl.nlink_ne_zero hd) (by rw [hn₂d]; exact hfresh)).mono ?_
    rintro _ _ _ ⟨rfl, rfl, j, hj, hle, rfl⟩
    rw [hn₂d] at hj hle ⊢
    have hoth : ∀ i', i' ≠ d → i' ≠ i → update n₂ d ((n d).setEntry j
        ⟨UInt16.ofNat i, strncpy name dirsiz⟩) i' = n i' := fun i' h1 h2 => by
      rw [update_of_ne h1, hn₂o i' h2]
    have hcount : (dirsOf V n).counted i = ∅ := hl.tree.counted_of_not_linked fun hi =>
      (hl.type_of_linked hi).2 hfree
    have hold : (n i).type ≠ tDir := by rw [hfree]; decide
    have hlinks := Links.addEntry hoth (hroom j hj) hilt (by rw [update_self]; exact hdir)
      (by rw [update_self]; exact hent _ j hdir rfl hle) hl hold
      (by rw [update_of_ne hne, hn₂i]; exact ⟨htype, ht⟩)
      (by rw [update_self]; rfl)
      (by rw [update_of_ne hne, hn₂i, hcount, Set.ncard_empty]; rfl)
    refine ⟨i, rfl, h.create hfree hlinks ?_ ?_ hoth _, hlinks.2, ?_⟩
    · rw [update_self]
      rfl
    · rw [update_self]
      exact hl.nlink_ne_zero hd
    · rw [update_of_ne hne, hn₂i]

variable {path : List UInt8}

section

variable (h : Ready V base ty τ n)

include h

/-- **`create`**: the inode is linked, of the type asked for, and locked. -/
lemma create (hr : Roomy V n) (hcwd : CwdLinked V base n cwd path)
    {type : Int16} (htype : type ≠ 0) (major minor : Int16) :
    Does base τ n (create cwd path type major minor : Kern (Afs V) _) fun r τ' n' =>
      Ready V base ty τ' n' ∧ match r with
        | none => τ' = τ
        | some ip => ∃ i, τ' = ⟨ip, i, true⟩ :: τ ∧ (dirsOf V n').Linked i ∧ (n' i).type = type := by
  have hl := h.links
  have hw := hl.walkable
  refine (namex hw true hcwd).look ?_
  rintro (_ | ⟨dp, name⟩) τ₁ hres
  · exact pure ⟨hres ▸ h, hres⟩
  obtain ⟨d, v, rfl, hd, hpar⟩ := hres
  obtain ⟨hdir, rfl⟩ := hpar rfl
  refine (ilock (.inl rfl)).seq fun _ =>
    (dirlookup (.head _) hdir (hw.inRange hd) name).look ?_
  rintro (_ | ⟨ip, off⟩) τ₂ hres
  · obtain ⟨rfl, hfresh⟩ := hres
    refine (createNew h hr hd hdir htype major minor hfresh).map ?_
    rintro ip τ' n' ⟨i, rfl, hready, hi, ht⟩
    exact ⟨hready, i, rfl, hi, ht⟩
  · obtain ⟨j, i, -, hent, rfl⟩ := hres
    have hi := hw.linked_of_entry hd hent
    refine swap ((iunlockput (hw.nlink d hd)).seq fun _ => (ilock (.inr (hw.type hi).2)).seq
      fun _ => (Does.type (.head _)).read ?_)
    split_ifs with ht
    · exact pure ⟨h.cons hi, i, rfl, hi, ht.2.trans ht.1.symm⟩
    · exact (iunlockput (hw.nlink i hi)).seq fun _ => pure ⟨h, rfl⟩

/-- `sys_mkdir` and `sys_mknod`. -/
lemma sysCreate (hr : Roomy V n) (hcwd : CwdLinked V base n cwd path)
    {type : Int16} (htype : type ≠ 0) (major minor : Int16) :
    Does base τ n (sysCreate cwd path type major minor : Kern (Afs V) _)
      fun _ τ' n' => τ' = τ ∧ Ready V base ty τ n' := by
  refine beginOp.seq fun _ => (create h hr hcwd htype major minor).bind ?_
  rintro (_ | ip) τ' n' ⟨hready, hres⟩
  · subst hres
    exact endOp.seq fun _ => pure ⟨rfl, hready⟩
  · obtain ⟨i, rfl, hi, -⟩ := hres
    have hnl := hready.links.nlink_ne_zero hi
    refine (iunlockput hnl).seq fun _ => endOp.seq fun _ => pure ⟨rfl, hready.refs ?_ ?_⟩
    · exact fun t ht => .inl (.tail _ ht)
    · intro t ht hv
      rcases List.mem_cons.mp ht with rfl | ht
      · exact .inr hnl
      · exact .inl ⟨t, ht, rfl, hv⟩

/-- **The inode that `sys_open` opens**: a directory is opened for reading only. -/
lemma openInode (hr : Roomy V n) (hcwd : CwdLinked V base n cwd path)
    (omode : UInt32) :
    Does base τ n (openInode cwd path omode : Kern (Afs V) _) fun r τ' n' =>
      Ready V base ty τ' n' ∧ match r with
        | none => τ' = τ
        | some ip => ∃ i, τ' = ⟨ip, i, true⟩ :: τ ∧ (dirsOf V n').Linked i ∧
            ((n' i).type = tDir → omode = oRdonly) := by
  rw [Col331.openInode]
  split_ifs with hcreate
  · refine (create h hr hcwd (by decide) 0 0).mono ?_
    rintro (_ | ip) τ' n' ⟨hready, hres⟩
    · exact ⟨hready, hres⟩
    · obtain ⟨i, rfl, hi, ht⟩ := hres
      exact ⟨hready, i, rfl, hi, fun h0 => absurd (ht.symm.trans h0) (by decide)⟩
  · have hw := h.links.walkable
    refine (namei hw hcwd).look ?_
    rintro (_ | ip) τ' hres
    · exact pure ⟨hres ▸ h, hres⟩
    obtain ⟨i, v, rfl, hi⟩ := hres
    refine (ilock (.inr (hw.type hi).2)).seq fun _ => (type (.head _)).read ?_
    split_ifs with hdir
    · exact (iunlockput (hw.nlink i hi)).seq fun _ => pure ⟨h, rfl⟩
    · exact pure ⟨h.cons hi, i, rfl, hi, fun h0 => by_contra fun hne => hdir ⟨h0, hne⟩⟩

/-- **The inode that `sys_chdir` changes to.** -/
lemma chdirInode (hcwd : CwdLinked V base n cwd path) :
    Does base τ n (Kernel.chdirInode cwd path : Kern (Afs V) _) fun r τ' n' =>
      Ready V base ty τ' n' ∧ match r with
        | none => τ' = τ
        | some ip => ∃ i, τ' = ⟨ip, i, true⟩ :: τ ∧ (n' i).type = tDir := by
  have hw := h.links.walkable
  refine (namei hw hcwd).look ?_
  rintro (_ | ip) τ' hres
  · exact pure ⟨hres ▸ h, hres⟩
  obtain ⟨i, v, rfl, hi⟩ := hres
  refine (ilock (.inr (hw.type hi).2)).seq fun _ => (type (.head _)).read ?_
  split_ifs with hdir
  · exact (iunlockput (hw.nlink i hi)).seq fun _ => pure ⟨h, rfl⟩
  · exact (iunlock (.head _)).seq fun _ =>
      pure ⟨h.cons hi, i, rfl, not_not.mp hdir⟩

end

end Does

end Col331
