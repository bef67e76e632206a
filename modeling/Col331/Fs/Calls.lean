import Col331.Fs.Walk

/-!
The calls that change directories keep the tree and the link counts.

* `Ready V base ty τ n`: what holds of the inodes `n` between the changes that a call makes: the
  link counts match, and an inode without links is held by someone who has read it.
* `Good base ty τ a`: the same of a state; `Good.iput` says that an inode whose last reference is
  gone is freed if it has no links.
* `Does.sysLink`, `Does.create`, `Ends.sysUnlink`: the calls.
-/

namespace Col331

open InodeLayer Function Prog

variable {V : Volume} {α β : Type} {base : Fin ninode → Slot} {ty : Fin ninode → Int16}
  {τ τ' : List Ref} {n n' : ℕ → Node}

/-- The inodes `n`, of which the call holds the references `τ` and others those in `base`, the inodes
of which have the types `ty`. -/
structure Ready (V : Volume) (base : Fin ninode → Slot) (ty : Fin ninode → Int16) (τ : List Ref)
    (n : ℕ → Node) : Prop where
  links : Links V n
  live : ∀ t ∈ τ, (n t.inum).type ≠ 0
  kept : ∀ k, 0 < (base k).ref → (n (base k).inum).type = ty k ∧ ty k ≠ 0
  zombie : ∀ i ∈ (dirsOf V n).alloc, (n i).nlink = 0 →
    (∃ k, 0 < (base k).ref ∧ (base k).inum = i ∧ (base k).valid = true) ∨
      ∃ t ∈ τ, t.inum = i ∧ t.valid = true

/-- A state in which the link counts match, every inode that is held is allocated, and every inode
without links is held. -/
structure Good (base : Fin ninode → Slot) (ty : Fin ninode → Int16) (τ : List Ref) (a : Afs V) :
    Prop where
  holds : Holds base τ a
  links : Links V a.node
  live : ∀ k, 0 < (a.slot k).ref → (a.node (a.slot k).inum).type ≠ 0
  kept : ∀ k, 0 < (base k).ref → (a.node (base k).inum).type = ty k
  zombie : ∀ i ∈ (dirsOf V a.node).alloc, (a.node i).nlink = 0 →
    ∃ k, 0 < (a.slot k).ref ∧ (a.slot k).inum = i ∧ (a.slot k).valid = true

section

variable (h : Ready V base ty τ n)

include h

/-- Inodes change, but for those allocated before not in type, and a link count becomes 0 for an inode
that is held only. -/
lemma Ready.change (hl : Links V n')
    (htype : ∀ i, (n i).type ≠ 0 → (n' i).type = (n i).type)
    (hsub : ∀ t ∈ τ', t ∈ τ ∨ (n' t.inum).type ≠ 0)
    (hold : ∀ t ∈ τ, t.valid = true → (∃ t' ∈ τ', t'.inum = t.inum ∧ t'.valid = true) ∨
      (n' t.inum).nlink ≠ 0)
    (hz : ∀ i ∈ (dirsOf V n').alloc, (n' i).nlink = 0 →
      (i ∈ (dirsOf V n).alloc ∧ (n i).nlink = 0) ∨ ∃ t ∈ τ', t.inum = i ∧ t.valid = true) :
    Ready V base ty τ' n' := by
  refine ⟨hl, fun t ht => ?_, fun k hk => ?_, fun i hi h0 => ?_⟩
  · rcases hsub t ht with ht | ht
    · rw [htype _ (h.live t ht)]
      exact h.live t ht
    · exact ht
  · obtain ⟨h1, h2⟩ := h.kept k hk
    rw [htype _ (by rw [h1]; exact h2)]
    exact ⟨h1, h2⟩
  · rcases hz i hi h0 with ⟨hi', h0'⟩ | ht
    · rcases h.zombie i hi' h0' with hk | ⟨t, ht, rfl, hv⟩
      · exact .inl hk
      · rcases hold t ht hv with ht' | hne
        · exact .inr ht'
        · exact absurd h0 hne
    · exact .inr ht

/-- References to linked inodes come and go. -/
lemma Ready.refs (hnew : ∀ t ∈ τ', t ∈ τ ∨ (n t.inum).type ≠ 0)
    (hold : ∀ t ∈ τ, t.valid = true → (∃ t' ∈ τ', t'.inum = t.inum ∧ t'.valid = true) ∨
      (n t.inum).nlink ≠ 0) : Ready V base ty τ' n :=
  h.change h.links (fun _ _ => rfl) hnew hold fun _ hi h0 => .inl ⟨hi, h0⟩

/-- A reference to a linked inode. -/
lemma Ready.cons {t : Ref} (ht : (dirsOf V n).Linked t.inum) :
    Ready V base ty (t :: τ) n := by
  refine h.refs (fun u hu => ?_) fun u hu hv => .inl ⟨u, .tail _ hu, rfl, hv⟩
  rcases List.mem_cons.mp hu with rfl | hu
  · exact .inr (h.links.type_of_linked ht).2
  · exact .inl hu

/-- A reference is taken from the base. -/
lemma Ready.take {k : Fin ninode} (hk : 0 < (base k).ref) :
    Ready V (update base k { base k with ref := (base k).ref - 1 }) ty
      (⟨k, (base k).inum, (base k).valid⟩ :: τ) n := by
  refine ⟨h.links, fun t ht => ?_, fun l hl => ?_, fun i hi h0 => ?_⟩
  · rcases List.mem_cons.mp ht with rfl | ht
    · obtain ⟨h1, h2⟩ := h.kept k hk
      rw [h1]
      exact h2
    · exact h.live t ht
  · by_cases hlk : l = k
    · subst hlk
      simp only [update_self] at hl ⊢
      exact h.kept l hk
    · rw [update_of_ne hlk] at hl ⊢
      exact h.kept l hl
  · rcases h.zombie i hi h0 with ⟨l, hl, hli, hv⟩ | ⟨t, ht, hi, hv⟩
    · by_cases hlk : l = k
      · subst hlk
        exact .inr ⟨_, .head _, hli, hv⟩
      · exact .inl ⟨l, by rw [update_of_ne hlk]; exact ⟨hl, hli, hv⟩⟩
    · exact .inr ⟨t, .tail _ ht, hi, hv⟩

end

/-- A reference has been locked. -/
lemma Ready.lock {k : Fin ninode} {i : ℕ} {v : Bool} (h : Ready V base ty (⟨k, i, v⟩ :: τ) n) :
    Ready V base ty (⟨k, i, true⟩ :: τ) n := by
  refine h.refs (fun t ht => ?_) fun t ht hv => .inl ?_
  · rcases List.mem_cons.mp ht with rfl | ht
    · exact .inr (h.live ⟨k, i, v⟩ (.head _))
    · exact .inl (.tail _ ht)
  · rcases List.mem_cons.mp ht with rfl | ht
    · exact ⟨_, .head _, rfl, rfl⟩
    · exact ⟨t, .tail _ ht, rfl, hv⟩

/-- The content of an inode other than a directory changes. -/
lemma Ready.content (h : Ready V base ty τ n) {i : ℕ} (hi : (n i).type ≠ tDir) (c : List UInt8) :
    Ready V base ty τ (update n i { n i with content := c }) := by
  have hnode : ∀ i', (update n i { n i with content := c } i').type = (n i').type ∧
      (update n i { n i with content := c } i').nlink = (n i').nlink := by
    intro i'
    by_cases h1 : i' = i
    · subst h1
      rw [update_self]
      exact ⟨rfl, rfl⟩
    · rw [update_of_ne h1]
      exact ⟨rfl, rfl⟩
  have hent : ∀ i' j, (update n i { n i with content := c } i').entry j = (n i').entry j := by
    intro i' j
    by_cases h1 : i' = i
    · subst h1
      rw [Node.entry_of_not_dir (by rw [(hnode i').1]; exact hi), Node.entry_of_not_dir hi]
    · rw [update_of_ne h1]
  refine h.change (h.links.congr (fun i' _ => (hnode i').1) (fun i' _ => hent i')
    fun i' _ => (hnode i').2) (fun i' _ => (hnode i').1) (fun t ht => .inl ht)
    (fun t ht hv => .inl ⟨t, ht, rfl, hv⟩) fun i' hi' h0 => .inl ⟨⟨hi'.1, ?_⟩, ?_⟩
  · rw [← (hnode i').1]
    exact hi'.2
  · rw [← (hnode i').2]
    exact h0

lemma Ready.good {a : Afs V} (h : Ready V base ty τ a.node) (ha : Holds base τ a) :
    Good base ty τ a := by
  refine ⟨ha, h.links, fun k hk => ?_, fun k hk => (h.kept k hk).1, fun i hi h0 => ?_⟩
  · by_cases hb : 0 < (base k).ref
    · obtain ⟨h1, h2⟩ := h.kept k hb
      rw [(ha.kept k hb).1, h1]
      exact h2
    · have hcount : 0 < τ.countP (·.slot = k) := by
        have := ha.ref k
        omega
      obtain ⟨t, ht, htk⟩ := List.countP_pos_iff.mp hcount
      have htk : t.slot = k := of_decide_eq_true htk
      rw [← htk, (ha.mem t ht).1]
      exact h.live t ht
  · rcases h.zombie i hi h0 with ⟨k, hk, hi, hv⟩ | ⟨t, ht, hi, hv⟩
    · obtain ⟨h1, h2⟩ := ha.kept k hk
      exact ⟨k, ha.pos_base hk, h1.trans hi, h2 hv⟩
    · obtain ⟨h1, h2⟩ := ha.mem t ht
      exact ⟨t.slot, ha.pos ht, h1.trans hi, h2 hv⟩

/-- What `iput` does to the cache. -/
lemma Afs.iput_slot (a : Afs V) (k : Fin ninode) : wp (Afs.iput k) (fun _ a' =>
    (∀ l ≠ k, a'.slot l = a.slot l) ∧ ((a.slot k).ref = 1 → a'.slot k = Slot.free) ∧
      ((a.slot k).ref ≠ 1 → a'.slot k = { a.slot k with ref := (a.slot k).ref - 1 }))
    (fun _ => True) a := by
  have hset : ∀ (b : Afs V) (sl : Slot), b.slot = a.slot → (∀ l ≠ k, (b.setSlot k sl).slot l = a.slot l) ∧
      (b.setSlot k sl).slot k = sl := fun b sl hb =>
    ⟨fun l hl => by rw [← hb]; exact update_of_ne hl .., update_self ..⟩
  simp only [Afs.iput, wp_bind, wp_get]
  split_ifs with h1 h2 h3 h4
  · trivial
  · trivial
  · obtain ⟨ho, hs⟩ := hset (a.setNode (a.slot k).inum Node.free) Slot.free rfl
    exact ⟨ho, fun _ => hs, fun h => absurd h2 h⟩
  · obtain ⟨ho, hs⟩ := hset a Slot.free rfl
    exact ⟨ho, fun _ => hs, fun h => absurd h2 h⟩
  · obtain ⟨ho, hs⟩ := hset a { a.slot k with ref := (a.slot k).ref - 1 } rfl
    exact ⟨ho, fun h => absurd h h2, fun _ => hs⟩

namespace Good

variable {a : Afs V} {k : Fin ninode} {i : ℕ} {v : Bool}

/-- Between calls nothing is held on top. -/
lemma rebase (h : Good base ty τ a) :
    Good a.slot (fun k => (a.node (a.slot k).inum).type) [] a :=
  ⟨h.holds.rebase, h.links, h.live, fun _ _ => rfl, h.zombie⟩

lemma ready (h : Good a.slot ty [] a) : Ready V a.slot ty [] a.node :=
  ⟨h.links, nofun, fun k hk => ⟨h.kept k hk, by
    rw [← h.kept k hk]; exact h.live k hk⟩, fun i hi h0 => .inl (h.zombie i hi h0)⟩

/-- A reference is taken from the base. -/
lemma take (h : Good base ty τ a) (hk : 0 < (base k).ref) :
    Good (update base k { base k with ref := (base k).ref - 1 }) ty
      (⟨k, (base k).inum, (base k).valid⟩ :: τ) a := by
  refine ⟨h.holds.take hk, h.links, h.live, fun l hl => ?_, h.zombie⟩
  by_cases hlk : l = k
  · subst hlk
    simp only [update_self] at hl ⊢
    exact h.kept l hk
  · rw [update_of_ne hlk] at hl ⊢
    exact h.kept l hl

/-- **`iput`** frees an inode that has neither links nor other references. -/
lemma iput (h : Good base ty (⟨k, i, v⟩ :: τ) a) :
    wp (InodeLayer.iput k) (fun _ a' => Good base ty τ a') Stop.Tame a := by
  have hpos : 0 < (a.slot k).ref := h.holds.pos (.head _)
  have hinum : (a.slot k).inum = i := (h.holds.mem _ (.head _)).1
  have hia : i ∈ (dirsOf V a.node).alloc :=
    ⟨h.holds.lt (.head _), hinum ▸ h.live k hpos⟩
  refine wp_mono (wp_and h.holds.iput (Afs.iput_slot a k)) ?_ fun _ he => he.1
  rintro _ a' ⟨⟨hh, hn⟩, hoth, hfree, hless⟩
  -- the entries in use are as before
  have hslot : ∀ l, 0 < (a'.slot l).ref → 0 < (a.slot l).ref ∧ (a'.slot l).inum = (a.slot l).inum ∧
      (l = k → (a.slot k).ref ≠ 1) := by
    intro l hl
    by_cases hlk : l = k
    · subst hlk
      have hne : (a.slot l).ref ≠ 1 := fun h1 => by
        rw [hfree h1] at hl
        exact absurd hl (lt_irrefl _)
      rw [hless hne]
      exact ⟨hpos, rfl, fun _ => hne⟩
    · rw [hoth l hlk] at hl ⊢
      exact ⟨hl, rfl, fun h0 => absurd h0 hlk⟩
  rw [Afs.putNodes] at hn
  split_ifs at hn with hz
  · have hnl : ¬ (dirsOf V a.node).Linked i := (h.links.nlink_eq_zero_iff hia).mp hz.2.2
    have hne : ∀ l, 0 < (a.slot l).ref → l ≠ k → (a.slot l).inum ≠ i := fun l hl hlk heq =>
      hlk (h.holds.uniq l k hl hpos (heq.trans hinum.symm))
    refine ⟨hh, hn ▸ h.links.forget hnl, fun l hl => ?_, fun l hl => ?_, fun i' hi' h0 => ?_⟩
    · obtain ⟨hl', heq, hk⟩ := hslot l hl
      have hlk : l ≠ k := fun h0 => hk h0 hz.1
      rw [hn, heq, update_of_ne (hne l hl' hlk)]
      exact h.live l hl'
    · have hlk : l ≠ k := by
        rintro rfl
        have := (hslot l (hh.pos_base hl)).2.2 rfl
        exact this hz.1
      have := hne l (h.holds.pos_base hl) hlk
      rw [(h.holds.kept l hl).1] at this
      rw [hn, update_of_ne this]
      exact h.kept l hl
    · rw [hn] at hi' h0
      have hii : i' ≠ i := fun heq => by
        have := hi'.2
        rw [heq, update_self] at this
        exact this rfl
      have hi'' : i' ∈ (dirsOf V a.node).alloc := ⟨hi'.1, by
        have := hi'.2
        rwa [update_of_ne hii] at this⟩
      rw [update_of_ne hii] at h0
      obtain ⟨l, hl, hli, hlv⟩ := h.zombie i' hi'' h0
      have hlk : l ≠ k := fun h0 => hii (by rw [← hli, h0, hinum])
      exact ⟨l, by rw [hoth l hlk]; exact ⟨hl, hli, hlv⟩⟩
  · refine ⟨hh, hn ▸ h.links, fun l hl => ?_, fun l hl => ?_, fun i' hi' h0 => ?_⟩
    · obtain ⟨hl', heq, -⟩ := hslot l hl
      rw [hn, heq]
      exact h.live l hl'
    · rw [hn]
      exact h.kept l hl
    · rw [hn] at hi' h0
      obtain ⟨l, hl, hli, hlv⟩ := h.zombie i' hi' h0
      refine ⟨l, ?_⟩
      by_cases hlk : l = k
      · subst hlk
        have hne : (a.slot l).ref ≠ 1 := fun h1 => hz ⟨h1, hlv, by
          rw [← hinum, hli]
          exact h0⟩
        rw [hless hne]
        exact ⟨by dsimp only; omega, hli, hlv⟩
      · rw [hoth l hlk]
        exact ⟨hl, hli, hlv⟩

/-- The same as a transaction of its own. -/
lemma iputOp (h : Good base ty (⟨k, i, v⟩ :: τ) a) :
    wp (do InodeLayer.beginOp; InodeLayer.iput k; InodeLayer.endOp : Kern (Afs V) Unit)
      (fun _ a' => Good base ty τ a') Stop.Tame a := by
  rw [wp_bind]
  change wp (InodeLayer.iput k >>= _) _ _ _
  rw [wp_bind]
  exact wp_post h.iput fun _ _ ha' => ha'

end Good

/-! ### `filewrite` -/

/-- A write to an inode other than a directory. -/
lemma Does.writei {k : Fin ninode} {i : ℕ} (ht : ⟨k, i, true⟩ ∈ τ) (hi : (n i).type ≠ tDir)
    (h : Ready V base ty τ n) (src : List UInt8) (off : ℕ) :
    Does base τ n (writei k src off : Kern (Afs V) _) fun _ τ' n' => τ' = τ ∧
      Ready V base ty τ n' ∧ ∀ i', (n' i').type = (n i').type := by
  rintro a ha rfl
  by_cases hdev : (a.node i).type = tDev
  · change wp (Afs.writei k src off) _ _ _
    rw [Afs.writei, wp_bind, wp_of_ok (ha.held ht), if_pos hdev]
    exact ⟨τ, ⟨rfl, h, fun _ => rfl⟩, ha⟩
  · refine wp_post (ha.writei ht hdev src off) ?_
    rintro _ a' (⟨-, rfl⟩ | ⟨-, -, rfl⟩)
    · exact ⟨τ, ⟨rfl, h, fun _ => rfl⟩, ha⟩
    · refine ⟨τ, ⟨rfl, h.content hi _, fun i' => ?_⟩, ha.setNode _ _⟩
      rw [Afs.setNode]
      dsimp only
      by_cases h1 : i' = i
      · rw [h1, update_self]
      · rw [update_of_ne h1]

/-- One round of the loop of `filewrite`. -/
lemma Does.writeRound {k : Fin ninode} {i : ℕ} {v : Bool} (hi : (n i).type ≠ tDir)
    (h : Ready V base ty (⟨k, i, v⟩ :: τ) n) (off : ℕ) (chunk : List UInt8) :
    Does base (⟨k, i, v⟩ :: τ) n (writeRound k off chunk : Kern (Afs V) _) fun _ τ' n' =>
      τ' = ⟨k, i, true⟩ :: τ ∧ Ready V base ty (⟨k, i, true⟩ :: τ) n' ∧
        ∀ i', (n' i').type = (n i').type := by
  refine Does.beginOp.seq fun _ => (Does.ilock (.inr (h.live _ (.head _)))).seq fun _ => ?_
  refine (Does.writei (.head _) hi h.lock chunk off).bind ?_
  rintro r _ n' ⟨rfl, hr, htype⟩
  exact (Does.iunlock (.head _)).seq fun _ => Does.endOp.seq fun _ =>
    Does.pure ⟨rfl, hr, htype⟩

/-! ### `sys_link` -/

/-- A linked directory without an entry `x`, and a free slot in it. -/
lemma room_of_entry {d j : ℕ} {x : List UInt8} (hl : Links V n) (hd : (dirsOf V n).Linked d)
    (hdir : (n d).type = tDir) (hfree : (n d).entry j = none)
    (hfresh : ∀ j' i', (n d).entry j' ≠ some (i', x)) : (dirsOf V n).Room d j x := by
  have hlt := (hl.type_of_linked hd).1
  refine ⟨hd, ⟨hlt, hdir⟩, by rwa [ent_dirsOf hlt], fun j' i' => ?_⟩
  rw [ent_dirsOf hlt]
  exact hfresh j' i'

/-- One link more to inode `i`. -/
def linkNode (n : ℕ → Node) (i : ℕ) : ℕ → Node :=
  update n i { n i with nlink := (n i).nlink + 1 }

section LinkNode

variable {i : ℕ}

@[simp] lemma linkNode_self : linkNode n i i = { n i with nlink := (n i).nlink + 1 } :=
  update_self ..

lemma linkNode_of_ne {i' : ℕ} (h : i' ≠ i) : linkNode n i i' = n i' := update_of_ne h ..

lemma dirsOf_linkNode : dirsOf V (linkNode n i) = dirsOf V n := by
  have hboth : ∀ i', (linkNode n i i').type = (n i').type ∧ (linkNode n i i').content = (n i').content := by
    intro i'
    by_cases h : i' = i
    · rw [h, linkNode_self]
      exact ⟨rfl, rfl⟩
    · rw [linkNode_of_ne h]
      exact ⟨rfl, rfl⟩
  exact dirsOf_congr (fun i' _ => (hboth i').1) fun i' _ j => Node.entry_congr (hboth i').1 (hboth i').2 j

/-- The link is taken back. -/
lemma linkNode_undo : update (linkNode n i) i
    { linkNode n i i with nlink := (linkNode n i i).nlink - 1 } = n := by
  rw [linkNode_self, linkNode, update_idem]
  have hnode : ({ n i with nlink := (n i).nlink + 1 - 1 } : Node) = n i := by
    rw [Int16.add_sub_cancel]
  rw [hnode, update_eq_self]

/-- No link count overflows. -/
def Roomy (V : Volume) (n : ℕ → Node) : Prop :=
  ∀ i ∈ (dirsOf V n).alloc, ((n i).nlink + 1).toInt = (n i).nlink.toInt + 1

lemma nlink_linkNode_ne_zero (hl : Links V n) (hr : Roomy V n) {i' : ℕ}
    (hi : (dirsOf V n).Linked i) (hi' : (dirsOf V n).Linked i') : (linkNode n i i').nlink ≠ 0 := by
  by_cases h : i' = i
  · subst h
    rw [linkNode_self]
    intro h0
    have hadd := hr i' (hl.tree.alloc_of_linked hi)
    have hpos := hl.nlink_pos hi
    have hzero : ((n i').nlink + 1).toInt = 0 := congrArg Int16.toInt h0
    omega
  · rw [linkNode_of_ne h]
    exact hl.nlink_ne_zero hi'

lemma walkable_linkNode (hl : Links V n) (hr : Roomy V n) (hi : (dirsOf V n).Linked i) :
    Walkable V (linkNode n i) := by
  refine ⟨by rw [dirsOf_linkNode]; exact hl.tree, fun i' hi' => ?_⟩
  rw [dirsOf_linkNode] at hi'
  exact nlink_linkNode_ne_zero hl hr hi hi'

/-- **A new link** to a file, in slot `j` of the directory `d`. -/
lemma Ready.link (h : Ready V base ty τ n) (hr : Roomy V n) (hi : (dirsOf V n).Linked i)
    (htype : (n i).type ≠ tDir) {d j : ℕ} {name : List UInt8} (hd : (dirsOf V n).Linked d)
    (hdir : (n d).type = tDir) (hfree : (n d).entry j = none)
    (hle : direntSize * j ≤ (n d).content.length)
    (hfresh : ∀ j' i', (n d).entry j' ≠ some (i', cstr dirsiz name)) :
    Ready V base ty τ (update (linkNode n i) d
      ((n d).setEntry j ⟨UInt16.ofNat i, strncpy name dirsiz⟩)) := by
  set n' := update (linkNode n i) d ((n d).setEntry j ⟨UInt16.ofNat i, strncpy name dirsiz⟩)
  have hl := h.links
  have hne : i ≠ d := fun h0 => htype (h0 ▸ hdir)
  have hn'd : n' d = (n d).setEntry j ⟨UInt16.ofNat i, strncpy name dirsiz⟩ := update_self ..
  have hn'i : n' i = { n i with nlink := (n i).nlink + 1 } :=
    (update_of_ne hne ..).trans linkNode_self
  have hother : ∀ i', i' ≠ d → i' ≠ i → n' i' = n i' := fun i' h1 h2 =>
    (update_of_ne h1 ..).trans (linkNode_of_ne h2)
  have hilt := hl.type_of_linked hi
  have hent : ∀ j', (n' d).entry j' = if j' = j then some (i, cstr dirsiz name) else (n d).entry j' := by
    intro j'
    rw [hn'd, Node.entry_setEntry hdir (strncpy_length _ _) hle,
      Dirent.entry_new (pos_of_linked hi) hilt.1]
  have hlinks : Links V n' ∧ (dirsOf V n').Linked i := by
    refine Links.addEntry hother (room_of_entry hl hd hdir hfree hfresh) hilt.1 (by rw [hn'd]; exact hdir)
      hent hl htype (by rw [hn'i]; exact ⟨hilt.2, htype⟩) (by rw [hn'd]; rfl) ?_
    rw [hn'i]
    rw [hr i hilt, hl.nlink i hilt]
  refine h.change hlinks.1 (fun i' _ => ?_) (fun t ht => .inl ht)
    (fun t ht hv => .inl ⟨t, ht, rfl, hv⟩) fun i' hi' h0 => .inl ?_
  · by_cases h1 : i' = d
    · rw [h1, hn'd]
      rfl
    · by_cases h2 : i' = i
      · rw [h2, hn'i]
      · rw [hother i' h1 h2]
  · by_cases h1 : i' = d
    · subst h1
      rw [hn'd] at h0
      exact absurd h0 (hl.nlink_ne_zero hd)
    · by_cases h2 : i' = i
      · subst h2
        exact absurd h0 (hlinks.1.nlink_ne_zero hlinks.2)
      · rw [hother i' h1 h2] at h0
        refine ⟨⟨hi'.1, ?_⟩, h0⟩
        have := hi'.2
        rwa [hother i' h1 h2] at this

end LinkNode

namespace Does

variable {cwd k : Fin ninode} {i : ℕ} {v : Bool}

lemma linkBad (hl : Links V n) (hi : (dirsOf V n).Linked i) :
    Does base (⟨k, i, v⟩ :: τ) (linkNode n i) (linkBad k : Kern (Afs V) _)
      fun _ τ' n' => τ' = τ ∧ n' = n := by
  have htype : (linkNode n i i).type ≠ 0 := by
    rw [linkNode_self]
    exact (hl.type_of_linked hi).2
  refine (ilock (.inr htype)).seq fun _ => (decNlink (.head _)).seq fun _ => ?_
  rw [linkNode_undo]
  exact (iunlockput (hl.nlink_ne_zero hi)).seq fun _ => endOp.seq fun _ => pure ⟨rfl, rfl⟩

/-- **`sys_link`.** -/
lemma sysLink (h : Ready V base ty τ n) (hr : Roomy V n) {old new : List UInt8}
    (hold : CwdLinked V base n cwd old) (hnew : CwdLinked V base n cwd new) :
    Does base τ n (sysLink cwd old new : Kern (Afs V) _)
      fun _ τ' n' => τ' = τ ∧ Ready V base ty τ n' := by
  have hl := h.links
  refine beginOp.seq fun _ => (namei hl.walkable hold).look ?_
  rintro (_ | ip) τ₁ hres
  · subst hres
    exact endOp.seq fun _ => pure ⟨rfl, h⟩
  obtain ⟨i, v, rfl, hi⟩ := hres
  have hilt := hl.type_of_linked hi
  refine (ilock (.inr hilt.2)).seq fun _ => (type (.head _)).read ?_
  split_ifs with hdir
  · exact (iunlockput (hl.nlink_ne_zero hi)).seq fun _ => endOp.seq fun _ => pure ⟨rfl, h⟩
  refine (incNlink (.head _)).seq fun _ => ?_
  refine (iunlock (.head _)).seq fun _ => ?_
  have hw := walkable_linkNode hl hr hi
  have hcwd : CwdLinked V base (linkNode n i) cwd new := by
    rw [CwdLinked, dirsOf_linkNode]
    exact hnew
  refine (namex hw true hcwd).look ?_
  rintro (_ | ⟨dp, name⟩) τ₂ hres
  · subst hres
    exact (linkBad hl hi).mono fun _ _ _ hb => ⟨hb.1, hb.2 ▸ h⟩
  obtain ⟨d, w, rfl, hd, hpar⟩ := hres
  obtain ⟨hdt, rfl⟩ := hpar rfl
  have hne : d ≠ i := fun h0 => by
    rw [h0, linkNode_self] at hdt
    exact hdir hdt
  have hsame : linkNode n i d = n d := linkNode_of_ne hne
  have hd' : (dirsOf V n).Linked d := by rwa [dirsOf_linkNode] at hd
  refine (ilock (.inl rfl)).seq fun _ =>
    (inum (.tail _ (.head _))).read ?_
  refine (dirlink (.head _) hdt (hw.inRange hd) name i
    fun j i' he => hw.nlink i' (hw.linked_of_entry hd he)).bind ?_
  rintro r _ _ ⟨rfl, ⟨rfl, rfl, -⟩ | ⟨rfl, hfresh, j, hfree, hle, rfl⟩⟩
  · rw [if_pos (by decide)]
    refine (iunlockput (hw.nlink d hd)).seq fun _ => ?_
    exact (linkBad hl hi).mono fun _ _ _ hb => ⟨hb.1, hb.2 ▸ h⟩
  · rw [if_neg (by decide), hsame]
    rw [hsame] at hdt hfresh hfree hle
    have hready := h.link hr hi hdir hd' hdt hfree hle hfresh
    refine (iunlockput ?_).seq fun _ => (iput ?_).seq fun _ => endOp.seq fun _ => pure ⟨rfl, hready⟩
    · rw [update_self]
      exact hl.nlink_ne_zero hd'
    · rw [update_of_ne (Ne.symm hne)]
      exact nlink_linkNode_ne_zero hl hr hi hi

end Does

/-! ### `sys_unlink` -/

/-- The entry that `sys_unlink` writes. -/
abbrev noDirent : Dirent := ⟨0, List.replicate dirsiz 0⟩

/-- The inodes when slot `j` of `d`, which names `i`, has been emptied, up to the link count of `i`. -/
def unlinkNode (n : ℕ → Node) (d j i : ℕ) : ℕ → Node :=
  if (n i).type = tDir then
    update (update n d ((n d).setEntry j noDirent)) d
      { (n d).setEntry j noDirent with nlink := (n d).nlink - 1 }
  else update n d ((n d).setEntry j noDirent)

section UnlinkNode

variable {d j i : ℕ}

lemma unlinkNode_self : unlinkNode n d j i d = { (n d).setEntry j noDirent with
    nlink := if (n i).type = tDir then (n d).nlink - 1 else (n d).nlink } := by
  rw [unlinkNode]
  split_ifs <;> rw [update_self]
  rfl

lemma unlinkNode_of_ne {i' : ℕ} (h : i' ≠ d) : unlinkNode n d j i i' = n i' := by
  rw [unlinkNode]
  split_ifs <;> simp [update_of_ne h]

lemma toInt_sub_one {w : Int16} (h : 0 < w.toInt) : (w - 1).toInt = w.toInt - 1 := by
  have hlt := w.toInt_lt
  have hone : (1 : Int16).toInt = 1 := rfl
  rw [Int16.toInt_sub, hone, Int.bmod_eq_of_le]
  · omega
  · omega

/-- **A link less**: the inode is still held. -/
lemma Ready.unlink (h : Ready V base ty τ n) (hd : (dirsOf V n).Linked d)
    (hdir : (n d).type = tDir) {x : List UInt8} (hent : (n d).entry j = some (i, x)) (hx : x ≠ dot)
    (hx' : x ≠ dotdot) (hempty : (n i).type = tDir → ∀ j', 2 ≤ j' → (n i).entry j' = none)
    (ip : Fin ninode) :
    i ≠ d ∧ (unlinkNode n d j i d).nlink ≠ 0 ∧
      Ready V base ty (⟨ip, i, true⟩ :: τ) (update (unlinkNode n d j i) i
        { n i with nlink := (n i).nlink - 1 }) := by
  set n' := update (unlinkNode n d j i) i { n i with nlink := (n i).nlink - 1 }
  have hl := h.links
  have hdlt := (hl.type_of_linked hd).1
  have hp : (dirsOf V n).Plain d j i := ⟨x, (ent_dirsOf hdlt j).trans hent, hx, hx'⟩
  have hne : i ≠ d := fun h0 =>
    hl.tree.ne_of_plain hp (by rw [h0]; exact ⟨hdlt, hdir⟩) h0.symm
  have hi : (dirsOf V n).Linked i := .inr ⟨d, j, hp⟩
  have hle : direntSize * j ≤ (n d).content.length := by
    have := (Node.lt_of_entry hent).2
    omega
  have hn'i : n' i = { n i with nlink := (n i).nlink - 1 } := update_self ..
  have hn'd : n' d = unlinkNode n d j i d := update_of_ne (Ne.symm hne) ..
  have hother : ∀ i', i' ≠ d → i' ≠ i → n' i' = n i' := fun i' h1 h2 =>
    (update_of_ne h2 ..).trans (unlinkNode_of_ne h1)
  have hed : ∀ j', (n' d).entry j' = if j' = j then none else (n d).entry j' := by
    intro j'
    have hset : (n' d).entry j' = ((n d).setEntry j noDirent).entry j' := by
      rw [hn'd, unlinkNode_self]
      exact Node.entry_congr rfl rfl j'
    rw [hset, Node.entry_setEntry hdir (by simp) hle]
    rfl
  have hlinks : Links V n' ∧ ∀ i' ≠ i, (dirsOf V n').Linked i' ↔ (dirsOf V n).Linked i' := by
    refine Links.remove hother hp hne (by rw [hn'd, unlinkNode_self]; rfl) (by rw [hn'i]) hed
      (fun j' => by rw [hn'i]; exact Node.entry_congr rfl rfl j') hl hempty ?_ ?_
    · rw [hn'i]
      exact toInt_sub_one (hl.nlink_pos hi)
    · rw [hn'd, unlinkNode_self]
      split_ifs
      · exact toInt_sub_one (hl.nlink_pos hd)
      · exact (sub_zero _).symm
  have hnd : (n' d).nlink ≠ 0 := hlinks.1.nlink_ne_zero ((hlinks.2 d (Ne.symm hne)).mpr hd)
  refine ⟨hne, hn'd ▸ hnd, h.change hlinks.1 (fun i' _ => ?_) (fun t ht => ?_) (fun t ht hv => ?_)
    fun i' hi' h0 => ?_⟩
  · by_cases h1 : i' = d
    · rw [h1, hn'd, unlinkNode_self]
      rfl
    · by_cases h2 : i' = i
      · rw [h2, hn'i]
      · rw [hother i' h1 h2]
  · rcases List.mem_cons.mp ht with rfl | ht
    · right
      rw [hn'i]
      exact (hl.type_of_linked hi).2
    · exact .inl ht
  · exact .inl ⟨t, .tail _ ht, rfl, hv⟩
  · by_cases h2 : i' = i
    · exact .inr ⟨_, .head _, h2.symm, rfl⟩
    · by_cases h1 : i' = d
      · rw [h1] at h0
        exact absurd h0 hnd
      · rw [hother i' h1 h2] at h0
        refine .inl ⟨⟨hi'.1, ?_⟩, h0⟩
        have := hi'.2
        rwa [hother i' h1 h2] at this

end UnlinkNode

/-- The code `x` leads from the references `τ` and the inodes `n` to a good state. -/
def Ends (base : Fin ninode → Slot) (ty : Fin ninode → Int16) (τ : List Ref) (n : ℕ → Node)
    (x : Kern (Afs V) α) (Q : α → List Ref → Prop) : Prop :=
  ∀ a, Holds base τ a → a.node = n →
    wp x (fun r a' => ∃ τ', Q r τ' ∧ Good base ty τ' a') Stop.Tame a

namespace Ends

variable {cwd k : Fin ninode} {i : ℕ} {v : Bool} {Q : α → List Ref → Prop}

/-! #### Rules -/

lemma of_does {x : Kern (Afs V) α} (h : Does base τ n x fun r τ' n' => Q r τ' ∧ Ready V base ty τ' n') :
    Ends base ty τ n x Q := by
  intro a ha hn
  refine wp_post (h a ha hn) ?_
  rintro r a' ⟨τ', ⟨hQ, hr⟩, ha'⟩
  exact ⟨τ', hQ, hr.good ha'⟩

lemma panic {p : Panic} (h : Stop.Tame (.panic p)) :
    Ends base ty τ n (Col331.panic p : Kern (Afs V) α) Q := fun _ _ _ => h

variable {f : β → Kern (Afs V) α} {x : Kern (Afs V) β}

lemma bind {R : β → List Ref → (ℕ → Node) → Prop}
    (hx : Does base τ n x R) (hf : ∀ r τ' n', R r τ' n' → Ends base ty τ' n' (f r) Q) :
    Ends base ty τ n (x >>= f) Q := by
  intro a ha hn
  refine wp_seq (hx a ha hn) ?_
  rintro r a' ⟨τ', hR, ha'⟩
  exact hf r τ' _ hR a' ha' rfl

lemma seq
    (hx : Does base τ n x fun _ τ₁ n₁ => τ₁ = τ' ∧ n₁ = n') (hf : ∀ r, Ends base ty τ' n' (f r) Q) :
    Ends base ty τ n (x >>= f) Q := by
  refine bind hx ?_
  rintro r _ _ ⟨rfl, rfl⟩
  exact hf r

lemma look {R : β → List Ref → Prop}
    (hx : Does base τ n x fun r τ₁ n₁ => n₁ = n ∧ R r τ₁)
    (hf : ∀ r τ₁, R r τ₁ → Ends base ty τ₁ n (f r) Q) : Ends base ty τ n (x >>= f) Q := by
  refine bind hx ?_
  rintro r τ₁ _ ⟨rfl, hR⟩
  exact hf r τ₁ hR

lemma read {w : β}
    (hx : Does base τ n x fun r τ₁ n₁ => r = w ∧ τ₁ = τ ∧ n₁ = n) (hf : Ends base ty τ n (f w) Q) :
    Ends base ty τ n (x >>= f) Q := by
  refine bind hx ?_
  rintro _ _ _ ⟨rfl, rfl, rfl⟩
  exact hf

lemma swap {t u : Ref} {x : Kern (Afs V) α} (h : Ends base ty (u :: t :: τ) n x Q) :
    Ends base ty (t :: u :: τ) n x Q := fun a ha hn => h a ha.swap hn

/-- The last thing a call does is to give a reference back. -/
lemma iunlockput {r : α} (h : Ready V base ty (⟨k, i, v⟩ :: τ) n) (hQ : Q r τ) :
    Ends base ty (⟨k, i, v⟩ :: τ) n
      (do Col331.iunlockput k; InodeLayer.endOp; return r : Kern (Afs V) α) Q := by
  rintro a ha rfl
  rw [wp_bind, Col331.iunlockput]
  refine wp_seq (ha.iunlock (ha.pos (.head _))) ?_
  rintro _ a₁ ⟨ha₁, hn⟩
  rw [← hn] at h
  exact wp_post (h.good ha₁).iput fun _ a' ha' => ⟨τ, hQ, ha'⟩

/-! #### The call -/

lemma unlinkEntry {dp ip : Fin ninode} {d j : ℕ} (h : Ready V base ty τ n)
    (hd : (dirsOf V n).Linked d) (hdir : (n d).type = tDir) {x : List UInt8}
    (hent : (n d).entry j = some (i, x)) (hx : x ≠ dot) (hx' : x ≠ dotdot)
    (hempty : (n i).type = tDir → ∀ j', 2 ≤ j' → (n i).entry j' = none) :
    Ends base ty (⟨ip, i, true⟩ :: ⟨dp, d, true⟩ :: τ) n
      (unlinkEntry dp ip (direntSize * j) : Kern (Afs V) _) fun _ τ' => τ' = τ := by
  obtain ⟨hne, hnd, hready⟩ := h.unlink hd hdir hent hx hx' hempty ip
  have hip : (⟨ip, i, true⟩ : Ref) ∈ (⟨ip, i, true⟩ :: ⟨dp, d, true⟩ :: τ) := .head _
  have hdp : (⟨dp, d, true⟩ : Ref) ∈ (⟨ip, i, true⟩ :: ⟨dp, d, true⟩ :: τ) :=
    .tail _ (.head _)
  -- what is left when the entry is gone and the link count of the directory is right
  have hrest : Ends base ty (⟨ip, i, true⟩ :: ⟨dp, d, true⟩ :: τ) (unlinkNode n d j i) (do
      Col331.iunlockput dp
      decNlink ip
      Col331.iunlockput ip
      InodeLayer.endOp
      return 0 : Kern (Afs V) ℤ) fun _ τ' => τ' = τ := by
    refine swap (seq (Does.iunlockput hnd) fun _ => seq (Does.decNlink (.head _))
      fun _ => ?_)
    rw [unlinkNode_of_ne hne]
    exact iunlockput hready rfl
  refine bind (Does.writei_dirent hdp hdir noDirent j) fun r τ' n' hw => ?_
  split_ifs with hr
  · exact panic (by decide)
  · obtain ⟨rfl, rfl⟩ := hw (not_not.mp hr)
    refine read (Does.type hip) ?_
    rw [update_of_ne hne]
    rw [unlinkNode] at hrest
    split_ifs with hi
    · rw [if_pos hi] at hrest
      refine seq (Does.decNlink hdp) fun _ => ?_
      rw [update_self]
      exact hrest
    · rw [if_neg hi] at hrest
      exact hrest

lemma unlinkBad (h : Ready V base ty τ n) (hi : (dirsOf V n).Linked i) :
    Ends base ty (⟨k, i, v⟩ :: τ) n (unlinkBad k : Kern (Afs V) _) fun _ τ' => τ' = τ :=
  of_does ((Does.iunlockput (h.links.nlink_ne_zero hi)).seq fun _ => Does.endOp.seq fun _ =>
    Does.pure ⟨rfl, h⟩)

/-- **`sys_unlink`.** -/
lemma sysUnlink (h : Ready V base ty τ n) {path : List UInt8}
    (hcwd : Does.CwdLinked V base n cwd path) :
    Ends base ty τ n (sysUnlink cwd path : Kern (Afs V) _) fun _ τ' => τ' = τ := by
  have hl := h.links
  have hw := hl.walkable
  refine seq Does.beginOp fun _ => look (Does.namex hw true hcwd) ?_
  rintro (_ | ⟨dp, name⟩) τ₁ hres
  · subst hres
    exact of_does (Does.endOp.seq fun _ => Does.pure ⟨rfl, h⟩)
  obtain ⟨d, w, rfl, hd, hpar⟩ := hres
  obtain ⟨hdir, rfl⟩ := hpar rfl
  refine seq (Does.ilock (.inl rfl)) fun _ => ?_
  split_ifs with hdots
  · exact unlinkBad h hd
  obtain ⟨hdot, hdotdot⟩ := not_or.mp hdots
  rw [namecmp_eq_zero_iff] at hdot hdotdot
  refine look (Does.dirlookup (.head _) hdir (hw.inRange hd) name) ?_
  rintro (_ | ⟨ip, off⟩) τ₂ hres
  · obtain ⟨rfl, -⟩ := hres
    exact unlinkBad h hd
  obtain ⟨j, i, rfl, hent, rfl⟩ := hres
  have hi := hw.linked_of_entry hd hent
  refine seq (Does.ilock (.inr (hw.type hi).2)) fun _ => read (Does.nlink (.head _)) ?_
  have hpos : ¬ (n i).nlink < 1 := by
    have := hl.nlink_pos hi
    rw [Int16.lt_iff_toInt_lt]
    exact not_lt.mpr this
  rw [if_neg hpos]
  refine bind (Does.nonemptyDir (.head _)) ?_
  rintro r _ n₁ ⟨rfl, hn, hempty⟩
  subst hn
  cases r with
  | true =>
    refine seq (Does.iunlockput (hl.nlink_ne_zero hi)) fun _ => ?_
    exact unlinkBad h hd
  | false => exact unlinkEntry h hd hdir hent hdot hdotdot (hempty rfl)

end Ends

end Col331
