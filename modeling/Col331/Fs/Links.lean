import Col331.Data.Tree
import Col331.Fs.Entries
import Col331.Fs.Syscall

/-!
The directory tree that the inodes form, and their link counts.

* `dirsOf V n`: the directories and the entries in the inodes `n`.
* `Links V n`: they form a tree, and the link count of every allocated inode is the number of
  entries that are links to it.
* `Links.addEntry`, `Links.addDir`, `Links.remove`, `Links.forget`: the changes that the calls make
  keep this.
* `ncard_counted_le`: a disk is too small for a link count to overflow.
-/

namespace Col331

open Function

variable {V : Volume} {n n' : ℕ → Node}

/-- The directories and the entries in the inodes `n`. -/
def dirsOf (V : Volume) (n : ℕ → Node) : Dirs ℕ (List UInt8) where
  root := rootino
  dot := dot
  dotdot := dotdot
  alloc := {i | i < V.ninodes ∧ (n i).type ≠ 0}
  dir := {i | i < V.ninodes ∧ (n i).type = tDir}
  ent d j := if d < V.ninodes then (n d).entry j else none

/-- **Link counts match the directory tree.** -/
structure Links (V : Volume) (n : ℕ → Node) : Prop where
  tree : (dirsOf V n).Tree
  nlink : ∀ i ∈ (dirsOf V n).alloc, (n i).nlink.toInt = ((dirsOf V n).counted i).ncard

/-- What the tree consists of is read off the types and the entries. -/
lemma dirsOf_congr (htype : ∀ i < V.ninodes, (n' i).type = (n i).type)
    (hent : ∀ i < V.ninodes, ∀ j, (n' i).entry j = (n i).entry j) : dirsOf V n' = dirsOf V n := by
  refine Dirs.ext rfl rfl rfl ?_ ?_ ?_
  · ext i
    exact and_congr_right fun hi => by rw [htype i hi]
  · ext i
    exact and_congr_right fun hi => by rw [htype i hi]
  · funext d j
    simp only [dirsOf]
    split_ifs with hd
    · exact hent d hd j
    · rfl

lemma ent_dirsOf {d : ℕ} (hd : d < V.ninodes) (j : ℕ) : (dirsOf V n).ent d j = (n d).entry j := if_pos hd

lemma lt_of_ent_dirsOf {d j : ℕ} {e : ℕ × List UInt8} (h : (dirsOf V n).ent d j = some e) :
    d < V.ninodes ∧ (n d).entry j = some e := by
  simp only [dirsOf] at h
  split_ifs at h with hd
  exact ⟨hd, h⟩

/-- Inode 0 is never named. -/
lemma pos_of_linked {i : ℕ} (h : (dirsOf V n).Linked i) : 0 < i := by
  rcases h with rfl | ⟨d, j, x, hx, -⟩
  · exact (by decide : 0 < rootino)
  · exact Node.pos_of_entry (lt_of_ent_dirsOf hx).2

/-- A change that keeps types, entries and link counts. -/
lemma Links.congr (h : Links V n) (htype : ∀ i < V.ninodes, (n' i).type = (n i).type)
    (hent : ∀ i < V.ninodes, ∀ j, (n' i).entry j = (n i).entry j)
    (hnlink : ∀ i < V.ninodes, (n' i).nlink = (n i).nlink) : Links V n' := by
  have hG := dirsOf_congr htype hent
  refine ⟨hG ▸ h.tree, fun i hi => ?_⟩
  rw [hG] at hi ⊢
  rw [hnlink i hi.1]
  exact h.nlink i hi

namespace Links

variable (h : Links V n) {d i j : ℕ}

include h

/-- An inode that is linked has links. -/
lemma nlink_pos (hi : (dirsOf V n).Linked i) : 0 < (n i).nlink.toInt := by
  have hpos := (Set.ncard_pos (h.tree.counted_finite i)).mpr (h.tree.counted_nonempty hi)
  rw [h.nlink i (h.tree.alloc_of_linked hi)]
  omega

lemma nlink_ne_zero (hi : (dirsOf V n).Linked i) : (n i).nlink ≠ 0 := by
  intro h0
  have := h.nlink_pos hi
  rw [h0] at this
  exact nomatch this

/-- One that is allocated and not linked has none. -/
lemma nlink_eq_zero_iff (hi : i ∈ (dirsOf V n).alloc) : (n i).nlink = 0 ↔ ¬ (dirsOf V n).Linked i := by
  refine ⟨fun h0 hl => h.nlink_ne_zero hl h0, fun hl => ?_⟩
  have hz := h.nlink i hi
  rw [h.tree.counted_of_not_linked hl, Set.ncard_empty] at hz
  exact Int16.toInt_inj.mp (by rw [hz]; rfl)

lemma type_of_linked (hi : (dirsOf V n).Linked i) : i < V.ninodes ∧ (n i).type ≠ 0 :=
  h.tree.alloc_of_linked hi

end Links

/-! ### Changes -/

namespace Links

/-- The tree and the link counts, from a description of the tree. -/
lemma of_dirsOf {G : Dirs ℕ (List UInt8)} (hG : dirsOf V n' = G) (hT : G.Tree)
    (hn : ∀ i ∈ G.alloc, (n' i).nlink.toInt = (G.counted i).ncard) : Links V n' :=
  ⟨hG ▸ hT, by rw [hG]; exact hn⟩

variable {d i j : ℕ} {x : List UInt8} (hother : ∀ i', i' ≠ d → i' ≠ i → n' i' = n i')

include hother

section Add

variable (r : (dirsOf V n).Room d j x) (hi : i < V.ninodes) (htype : (n' d).type = tDir)
  (hent : ∀ j', (n' d).entry j' = if j' = j then some (i, x) else (n d).entry j')

include r hi htype hent

/-- The inodes in use, and the directories among the other ones. -/
lemma alloc_dirsOf_add (hnew : (n' i).type ≠ 0) :
    (dirsOf V n').alloc = insert i (dirsOf V n).alloc ∧
      ∀ i', i' ≠ i → (i' ∈ (dirsOf V n').dir ↔ i' ∈ (dirsOf V n).dir) := by
  obtain ⟨hd, hdir⟩ := r.dir
  have htypes : ∀ i', i' ≠ i → (n' i').type = (n i').type := fun i' h1 => by
    by_cases h2 : i' = d
    · rw [h2, htype, hdir]
    · rw [hother i' h2 h1]
  constructor
  · ext i'
    change i' < V.ninodes ∧ (n' i').type ≠ 0 ↔ i' = i ∨ (i' < V.ninodes ∧ (n i').type ≠ 0)
    by_cases h1 : i' = i
    · subst h1
      exact ⟨fun _ => .inl rfl, fun _ => ⟨hi, hnew⟩⟩
    · rw [or_iff_right h1, htypes i' h1]
  · intro i' h1
    change i' < V.ninodes ∧ (n' i').type = tDir ↔ i' < V.ninodes ∧ (n i').type = tDir
    rw [htypes i' h1]

lemma dirsOf_addEntry (hold : (n i).type ≠ tDir) (hnew : (n' i).type ≠ 0 ∧ (n' i).type ≠ tDir) :
    dirsOf V n' = (dirsOf V n).addEntry d j i x := by
  obtain ⟨halloc, hdirs⟩ := alloc_dirsOf_add hother r hi htype hent hnew.1
  refine Dirs.ext rfl rfl rfl halloc ?_ ?_
  · ext i'
    by_cases h1 : i' = i
    · exact iff_of_false (fun h0 => hnew.2 (h1 ▸ h0.2)) fun h0 => hold (h1 ▸ h0.2)
    · exact hdirs i' h1
  · funext d' j'
    simp only [dirsOf, Dirs.addEntry]
    by_cases h2 : d' = d
    · subst h2
      rw [if_pos r.dir.1, if_pos r.dir.1, hent]
      simp
    · have hn : ¬ (d' = d ∧ j' = j) := fun h0 => h2 h0.1
      rw [if_neg hn]
      by_cases h1 : d' = i
      · rw [h1, Node.entry_of_not_dir hnew.2, Node.entry_of_not_dir hold]
      · rw [hother d' h2 h1]

/-- **A new entry** for an inode that is no directory. -/
lemma addEntry (h : Links V n) (hold : (n i).type ≠ tDir)
    (hnew : (n' i).type ≠ 0 ∧ (n' i).type ≠ tDir) (hd : (n' d).nlink = (n d).nlink)
    (hnlink : (n' i).nlink.toInt = ((dirsOf V n).counted i).ncard + 1) :
    Links V n' ∧ (dirsOf V n').Linked i := by
  have hG := dirsOf_addEntry hother r hi htype hent hold hnew
  have hnd : i ∉ (dirsOf V n).dir := fun h0 => hold h0.2
  refine ⟨of_dirsOf hG (h.tree.addEntry r fun h0 => absurd h0 hnd) fun i' hi' => ?_, ?_⟩
  · rw [Dirs.ncard_addEntry h.tree r fun h0 => absurd h0 hnd,
      if_neg (show ¬ (i ∈ (dirsOf V n).dir ∧ i' = d) from fun h0 => hnd h0.1), add_zero]
    by_cases h1 : i' = i
    · rw [h1, if_pos rfl, hnlink]
      rfl
    · rw [if_neg h1, add_zero, ← h.nlink i' (hi'.resolve_left h1)]
      by_cases h2 : i' = d
      · rw [h2, hd]
      · rw [hother i' h2 h1]
  · rw [hG, Dirs.linked_addEntry h.tree r]
    exact .inr rfl

lemma dirsOf_addDir (hold : (n i).type = 0) (hnew : (n' i).type = tDir)
    (hdots : ∀ j', (n' i).entry j' =
      if j' = 0 then some (i, dot) else if j' = 1 then some (d, dotdot) else none) :
    dirsOf V n' = (dirsOf V n).addDir d j i x := by
  obtain ⟨halloc, hdirs⟩ := alloc_dirsOf_add hother r hi htype hent (by rw [hnew]; decide)
  refine Dirs.ext rfl rfl rfl halloc ?_ ?_
  · ext i'
    by_cases h1 : i' = i
    · exact iff_of_true (h1 ▸ ⟨hi, hnew⟩) (.inl h1)
    · exact (hdirs i' h1).trans (or_iff_right h1).symm
  · funext d' j'
    simp only [dirsOf, Dirs.addDir]
    by_cases h2 : d' = d
    · subst h2
      have hid : d' ≠ i := fun h0 => by
        rw [← h0, r.dir.2] at hold
        nomatch hold
      rw [if_pos r.dir.1, if_pos r.dir.1, hent, if_neg hid]
      simp
    · have hn : ¬ (d' = d ∧ j' = j) := fun h0 => h2 h0.1
      rw [if_neg hn]
      by_cases h1 : d' = i
      · rw [h1, if_pos hi, if_pos rfl, hdots]
      · rw [if_neg h1, hother d' h2 h1]

/-- **A new directory.** -/
lemma addDir (h : Links V n) (hold : (n i).type = 0) (hnew : (n' i).type = tDir)
    (hdots : ∀ j', (n' i).entry j' =
      if j' = 0 then some (i, dot) else if j' = 1 then some (d, dotdot) else none)
    (hd : (n' d).nlink.toInt = (n d).nlink.toInt + 1) (hnlink : (n' i).nlink = 1) :
    Links V n' ∧ (dirsOf V n').Linked i := by
  have hG := dirsOf_addDir hother r hi htype hent hold hnew hdots
  have hia : i ∉ (dirsOf V n).alloc := fun h0 => h0.2 hold
  have hid := r.ne_new h.tree hia
  refine ⟨of_dirsOf hG (h.tree.addDir r hia) fun i' hi' => ?_, ?_⟩
  · rw [Dirs.ncard_addDir h.tree r hia]
    by_cases h1 : i' = i
    · rw [h1, h.tree.counted_of_not_linked fun hl => hia (h.tree.alloc_of_linked hl), Set.ncard_empty,
        if_pos rfl, if_neg hid, hnlink]
      rfl
    · rw [if_neg h1]
      by_cases h2 : i' = d
      · rw [h2, if_pos rfl, hd, h.nlink d (h.tree.sub d r.dir)]
        rfl
      · rw [if_neg h2, hother i' h2 h1, h.nlink i' (hi'.resolve_left h1)]
        rfl
  · rw [hG, Dirs.linked_addDir h.tree r hia]
    exact .inr rfl

end Add

section Remove

variable (hp : (dirsOf V n).Plain d j i) (hne : i ≠ d) (htd : (n' d).type = (n d).type)
  (hti : (n' i).type = (n i).type)
  (hed : ∀ j', (n' d).entry j' = if j' = j then none else (n d).entry j')
  (hei : ∀ j', (n' i).entry j' = (n i).entry j')

include hne htd hti hed hei

lemma dirsOf_remove : dirsOf V n' = (dirsOf V n).remove d j := by
  have htype : ∀ i', (n' i').type = (n i').type := by
    intro i'
    by_cases h1 : i' = i
    · rw [h1, hti]
    · by_cases h2 : i' = d
      · rw [h2, htd]
      · rw [hother i' h2 h1]
  refine Dirs.ext rfl rfl rfl ?_ ?_ ?_
  · ext i'
    exact and_congr_right fun _ => by rw [htype]
  · ext i'
    exact and_congr_right fun _ => by rw [htype]
  · funext d' j'
    simp only [dirsOf, Dirs.remove]
    by_cases h2 : d' = d
    · subst h2
      rw [hed]
      by_cases hj : j' = j <;> simp [hj]
    · have hn : ¬ (d' = d ∧ j' = j) := fun h0 => h2 h0.1
      rw [if_neg hn]
      by_cases h1 : d' = i
      · rw [h1, hei]
      · rw [hother d' h2 h1]

include hp

/-- **To remove an entry** that names no directory, or an empty one. -/
lemma remove (h : Links V n) (hempty : (n i).type = tDir → ∀ j', 2 ≤ j' → (n i).entry j' = none)
    (hi : (n' i).nlink.toInt = (n i).nlink.toInt - 1)
    (hd : (n' d).nlink.toInt = (n d).nlink.toInt - if (n i).type = tDir then 1 else 0) :
    Links V n' ∧ ∀ i' ≠ i, (dirsOf V n').Linked i' ↔ (dirsOf V n).Linked i' := by
  have hG : dirsOf V n' = (dirsOf V n).remove d j := dirsOf_remove hother hne htd hti hed hei
  have hT := h.tree
  have hia : i ∈ (dirsOf V n).alloc := hT.target d j i hp
  have hdir_iff : i ∈ (dirsOf V n).dir ↔ (n i).type = tDir := and_iff_right hia.1
  obtain ⟨x, hx, hx1, hx2⟩ := id hp
  have hdj : (d, j) ∈ (dirsOf V n).counted i := ⟨x, hx, hx1, fun h0 => absurd h0 hx2⟩
  have hdj' : ∀ i', i' ≠ i → (d, j) ∉ (dirsOf V n).counted i' := by
    rintro i' hi' ⟨y, hy, -⟩
    have hy : (dirsOf V n).ent d j = some (i', y) := hy
    rw [hx] at hy
    exact hi' (Prod.mk.inj (Option.some.inj hy)).1.symm
  have hup : i ∈ (dirsOf V n).dir → (dirsOf V n).ent i 1 = some (d, (dirsOf V n).dotdot) :=
    hT.parent d j i hp
  have hi1 : i ∈ (dirsOf V n).dir → (i, 1) ∈ (dirsOf V n).counted d := fun hi =>
    ⟨_, hup hi, hT.dots.symm, fun _ => .inr ⟨d, j, hp⟩⟩
  have hi1' : ∀ i', i' ≠ d → i ∈ (dirsOf V n).dir → (i, 1) ∉ (dirsOf V n).counted i' := by
    rintro i' hi' hid ⟨y, hy, -⟩
    have hy : (dirsOf V n).ent i 1 = some (i', y) := hy
    rw [hup hid] at hy
    exact hi' (Prod.mk.inj (Option.some.inj hy)).1.symm
  refine ⟨of_dirsOf hG (hT.remove hp fun hi j' hj' => ?_) fun i' hi' => ?_,
    fun i' hi' => by rw [hG, Dirs.linked_remove hp hi']⟩
  · rw [ent_dirsOf hia.1]
    exact hempty hi.2 j' hj'
  have hmem : ∀ p, p ∈ ((dirsOf V n).remove d j).counted i' ↔ p ∈ (dirsOf V n).counted i' ∧
      p ≠ (d, j) ∧ ¬ (i ∈ (dirsOf V n).dir ∧ p = (i, 1)) := fun p => Dirs.mem_counted_remove hT hp
  by_cases h1 : i' = i
  · subst h1
    have hset : ((dirsOf V n).remove d j).counted i' = (dirsOf V n).counted i' \ {(d, j)} := by
      ext p
      rw [hmem p, Set.mem_sdiff, Set.mem_singleton_iff]
      refine and_congr_right fun hpc => and_iff_left ?_
      rintro ⟨hid, rfl⟩
      exact hi1' i' hne hid hpc
    rw [hset, Set.ncard_sdiff_singleton_of_mem hdj, hi, h.nlink i' hia]
    have hpos := (Set.ncard_pos (hT.counted_finite i')).mpr ⟨_, hdj⟩
    omega
  · by_cases h2 : i' = d
    · subst h2
      by_cases hid : i ∈ (dirsOf V n).dir
      · have hset : ((dirsOf V n).remove i' j).counted i' = (dirsOf V n).counted i' \ {(i, 1)} := by
          ext p
          rw [hmem p, Set.mem_sdiff, Set.mem_singleton_iff]
          refine and_congr_right fun hpc => ?_
          have hpj : p ≠ (i', j) := fun h0 => hdj' i' h1 (h0 ▸ hpc)
          simp [hpj, hid]
        rw [hset, Set.ncard_sdiff_singleton_of_mem (hi1 hid), hd, if_pos (hdir_iff.mp hid),
          h.nlink i' hi']
        have hpos := (Set.ncard_pos (hT.counted_finite i')).mpr ⟨_, hi1 hid⟩
        omega
      · have hset : ((dirsOf V n).remove i' j).counted i' = (dirsOf V n).counted i' := by
          ext p
          rw [hmem p]
          refine and_iff_left_of_imp fun hpc => ⟨fun h0 => hdj' i' h1 (h0 ▸ hpc), fun h0 => hid h0.1⟩
        rw [hset, hd, if_neg (fun h0 => hid (hdir_iff.mpr h0)), sub_zero]
        exact h.nlink i' hi'
    · have hset : ((dirsOf V n).remove d j).counted i' = (dirsOf V n).counted i' := by
        ext p
        rw [hmem p]
        refine and_iff_left_of_imp fun hpc => ⟨fun h0 => hdj' i' h1 (h0 ▸ hpc), ?_⟩
        rintro ⟨hid, rfl⟩
        exact hi1' i' h2 hid hpc
      rw [hset, hother i' h2 h1]
      exact h.nlink i' hi'

end Remove

omit hother in
/-- **To free an inode** that is not linked. -/
lemma forget (h : Links V n) (hi : ¬ (dirsOf V n).Linked i) :
    Links V (update n i Node.free) := by
  have hG : dirsOf V (update n i Node.free) = (dirsOf V n).forget i := by
    refine Dirs.ext rfl rfl rfl ?_ ?_ ?_
    · ext i'
      change i' < V.ninodes ∧ (update n i Node.free i').type ≠ 0 ↔
        (i' < V.ninodes ∧ (n i').type ≠ 0) ∧ i' ≠ i
      by_cases h1 : i' = i
      · simp [h1, Node.free]
      · simp [h1]
    · ext i'
      change i' < V.ninodes ∧ (update n i Node.free i').type = tDir ↔
        (i' < V.ninodes ∧ (n i').type = tDir) ∧ i' ≠ i
      by_cases h1 : i' = i
      · simp [h1, Node.free, (by decide : (0 : Int16) ≠ tDir)]
      · simp [h1]
    · funext d' j'
      simp only [dirsOf, Dirs.forget]
      by_cases h1 : d' = i
      · rw [h1, update_self, if_pos rfl, Node.entry_of_not_dir (by decide)]
        split_ifs <;> rfl
      · rw [if_neg h1, update_of_ne h1]
  refine of_dirsOf hG (h.tree.forget hi) fun i' hi' => ?_
  rw [Dirs.counted_forget h.tree hi, update_of_ne hi'.2]
  exact h.nlink i' hi'.1

end Links

/-! ### The number of links -/

/-- A used entry lies in a block of its own directory. -/
lemma Rel.block_of_entry {s : Fs V} {a : Afs V} (h : Rel s a) {d j : ℕ} {e : ℕ × List UInt8}
    (hd : d < V.ninodes) (he : (a.node d).entry j = some e) :
    Alloc V (dino V s.blocks) d ∧ (dino V s.blocks d).blockAt s.blocks (.data (j / 32)) ≠ 0 := by
  obtain ⟨htype, hlen⟩ := Node.lt_of_entry he
  have hrel := h.disk.node d hd
  rw [hrel.type] at htype
  have halloc : Alloc V (dino V s.blocks) d := ⟨hd, by rw [htype]; decide⟩
  have hdev : (dino V s.blocks d).type ≠ tDev := by rw [htype]; decide
  refine ⟨halloc, ((h.disk.shape d halloc hdev).data _).mpr (lt_nblk_iff.mpr ?_)⟩
  rw [← (hrel.content halloc.2 hdev).1]
  simp only [direntSize, dirsiz, bsize] at *
  omega

/-- **The disk has no room for more links than a link count can count.** -/
lemma ncard_counted_le {s : Fs V} {a : Afs V} (h : Rel s a) (i : ℕ) :
    ((dirsOf V a.node).counted i).ncard ≤ 32000 := by
  have hblock : ∀ p ∈ (dirsOf V a.node).counted i, Alloc V (dino V s.blocks) p.1 ∧
      (dino V s.blocks p.1).blockAt s.blocks (.data (p.2 / 32)) ≠ 0 := by
    rintro ⟨d, j⟩ ⟨x, hx, -⟩
    obtain ⟨hd, he⟩ := lt_of_ent_dirsOf hx
    exact h.block_of_entry hd he
  -- an entry is found by its block and its place there
  have hle := Set.ncard_le_ncard_of_injOn (s := (dirsOf V a.node).counted i)
    (t := ↑(Finset.range (32 * V.size)))
    (fun p => 32 * (dino V s.blocks p.1).blockAt s.blocks (.data (p.2 / 32)) + p.2 % 32)
    (fun p hp => ?_) (fun p hp q hq heq => ?_) (Finset.finite_toSet _)
  · rw [Set.ncard_coe_finset, Finset.card_range] at hle
    have := V.fits
    simp only [fssize] at this
    omega
  · obtain ⟨halloc, hne⟩ := hblock p hp
    have := (h.disk.owns.range p.1 _ halloc hne).2
    rw [Finset.coe_range, Set.mem_Iio]
    omega
  · obtain ⟨hpa, hpne⟩ := hblock p hp
    obtain ⟨hqa, -⟩ := hblock q hq
    simp only at heq
    obtain ⟨h1, h2⟩ := h.disk.owns.inj p.1 _ q.1 (.data (q.2 / 32)) hpa hqa hpne (by omega)
    have h2 := Place.data.inj h2
    exact Prod.ext h1 (by omega)

/-- A link count does not overflow. -/
lemma Links.toInt_nlink_add_one {s : Fs V} {a : Afs V} (h : Rel s a) (hl : Links V a.node) {i : ℕ}
    (hi : i ∈ (dirsOf V a.node).alloc) :
    ((a.node i).nlink + 1).toInt = (a.node i).nlink.toInt + 1 := by
  have hle := ncard_counted_le h i
  have heq := hl.nlink i hi
  rw [Int16.toInt_add, Int.bmod_eq_of_le]
  · rfl
  · have : (1 : Int16).toInt = 1 := rfl
    omega
  · have : (1 : Int16).toInt = 1 := rfl
    omega

end Col331
