import Col331.Fs.Layer

/-!
A file system in good order, without reference to the abstract one.

* `DiskOk V blocks`: every block has one owner, and the files have the blocks their sizes call for.
* `CacheOk V T inode`: the inode cache is consistent with the inode table `T`.
* `Fs.Ok s`: both; `Fs.abs s` is the abstract file system that `s` stands for.
* `Fs.nodes s`: the inodes on disk with their contents, which are those of any related abstract
  file system (`Rel.node_eq`).
-/

namespace Col331

variable {V : Volume}

/-- The inode that a disk inode stores. -/
def Dinode.node (d : Dinode) (blocks : Disk) : Node :=
  if d.type = 0 then Node.free
  else ⟨d.type, d.major, d.minor, d.nlink,
    if d.type = tDev then [] else (List.range d.size.toNat).map (d.byteAt blocks)⟩

lemma nodeRel_iff {d : Dinode} {blocks : Disk} {n : Node} :
    NodeRel d blocks n ↔ n = d.node blocks := by
  rw [Dinode.node]
  by_cases h0 : d.type = 0
  · rw [if_pos h0]
    refine ⟨fun h => h.free h0, ?_⟩
    rintro rfl
    exact ⟨h0.symm, fun h => absurd h0 h, fun h => absurd h0 h, fun _ => rfl, fun _ => rfl⟩
  · rw [if_neg h0]
    constructor
    · intro h
      obtain ⟨type, major, minor, nlink, content⟩ := n
      obtain ⟨hmajor, hminor, hnlink⟩ := h.attr h0
      obtain rfl := h.type
      simp only [Node.mk.injEq, true_and] at *
      refine ⟨hmajor, hminor, hnlink, ?_⟩
      split_ifs with hdev
      · exact h.dev hdev
      · obtain ⟨hlen, hbytes⟩ := h.content h0 hdev
        apply List.ext_getElem
        · simpa using hlen
        · intro m h1 h2
          rw [List.getElem_map, List.getElem_range]
          exact hbytes m h1
    · rintro rfl
      refine ⟨rfl, fun _ => ⟨rfl, rfl, rfl⟩, fun _ hdev => ?_, fun hdev => if_pos hdev,
        fun h => absurd h h0⟩
      rw [if_neg hdev]
      exact ⟨by simp, fun m hm => by simp⟩

/-- The blocks on disk are in good order. -/
structure DiskOk (V : Volume) (blocks : Disk) : Prop where
  owns : Owns V (dino V blocks) blocks
  shape : ∀ i, Alloc V (dino V blocks) i → (dino V blocks i).type ≠ tDev →
    Shape (dino V blocks i) blocks (nblk (dino V blocks i).size.toNat)

/-- The inode cache is consistent with the inode table. -/
structure CacheOk (V : Volume) (T : ℕ → Dinode) (inode : Fin ninode → Inode) : Prop where
  nonneg : ∀ k, 0 ≤ (inode k).ref
  inum : ∀ k, 0 < (inode k).ref → (inode k).inum < V.ninodes
  copy : ∀ k, 0 < (inode k).ref → (inode k).valid → (inode k).d = T (inode k).inum ∧
    (T (inode k).inum).type ≠ 0
  uniq : ∀ k l, 0 < (inode k).ref → 0 < (inode l).ref → (inode k).inum = (inode l).inum → k = l

namespace Fs

variable {s : Fs V} {a : Afs V}

/-- **The file system is in good order.** -/
structure Ok (s : Fs V) : Prop where
  disk : DiskOk V s.blocks
  cache : CacheOk V (dino V s.blocks) s.inode

/-- The inodes on disk. -/
def nodes (s : Fs V) (i : ℕ) : Node := (dino V s.blocks i).node s.blocks

/-- The entries of the inode cache. -/
def slots (s : Fs V) (k : Fin ninode) : Slot :=
  if 0 < (s.inode k).ref then
    ⟨(s.inode k).inum, (s.inode k).ref, (s.inode k).busy, (s.inode k).valid⟩
  else Slot.free

/-- The abstract file system that `s` stands for. -/
def abs (s : Fs V) : Afs V := ⟨s.slots, s.nodes⟩

lemma slots_of_pos {k : Fin ninode} (hk : 0 < (s.inode k).ref) :
    s.slots k = ⟨(s.inode k).inum, (s.inode k).ref, (s.inode k).busy, (s.inode k).valid⟩ := if_pos hk

lemma nodeOf_abs {k : Fin ninode} (hk : 0 < (s.inode k).ref) :
    s.abs.nodeOf k = s.nodes (s.inode k).inum := by
  change s.nodes (s.slots k).inum = _
  rw [slots_of_pos hk]

lemma Ok.rel (h : s.Ok) : Rel s s.abs := by
  refine ⟨⟨h.disk.owns, h.disk.shape, fun i _ => nodeRel_iff.mpr rfl⟩, fun k => ?_, h.cache.nonneg,
    h.cache.inum, h.cache.copy, h.cache.uniq⟩
  have hn := h.cache.nonneg k
  change EntryRel (s.inode k) (s.slots k)
  rw [slots]
  split_ifs with hk
  · exact ⟨rfl, fun _ => ⟨rfl, rfl, rfl⟩⟩
  · refine ⟨?_, fun hpos => absurd hpos hk⟩
    simp only [Slot.free]
    omega

end Fs

lemma Rel.ok {s : Fs V} {a : Afs V} (h : Rel s a) : s.Ok :=
  ⟨⟨h.disk.owns, h.disk.shape⟩, ⟨h.cache.nonneg, h.cache.inum, h.cache.copy, h.cache.uniq⟩⟩

/-- The abstract inodes are those on disk. -/
lemma Rel.node_eq {s : Fs V} {a : Afs V} (h : Rel s a) {i : ℕ} (hi : i < V.ninodes) :
    a.node i = s.nodes i := nodeRel_iff.mp (h.disk.node i hi)

end Col331
