import Col331.Mkfs.Run

/-!
The areas that `mkfs` writes to.

* `Image.blockAt`: the block numbers in the image are those of the disk it stands for.
* `Within s`: the inodes written lie in the inode area and have numbers below `sb.ninodes`, and the block
  numbers in them and in their indirect blocks are data blocks.
* `mkfs_within`: **that is so exactly for at most 198 files**; no part of `mkfs` looks at `NINODES`.
-/

namespace Col331

namespace Mkfs

variable {args : List Arg} {s : State} {β : Disk}

/-! ### The inodes in the image -/

variable {i : ℕ}

lemma laid_type (h1 : 1 ≤ i) (hi : i < args.length + 2) :
    (laid args i).type = tDir ∨ (laid args i).type = tFile := by
  by_cases hroot : i = rootino
  · rw [hroot, laid_root]
    exact .inl rfl
  · obtain ⟨j, rfl⟩ : ∃ j, i = j + 2 := ⟨i - 2, by simp only [rootino] at hroot; omega⟩
    rw [laid_file (by omega)]
    exact .inr rfl

/-- The inodes of the arguments are allocated. -/
lemma Image.alloc (h : Image args s β) (hn : args.length ≤ 206) (h1 : 1 ≤ i)
    (hi : i < args.length + 2) : Alloc view (dino view β) i := by
  have hlt : i < view.ninodes := by
    change i < 208
    omega
  refine ⟨hlt, ?_⟩
  rw [← (h.disk.node i hlt).type]
  rcases laid_type h1 hi with ht | ht <;> rw [ht] <;> decide

/-- **The block numbers in the image** are those of the disk it stands for. -/
lemma Image.blockAt (h : Image args s β) (hi : Alloc view (dino view β) i) (p : Place) :
    (dino mkfsVolume s.blocks i).blockAt s.blocks p = (dino view β i).blockAt β p := by
  have haddrs : (dino mkfsVolume s.blocks i).addrs = (dino view β i).addrs := by
    rw [h.table i hi.1]
    split_ifs <;> rfl
  rw [blockAt_of_addrs_eq haddrs]
  exact blockAt_of_agree (fun q hq => h.data _ (h.disk.owns.range i q hi hq).1) p

lemma Image.shape (h : Image args s β) (hi : Alloc view (dino view β) i) :
    Shape (dino mkfsVolume s.blocks i) s.blocks (nblk (laid args i).content.length) := by
  have hnode := h.disk.node i hi.1
  have htype : (dino view β i).type ≠ tDev := by
    rw [← hnode.type]
    by_cases hroot : i = rootino
    · rw [hroot, laid_root]
      exact (by decide : tDir ≠ tDev)
    · rw [laid, if_neg hroot]
      split_ifs
      · exact (by decide : (0 : Int16) ≠ tDev)
      · rcases args[i - 2]? with _ | arg
        · exact (by decide : (0 : Int16) ≠ tDev)
        · exact (by decide : tFile ≠ tDev)
  have hshape := h.disk.shape i hi htype
  rw [← (hnode.content hi.2 htype).1] at hshape
  exact hshape.congr (h.blockAt hi)

/-- The size of an inode in the image. -/
lemma Image.size (h : Image args s β) (hn : args.length ≤ 206) (h1 : 1 ≤ i)
    (hi : i < args.length + 2) : (dino mkfsVolume s.blocks i).size.toNat =
      if i = rootino then roundUp (direntSize * (args.length + 2)) else (laid args i).content.length := by
  have hal := h.alloc hn h1 hi
  have hnode := h.disk.node i hal.1
  rw [h.table i hal.1]
  split_ifs with hroot
  · refine UInt32.toNat_ofNat_of_lt' ?_
    simp only [roundUp, bsize, direntSize, dirsiz, UInt32.size]
    omega
  · have htype : (dino view β i).type ≠ tDev := by
      rw [← hnode.type]
      rcases laid_type h1 hi with ht | ht <;> rw [ht] <;> decide
    exact (hnode.content hal.2 htype).1.symm

/-- The room that empty files take is that of the root directory. -/
lemma total_empty (h : ∀ arg ∈ args, arg.content = []) :
    total (laid args) = Fs.blocksFor (nblk (direntSize * (args.length + 2))) := by
  rw [total, Finset.sum_eq_single rootino, laid_root_length]
  · intro i _ hi
    have hzero : (laid args i).content.length = 0 := by
      rw [laid, if_neg hi]
      split_ifs
      · rfl
      · rcases hget : args[i - 2]? with _ | arg
        · rfl
        · exact congrArg List.length (h arg (List.mem_of_getElem? hget))
    rw [hzero]
    rfl
  · exact fun hno => absurd (Finset.mem_range.mpr (by decide)) hno

/-- An empty file named `a`. -/
def emptyFile : Arg := ⟨[97], by decide, some []⟩

/-- `mkfs` accepts empty files as long as their inodes come before the free map. -/
lemma mkfs_empty {n : ℕ} (hn : n ≤ 206) :
    ∃ s, mkfs (List.replicate n emptyFile) start = .ok ((), s) := by
  refine mkfs_fits (by rwa [List.length_replicate]) ⟨fun arg harg => ?_, ?_⟩
  · rw [List.eq_of_mem_replicate harg]
    exact ⟨by decide, rfl, Nat.zero_le _⟩
  · rw [total_empty fun arg harg => by rw [List.eq_of_mem_replicate harg]; rfl, List.length_replicate]
    have hle : Fs.blocksFor (nblk (direntSize * (n + 2))) ≤ Fs.blocksFor (nblk (direntSize * 208)) :=
      Fs.blocksFor_mono (Fs.nblk_mono (Nat.mul_le_mul_left _ (by omega)))
    exact (Nat.add_le_add_left hle _).trans (by decide)

/-! ### The areas -/

/-- What `mkfs` wrote lies in the areas of the image. -/
structure Within (s : State) : Prop where
  area : ∀ i ∈ s.inodes, mkfsVolume.inodestart ≤ iblock i ∧ iblock i < mkfsVolume.bmapstart
  inum : ∀ i ∈ s.inodes, i < mkfsVolume.ninodes
  blocks : ∀ i ∈ s.inodes, ∀ p, (dino mkfsVolume s.blocks i).blockAt s.blocks p ≠ 0 →
    mkfsVolume.nmeta ≤ (dino mkfsVolume s.blocks i).blockAt s.blocks p ∧
      (dino mkfsVolume s.blocks i).blockAt s.blocks p < fssize

/-- **`mkfs` stays in its areas exactly for at most 198 files.** -/
theorem mkfs_within {u : Unit} (h : mkfs args start = .ok (u, s)) :
    Within s ↔ args.length ≤ mkfsVolume.ninodes - 2 := by
  have hmem := mkfs_inodes h
  constructor
  · intro hw
    by_contra hlt
    have hlt : 198 < args.length := not_le.mp hlt
    have h200 := hw.inum 200 ((hmem 200).mpr (by omega))
    nomatch h200
  · intro hn
    have hn : args.length ≤ 198 := hn
    obtain ⟨β, himage⟩ := mkfs_image (by omega) h
    refine ⟨fun i hi => ?_, fun i hi => ?_, fun i hi p hp => ?_⟩
    · have := (hmem i).mp hi
      change 32 ≤ i / 8 + 32 ∧ i / 8 + 32 < 58
      omega
    · have := (hmem i).mp hi
      change i < 200
      omega
    · obtain ⟨h1, hlt⟩ := (hmem i).mp hi
      have hal := himage.alloc (by omega) h1 hlt
      rw [himage.blockAt hal] at hp ⊢
      exact himage.disk.owns.range i p hal hp

/-- An image with one empty file. -/
theorem mkfs_within_one : ∃ s, mkfs [emptyFile] start = .ok ((), s) ∧ Within s := by
  obtain ⟨s, hrun⟩ := @mkfs_empty 1 (by decide)
  exact ⟨s, hrun, (mkfs_within hrun).mpr (by decide)⟩

/-- **With 199 files `mkfs` writes inode 200**, which `sb.ninodes` excludes, and exits with status 0. -/
theorem mkfs_inode_200 : ∃ s, mkfs (List.replicate 199 emptyFile) start = .ok ((), s) ∧
    200 ∈ s.inodes ∧ ¬ Within s := by
  obtain ⟨s, hrun⟩ := @mkfs_empty 199 (by decide)
  have hmem : 200 ∈ s.inodes := (mkfs_inodes hrun 200).mpr (by rw [List.length_replicate]; omega)
  exact ⟨s, hrun, hmem, fun hw => absurd (hw.inum 200 hmem) (by decide)⟩

end Mkfs

end Col331
