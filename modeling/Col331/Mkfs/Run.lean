import Col331.Mkfs.Loop

/-!
Whole runs of `mkfs`.

* `format_spec`: the image before the first argument holds an empty root directory.
* `files_spec`: the loop over at most 206 arguments.
* `Image args s`: what the image looks like in the end: the inodes of `laid args`, with the size of the
  root directory rounded, and the free map of the blocks handed out.
* `mkfs_spec`: a run with at most 206 arguments ends with such an image if the arguments fit, and only
  then it ends well.
-/

namespace Col331

open Function Prog

namespace Mkfs

/-! ### The empty image -/

/-- The image before the first inode is written. -/
def blank : State :=
  { start with
    blocks := update (fun _ => Bytes.zero bsize) 1 superBlock
    len := fssize }

lemma blank_blocks {b : ℕ} (hb : b ≠ 1) : blank.blocks b = Bytes.zero bsize := by
  rw [blank]
  dsimp only
  rw [update_of_ne hb]

lemma zeroes_run {n : ℕ} (hn : n ≤ fssize) :
    ((List.range n).forM fun i => wsect i (Bytes.zero bsize)) start =
      .ok ((), { start with len := n }) := by
  induction n with
  | zero => rfl
  | succ n ih =>
    rw [List.range_succ, List.forM_eq_forM, List.forM_append, ← List.forM_eq_forM,
      bind_ok (ih (Nat.le_of_succ_le hn))]
    change (wsect n (Bytes.zero bsize) >>= fun _ => pure PUnit.unit) _ = _
    rw [wsect, bind_ok (modify_run _ _), sector_of_lt (Nat.le_of_succ_le hn), pure_run]
    simp only [start]
    rw [update_eq_self_iff.mpr rfl, max_eq_right (Nat.le_succ n)]

lemma dinodeAt_zero (k : ℕ) : dinodeAt (Bytes.zero bsize) k = Dinode.zero := by
  refine dinodeAt_of_bytes fun j hj => ?_
  have hzero : ∀ j < 64, Dinode.zero.byte j = 0 := by decide
  rw [hzero j hj]
  exact Bytes.byte_zero _

lemma total_free : total (fun _ => Node.free) = 0 := by
  refine Finset.sum_eq_zero fun _ _ => ?_
  exact (by decide : Fs.blocksFor (nblk Node.free.content.length) = 0)

/-- An image without inodes. -/
lemma blank_built : Built blank fun _ => Node.free := by
  set β := image view (fun _ => Dinode.zero) view.nmeta fun _ => Bytes.zero bsize with hβ
  have hdino : ∀ i < view.ninodes, dino view β i = Dinode.zero := fun i hi => dino_image hi
  have hused : ∀ c < fssize, used view β c = decide (c < view.nmeta) := fun c hc => used_image hc
  have hnone : ∀ i, ¬ Alloc view (dino view β) i := fun i hi => hi.2 (by rw [hdino i hi.1]; rfl)
  refine ⟨?_, β, ⟨rfl, by decide, fun b hb => ?_, fun b hb => ?_, hused, fun i hi => ?_⟩,
    ⟨fun i p hi => absurd hi (hnone i), fun i p j q hi => absurd hi (hnone i), fun b hb => ?_⟩,
    fun i hi => absurd hi (hnone i), fun i hi => ?_⟩
  · rw [total_free]
    rfl
  · have hb : 59 ≤ b := hb
    exact blank_blocks (by omega)
  · rw [hβ, image_data hb]
    have hb : 59 ≤ b := hb
    exact (blank_blocks (by omega)).symm
  · rw [hdino i hi, dino, blank_blocks, dinodeAt_zero]
    change i / 8 + 32 ≠ 1
    omega
  · rw [hused b hb, decide_eq_true_eq]
    refine ⟨.inl, ?_⟩
    rintro (h | ⟨i, p, hi, _⟩)
    · exact h
    · exact absurd hi (hnone i)
  · rw [hdino i hi, nodeRel_iff, Dinode.node, if_pos (by rfl)]

/-! ### The loop -/

lemma blocksFor_one {n : ℕ} (h0 : 0 < n) (hn : n ≤ bsize) : Fs.blocksFor (nblk n) = 1 := by
  have hnblk : nblk n = 1 := by
    simp only [nblk, bsize] at *
    omega
  rw [hnblk]
  rfl

/-- The room that the root directory takes at first. -/
lemma total_root {c : List UInt8} (h0 : 0 < c.length) (hc : c.length ≤ bsize) :
    total (update (fun _ => Node.free) rootino (plain tDir c)) = 1 := by
  have htotal := total_update (N := fun _ => Node.free) (i := rootino) (by decide) (plain tDir c)
  have hfree : Fs.blocksFor (nblk Node.free.content.length) = 0 := by decide
  have hone : Fs.blocksFor (nblk (plain tDir c).content.length) = 1 := blocksFor_one h0 hc
  rw [total_free, hone, hfree] at htotal
  omega

variable {args : List Arg} {s : State}

lemma Built.append_root {c : List UInt8}
    (h : Built s (update (fun _ => Node.free) rootino (plain tDir c))) (p : List UInt8)
    (h0 : 0 < (c ++ p).length) (hp : (c ++ p).length ≤ bsize) :
    wp (Mkfs.iappend rootino p)
      (fun _ s' => Built s' (update (fun _ => Node.free) rootino (plain tDir (c ++ p))))
      (fun _ => False) s := by
  have hwp := h.iappend (i := rootino) (by decide) (by rw [update_self]; exact .inr rfl) p
  rw [update_self, update_idem] at hwp
  refine wp_mono hwp (fun _ _ h' => h') fun _ he => ?_
  have htotal := total_root h0 hp
  rw [plain, List.length_append] at *
  have hshort := he (by simp only [bsize, maxfile, ndirect, nindirect] at *; omega)
  rw [htotal] at hshort
  exact absurd hshort (by decide)

/-- **The image before the first argument.** -/
lemma format_run : ∃ s, format start = .ok ((), s) ∧ Built s (laid []) ∧ Counted s ∧ s.freeinode = 2 := by
  have hsuper : wsect 1 superBlock { start with len := fssize } = .ok ((), blank) :=
    wsect_run rfl (by decide) _
  obtain ⟨s₁, hrun, h₁⟩ := blank_built.ialloc (by decide) rfl (by decide : tDir ≠ 0)
  have hc₁ := (wp_of_ok hrun).mp (ialloc_frame tDir blank)
  have hroot : blank.freeinode = rootino := rfl
  have hfi₁ : s₁.freeinode = 2 := hc₁.2.2.1
  have hcount : Counted s₁ := by
    refine ⟨hfi₁.ge, fun i => ?_⟩
    rw [hc₁.2.2.2, hfi₁]
    change i ∈ [1] ↔ 1 ≤ i ∧ i < 2
    rw [List.mem_singleton]
    omega
  rw [hroot] at hrun h₁
  have hdot := wp_and (h₁.append_root (dirent rootino [46]).bytes (by decide) (by decide))
    (hcount.iappend (by simp only [rootino]; omega) _)
  obtain ⟨_, s₂, hrun₂, h₂, hc₂, hfi₂, -⟩ := hdot.exists_ok fun _ he => he.1
  have hdots := wp_and (h₂.append_root (dirent rootino [46, 46]).bytes (by decide) (by decide))
    (hc₂.iappend (by simp only [rootino]; omega) _)
  obtain ⟨_, s₃, hrun₃, h₃, hc₃, hfi₃, -⟩ := hdots.exists_ok fun _ he => he.1
  have hassert : assert (rootino = rootino) s₁ = .ok ((), s₁) := by
    rw [assert, if_pos rfl, pure_run]
  refine ⟨s₃, ?_, ?_, hc₃, by omega⟩
  · rw [format, bind_ok (zeroes_run le_rfl), bind_ok hsuper, bind_ok hrun,
      bind_ok hassert, bind_ok hrun₂, hrun₃]
  · have hlaid : laid [] = update (fun _ => Node.free) rootino (plain tDir
        ([] ++ (dirent rootino [46]).bytes ++ (dirent rootino [46, 46]).bytes)) := by
      funext i
      rw [update_apply]
      split_ifs with hi
      · rw [hi, laid_root]
        rfl
      · rw [laid, if_neg hi]
        split_ifs <;> rfl
    rwa [hlaid]

/-- **The loop over the arguments.** -/
lemma files_spec (h : Built s (laid [])) (hc : Counted s)
    (hfree : s.freeinode = 2) (hn : args.length ≤ 206) :
    wp (args.forM addFile) (fun _ s' => Built s' (laid args)) (fun _ => ¬ Fits args) s := by
  have hloop := wp_forM (E := fun _ => ¬ Fits args) (f := addFile)
    (I := fun done s' => Built s' (laid done) ∧ Counted s' ∧ s'.freeinode = done.length + 2) args []
    ⟨h, hc, hfree⟩ ?_
  · exact wp_post hloop fun _ _ h' => h'.1
  · rintro before arg after s₁ hl ⟨h₁, hc₁, hfi₁⟩
    rw [List.nil_append] at hl
    have hlen := congrArg List.length hl
    rw [List.length_append, List.length_cons] at hlen
    refine wp_mono (wp_and (addFile_spec h₁ hfi₁ (by omega) arg) (addFile_counted hc₁ arg)) ?_ ?_
    · rintro _ s₂ ⟨h₂, hc₂, hfi₂, -⟩
      exact ⟨h₂, hc₂, by rw [List.length_append]; simp only [List.length_singleton]; omega⟩
    · rintro e ⟨he, -⟩ hfit
      refine he ⟨hfit.fine arg (by rw [hl]; simp), le_trans ?_ hfit.blocks⟩
      have hcons : args = (before ++ [arg]) ++ after := by rw [hl, List.append_assoc]; rfl
      rw [hcons]
      exact Nat.add_le_add_left (total_laid_le _ _) _

/-! ### The end -/

/-- The free map that `balloc` writes. -/
lemma bit_balloc (n : ℕ) (hn : n ≤ bsize * 8) (c : ℕ) :
    ((List.range n).foldl Bytes.setBit (Bytes.zero bsize)).bit c = decide (c < n) := by
  induction n with
  | zero => simp [Bytes.bit]
  | succ n ih =>
    rw [List.range_succ, List.foldl_append, List.foldl_cons, List.foldl_nil,
      Bytes.bit_setBit _ (by omega), ih (by omega), ← Bool.decide_or]
    exact decide_eq_decide.mpr (by omega)

/-- The size of the root directory, rounded. -/
def roundUp (n : ℕ) : ℕ := (n / bsize + 1) * bsize

/-- **The image in the end.** -/
structure Image (args : List Arg) (s : State) (β : Disk) : Prop where
  disk : DiskRel view (dino view β) β (laid args)
  full : ∀ c < fssize, used view β c = decide (c < s.freeblock)
  data : ∀ b, view.nmeta ≤ b → s.blocks b = β b
  table : ∀ i < view.ninodes, dino mkfsVolume s.blocks i = if i = rootino then
    { dino view β i with size := UInt32.ofNat (roundUp (direntSize * (args.length + 2))) }
    else dino view β i
  map : ∀ c < fssize, used mkfsVolume s.blocks c = decide (c < s.freeblock)

lemma finish_spec (h : Built s (laid args)) :
    wp finish (fun _ s' => (∃ β, Image args s' β) ∧ s'.inodes = rootino :: s.inodes ∧
      s'.freeblock = s.freeblock) (fun _ => False) s := by
  obtain ⟨hfb, β, hs, hd⟩ := h
  have hle := hs.le
  have hsize : (dino view β rootino).size.toNat = direntSize * (args.length + 2) := by
    have hnode := hd.node rootino (by decide)
    have htype : (dino view β rootino).type = tDir := by rw [← hnode.type, laid_root, plain]
    rw [← (hnode.content (by rw [htype]; decide) (by rw [htype]; decide)).1, laid_root_length]
  have hmap : s.freeblock ≤ bsize * 8 := by
    simp only [bsize, fssize] at *
    omega
  set s₁ := s.wrote rootino { dino view β rootino with
    size := UInt32.ofNat (roundUp (direntSize * (args.length + 2))) } with hs₁
  rw [finish, wp_bind, wp_of_ok (rinode_run hs.len (by decide)), ← hs.table _ (by decide),
    hsize, wp_bind]
  rw [← roundUp, wp_of_ok (winode_run hs.len (by decide) _), ← hs₁, wp_bind, wp_get, balloc,
    wp_bind, assert, if_pos, wp_pure,
    wp_of_ok (wsect_run (s := s₁) hs.len (by decide) _)]
  · refine ⟨⟨β, hd, hs.map, fun b hb => ?_, fun i hi => ?_, fun c hc => ?_⟩, rfl, rfl⟩
    · have hb : 59 ≤ b := hb
      have hne : b ≠ mkfsVolume.bmapstart := by change b ≠ 58; omega
      have hne' : b ≠ iblock rootino := by change b ≠ 32; omega
      rw [hs.data b hb]
      exact (update_of_ne hne _ _).trans (update_of_ne hne' _ _)
    · have hi' : i < 208 := hi
      have hne : iblock i ≠ mkfsVolume.bmapstart := by change i / 8 + 32 ≠ 58; omega
      rw [dino]
      dsimp only
      rw [update_of_ne hne, ← dino]
      refine (dino_setDinode _).trans ?_
      rw [← hs.table i hi]
      split_ifs with hroot
      · rw [hroot]
      · rfl
    · have hmod : c % bpb = c := Nat.mod_eq_of_lt (by simp only [bpb, bsize, fssize] at *; omega)
      rw [used, mkfsVolume.bblock_eq hc, hmod]
      dsimp only
      rw [update_self]
      exact bit_balloc s₁.freeblock hmap c
  · simp only [bsize, fssize] at *
    change s.freeblock < 512 * 8
    omega

/-! ### Whole runs -/

/-- The three parts of a run. -/
lemma mkfs_parts {u : Unit} (h : mkfs args start = .ok (u, s)) :
    ∃ s₀ s₁, (Built s₀ (laid []) ∧ Counted s₀ ∧ s₀.freeinode = 2) ∧
      args.forM addFile s₀ = .ok ((), s₁) ∧ finish s₁ = .ok ((), s) := by
  obtain ⟨s₀, hformat, h₀⟩ := format_run
  rw [mkfs, bind_ok hformat] at h
  obtain ⟨_, s₁, hloop, hfinish⟩ := bind_eq_ok h
  exact ⟨s₀, s₁, h₀, hloop, hfinish⟩

/-- **The image of a run that ends well.** -/
lemma mkfs_image (hn : args.length ≤ 206) {u : Unit}
    (h : mkfs args start = .ok (u, s)) : ∃ β, Image args s β := by
  obtain ⟨s₀, s₁, ⟨h₀, hc₀, hfi₀⟩, hloop, hfinish⟩ := mkfs_parts h
  have h₁ := (wp_of_ok hloop).mp (files_spec h₀ hc₀ hfi₀ hn)
  exact ((wp_of_ok hfinish).mp (finish_spec h₁)).1

/-- If the arguments fit, `mkfs` makes an image. -/
lemma mkfs_fits (hn : args.length ≤ 206) (hfit : Fits args) :
    ∃ s, mkfs args start = .ok ((), s) := by
  obtain ⟨s₀, hformat, h₀, hc₀, hfi₀⟩ := format_run
  obtain ⟨_, s₁, hloop, h₁⟩ := (files_spec h₀ hc₀ hfi₀ hn).exists_ok fun _ he => he hfit
  obtain ⟨_, s, hfinish, -⟩ := (finish_spec h₁).exists_ok fun _ he => he
  exact ⟨s, by rw [mkfs, bind_ok hformat, bind_ok hloop, hfinish]⟩

/-- **The inodes that a run writes** are the root directory and one for each argument. -/
lemma mkfs_inodes {u : Unit} (h : mkfs args start = .ok (u, s)) (i : ℕ) :
    i ∈ s.inodes ↔ 1 ≤ i ∧ i < args.length + 2 := by
  obtain ⟨s₀, s₁, ⟨-, hc₀, hfi₀⟩, hloop, hfinish⟩ := mkfs_parts h
  obtain ⟨hc₁, hfi₁, -⟩ := (wp_of_ok hloop).mp (files_counted hc₀ args)
  have hmem := hc₁.mem i
  rw [hfi₁, hfi₀] at hmem
  rw [finish] at hfinish
  obtain ⟨d, s₂, hread, hfinish⟩ := bind_eq_ok hfinish
  obtain ⟨_, s₃, hwrite, hfinish⟩ := bind_eq_ok hfinish
  obtain ⟨_, s₄, hget, hmap⟩ := bind_eq_ok hfinish
  have h₂ := (wp_of_ok hread).mp (((rsect_plain _).bind fun _ => Plain.pure _) s₁)
  have h₃ := (wp_of_ok hwrite).mp (winode_frame _ _ s₂)
  obtain ⟨rfl, rfl⟩ : _ ∧ s₃ = s₄ := by simpa using hget
  have h₄ := (wp_of_ok hmap).mp (((assert_plain _).bind fun _ => wsect_plain _ _) s₃)
  rw [h₄.2.2, h₃.2.2, h₂.2.2, List.mem_cons, hmem]
  simp only [rootino]
  omega

end Mkfs

end Col331
