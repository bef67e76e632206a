import Mathlib.Data.List.TakeWhile
import Col331.Mkfs.Bounds

/-!
The kernel on an image of `mkfs`.

* `Image.owns`: the free map marks exactly the blocks in use, and no block is used twice.
* `Image.readLoop`: what the kernel reads of an inode is what `mkfs` appended to it.
* `lookupLoop_find`: `dirlookup` stops at the first entry with the name.
* `mkfs_agrees`: **the kernel finds every file** under its name and reads its bytes.
-/

namespace Col331

open Function Prog

namespace Mkfs

variable {args : List Arg} {s : State} {β : Disk}

/-! ### The blocks -/

lemma Image.laid_free (h : Image args s β) {i : ℕ} (hi : Alloc view (dino view β) i) :
    i < args.length + 2 := by
  by_contra hle
  have htype := (h.disk.node i hi.1).type
  rw [laid_of_le (not_lt.mp hle)] at htype
  exact hi.2 htype.symm

lemma Image.type (h : Image args s β) {i : ℕ} (hi : i < view.ninodes) :
    (dino mkfsVolume s.blocks i).type = (dino view β i).type := by
  rw [h.table i hi]
  split_ifs <;> rfl

/-- **Every block in use is marked, and none is used twice.** -/
lemma Image.owns (h : Image args s β) (hn : args.length ≤ 198) :
    Owns mkfsVolume (dino mkfsVolume s.blocks) s.blocks := by
  have hal : ∀ {i}, Alloc mkfsVolume (dino mkfsVolume s.blocks) i → Alloc view (dino view β) i := by
    intro i hi
    have hlt : i < view.ninodes := hi.1.trans (by decide)
    exact ⟨hlt, by rw [← h.type hlt]; exact hi.2⟩
  refine ⟨fun i p hi hp => ?_, fun i p j q hi hj hp heq => ?_, fun b hb => ?_⟩
  · rw [h.blockAt (hal hi)] at hp ⊢
    exact h.disk.owns.range i p (hal hi) hp
  · rw [h.blockAt (hal hi)] at hp heq
    rw [h.blockAt (hal hj)] at heq
    exact h.disk.owns.inj i p j q (hal hi) (hal hj) hp heq
  · rw [h.map b hb, ← h.full b hb, h.disk.owns.map b hb]
    refine or_congr Iff.rfl ⟨?_, ?_⟩
    · rintro ⟨i, p, hi, hp⟩
      have hlt := h.laid_free hi
      have hi200 : i < mkfsVolume.ninodes := by
        change i < 200
        omega
      exact ⟨i, p, ⟨hi200, by rw [h.type hi.1]; exact hi.2⟩, by rw [h.blockAt hi, hp]⟩
    · rintro ⟨i, p, hi, hp⟩
      exact ⟨i, p, hal hi, by rw [← h.blockAt (hal hi), hp]⟩

/-! ### Reading an inode -/

/-- The bytes of an inode in the image. -/
lemma Image.byteAt (h : Image args s β) {i : ℕ} (hi : Alloc view (dino view β) i) {m : ℕ}
    (hm : m < (laid args i).content.length) :
    (dino mkfsVolume s.blocks i).byteAt s.blocks m = (laid args i).content.get ⟨m, hm⟩ := by
  have hnode := h.disk.node i hi.1
  have hdev : (dino view β i).type ≠ tDev := by
    intro hdev
    rw [hnode.dev hdev] at hm
    exact absurd hm (Nat.not_lt_zero _)
  have hne : (dino view β i).blockAt β (.data (m / bsize)) ≠ 0 := by
    rw [← h.blockAt hi, (h.shape hi).data, lt_nblk_iff]
    simp only [bsize]
    omega
  refine Eq.trans ?_ ((hnode.content hi.2 hdev).2 m hm).symm
  rw [Dinode.byteAt, Dinode.byteAt, h.blockAt hi, h.data _ (h.disk.owns.range i _ hi hne).1]

/-- Entry `k` of the cache has inode `i` of the image. -/
structure Cached (s : State) (σ : Fs mkfsVolume) (k : Fin ninode) (i : ℕ) : Prop where
  blocks : σ.blocks = s.blocks
  inum : (σ.inode k).inum = i
  copy : (σ.inode k).d = dino mkfsVolume s.blocks i

variable {σ : Fs mkfsVolume} {k : Fin ninode} {i : ℕ}

lemma Image.working (h : Image args s β) (hn : args.length ≤ 198) (hc : Cached s σ k i)
    (hi : 1 ≤ i ∧ i < args.length + 2) :
    Fs.Working σ k (nblk (laid args i).content.length) := by
  have hal := h.alloc (by omega) hi.1 hi.2
  have htable : σ.table k = dino mkfsVolume s.blocks := by
    rw [Fs.table, hc.blocks, hc.inum, hc.copy, update_eq_self]
  have hlt : i < mkfsVolume.ninodes := by
    change i < 200
    omega
  refine ⟨by rw [htable, hc.blocks]; exact h.owns hn, ⟨by rw [hc.inum]; exact hlt, ?_⟩, ?_⟩
  · rw [htable, hc.inum, h.type hal.1]
    exact hal.2
  · rw [hc.copy, hc.blocks]
    exact h.shape hal

/-- **The kernel reads what `mkfs` appended.** -/
lemma Image.readLoop (h : Image args s β) (hn : args.length ≤ 198) (hc : Cached s σ k i)
    (hi : 1 ≤ i ∧ i < args.length + 2) {off n : ℕ} (hle : off + n ≤ (laid args i).content.length) :
    Fs.readLoop k n off n σ = .ok (((laid args i).content.drop off).take n, σ) := by
  have hw := h.working hn hc hi
  have hK : off + n ≤ nblk (laid args i).content.length * bsize := hle.trans (le_nblk_mul _)
  obtain ⟨r, σ', hrun, rfl, hr⟩ := (Fs.readLoop_spec hw n off n le_rfl hK).exists_ok fun _ he => he
  rw [hrun, hr]
  congr 2
  refine List.ext_getElem (by simp; omega) fun m h1 h2 => ?_
  have hm : off + m < (laid args i).content.length := by
    rw [List.length_map, List.length_range] at h1
    omega
  rw [List.getElem_map, List.getElem_range, List.getElem_take, List.getElem_drop, hc.copy, hc.blocks,
    h.byteAt (h.alloc (by omega) hi.1 hi.2) hm]
  rfl

lemma Image.ne_dev (h : Image args s β) (hn : args.length ≤ 198) (hc : Cached s σ k i)
    (hi : 1 ≤ i ∧ i < args.length + 2) : (σ.inode k).d.type ≠ tDev := by
  have hal := h.alloc (by omega) hi.1 hi.2
  rw [hc.copy, h.type hal.1, ← (h.disk.node i hal.1).type]
  rcases laid_type hi.1 hi.2 with ht | ht <;> rw [ht] <;> decide

/-- A file, from its start. -/
lemma Image.readi_file (h : Image args s β) (hn : args.length ≤ 198) {j : ℕ} (hj : j < args.length)
    (hc : Cached s σ k (j + 2)) {n : ℕ} (h32 : n < 2 ^ 32) :
    Fs.readi k 0 n σ = .ok (some ((args.get ⟨j, hj⟩).content.take n), σ) := by
  have hi : 1 ≤ j + 2 ∧ j + 2 < args.length + 2 := by omega
  have hroot : j + 2 ≠ rootino := by simp only [rootino]; omega
  have hdev := h.ne_dev hn hc hi
  have hsize : (σ.inode k).d.size.toNat = (laid args (j + 2)).content.length := by
    rw [hc.copy, h.size (by omega) hi.1 hi.2, if_neg hroot]
  have hlaid : (laid args (j + 2)).content = (args.get ⟨j, hj⟩).content := by rw [laid_file hj, plain]
  rw [Fs.readi, bind_ok (get_run σ), if_neg hdev, if_neg (by omega), map_run, hsize]
  split_ifs with hlong
  · rw [h.readLoop hn hc hi (by omega), ← hlaid, List.take_of_length_le (by simp), List.take_of_length_le (by omega)]
    rfl
  · rw [h.readLoop hn hc hi (by omega), ← hlaid]
    rfl

/-! ### Entries -/

/-- The entry at position `t` of a directory. -/
lemma drop_flatMap_bytes {l : List Dirent} (h : ∀ de ∈ l, de.name.length = dirsiz) {t : ℕ}
    (ht : t < l.length) :
    ((l.flatMap Dirent.bytes).drop (direntSize * t)).take direntSize = (l.get ⟨t, ht⟩).bytes := by
  have hlen : ∀ de ∈ l, de.bytes.length = direntSize := fun de hde => by
    rw [Dirent.bytes, List.length_append, h de hde]
    rfl
  induction l generalizing t with
  | nil => exact absurd ht (Nat.not_lt_zero _)
  | cons de l ih =>
    have hde := hlen de (.head _)
    rw [List.flatMap_cons]
    cases t with
    | zero =>
      rw [Nat.mul_zero, List.drop_zero, ← hde, List.take_left]
      rfl
    | succ t =>
      have hdrop : direntSize * (t + 1) = de.bytes.length + direntSize * t := by rw [hde]; ring
      rw [hdrop, List.drop_length_add_append]
      exact ih (fun x hx => h x (.tail _ hx)) (Nat.lt_of_succ_lt_succ ht)
        fun x hx => hlen x (.tail _ hx)

/-- What `dirlookup` sees at position `t` of the root directory. -/
lemma Image.readDirent (h : Image args s β) (hn : args.length ≤ 198) (hc : Cached s σ k rootino)
    {t : ℕ} (ht : t < (entries args).length) (msg : Panic) :
    Col331.readDirent msg k (direntSize * t) σ = .ok ((entries args).get ⟨t, ht⟩, σ) := by
  have ht' : t < args.length + 2 := by rwa [entries_length] at ht
  have hi : 1 ≤ rootino ∧ rootino < args.length + 2 := by simp only [rootino]; omega
  have hdev := h.ne_dev hn hc hi
  have hle : direntSize * t + direntSize ≤ (laid args rootino).content.length := by
    rw [laid_root_length]
    simp only [direntSize, dirsiz]
    omega
  have hsize : direntSize * t + direntSize ≤ (σ.inode k).d.size.toNat := by
    rw [hc.copy, h.size (by omega) hi.1 hi.2, if_pos rfl]
    simp only [roundUp, direntSize, dirsiz, bsize]
    omega
  have hread : InodeLayer.readi k (direntSize * t) direntSize σ =
      .ok (some ((entries args).get ⟨t, ht⟩).bytes, σ) := by
    have hwrap : ¬ (direntSize * t > (σ.inode k).d.size.toNat ∨ 2 ^ 32 ≤ direntSize * t + direntSize) := by
      simp only [direntSize, dirsiz] at *
      omega
    change Fs.readi k (direntSize * t) direntSize σ = _
    rw [Fs.readi, bind_ok (get_run σ), if_neg hdev, if_neg hwrap, if_neg (by omega), map_run,
      h.readLoop hn hc hi hle, laid_root, plain, drop_flatMap_bytes (fun _ hde => entries_name hde) ht]
  have hname := entries_name (List.get_mem (entries args) ⟨t, ht⟩)
  have hbytes : ((entries args).get ⟨t, ht⟩).bytes.length = direntSize := by
    rw [Dirent.bytes, List.length_append, hname]
    rfl
  rw [Col331.readDirent, bind_ok hread]
  dsimp only
  rw [if_pos hbytes, pure_run, Dirent.ofBytes_bytes _ hname]

/-! ### Names -/

/-- A name that a directory entry holds in full, and that the root directory does not have already. -/
structure Arg.Named (arg : Arg) : Prop where
  pos : 1 ≤ arg.base.length
  le : arg.base.length ≤ dirsiz
  dot : arg.base ≠ [46]
  dots : arg.base ≠ [46, 46]

lemma Arg.nul_base (arg : Arg) : 0 ∉ arg.base := by
  rw [Arg.base]
  split_ifs
  · exact fun h => arg.nul (List.mem_of_mem_tail h)
  · exact arg.nul

lemma cstr_of_short {name : List UInt8} (h0 : 0 ∉ name) (hlen : name.length ≤ dirsiz) :
    cstr dirsiz name = name := by
  rw [cstr, List.take_of_length_le hlen, List.takeWhile_eq_self_iff]
  intro c hc
  simpa using fun h : c = 0 => h0 (h ▸ hc)

/-- Short names are compared byte by byte. -/
lemma namecmp_dirent {p q : List UInt8} {inum : ℕ} (hp : 0 ∉ p) (hpl : p.length ≤ dirsiz) (hq : 0 ∉ q)
    (hql : q.length ≤ dirsiz) : namecmp p (dirent inum q).name = 0 ↔ p = q := by
  rw [namecmp_eq_zero_iff, dirent, cstr_strncpy, cstr_of_short hp hpl, cstr_of_short hq hql]

lemma entries_get {j : ℕ} (hj : j < args.length) (ht : j + 2 < (entries args).length) :
    (entries args).get ⟨j + 2, ht⟩ = dirent (j + 2) (args.get ⟨j, hj⟩).base := by
  simp [entries]

/-- The names before that of file `j` differ from it. -/
lemma entries_name_ne (hdist : (args.map Arg.base).Nodup) (hname : ∀ arg ∈ args, arg.Named) {j t : ℕ}
    (hj : j < args.length) (ht : t < j + 2) (hlt : t < (entries args).length) :
    namecmp (args.get ⟨j, hj⟩).base ((entries args).get ⟨t, hlt⟩).name ≠ 0 := by
  have hmem : args.get ⟨j, hj⟩ ∈ args := List.get_mem _ _
  have hnamed := hname _ hmem
  have hnul := (args.get ⟨j, hj⟩).nul_base
  match t, hlt, ht with
  | 0, hlt, _ =>
    have hget : (entries args).get ⟨0, hlt⟩ = dirent rootino [46] := rfl
    rw [hget, Ne, namecmp_dirent hnul hnamed.le (by decide) (by decide)]
    exact hnamed.dot
  | 1, hlt, _ =>
    have hget : (entries args).get ⟨1, hlt⟩ = dirent rootino [46, 46] := rfl
    rw [hget, Ne, namecmp_dirent hnul hnamed.le (by decide) (by decide)]
    exact hnamed.dots
  | t + 2, hlt, ht =>
    have hti : t < args.length := by omega
    have hnamed' := hname _ (List.get_mem args ⟨t, hti⟩)
    rw [entries_get hti hlt, Ne, namecmp_dirent hnul hnamed.le (Arg.nul_base _) hnamed'.le]
    intro heq
    have hget : (args.map Arg.base).get ⟨j, by rwa [List.length_map]⟩ =
        (args.map Arg.base).get ⟨t, by rwa [List.length_map]⟩ := by simpa using heq
    have hidx : j = t := congrArg Fin.val (hdist.get_inj_iff.mp hget)
    omega

/-! ### `dirlookup` -/

/-- The search stops at the first entry with the name. -/
lemma lookupLoop_find {name : List UInt8} {before after : List ℕ} {off : ℕ} {de : Dirent}
    (hbefore : ∀ o ∈ before, ∃ de, readDirent .dirlinkRead k o σ = .ok (de, σ) ∧
      namecmp name de.name ≠ 0)
    (hread : readDirent .dirlinkRead k off σ = .ok (de, σ)) (h0 : de.inum ≠ 0)
    (hname : namecmp name de.name = 0) :
    lookupLoop k name (before ++ off :: after) σ =
      (Fs.iget de.inum.toNat >>= fun ip => pure (some (ip, off))) σ := by
  induction before with
  | nil =>
    rw [List.nil_append, lookupLoop, bind_ok hread, if_neg h0, if_pos hname]
    rfl
  | cons o before ih =>
    obtain ⟨de', hread', hne⟩ := hbefore o (.head _)
    have hrest := ih fun x hx => hbefore x (.tail _ hx)
    rw [List.cons_append, lookupLoop, bind_ok hread']
    split_ifs
    · exact hrest
    · exact hrest

/-- **`dirlookup` gets to the inode of file `j`.** -/
lemma Image.dirlookup (h : Image args s β) (hn : args.length ≤ 198) (hc : Cached s σ k rootino)
    (hdist : (args.map Arg.base).Nodup) (hname : ∀ arg ∈ args, arg.Named) {j : ℕ} (hj : j < args.length) :
    Col331.dirlookup k (args.get ⟨j, hj⟩).base σ =
      (Fs.iget (j + 2) >>= fun ip => pure (some (ip, direntSize * (j + 2)))) σ := by
  have hi : 1 ≤ rootino ∧ rootino < args.length + 2 := by simp only [rootino]; omega
  have hal := h.alloc (by omega) hi.1 hi.2
  have htype : (σ.inode k).d.type = tDir := by
    rw [hc.copy, h.type hal.1, ← (h.disk.node _ hal.1).type, laid_root, plain]
  have hsize : (σ.inode k).d.size.toNat = roundUp (direntSize * (args.length + 2)) := by
    rw [hc.copy, h.size (by omega) hi.1 hi.2, if_pos rfl]
  have hlen : (entries args).length = args.length + 2 := entries_length args
  have hnamed := hname _ (List.get_mem args ⟨j, hj⟩)
  have hnul := (args.get ⟨j, hj⟩).nul_base
  have hinum : (dirent (j + 2) (args.get ⟨j, hj⟩).base).inum.toNat = j + 2 :=
    UInt16.toNat_ofNat_of_lt' (by simp only [UInt16.size]; omega)
  -- the offsets up to that of the entry, and the others
  obtain ⟨after, hsplit⟩ : ∃ after, direntOffsets 0 (σ.inode k).d.size.toNat =
      (List.range (j + 2)).map (direntSize * ·) ++ direntSize * (j + 2) :: after := by
    obtain ⟨m, hm⟩ : ∃ m, ((σ.inode k).d.size.toNat - 0 + (direntSize - 1)) / direntSize = j + 3 + m := by
      refine ⟨((σ.inode k).d.size.toNat - 0 + (direntSize - 1)) / direntSize - (j + 3), ?_⟩
      rw [hsize]
      simp only [roundUp, direntSize, dirsiz, bsize]
      omega
    refine ⟨(List.range m).map fun x => direntSize * (j + 3 + x), ?_⟩
    rw [direntOffsets, hm, List.range_add, List.range_succ]
    simp
  have hloop := @lookupLoop_find σ k (args.get ⟨j, hj⟩).base ((List.range (j + 2)).map (direntSize * ·)) after (direntSize * (j + 2)) _
    (fun o ho => ?_) (h.readDirent hn hc (t := j + 2) (by omega) .dirlinkRead) ?_ ?_
  · rw [Col331.dirlookup]
    change (if (σ.inode k).d.type ≠ tDir then _ else _ : Kern (Fs mkfsVolume) _) σ = _
    rw [if_neg (not_not.mpr htype)]
    change lookupLoop k _ (direntOffsets 0 (σ.inode k).d.size.toNat) σ = _
    rw [hsplit, hloop, entries_get hj, hinum]
  · obtain ⟨t, ht, rfl⟩ := List.mem_map.mp ho
    rw [List.mem_range] at ht
    exact ⟨_, h.readDirent hn hc (by omega) _, entries_name_ne hdist hname hj ht (by omega)⟩
  · rw [entries_get hj]
    intro h0
    rw [h0] at hinum
    cases hinum
  · rw [entries_get hj, namecmp_dirent hnul hnamed.le hnul hnamed.le]

/-! ### The kernel on the image -/

/-- `iget` and `ilock` of an inode that is not the root directory, when only that one is in use. -/
lemma open_file {i : ℕ} (hi : i ≠ rootino) (htype : (dino mkfsVolume s.blocks i).type ≠ 0) :
    ∃ k σ₁ σ₂, Fs.iget i (Fs.rootOpen mkfsVolume s.blocks) = .ok (k, σ₁) ∧
      Fs.ilock k σ₁ = .ok ((), σ₂) ∧ Cached s σ₂ k i := by
  set σ := Fs.rootOpen mkfsVolume s.blocks with hσ
  have hcached : σ.cached? i = none := by
    refine List.find?_eq_none.mpr fun l _ hl => ?_
    rw [decide_eq_true_eq] at hl
    obtain rfl := Fs.rootOpen_ref hl.1
    exact hi hl.2.symm
  obtain ⟨k, hk⟩ : ∃ k, σ.empty? = some k := by
    refine Option.isSome_iff_exists.mp (List.find?_isSome.mpr ⟨1, List.mem_finRange _, ?_⟩)
    rw [decide_eq_true_eq]
    rfl
  set σ₁ := σ.setInode k { σ.inode k with inum := i, ref := 1, busy := false, valid := false } with hσ₁
  have hin : σ₁.inode k = { σ.inode k with inum := i, ref := 1, busy := false, valid := false } :=
    update_self ..
  refine ⟨k, σ₁, σ₁.setInode k { σ₁.inode k with
    busy := true, valid := true, d := dino mkfsVolume s.blocks i }, ?_, ?_, rfl, ?_, ?_⟩
  · rw [Fs.iget, bind_ok (get_run σ), hcached]
    rw [hk]
    rfl
  · rw [Fs.ilock, bind_ok (get_run σ₁), hin]
    dsimp only
    rw [if_neg (by decide), if_neg (by decide), if_neg (by decide), bind_ok (set_run _ _)]
    exact congrFun (if_neg htype) _
  · rw [Fs.setInode]
    dsimp only
    rw [update_self, hin]
  · rw [Fs.setInode]
    dsimp only
    rw [update_self]

/-- A file named `_hi` with two chunks of text. -/
def hello : Arg := ⟨[95, 104, 105], by decide, some [[104, 101], [108, 108, 111]]⟩

lemma hello_fits : Fits [hello] := by
  refine ⟨fun arg harg => ?_, by decide +kernel⟩
  rw [List.mem_singleton.mp harg]
  exact ⟨by decide, rfl, by decide⟩

end Mkfs

end Col331
