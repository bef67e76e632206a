import Col331.Fs.Image
import Col331.Fs.Sim

/-!
The content of a file is an array of bytes to `readi` and `writei`.

* `clipped c off n`: what a read of `n` bytes at `off` sees of the content `c`.
* `Opened.readi_run`, `Opened.writei_run`: what the two return in a file system in good order.
* `file_bytes`: **a write overlays the content** of its file and leaves the other files alone, and
  it is carried out whenever the blocks it needs are free.
* `writei_full`: on a full disk a write that lengthens a file panics.
-/

namespace Col331

open Prog

variable {V : Volume}

/-- What `readi` returns of a file with content `c`: nothing for an offset behind the end or a
range that wraps, and otherwise the bytes up to the end. -/
def clipped (c : List UInt8) (off n : ℕ) : Option (List UInt8) :=
  if off > c.length ∨ 2 ^ 32 ≤ off + n then none else some ((c.drop off).take n)

/-- The entry of the inode cache that an abstract entry stands for. -/
lemma Rel.slot_eq {s : Fs V} {a : Afs V} {k : Fin ninode} {x : Slot} (h : Rel s a)
    (hx : a.slot k = x) (hpos : 0 < x.ref) :
    (s.inode k).ref = x.ref ∧ (s.inode k).inum = x.inum ∧ (s.inode k).busy = x.busy ∧
      (s.inode k).valid = x.valid := by
  subst hx
  have href := h.ref k
  obtain ⟨h1, h2, h3⟩ := h.fields (k := k) (by omega)
  exact ⟨href.symm, h1.symm, h2.symm, h3.symm⟩

namespace Fs

variable {s : Fs V} {k : Fin ninode}

/-- The content of the file in entry `k` of the inode cache. -/
def content (s : Fs V) (k : Fin ninode) : List UInt8 := (s.nodes (s.inode k).inum).content

/-- Entry `k` holds a regular file or a directory that has been locked. -/
structure Opened (s : Fs V) (k : Fin ninode) : Prop where
  ref : 0 < (s.inode k).ref
  valid : (s.inode k).valid = true
  type : (s.inode k).d.type = tFile ∨ (s.inode k).d.type = tDir

namespace Opened

variable (ho : Opened s k) (h : s.Ok)

include ho

lemma ne_dev : (s.inode k).d.type ≠ tDev := by
  rcases ho.type with h | h
  all_goals
    rw [h]
    decide

lemma held : Afs.held k s.abs = .ok (s.nodes (s.inode k).inum, s.abs) := by
  have hslot : s.abs.slot k = _ := slots_of_pos ho.ref
  rw [← nodeOf_abs ho.ref]
  exact Afs.held_run (by rw [hslot]; exact ho.ref) (by rw [hslot]; exact ho.valid)

include h

lemma working : Working s k (nblk (s.inode k).d.size.toNat) :=
  h.rel.working ho.ref ho.valid ho.ne_dev

lemma type_eq : (s.nodes (s.inode k).inum).type = (s.inode k).d.type := by
  rw [← nodeOf_abs ho.ref]
  exact (h.rel.nodeOf ho.ref ho.valid).1.type

lemma size_eq : (s.inode k).d.size.toNat = (s.content k).length := by
  obtain ⟨hn, h0⟩ := h.rel.nodeOf ho.ref ho.valid
  rw [← (hn.content h0 ho.ne_dev).1, nodeOf_abs ho.ref]
  rfl

/-- **What `readi` returns.** -/
lemma readi_run (off n : ℕ) : Fs.readi k off n s = .ok (clipped (s.content k) off n, s) := by
  have habs : Afs.readi k off n s.abs = .ok (clipped (s.content k) off n, s.abs) := by
    have hdev : ¬ (s.nodes (s.inode k).inum).type = tDev := by
      rw [ho.type_eq h]
      exact ho.ne_dev
    rw [Afs.readi, bind_ok ho.held, if_neg hdev, clipped, content]
    split_ifs <;> rfl
  have hsim := sim_readi k off n s s.abs h.rel (by rw [habs]; simp)
  -- reading changes nothing, and so it allocates nothing
  have hsame : wp (Fs.readi k off n) (fun _ s' => s' = s) (fun _ => False) s := by
    simp only [Fs.readi, wp_bind, wp_get]
    rw [if_neg ho.ne_dev]
    by_cases hout : off > (s.inode k).d.size.toNat ∨ 2 ^ 32 ≤ off + n
    · rw [if_pos hout]
      exact rfl
    · rw [if_neg hout, wp_map]
      refine wp_post (readLoop_spec (ho.working h) _ _ _ le_rfl (le_trans ?_ (le_nblk_mul _)))
        fun _ _ hr => hr.1
      split_ifs <;> omega
  rcases hrun : Fs.readi k off n s with e | ⟨r, s'⟩
  · exact absurd ((wp_of_error hrun).mp hsame) not_false
  · obtain ⟨a', hr, -⟩ := (wp_of_ok hrun).mp hsim
    obtain rfl : s' = s := (wp_of_ok hrun).mp hsame
    rw [habs] at hr
    simp only [Except.ok.injEq, Prod.mk.injEq] at hr
    rw [hr.1]

variable (src : List UInt8) (off : ℕ)

lemma writei_refused (hr : Refused (s.content k).length off src.length) :
    Fs.writei k src off s = .ok (-1, s) := by
  rw [← ho.size_eq h] at hr
  have hspec := @writei_spec V s k src off (ho.working h) ho.ne_dev
  rcases hrun : Fs.writei k src off s with e | ⟨r, s'⟩
  · exact absurd hr ((wp_of_error hrun).mp hspec).2.1
  · rcases (wp_of_ok hrun).mp hspec with ⟨-, rfl, rfl⟩ | ⟨hno, -⟩
    · rfl
    · exact absurd hr hno

section

variable (hno : ¬ Refused (s.content k).length off src.length)

include hno

/-- Without the blocks it needs, `writei` panics. -/
lemma writei_short (hshort : s.space < missing (s.content k).length (off + src.length)) :
    Fs.writei k src off s = .error (.panic .ballocOut) := by
  rw [← ho.size_eq h] at hno hshort
  have hspec := @writei_spec V s k src off (ho.working h) ho.ne_dev
  rcases hrun : Fs.writei k src off s with e | ⟨r, s'⟩
  · rw [((wp_of_error hrun).mp hspec).1]
  · rcases (wp_of_ok hrun).mp hspec with ⟨hr, -⟩ | ⟨-, -, -, hspace⟩
    · exact absurd hr hno
    · omega

/-- The file system once the bytes are written and the size is set. -/
lemma of_wrote {s₁ s' : Fs V} (hW : Wrote s k (nblk (s.content k).length) off src s₁)
    (hs' : s' = if (s.content k).length < off + src.length then s₁.resized k (off + src.length)
      else s₁) :
    s'.Ok ∧ ((s'.inode k).ref = (s.inode k).ref ∧ (s'.inode k).inum = (s.inode k).inum ∧
        (s'.inode k).busy = (s.inode k).busy ∧ (s'.inode k).valid = true) ∧
      ∀ j < V.ninodes, s'.nodes j = if j = (s.inode k).inum then
        { s.nodes j with content := Afs.overlay (s.content k) src off } else s.nodes j := by
  have hsize := ho.size_eq h
  have hrel := h.rel.writei ho.ref ho.valid ho.ne_dev (by rwa [hsize]) (by rwa [hsize])
  have hslot : s.abs.slot k = _ := slots_of_pos ho.ref
  rw [hsize, ← hs', nodeOf_abs ho.ref, hslot] at hrel
  obtain ⟨href, hinum, hbusy, hvalid⟩ := hrel.slot_eq hslot ho.ref
  refine ⟨hrel.ok, ⟨href, hinum, hbusy, hvalid.trans ho.valid⟩, fun j hj => ?_⟩
  rw [← hrel.node_eq hj]
  refine (Function.update_apply ..).trans ?_
  split_ifs with hj
  · rw [hj]
    rfl
  · rfl

/-- **With them, it writes the bytes.** -/
lemma writei_run (hspace : missing (s.content k).length (off + src.length) ≤ s.space) :
    ∃ s', Fs.writei k src off s = .ok ((src.length : ℤ), s') ∧ s'.Ok ∧ Opened s' k ∧
      s'.content k = Afs.overlay (s.content k) src off ∧
      ∀ j < V.ninodes, j ≠ (s.inode k).inum → s'.nodes j = s.nodes j := by
  have hspec := @writei_spec V s k src off (ho.working h) ho.ne_dev
  rw [ho.size_eq h] at hspec
  rcases hrun : Fs.writei k src off s with e | ⟨r, s'⟩
  · exact absurd hspace ((wp_of_error hrun).mp hspec).2.2
  · rcases (wp_of_ok hrun).mp hspec with ⟨hr, -⟩ | ⟨-, rfl, ⟨s₁, hW, hs'⟩, -⟩
    · exact absurd hr hno
    · obtain ⟨hok, ⟨href, hinum, -, hvalid⟩, hnode⟩ := ho.of_wrote h src off hno hW hs'
      have hk' : 0 < (s'.inode k).ref := by rw [href]; exact ho.ref
      have hself := hnode _ (h.cache.inum k ho.ref)
      rw [if_pos rfl] at hself
      have htype : (s'.inode k).d.type = (s.inode k).d.type := by
        rw [← (hok.rel.nodeOf hk' hvalid).1.type, nodeOf_abs hk', hinum, hself]
        exact ho.type_eq h
      refine ⟨s', rfl, hok, ⟨hk', hvalid, by rw [htype]; exact ho.type⟩, ?_,
        fun j hj hne => by rw [hnode j hj, if_neg hne]⟩
      rw [content, hinum, hself]

end

end Opened

/-- **The content of a file is an array of bytes.**  `writei` refuses a write behind the end of the
file or beyond the largest file.  Any other write it carries out if the blocks it lacks are free, and
it panics if they are not. -/
theorem file_bytes (h : s.Ok) (ho : Opened s k) (src : List UInt8) (off : ℕ) :
    (∀ off' n', Fs.readi k off' n' s = .ok (clipped (s.content k) off' n', s)) ∧
    (Refused (s.content k).length off src.length → Fs.writei k src off s = .ok (-1, s)) ∧
    (¬ Refused (s.content k).length off src.length →
      missing (s.content k).length (off + src.length) ≤ s.space →
      ∃ s', Fs.writei k src off s = .ok ((src.length : ℤ), s') ∧ s'.Ok ∧ Opened s' k ∧
        (∀ off' n', Fs.readi k off' n' s' =
          .ok (clipped (Afs.overlay (s.content k) src off) off' n', s')) ∧
        (s'.inode k).d.size.toNat = max (s.content k).length (off + src.length) ∧
        ∀ j < V.ninodes, j ≠ (s.inode k).inum → s'.nodes j = s.nodes j) ∧
    (¬ Refused (s.content k).length off src.length →
      s.space < missing (s.content k).length (off + src.length) →
      Fs.writei k src off s = .error (.panic .ballocOut)) := by
  refine ⟨ho.readi_run h, ho.writei_refused h src off, fun hno hspace => ?_, ho.writei_short h src off⟩
  obtain ⟨s', hrun, hok, ho', hcontent, hframe⟩ := ho.writei_run h src off hno hspace
  have hoff : off ≤ (s.content k).length := by
    simp only [Refused, not_or] at hno
    omega
  refine ⟨s', hrun, hok, ho', fun off' n' => ?_, ?_, hframe⟩
  · rw [ho'.readi_run hok, hcontent]
  · rw [ho'.size_eq hok, hcontent, Afs.overlay_length hoff]

/-! ### The root directory, open -/

/-- The file system on a disk, with the root directory locked. -/
def rootOpen (V : Volume) (blocks : Disk) : Fs V where
  blocks := blocks
  inode k := if k = 0 then ⟨rootino, 1, true, true, dino V blocks rootino⟩
    else ⟨0, 0, false, false, Dinode.zero⟩
  logged := []
  ops := []

lemma rootOpen_ref {blocks : Disk} {l : Fin ninode} (hl : 0 < ((rootOpen V blocks).inode l).ref) :
    l = 0 := by
  by_contra hne
  simp [rootOpen, hne] at hl

section Root

variable {file : ℕ → Dinode} {root : Block}

lemma dino_rootImage : dino V (rootImage V file root) rootino = rootDinode V := by
  rw [rootImage, dino_image V.rootIno, rootTable, if_pos rfl]

lemma rootOpen_opened : Opened (rootOpen V (rootImage V file root)) 0 := by
  refine ⟨by simp [rootOpen], by simp [rootOpen], .inr ?_⟩
  change (dino V (rootImage V file root) rootino).type = tDir
  rw [dino_rootImage]
  rfl

lemma rootOpen_ok (hV : V.nmeta < V.size) (hfile : ∀ i j, (file i).addrs j = 0)
    (hsize : ∀ i, (file i).size = 0) : (rootOpen V (rootImage V file root)).Ok := by
  refine ⟨rootImage_ok hV hfile hsize, fun l => ?_, fun l hl => ?_, fun l hl _ => ?_,
    fun l m hl hm _ => (rootOpen_ref hl).trans (rootOpen_ref hm).symm⟩
  · by_cases hl : l = 0 <;> simp [rootOpen, hl]
  · obtain rfl := rootOpen_ref hl
    exact V.rootIno
  · obtain rfl := rootOpen_ref hl
    refine ⟨rfl, ?_⟩
    change (dino V (rootImage V file root) rootino).type ≠ 0
    rw [dino_rootImage]
    exact (by decide : tDir ≠ 0)

lemma content_rootOpen (hV : V.nmeta < V.size) (hfile : ∀ i j, (file i).addrs j = 0)
    (hsize : ∀ i, (file i).size = 0) :
    ((rootOpen V (rootImage V file root)).content 0).length = bsize := by
  rw [← rootOpen_opened.size_eq (rootOpen_ok hV hfile hsize)]
  change (dino V (rootImage V file root) rootino).size.toNat = bsize
  rw [dino_rootImage]
  rfl

lemma space_rootOpen :
    (rootOpen V (rootImage V file root)).space = V.size - (V.nmeta + 1) := by
  have hfree : (Finset.range V.size).filter (fun b => used V (rootImage V file root) b = false) =
      Finset.Ico (V.nmeta + 1) V.size := by
    ext b
    rw [Finset.mem_filter, Finset.mem_range, Finset.mem_Ico]
    constructor
    · rintro ⟨hb, hu⟩
      rw [rootImage, used_image hb, decide_eq_false_iff_not] at hu
      exact ⟨by omega, hb⟩
    · rintro ⟨hle, hb⟩
      rw [rootImage, used_image hb, decide_eq_false_iff_not]
      exact ⟨hb, by omega⟩
  rw [space, rootOpen]
  rw [hfree, Nat.card_Ico]

end Root

/-- A write to the root directory of a fresh file system. -/
theorem file_bytes_root : ∃ s : Fs mkfsVolume, s.Ok ∧ Opened s 0 ∧ ∃ s',
    Fs.writei 0 [1, 2, 3] 510 s = .ok (3, s') ∧ (s'.inode 0).d.size.toNat = 513 := by
  have hV : mkfsVolume.nmeta < mkfsVolume.size := by decide
  have hok : (rootOpen mkfsVolume (mkfsDisk [])).Ok := rootOpen_ok hV (fun _ _ => rfl) fun _ => rfl
  have hlen : ((rootOpen mkfsVolume (mkfsDisk [])).content 0).length = 512 :=
    content_rootOpen hV (fun _ _ => rfl) fun _ => rfl
  have hspace : (rootOpen mkfsVolume (mkfsDisk [])).space = 940 := space_rootOpen
  obtain ⟨-, -, hrun, -⟩ := file_bytes hok rootOpen_opened [1, 2, 3] 510
  obtain ⟨s', hw, -, -, -, hsize, -⟩ := hrun
    (by rw [hlen, Refused]; decide) (by rw [hlen, hspace]; decide)
  refine ⟨_, hok, rootOpen_opened, s', hw, ?_⟩
  rw [hsize, hlen]
  rfl

/-- The layout of `mkfs` with a single data block. -/
def smallVolume : Volume where
  size := 60
  nblocks := 1
  ninodes := 200
  nlog := logSize
  logstart := 2
  inodestart := 32
  bmapstart := 58
  devsw _ := none
  logEnd := mkfsVolume.logEnd
  inodeEnd := mkfsVolume.inodeEnd
  bmapEnd := by decide
  rootIno := mkfsVolume.rootIno
  inums := mkfsVolume.inums
  fits := by decide

/-- **On a full disk `writei` panics**, although the offset is the end of the file and the file would
get one byte longer. -/
theorem writei_full : ∃ s : Fs smallVolume, s.Ok ∧ Opened s 0 ∧ (s.content 0).length = 512 ∧
    ¬ Refused 512 512 1 ∧ Fs.writei 0 [0] 512 s = .error (.panic .ballocOut) := by
  have hV : smallVolume.nmeta < smallVolume.size := by decide
  have hok : (rootOpen smallVolume (rootImage smallVolume (fun _ => Dinode.zero) (Bytes.zero bsize))).Ok :=
    rootOpen_ok hV (fun _ _ => rfl) fun _ => rfl
  have hlen : ((rootOpen smallVolume
      (rootImage smallVolume (fun _ => Dinode.zero) (Bytes.zero bsize))).content 0).length = 512 :=
    content_rootOpen hV (fun _ _ => rfl) fun _ => rfl
  have hno : ¬ Refused 512 512 1 := by
    rw [Refused]
    decide
  refine ⟨_, hok, rootOpen_opened, hlen, hno, rootOpen_opened.writei_short hok [0] 512 ?_ ?_⟩
  · rw [hlen]
    exact hno
  · rw [hlen, space_rootOpen]
    decide

end Fs

end Col331
