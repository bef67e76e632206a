import Col331.Mkfs.Sim
import Col331.Fs.FileBytes

/-!
The files that `mkfs` has written so far.

* `Built s N`: the image stands for a disk in good order that stores the inodes `N`.
* `Built.ialloc`, `Built.iappend`: the two functions make a file and add to its content, unless the
  image is full or the file gets too long.
* `Grows s s'`: what every step of `mkfs` does to the counters, whatever is on the image.
-/

namespace Col331

open Function Prog

namespace Mkfs

/-! ### A file, open -/

/-- The file system on a disk, with inode `i` locked. -/
def openAt (β : Disk) (i : ℕ) : Fs view where
  blocks := β
  inode k := if k = 0 then ⟨i, 1, true, true, dino view β i⟩ else ⟨0, 0, false, false, Dinode.zero⟩
  logged := []
  ops := []

section Open

variable {β : Disk} {N : ℕ → Node} {i : ℕ}

lemma openAt_inode : (openAt β i).inode 0 = ⟨i, 1, true, true, dino view β i⟩ := rfl

lemma openAt_ref {l : Fin ninode} (hl : 0 < ((openAt β i).inode l).ref) : l = 0 := by
  by_contra hne
  simp [openAt, hne] at hl

section

variable (h : DiskRel view (dino view β) β N)

include h

lemma openAt_ok (hi : i < view.ninodes) (h0 : (N i).type ≠ 0) :
    (openAt β i).Ok := by
  refine ⟨⟨h.owns, h.shape⟩, fun l => ?_, fun l hl => ?_, fun l hl _ => ?_,
    fun l m hl hm _ => (openAt_ref hl).trans (openAt_ref hm).symm⟩
  · by_cases hl : l = 0 <;> simp [openAt, hl]
  · obtain rfl := openAt_ref hl
    exact hi
  · obtain rfl := openAt_ref hl
    rw [(h.node i hi).type] at h0
    exact ⟨rfl, h0⟩

lemma openAt_opened (hi : i < view.ninodes)
    (htype : (N i).type = tFile ∨ (N i).type = tDir) : Fs.Opened (openAt β i) 0 := by
  rw [(h.node i hi).type] at htype
  exact ⟨Int.one_pos, rfl, htype⟩

lemma nodes_openAt {j : ℕ} (hj : j < view.ninodes) :
    (openAt β i).nodes j = N j := (nodeRel_iff.mp (h.node j hj)).symm

end

end Open

/-! ### Writing an inode -/

section Inodes

variable {s : State} {β : Disk} {i : ℕ}

lemma iblock_lt_fssize (hi : i < view.ninodes) : iblock i < fssize := by
  have hi : i < 208 := hi
  simp only [iblock, Volume.iblock, mkfsVolume, ipb, bsize, fssize]
  omega

lemma rinode_run (hlen : s.len = fssize) (hi : i < view.ninodes) :
    rinode i s = .ok (dino mkfsVolume s.blocks i, s) := by
  rw [rinode, bind_ok (rsect_run hlen (iblock_lt_fssize hi)), pure_run, dino]

/-- The state after `winode`. -/
def State.wrote (s : State) (i : ℕ) (d : Dinode) : State :=
  { s with
    blocks := update s.blocks (iblock i) (setDinode (s.blocks (iblock i)) (i % ipb) d)
    inodes := i :: s.inodes }

lemma winode_run (hlen : s.len = fssize) (hi : i < view.ninodes) (d : Dinode) :
    winode i d s = .ok ((), s.wrote i d) := by
  rw [winode, bind_ok (rsect_run hlen (iblock_lt_fssize hi)),
    bind_ok (wsect_run hlen (iblock_lt_fssize hi) _)]
  rfl

/-- The image after `winode` stands for a disk on which that inode is replaced. -/
lemma Sees.wrote (h : Sees s β) (hnm : view.nmeta ≤ s.freeblock) (hi : i < view.ninodes) (d : Dinode)
    {β' : Disk} (hdata : ∀ b, view.nmeta ≤ b → β' b = β b)
    (hused : ∀ c < fssize, used view β' c = used view β c)
    (hdino : ∀ j < view.ninodes, dino view β' j = if j = i then d else dino view β j) :
    Sees (s.wrote i d) β' := by
  have hlt : iblock i < view.nmeta := by
    have hi : i < 208 := hi
    change i / 8 + 32 < 59
    omega
  refine ⟨h.len, h.le, fun b hb => ?_, fun b hb => ?_, fun c hc => ?_, fun j hj => ?_⟩
  · have hb : s.freeblock ≤ b := hb
    exact (update_of_ne (by omega) _ _).trans (h.fresh b hb)
  · rw [hdata b hb, h.data b hb]
    exact (update_of_ne (by omega) _ _).symm
  · rw [hused c hc]
    exact h.map c hc
  · rw [hdino j hj]
    refine Eq.trans ?_ (dino_setDinode d).symm
    rw [h.table j hj]

end Inodes

/-! ### What is on the image -/

/-- The number of blocks that files with the contents of `N` take. -/
def total (N : ℕ → Node) : ℕ :=
  ∑ i ∈ Finset.range view.ninodes, Fs.blocksFor (nblk (N i).content.length)

lemma total_update {N : ℕ → Node} {i : ℕ} (hi : i < view.ninodes) (n : Node) :
    total (update N i n) + Fs.blocksFor (nblk (N i).content.length) =
      total N + Fs.blocksFor (nblk n.content.length) := by
  have hmem := Finset.mem_range.mpr hi
  rw [total, total, ← Finset.add_sum_erase _ _ hmem, ← Finset.add_sum_erase _ _ hmem,
    update_self]
  have hrest : ∀ j ∈ (Finset.range view.ninodes).erase i,
      Fs.blocksFor (nblk (update N i n j).content.length) =
        Fs.blocksFor (nblk (N j).content.length) := fun j hj => by
    rw [update_of_ne (Finset.ne_of_mem_erase hj)]
  rw [Finset.sum_congr rfl hrest]
  omega

/-- **The image stores the inodes `N`**, in the blocks handed out so far. -/
def Built (s : State) (N : ℕ → Node) : Prop :=
  s.freeblock = view.nmeta + total N ∧ ∃ β, Sees s β ∧ DiskRel view (dino view β) β N

section Built

variable {s : State} {N : ℕ → Node} {i : ℕ}

/-- A new file. -/
lemma Built.wrote (h : Built s N) (hi : i < view.ninodes) (hfree : N i = Node.free) {d : Dinode}
    (haddrs : ∀ x, d.addrs x = 0) (hsize : d.size = 0) :
    Built (s.wrote i d) (update N i (d.node fun _ => Bytes.zero bsize)) := by
  obtain ⟨hfb, β, hs, hd⟩ := h
  set β' := update β (view.iblock i) (setDinode (β (view.iblock i)) (i % ipb) d) with hβ
  have hlt := view.iblock_lt hi
  have hmeta := view.bmapstart_lt_nmeta
  have hdata : ∀ b, view.nmeta ≤ b → β' b = β b := fun b hb => update_of_ne (by omega) _ _
  have hdino : ∀ j, dino view β' j = if j = i then d else dino view β j := fun j => dino_setDinode d
  have hempty : (d.node fun _ => Bytes.zero bsize).content.length = 0 := by
    rw [Dinode.node, hsize]
    split_ifs <;> rfl
  have htotal := total_update (N := N) hi (d.node fun _ => Bytes.zero bsize)
  rw [hempty, hfree] at htotal
  have htotal := Nat.add_right_cancel htotal
  refine ⟨hfb.trans (by rw [htotal]), β', hs.wrote (by omega) hi d hdata (fun c _ => used_update_inode hi)
    fun j _ => hdino j, hd.replace (fun hal => ?_) haddrs hsize hdino hdata
      (fun c => used_update_inode hi) ?_⟩
  · have htype := (hd.node i hi).type
    rw [hfree] at htype
    exact absurd htype.symm hal.2
  · rw [nodeRel_iff, Dinode.node, Dinode.node, hsize]
    rfl

lemma ialloc_run (hlen : s.len = fssize) (hi : s.freeinode < view.ninodes) (type : Int16) :
    ialloc type s = .ok (s.freeinode, State.wrote { s with freeinode := s.freeinode + 1 } s.freeinode
      { Dinode.zero with type := type, nlink := 1 }) := by
  have hw := @winode_run { s with freeinode := s.freeinode + 1 } s.freeinode hlen hi
    { Dinode.zero with type := type, nlink := 1 }
  rw [ialloc, bind_ok (get_run s), bind_ok (modify_run _ s), bind_ok hw,
    pure_run]

lemma assert_spec (p : Prop) [Decidable p] (s : State) :
    wp (assert p) (fun _ s' => p ∧ s' = s) (fun _ => ¬ p) s := by
  rw [assert]
  by_cases hp : p
  · rw [if_pos hp]
    exact ⟨hp, rfl⟩
  · rw [if_neg hp]
    exact hp

/-- The assertion in the loop of `iappend` keeps the file below the largest size. -/
lemma appendLoop_le : ∀ (fuel : ℕ) {s : State} {d : Dinode} {off : ℕ} {p : List UInt8}
    {r : Dinode × ℕ} {s' : State}, appendLoop fuel d off p s = .ok (r, s') → p.length ≤ fuel →
    p ≠ [] → off + p.length ≤ maxfile * bsize := by
  intro fuel
  induction fuel with
  | zero =>
    intro s d off p r s' _ hfuel hp
    exact absurd (List.length_eq_zero_iff.mp (Nat.le_zero.mp hfuel)) hp
  | succ fuel ih =>
    intro s d off p r s' hrun hfuel hp
    rw [appendLoop, if_neg hp] at hrun
    obtain ⟨d₁, s₁, hround, hrest⟩ := bind_eq_ok hrun
    rw [appendRound] at hround
    obtain ⟨_, _, hassert, _⟩ := bind_eq_ok hround
    have hmax := ((wp_of_ok hassert).mp (assert_spec _ s)).1
    by_cases hdrop : p.drop (min p.length ((off / bsize + 1) * bsize - off)) = []
    · rw [List.drop_eq_nil_iff] at hdrop
      simp only [bsize] at *
      omega
    · have h := ih hrest (by rw [List.length_drop]; simp only [bsize] at *; omega) hdrop
      rw [List.length_drop] at h
      omega

lemma Sees.space {σ : Fs view} (h : Sees s σ.blocks) : σ.space = fssize - s.freeblock := by
  have hfree : (Finset.range fssize).filter (fun b => used view σ.blocks b = false) =
      Finset.Ico s.freeblock fssize := by
    ext b
    rw [Finset.mem_filter, Finset.mem_range, Finset.mem_Ico]
    constructor
    · rintro ⟨hb, hu⟩
      rw [h.map b hb, decide_eq_false_iff_not] at hu
      exact ⟨by omega, hb⟩
    · rintro ⟨hle, hb⟩
      rw [h.map b hb, decide_eq_false_iff_not]
      exact ⟨hb, by omega⟩
  have hspace : σ.space = _ := congrArg Finset.card hfree
  rw [hspace, Nat.card_Ico]

/-- The state once the bytes are appended and the inode is written. -/
lemma Built.of_loop {β : Disk} {p : List UInt8} {σ₁ : Fs view} {s₁ : State} (hs₁ : Sees s₁ σ₁.blocks)
    (hd : DiskRel view (dino view β) β N) (hi : i < view.ninodes)
    (htype : (N i).type = tFile ∨ (N i).type = tDir)
    (hmax : (N i).content.length + p.length ≤ maxfile * bsize)
    (hfb : s₁.freeblock = view.nmeta +
      total (update N i { N i with content := (N i).content ++ p }))
    (hW : Fs.Wrote (openAt β i) 0 (nblk (N i).content.length) (N i).content.length p σ₁) :
    Built (s₁.wrote i { (σ₁.inode 0).d with
        size := UInt32.ofNat ((N i).content.length + p.length) })
      (update N i { N i with content := (N i).content ++ p }) := by
  have h0 : (N i).type ≠ 0 := by
    rcases htype with h | h <;> rw [h] <;> decide
  have hok := openAt_ok hd hi h0
  have ho := openAt_opened hd hi htype
  have hcontent : (openAt β i).content 0 = (N i).content := congrArg Node.content (nodes_openAt hd hi)
  have hno : ¬ Refused ((openAt β i).content 0).length (N i).content.length p.length := by
    rw [hcontent, Refused]
    simp only [maxfile, ndirect, nindirect, bsize] at hmax ⊢
    omega
  have hover : Afs.overlay (N i).content p (N i).content.length = (N i).content ++ p := by
    rw [Afs.overlay, List.take_length, List.drop_of_length_le (by omega), List.append_nil]
  obtain ⟨hok', -, hnode⟩ := ho.of_wrote hok p (N i).content.length hno (by rwa [hcontent]) rfl
  rw [hcontent] at hok' hnode
  rw [hover] at hnode
  have hinum : (σ₁.inode 0).inum = i := by rw [hW.inode, update_self, openAt_inode]
  generalize hσ' : (if (N i).content.length < (N i).content.length + p.length then
    σ₁.resized 0 ((N i).content.length + p.length) else σ₁) = σ' at hok' hnode
  have hsees : Sees (s₁.wrote i { (σ₁.inode 0).d with
      size := UInt32.ofNat ((N i).content.length + p.length) }) σ'.blocks := by
    split_ifs at hσ' with hgrow
    · subst hσ'
      refine hs₁.wrote (by omega) hi _ (fun b hb => ?_) (fun c _ => ?_) fun j hj => ?_
      · exact Fs.blocks_flush (by simpa [Fs.setInode, hinum] using hi) hb
      · exact Fs.used_flush (by simpa [Fs.setInode, hinum] using hi) c
      · rw [Fs.resized, Fs.dino_flush, Fs.table, update_apply]
        simp only [Fs.setInode, update_self, hinum]
    · subst hσ'
      refine hs₁.wrote (by omega) hi _ (fun _ _ => rfl) (fun _ _ => rfl) fun j hj => ?_
      split_ifs with hji
      · -- nothing is appended, and the inode is written back as it was read
        have hp : p.length = 0 := by omega
        have hin : σ₁.inode 0 = { (openAt β i).inode 0 with d := (σ₁.inode 0).d } := by
          rw [hW.inode, update_self]
        have hcopy := (hok'.cache.copy 0 (by rw [hin]; exact ho.ref) (by rw [hin]; exact ho.valid)).1
        have hsize : UInt32.ofNat ((N i).content.length + p.length) = (σ₁.inode 0).d.size := by
          rw [hp, Nat.add_zero, hW.fields, ← hcontent, ← ho.size_eq hok, UInt32.ofNat_toNat]
        rw [hsize, hji, ← hinum, ← hcopy]
      · rfl
  refine ⟨hfb, σ'.blocks, hsees, hok'.disk.owns, hok'.disk.shape, fun j hj => ?_⟩
  rw [nodeRel_iff]
  refine Eq.trans ?_ (hnode j hj).symm
  rw [update_apply]
  split_ifs with h1 h2 h2
  · rw [nodes_openAt hd hj, h1]
  · exact absurd h1 h2
  · exact absurd h2 h1
  · exact (nodes_openAt hd hj).symm

/-- **`iappend` adds to the content of a file**, unless the file gets too long or the image is
full. -/
lemma Built.iappend (h : Built s N) (hi : i < view.ninodes)
    (htype : (N i).type = tFile ∨ (N i).type = tDir) (p : List UInt8) :
    wp (iappend i p)
      (fun _ s' => Built s' (update N i { N i with content := (N i).content ++ p }))
      (fun _ => (N i).content.length + p.length ≤ maxfile * bsize →
        fssize < view.nmeta + total (update N i { N i with content := (N i).content ++ p }))
      s := by
  obtain ⟨hfb, β, hs, hd⟩ := h
  have h0 : (N i).type ≠ 0 := by
    rcases htype with h | h <;> rw [h] <;> decide
  have hok := openAt_ok hd hi h0
  have ho := openAt_opened hd hi htype
  have hcontent : (openAt β i).content 0 = (N i).content := congrArg Node.content (nodes_openAt hd hi)
  have hsize : (dino mkfsVolume s.blocks i).size.toNat = (N i).content.length := by
    rw [← hs.table i hi, ← hcontent, ← ho.size_eq hok]
    rfl
  have htotal := total_update (N := N) hi { N i with content := (N i).content ++ p }
  rw [List.length_append] at htotal
  rw [Mkfs.iappend, wp_bind, wp_of_ok (rinode_run hs.len hi), hsize]
  by_cases hmax : (N i).content.length + p.length ≤ maxfile * bsize
  · have hw := ho.working hok
    rw [ho.size_eq hok, hcontent] at hw
    have hloop := Fs.writeLoop_spec p.length _ _ (N i).content.length p le_rfl hw (le_nblk_mul _) hmax
    have hspace := @Sees.space s (openAt β i) hs
    have hmono : nblk (N i).content.length ≤ nblk ((N i).content.length + p.length) :=
      Fs.nblk_mono (by omega)
    simp only [Fs.Takes, Fs.Short, max_eq_right hmono, hspace] at hloop
    have hle := hs.le
    have hsim := @appendLoop_sim 0 p.length s (openAt β i) _ _ p le_rfl hs hw (le_nblk_mul _) hmax
    rw [openAt_inode, hs.table i hi] at hsim
    rcases hsim with ⟨σ₁, s₁, hker, hmk, hs₁⟩ | ⟨⟨e, hker⟩, e', hmk⟩
    · rw [wp_of_ok hker] at hloop
      obtain ⟨hW, hroom⟩ := hloop
      have hle₁ := hs₁.le
      rw [hs₁.space] at hroom
      rw [wp_bind, wp_of_ok hmk, wp_of_ok (winode_run hs₁.len hi _)]
      exact Built.of_loop hs₁ hd hi htype hmax (by omega) hW
    · have hshort := ((wp_of_error hker).mp hloop).2
      rw [wp_bind, wp_of_error hmk]
      intro _
      omega
  · -- the assertion in the loop fails
    have hp : p ≠ [] := by
      rintro rfl
      have hlen := (hd.shape i ⟨hi, by rwa [← (hd.node i hi).type]⟩ ?_).le
      · rw [hs.table i hi, hsize, nblk_le_iff] at hlen
        exact hmax hlen
      · rw [← (hd.node i hi).type]
        rcases htype with h | h <;> rw [h] <;> decide
    rcases hrun : appendLoop p.length (dino mkfsVolume s.blocks i) (N i).content.length p s with
      e | ⟨r, s'⟩
    · rw [wp_bind, wp_of_error hrun]
      exact fun h => absurd h hmax
    · exact absurd (appendLoop_le _ hrun le_rfl hp) hmax

end Built

end Mkfs

end Col331
