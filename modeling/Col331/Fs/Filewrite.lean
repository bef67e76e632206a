import Col331.Fs.Image
import Col331.Fs.Syscall

/-!
How many blocks a round of `filewrite` passes to `log_write`.

`filewrite` writes at most `max = ((LOGSIZE-1-1-2) / 2) * 512` bytes between one `begin_op` and its
`end_op`, to stay below the `MAXOPBLOCKS` blocks that `begin_op` reserves.

* `roundBlocks size off n`: the number of blocks for `n` bytes at `off` of a file of `size` bytes;
  `writeRound_spec` says that it is the number of distinct blocks a round logs.
* `StaysWithin size off n`: in every round of a call this is at most `MAXOPBLOCKS`, or the round is
  refused.
* `filewrite_within_iff`: a call keeps to the reservation exactly when `StaysWithin` holds.
* `filewrite_overruns`: the first 5120 bytes of a new file do not.
-/

namespace Col331

open Fs Prog

variable {V : Volume}

/-! ### One round -/

/-- The blocks that hold the `n` bytes at `off`; the free map, and behind `NDIRECT` blocks the
indirect block, if the file gets a block more; the inode if it gets longer. -/
def roundBlocks (size off n : ℕ) : ℕ :=
  ((off + n - 1) / bsize + 1 - off / bsize) +
    (if nblk size < nblk (off + n) then 1 else 0) +
    (if nblk size < nblk (off + n) ∧ ndirect < nblk (off + n) then 1 else 0) +
    (if size < off + n then 1 else 0)

section Round

variable {s s₁ : Fs V} {k : Fin ninode} {src : List UInt8} {off : ℕ}

/-- The blocks of the file that are written. -/
def written (s₁ : Fs V) (k : Fin ninode) (off n : ℕ) : Finset ℕ :=
  (Finset.Ico (off / bsize) ((off + n - 1) / bsize + 1)).image fun bn =>
    (s₁.inode k).d.blockAt s₁.blocks (.data bn)

lemma mem_written {n c : ℕ} (hn : 0 < n) : c ∈ written s₁ k off n ↔
    ∃ bn, off / bsize ≤ bn ∧ bn * bsize < off + n ∧
      c = (s₁.inode k).d.blockAt s₁.blocks (.data bn) := by
  simp only [written, Finset.mem_image, Finset.mem_Ico]
  constructor
  · rintro ⟨bn, ⟨h1, h2⟩, rfl⟩
    exact ⟨bn, h1, by simp only [bsize] at *; omega, rfl⟩
  · rintro ⟨bn, h1, h2, rfl⟩
    exact ⟨bn, ⟨h1, by simp only [bsize] at *; omega⟩, rfl⟩

/-- Different blocks of the file are different blocks of the disk. -/
lemma card_written {K n : ℕ} (hw₁ : Working s₁ k K) (hn : 0 < n) (hK : nblk (off + n) ≤ K) :
    (written s₁ k off n).card = (off + n - 1) / bsize + 1 - off / bsize := by
  rw [written, Finset.card_image_of_injOn, Nat.card_Ico]
  intro bn hbn bn' hbn' heq
  simp only [Finset.coe_Ico, Set.mem_Ico] at hbn hbn'
  have hlt : bn < K := lt_of_lt_of_le (lt_nblk_iff.mpr (by simp only [bsize] at *; omega)) hK
  by_contra hne
  exact hw₁.ne_blockAt_self ((hw₁.shape.data bn).mpr hlt) (by simpa using hne) heq

lemma le_of_mem_written {K n c : ℕ} (hw₁ : Working s₁ k K) (hn : 0 < n) (hK : nblk (off + n) ≤ K)
    (hc : c ∈ written s₁ k off n) : V.nmeta ≤ c ∧ c ≠ (s₁.inode k).d.ind.toNat := by
  obtain ⟨bn, _, h2, rfl⟩ := (mem_written hn).mp hc
  have hne := (hw₁.shape.data bn).mpr (lt_of_lt_of_le (lt_nblk_iff.mpr h2) hK)
  exact ⟨(hw₁.range hne).1, hw₁.ne_blockAt_self (p := .indirect) hne (by simp)⟩

lemma mem_ite_singleton {P : Prop} [Decidable P] {b c : ℕ} :
    c ∈ (if P then {b} else ∅ : Finset ℕ) ↔ P ∧ c = b := by
  split_ifs with h <;> simp [h]

lemma card_ite_singleton {P : Prop} [Decidable P] (b : ℕ) :
    (if P then {b} else ∅ : Finset ℕ).card = if P then 1 else 0 := by
  split_ifs <;> simp

/-- **The blocks logged by a write.** The free map, the inode and the indirect block are no blocks
of the file's contents, and no two of them are one block. -/
lemma card_touches {K n : ℕ} {L : List ℕ} (hn : 0 < n)
    (hw₁ : Working s₁ k (max K (nblk (off + n)))) (hi : (s₁.inode k).inum < V.ninodes)
    (grow : Prop) [Decidable grow]
    (hL : ∀ c, c ∈ L ↔ Touches s₁ k K off n c ∨ (grow ∧ c = V.iblock (s₁.inode k).inum)) :
    L.toFinset.card = ((off + n - 1) / bsize + 1 - off / bsize) +
      (if K < nblk (off + n) then 1 else 0) +
      (if K < nblk (off + n) ∧ ndirect < nblk (off + n) then 1 else 0) +
      (if grow then 1 else 0) := by
  have hset : L.toFinset = written s₁ k off n ∪
      (if K < nblk (off + n) then {V.bmapstart} else ∅) ∪
      (if K < nblk (off + n) ∧ ndirect < nblk (off + n) then {(s₁.inode k).d.ind.toNat} else ∅) ∪
      (if grow then {V.iblock (s₁.inode k).inum} else ∅) := by
    ext c
    rw [List.mem_toFinset, hL, Touches, Finset.mem_union, Finset.mem_union, Finset.mem_union,
      mem_written hn, mem_ite_singleton, mem_ite_singleton, mem_ite_singleton, and_iff_right hn,
      and_or_left, and_assoc, or_assoc, or_assoc, or_assoc, or_assoc]
  have hiblock := V.iblock_lt hi
  have hbmap := V.bmapstart_lt_nmeta
  have hind : ndirect < nblk (off + n) → V.nmeta ≤ (s₁.inode k).d.ind.toNat := fun h =>
    (hw₁.range (hw₁.shape.indirect.mpr (h.trans_le (le_max_right _ _)))).1
  have hmem := fun {c} => le_of_mem_written (c := c) hw₁ hn (le_max_right _ _)
  rw [hset, Finset.card_union_of_disjoint, Finset.card_union_of_disjoint,
    Finset.card_union_of_disjoint, card_ite_singleton, card_ite_singleton, card_ite_singleton,
    card_written hw₁ hn (le_max_right _ _)]
  all_goals
    rw [Finset.disjoint_left]
    intro c hc hc'
    simp only [Finset.mem_union, mem_ite_singleton] at hc hc'
    obtain ⟨hP, rfl⟩ := hc'
  · have := (hmem hc).1
    omega
  · rcases hc with hc | ⟨_, hc⟩
    · exact (hmem hc).2 rfl
    · have := hind hP.2
      omega
  · rcases hc with (hc | ⟨_, hc⟩) | ⟨hP', hc⟩
    · have := (hmem hc).1
      omega
    · omega
    · have := hind hP'.2
      omega

/-- Entry `k` of the cache is a reference to a regular file of `size` bytes. -/
structure RegularFile (s : Fs V) (a : Afs V) (k : Fin ninode) (size : ℕ) : Prop where
  rel : Rel s a
  ref : 0 < (a.slot k).ref
  type : (a.nodeOf k).type = tFile
  size : (a.nodeOf k).content.length = size

lemma Fs.ilock_log (k : Fin ninode) (s : Fs V) :
    wp (Fs.ilock k) (fun _ s' => s'.logged = s.logged ∧ s'.ops = s.ops) (fun _ => True) s := by
  simp only [Fs.ilock, wp_bind, wp_get]
  split_ifs <;> simp [panic, setInode]

lemma Fs.iunlock_log (k : Fin ninode) (s : Fs V) :
    wp (Fs.iunlock k) (fun _ s' => s'.logged = s.logged ∧ s'.ops = s.ops)
      (fun _ => True) s := by
  simp only [Fs.iunlock, wp_bind, wp_get]
  split_ifs <;> simp [panic, setInode]

namespace Fs

lemma bread_ops (b : ℕ) : Keeps Fs.ops (bread b : Kern (Fs V) _) :=
  Keeps.get_bind fun _ => Keeps.pure _

lemma logWrite_ops (b : ℕ) (v : Block) : Keeps Fs.ops (logWrite b v : Kern (Fs V) _) :=
  Keeps.modify fun _ => rfl

lemma setAddr_ops (i : Fin (ndirect + 1)) (v : UInt32) :
    Keeps Fs.ops (setAddr k i v : Kern (Fs V) _) := Keeps.modify fun _ => rfl

lemma balloc_ops : Keeps Fs.ops (balloc : Kern (Fs V) _) := by
  refine Keeps.get_bind fun s => ?_
  cases s.firstFree with
  | none => exact Keeps.throw _
  | some b =>
    exact (logWrite_ops _ _).bind fun _ => (logWrite_ops _ _).bind fun _ => Keeps.pure _

lemma slotBlock_ops (i : Fin (ndirect + 1)) : Keeps Fs.ops (slotBlock k i : Kern (Fs V) _) :=
  Keeps.get_bind fun _ => Keeps.ite
    (balloc_ops.bind fun _ => (setAddr_ops _ _).bind fun _ => Keeps.pure _) (Keeps.pure _)

lemma entryBlock_ops (ind j : ℕ) : Keeps Fs.ops (entryBlock ind j : Kern (Fs V) _) :=
  (bread_ops _).bind fun _ => Keeps.ite
    (balloc_ops.bind fun _ => (logWrite_ops _ _).bind fun _ => Keeps.pure _)
    (Keeps.pure _)

lemma bmap_ops (bn : ℕ) : Keeps Fs.ops (bmap k bn : Kern (Fs V) _) := by
  rw [bmap]
  split_ifs
  · exact slotBlock_ops _
  · exact (slotBlock_ops _).bind fun _ => entryBlock_ops _ _
  · exact Keeps.throw _

lemma writeLoop_ops (fuel off : ℕ) (src : List UInt8) :
    Keeps Fs.ops (writeLoop k fuel off src : Kern (Fs V) _) := by
  induction fuel generalizing off src with
  | zero => exact Keeps.pure _
  | succ fuel ih =>
    exact Keeps.ite (Keeps.pure _) ((bmap_ops _).bind fun _ => (bread_ops _).bind fun _ =>
      (logWrite_ops _ _).bind fun _ => ih _ _)

/-- Only `end_op` ends an operation. -/
lemma writei_ops (src : List UInt8) (off : ℕ) :
    Keeps Fs.ops (writei k src off : Kern (Fs V) _) := by
  have hupdate : Keeps Fs.ops (iupdate k : Kern (Fs V) _) :=
    Keeps.get_bind fun _ => logWrite_ops _ _
  refine Keeps.get_bind fun s => Keeps.ite (Keeps.pure _) (Keeps.ite
    (Keeps.pure _) (Keeps.ite (Keeps.pure _) ((writeLoop_ops _ _ _).bind fun _ => ?_)))
  split_ifs
  · refine Keeps.bind ?_ fun _ => hupdate.bind fun _ => Keeps.pure _
    exact Keeps.modify fun _ => rfl
  · exact Keeps.pure _

end Fs

lemma Afs.ilock_ok {a a' : Afs V} (h : Afs.ilock k a = .ok ((), a')) :
    a' = a.setSlot k { a.slot k with busy := true, valid := true } := by
  simp only [Afs.ilock, bind_run, get_run] at h
  split_ifs at h
  all_goals simp_all

lemma Afs.ilock_ne_wild (a : Afs V) : Afs.ilock k a ≠ .error .wild := by
  simp only [Afs.ilock, bind_run, get_run]
  split_ifs <;> simp

/-- Locking a file reads its inode. -/
lemma RegularFile.ilock {a : Afs V} {size : ℕ} (h : RegularFile s a k size) :
    wp (Fs.ilock k) (fun _ s' => (∃ a', RegularFile s' a' k size ∧ (a'.slot k).valid = true) ∧
      s'.logged = s.logged ∧ s'.ops = s.ops) (fun _ => True) s := by
  have hsim := sim_ilock k s a h.rel (Afs.ilock_ne_wild a)
  refine wp_mono (wp_and hsim (Fs.ilock_log k s)) ?_ fun _ _ => trivial
  rintro _ s' ⟨⟨a', ha', hrel⟩, hlog⟩
  obtain rfl := Afs.ilock_ok ha'
  have hnode : (a.setSlot k { a.slot k with busy := true, valid := true }).nodeOf k =
      a.nodeOf k := by simp [Afs.nodeOf, Afs.setSlot]
  refine ⟨⟨_, ⟨hrel, ?_, by rw [hnode]; exact h.type, by rw [hnode]; exact h.size⟩, ?_⟩, hlog⟩
  · simpa [Afs.setSlot] using h.ref
  · simp [Afs.setSlot]

/-- Unlocking it keeps it as it is. -/
lemma RegularFile.iunlock {a : Afs V} {size : ℕ} (h : RegularFile s a k size) :
    wp (Fs.iunlock k) (fun _ s' => (∃ a', RegularFile s' a' k size) ∧
      s'.logged = s.logged ∧ s'.ops = s.ops) (fun _ => True) s := by
  have hno : ¬ (a.slot k).ref < 1 := by have := h.ref; omega
  have hub : Afs.iunlock k a ≠ .error .wild := by
    simp only [Afs.iunlock, bind_run, get_run, if_neg hno]
    split_ifs <;> simp
  refine wp_mono (wp_and (sim_iunlock k s a h.rel hub) (Fs.iunlock_log k s)) ?_
    fun _ _ => trivial
  rintro _ s' ⟨⟨a', ha', hrel⟩, hlog⟩
  have heq : a' = a.setSlot k { a.slot k with busy := false } := by
    simp only [Afs.iunlock, bind_run, get_run, if_neg hno] at ha'
    split_ifs at ha'
    all_goals simp_all
  subst heq
  have hnode : (a.setSlot k { a.slot k with busy := false }).nodeOf k = a.nodeOf k := by
    simp [Afs.nodeOf, Afs.setSlot]
  refine ⟨⟨_, hrel, ?_, by rw [hnode]; exact h.type, by rw [hnode]; exact h.size⟩, hlog⟩
  simpa [Afs.setSlot] using h.ref

/-- Writing to it, once it is locked. -/
lemma RegularFile.writei {a : Afs V} {size : ℕ} (h : RegularFile s a k size)
    (hv : (a.slot k).valid = true) (hoff : off ≤ size) (hsrc : src ≠ []) (hlog : s.logged = []) :
    wp (Fs.writei k src off) (fun r s' =>
        (maxfile * bsize < off + src.length ∧ r < 0 ∧ s' = s) ∨
        (off + src.length ≤ maxfile * bsize ∧ r = src.length ∧
          (∃ a', RegularFile s' a' k (max size (off + src.length))) ∧
          s'.ops = s.ops ∧ s'.logged.toFinset.card = roundBlocks size off src.length))
      (fun _ => True) s := by
  have hk : 0 < (s.inode k).ref := by rw [← h.rel.ref]; exact h.ref
  obtain ⟨hinum, -, hvalid⟩ := h.rel.fields hk
  rw [hvalid] at hv
  obtain ⟨hn, h0⟩ := h.rel.nodeOf hk hv
  have hfile : (s.inode k).d.type = tFile := by rw [← hn.type]; exact h.type
  have hdev : (s.inode k).d.type ≠ tDev := by rw [hfile]; decide
  have hsize : (s.inode k).d.size.toNat = size := by rw [← (hn.content h0 hdev).1]; exact h.size
  have hw := h.rel.working hk hv hdev
  refine wp_mono (wp_and (writei_spec hw hdev) (writei_ops src off s)) ?_ fun _ _ => trivial
  rintro r s' ⟨⟨hr, rfl, rfl⟩ | ⟨hno, rfl, ⟨s₁, hW, hs'⟩, -⟩, hops⟩
  · refine .inl ⟨?_, by decide, rfl⟩
    simp only [Refused, hsize] at hr
    simp only [maxfile, nindirect, ndirect, bsize] at *
    omega
  · refine .inr ⟨?_, rfl, ⟨_, hs' ▸ h.rel.writei hk hv hdev hno hW, ?_, ?_, ?_⟩, hops, ?_⟩
    · simp only [Refused, not_or] at hno
      omega
    · simpa [Afs.setNode] using h.ref
    · simpa [Afs.setNode, Afs.nodeOf] using h.type
    · have hlen : off ≤ (a.node (a.slot k).inum).content.length := by
        rw [← Afs.nodeOf, h.size]
        exact hoff
      simp only [Afs.setNode, Afs.nodeOf, Function.update_self, Afs.overlay_length hlen]
      rw [← Afs.nodeOf, h.size]
    · -- the blocks of the write, and the inode's if `iupdate` was called
      have hw₁ := hW.working hw
      have hinum₁ := hW.inum
      rw [hsize] at hs' hw₁ hW
      refine card_touches (List.length_pos_iff.mpr hsrc) hw₁
        (by rw [hinum₁]; exact h.rel.cache.inum k hk) (size < off + src.length) fun c => ?_
      have hmem : c ∈ s₁.logged ↔ Touches s₁ k (nblk size) off src.length c := by
        simpa [hlog] using hW.logged c
      rw [hs', ← hmem]
      split_ifs with hgrow
      · simp [hgrow, resized, flush, Fs.write, setInode]
      · simp [hgrow]

/-- **One round** of the loop of `filewrite`, on an open regular file. -/
lemma writeRound_spec {a : Afs V} {size : ℕ} (h : RegularFile s a k size) (hoff : off ≤ size)
    (hsrc : src ≠ []) :
    wp (writeRound k off src) (fun r s' =>
        (maxfile * bsize < off + src.length ∧ r < 0 ∧ s'.ops = [] :: s.ops) ∨
        (off + src.length ≤ maxfile * bsize ∧ r = src.length ∧
          (∃ a', RegularFile s' a' k (max size (off + src.length))) ∧
          ∃ L, s'.ops = L :: s.ops ∧ L.toFinset.card = roundBlocks size off src.length))
      (fun _ => True) s := by
  simp only [writeRound, InodeLayer.beginOp, InodeLayer.endOp, InodeLayer.ilock, InodeLayer.iunlock,
    InodeLayer.writei, Fs.beginOp, Fs.endOp, wp_bind, wp_modify]
  have h₀ : RegularFile { s with logged := [] } a k size :=
    ⟨⟨h.rel.disk, h.rel.cache⟩, h.ref, h.type, h.size⟩
  refine wp_mono h₀.ilock ?_ fun _ _ => trivial
  rintro _ s₁ ⟨⟨a₁, h₁, hv₁⟩, hlog₁, hops₁⟩
  rw [wp_bind]
  refine wp_mono (h₁.writei hv₁ hoff hsrc hlog₁) ?_ fun _ _ => trivial
  rintro r s₂ (⟨hbig, hr, rfl⟩ | ⟨hle, rfl, ⟨a₂, h₂⟩, hops₂, hcard⟩)
  · rw [wp_bind]
    refine wp_mono h₁.iunlock ?_ fun _ _ => trivial
    rintro _ s₃ ⟨-, hlog₃, hops₃⟩
    refine .inl ⟨hbig, hr, ?_⟩
    dsimp only
    rw [hlog₃, hlog₁, hops₃, hops₁]
  · rw [wp_bind]
    refine wp_mono h₂.iunlock ?_ fun _ _ => trivial
    rintro _ s₃ ⟨⟨a₃, h₃⟩, hlog₃, hops₃⟩
    refine .inr ⟨hle, rfl, ⟨a₃, ⟨h₃.rel.disk, h₃.rel.cache⟩, h₃.ref, h₃.type, h₃.size⟩,
      s₃.logged, ?_, ?_⟩
    · dsimp only
      rw [hops₃, hops₂, hops₁]
    · rw [hlog₃, hcard]

end Round

/-! ### A whole call -/

/-- Every round of writing `n` bytes at `off` of a file of `size` bytes logs at most `MAXOPBLOCKS`
blocks, or is refused because the file would get too large. -/
def StaysWithin (size off n : ℕ) : Prop :=
  ∀ j, maxChunk * j < n → off + min n (maxChunk * (j + 1)) ≤ maxfile * bsize →
    roundBlocks (max size (off + maxChunk * j)) (off + maxChunk * j) (min (n - maxChunk * j) maxChunk)
      ≤ maxOpBlocks

lemma staysWithin_zero (size off : ℕ) : StaysWithin size off 0 := fun _ h => absurd h (Nat.not_lt_zero _)

/-- A call that is refused in its first round is refused. -/
lemma StaysWithin.of_lt {size off n : ℕ} (h : maxfile * bsize < off + min n maxChunk) :
    StaysWithin size off n := by
  intro j _ hle
  simp only [maxfile, nindirect, ndirect, bsize, maxChunk, logSize, maxOpBlocks] at *
  omega

/-- The first round and the rest. -/
lemma staysWithin_iff {size off n : ℕ} (hn : 0 < n) (hoff : off ≤ size)
    (hle : off + min n maxChunk ≤ maxfile * bsize) :
    StaysWithin size off n ↔ roundBlocks size off (min n maxChunk) ≤ maxOpBlocks ∧
      StaysWithin (max size (off + min n maxChunk)) (off + min n maxChunk) (n - maxChunk) := by
  have hnext : ∀ j, maxChunk * (j + 1) < n →
      min n maxChunk = maxChunk ∧ off + min n (maxChunk * (j + 1 + 1)) =
        off + min n maxChunk + min (n - maxChunk) (maxChunk * (j + 1)) ∧
      roundBlocks (max size (off + maxChunk * (j + 1))) (off + maxChunk * (j + 1))
          (min (n - maxChunk * (j + 1)) maxChunk) =
        roundBlocks (max (max size (off + min n maxChunk)) (off + min n maxChunk + maxChunk * j))
          (off + min n maxChunk + maxChunk * j) (min (n - maxChunk - maxChunk * j) maxChunk) := by
    intro j hj
    have hmin : min n maxChunk = maxChunk := by
      simp only [maxChunk, logSize, maxOpBlocks] at *
      omega
    refine ⟨hmin, ?_, ?_⟩
    · simp only [maxChunk, logSize, maxOpBlocks] at *
      omega
    · rw [hmin, Nat.mul_succ, Nat.add_comm (maxChunk * j), ← Nat.add_assoc, ← Nat.sub_sub,
        max_assoc, max_eq_right (Nat.le_add_right _ _)]
  constructor
  · intro h
    refine ⟨?_, fun j hj hle' => ?_⟩
    · have h0 := h 0 (by simpa using hn) (by simpa using hle)
      simpa [max_eq_left hoff] using h0
    · have hj' : maxChunk * (j + 1) < n := by
        rw [Nat.mul_succ]
        omega
      obtain ⟨-, h2, h3⟩ := hnext j hj'
      rw [← h3]
      exact h (j + 1) hj' (by rw [h2]; exact hle')
  · rintro ⟨h0, h⟩ (_ | j) hj hle'
    · simpa [max_eq_left hoff] using h0
    · obtain ⟨-, h2, h3⟩ := hnext j hj
      rw [h3]
      exact h j (by rw [Nat.mul_succ] at hj; omega) (by rw [← h2]; exact hle')

section Call

variable {P : Type} {f : Fin nfile}

/-- What a call adds to the operations that have ended keeps to the reservation as `c` says. -/
def Within (κ κ' : Kernel P (Fs V)) (c : Prop) : Prop :=
  ∃ new, κ'.fs.ops = new ++ κ.fs.ops ∧ ((∀ op ∈ new, op.toFinset.card ≤ maxOpBlocks) ↔ c)

lemma toNat_off_add {off : UInt32} {n : ℕ} (h : off.toNat + n ≤ maxfile * bsize) :
    (off + UInt32.ofNat n).toNat = off.toNat + n := by
  simp only [maxfile, nindirect, ndirect, bsize] at h
  rw [UInt32.toNat_add, UInt32.toNat_ofNat_of_lt' (by simp only [UInt32.size]; omega),
    Nat.mod_eq_of_lt (by omega)]

/-- The loop of `filewrite`, by induction on the rounds left. -/
lemma filewriteLoop_spec (fuel : ℕ) (κ : Kernel P (Fs V)) (src : List UInt8) (size : ℕ) (a : Afs V)
    (hlen : src.length ≤ fuel) (h : RegularFile κ.fs a (κ.fd.file f).ip size)
    (hoff : (κ.fd.file f).off.toNat ≤ size) :
    wp (Kernel.filewriteLoop f fuel src)
      (fun _ κ' => Within κ κ' (StaysWithin size (κ.fd.file f).off.toNat src.length))
      (fun _ => True) κ := by
  induction fuel generalizing κ src size a with
  | zero =>
    have hnil : src = [] := List.length_eq_zero_iff.mp (by omega)
    subst hnil
    exact ⟨[], rfl, by simp [staysWithin_zero]⟩
  | succ fuel ih =>
    rw [Kernel.filewriteLoop]
    split_ifs with h0
    · subst h0
      exact ⟨[], rfl, by simp [staysWithin_zero]⟩
    have hpos : 0 < src.length := List.length_pos_iff.mpr h0
    have hchunk : src.take maxChunk ≠ [] := by
      rw [← List.length_pos_iff, List.length_take]
      simp only [maxChunk, logSize, maxOpBlocks]
      omega
    have hlenChunk : (src.take maxChunk).length = min src.length maxChunk := by
      rw [List.length_take, Nat.min_comm]
    simp only [wp_bind, wp_get, Kernel.wp_onFs]
    refine wp_mono (writeRound_spec h hoff hchunk) ?_ fun _ _ => trivial
    rintro r s₁ (⟨hbig, hr, hops⟩ | ⟨hle, rfl, ⟨a₁, h₁⟩, L, hops, hcard⟩)
    · rw [if_neg (by omega), if_pos hr]
      rw [hlenChunk] at hbig
      exact ⟨[[]], hops, by simp [StaysWithin.of_lt hbig]⟩
    · have hposChunk : (0 : ℤ) < (src.take maxChunk).length := by
        exact_mod_cast List.length_pos_iff.mpr hchunk
      rw [if_pos hposChunk]
      simp only [Kernel.onFd, wp_bind, wp_modify]
      rw [if_neg (by omega), if_neg (by simp)]
      rw [hlenChunk] at hle h₁ hcard
      -- the file offset moves behind the chunk
      generalize hκ₁ : ({ fd := _, cwd := _, fs := s₁ } : Kernel P (Fs V)) = κ₁
      have hfile : κ₁.fd.file f = { κ.fd.file f with
          off := (κ.fd.file f).off + UInt32.ofNat (min src.length maxChunk) } := by
        rw [← hκ₁]
        simp only [Kernel.setFile, Function.update_self, Int.toNat_natCast, hlenChunk]
      have hfs : κ₁.fs = s₁ := by rw [← hκ₁]
      have hnext : (κ₁.fd.file f).off.toNat = (κ.fd.file f).off.toNat + min src.length maxChunk := by
        rw [hfile]
        exact toNat_off_add hle
      have hrest := ih κ₁ (src.drop maxChunk)
        (max size ((κ.fd.file f).off.toNat + min src.length maxChunk)) a₁
        (by rw [List.length_drop]; simp only [maxChunk, logSize, maxOpBlocks]; omega)
        (by rw [hfs, hfile]; exact h₁) (by rw [hnext]; exact le_max_right _ _)
      refine wp_mono hrest ?_ fun _ _ => trivial
      rintro _ κ' ⟨new, hnew, hiff⟩
      refine ⟨new ++ [L], by rw [hnew, hfs, hops, List.append_assoc]; rfl, ?_⟩
      rw [hnext, List.length_drop] at hiff
      rw [staysWithin_iff hpos hoff hle, ← hcard, ← hiff]
      simp only [List.mem_append, List.mem_singleton, or_imp, forall_and, forall_eq]
      exact and_comm

lemma filewrite_spec {κ : Kernel P (Fs V)} {a : Afs V} {size : ℕ} {mem : ℕ → UInt8} {n : ℤ}
    (h : RegularFile κ.fs a (κ.fd.file f).ip size) (htype : (κ.fd.file f).type = .inode)
    (hoff : (κ.fd.file f).off.toNat ≤ size) :
    wp (Kernel.filewrite f mem n) (fun _ κ' => Within κ κ'
        ((κ.fd.file f).writable = true → StaysWithin size (κ.fd.file f).off.toNat n.toNat))
      (fun _ => True) κ := by
  simp only [Kernel.filewrite, wp_bind, wp_get]
  rw [htype]
  split_ifs with hwr hn
  · exact ⟨[], rfl, by simp [hwr]⟩
  · have h0 : n.toNat = 0 := by omega
    exact ⟨[], rfl, by simp [h0, staysWithin_zero]⟩
  have hloop := filewriteLoop_spec (f := f) n.toNat κ ((List.range n.toNat).map mem) size a
    (by simp) h hoff
  rw [wp_bind]
  refine wp_mono hloop ?_ fun _ _ => trivial
  rintro b κ₁ ⟨new, hnew, hiff⟩
  have hw : (κ.fd.file f).writable = true := by simpa using hwr
  rw [List.length_map, List.length_range] at hiff
  cases b <;> exact ⟨new, hnew, by rw [hiff]; exact ⟨fun h _ => h, fun h => h hw⟩⟩

/-- **A call of `filewrite`** keeps to the reservation of `begin_op` exactly when each of its rounds
does. -/
theorem filewrite_within_iff {κ κ' : Kernel P (Fs V)} {mem : ℕ → UInt8} {n r : ℤ}
    (hok : κ.fs.Ok) (htype : (κ.fd.file f).type = .inode)
    (href : 0 < (κ.fs.inode (κ.fd.file f).ip).ref)
    (hfile : (κ.fs.nodes (κ.fs.inode (κ.fd.file f).ip).inum).type = tFile)
    (hoff : (κ.fd.file f).off.toNat ≤
      (κ.fs.nodes (κ.fs.inode (κ.fd.file f).ip).inum).content.length)
    (hrun : Kernel.filewrite f mem n κ = .ok (r, κ')) :
    ∃ new, κ'.fs.ops = new ++ κ.fs.ops ∧
      ((∀ op ∈ new, op.toFinset.card ≤ maxOpBlocks) ↔
        ((κ.fd.file f).writable = true →
          StaysWithin (κ.fs.nodes (κ.fs.inode (κ.fd.file f).ip).inum).content.length
            (κ.fd.file f).off.toNat n.toNat)) := by
  have hreg : RegularFile κ.fs κ.fs.abs (κ.fd.file f).ip
      (κ.fs.nodes (κ.fs.inode (κ.fd.file f).ip).inum).content.length :=
    ⟨hok.rel, by rw [hok.rel.ref]; exact href, by rw [Fs.nodeOf_abs href]; exact hfile,
      by rw [Fs.nodeOf_abs href]⟩
  exact (wp_of_ok hrun).mp (filewrite_spec hreg htype hoff)

end Call

/-! ### A new file -/

/-- A disk with an empty file as inode 2, which is open for writing. -/
def newFile : Kernel Unit (Fs mkfsVolume) where
  fd := ⟨fun _ => ⟨.inode, 1, true, true, 0, 1, 0⟩, fun _ _ => none, []⟩
  cwd _ := 0
  fs := boot mkfsVolume (rootImage mkfsVolume
      (fun i => if i = 2 then { Dinode.zero with type := tFile, nlink := 1 } else Dinode.zero)
      (dirBlock [⟨1, strncpy [46] dirsiz⟩, ⟨1, strncpy [46, 46] dirsiz⟩, ⟨2, strncpy [102] dirsiz⟩]))
    [(1, 1), (2, 1)]

lemma newFile_ok : newFile.fs.Ok := by
  refine boot_ok (rootImage_ok (by decide) (fun i j => ?_) fun i => ?_) (by decide) (by decide)
  · dsimp only
    split_ifs <;> rfl
  · dsimp only
    split_ifs <;> rfl

/-- One block of it is written within the reservation. -/
theorem filewrite_within_iff_newFile : ∃ r κ', Kernel.filewrite 0 (fun _ => 0) 512 newFile =
    .ok (r, κ') ∧ ∃ new, κ'.fs.ops = new ++ newFile.fs.ops ∧
      ((∀ op ∈ new, op.toFinset.card ≤ maxOpBlocks) ↔ ((newFile.fd.file 0).writable = true →
        StaysWithin (newFile.fs.nodes 2).content.length 0 512)) := by
  have hrun : (match Kernel.filewrite 0 (fun _ => 0) 512 newFile with
    | .ok _ => true
    | .error _ => false) = true := by decide +kernel
  rcases hw : Kernel.filewrite 0 (fun _ => 0) 512 newFile with e | ⟨r, κ'⟩
  · rw [hw] at hrun
    exact nomatch hrun
  · exact ⟨r, κ', rfl, filewrite_within_iff newFile_ok rfl (by decide) (by decide +kernel)
      (Nat.zero_le _) hw⟩

/-- The first 5120 bytes of a new file are written in one operation, which logs twelve blocks: ten
of data, the free map and the inode. -/
theorem filewrite_overruns : newFile.fs.Ok ∧ (newFile.fd.file 0).type = .inode ∧
    0 < (newFile.fs.inode (newFile.fd.file 0).ip).ref ∧
    (newFile.fs.nodes (newFile.fs.inode (newFile.fd.file 0).ip).inum).type = tFile ∧
    (newFile.fd.file 0).off = 0 ∧
    ∃ r κ' op, Kernel.filewrite 0 (fun _ => 0) 5120 newFile = .ok (r, κ') ∧
      κ'.fs.ops = [op] ∧ maxOpBlocks < op.toFinset.card := by
  have hrun : (match Kernel.filewrite 0 (fun _ => 0) 5120 newFile with
    | .ok (_, κ') => decide (∃ op ∈ κ'.fs.ops, κ'.fs.ops = [op] ∧ maxOpBlocks < op.toFinset.card)
    | .error _ => false) = true := by decide +kernel
  refine ⟨newFile_ok, rfl, by decide, by decide +kernel, rfl, ?_⟩
  rcases hw : Kernel.filewrite 0 (fun _ => 0) 5120 newFile with e | ⟨r, κ'⟩
  · rw [hw] at hrun
    exact nomatch hrun
  · rw [hw] at hrun
    obtain ⟨op, -, hop⟩ := of_decide_eq_true hrun
    exact ⟨r, κ', op, rfl, hop⟩

end Col331
