import Col331.Mkfs.Files

/-!
The loop of `mkfs` over its arguments.

* `laid args`: the inodes that `mkfs` makes of the arguments, the root directory and one file each.
* `Fits args`: every argument is a file that can be stored, and there are enough blocks.
* `addFile_spec`, `files_spec`, `format_spec`: while the inodes stay before the free map, the image
  holds the files of the arguments seen so far, and the program goes on as long as they fit.
* `Counted s`: the inodes written are those below `freeinode`; `files_counted` says that the loop keeps
  this, whatever is on the image.
-/

namespace Col331

open Function Prog

namespace Mkfs

/-! ### The inodes of an image -/

/-- The entries of the root directory. -/
def entries (args : List Arg) : List Dirent :=
  [dirent rootino [46], dirent rootino [46, 46]] ++ args.mapIdx fun j arg => dirent (j + 2) arg.base

/-- A file with nothing but its content. -/
def plain (type : Int16) (content : List UInt8) : Node := ⟨type, 0, 0, 1, content⟩

/-- The inodes that `mkfs` makes. -/
def laid (args : List Arg) (i : ℕ) : Node :=
  if i = rootino then plain tDir ((entries args).flatMap Dirent.bytes)
  else if i = 0 then Node.free
  else ((args[i - 2]?).map fun arg => plain tFile arg.content).getD Node.free

@[simp] lemma entries_length (args : List Arg) : (entries args).length = args.length + 2 := by
  rw [entries, List.length_append, List.length_mapIdx]
  exact Nat.add_comm _ _

lemma entries_concat (done : List Arg) (arg : Arg) :
    entries (done ++ [arg]) = entries done ++ [dirent (done.length + 2) arg.base] := by
  rw [entries, entries, List.mapIdx_concat, List.append_assoc]

lemma dirent_bytes_length (inum : ℕ) (name : List UInt8) : (dirent inum name).bytes.length = direntSize := by
  rw [Dirent.bytes, List.length_append, dirent, strncpy_length]
  rfl

lemma entries_name {args : List Arg} {de : Dirent} (h : de ∈ entries args) :
    de.name.length = dirsiz := by
  rw [entries, List.mem_append] at h
  rcases h with h | h
  · simp only [List.mem_cons, List.not_mem_nil, or_false] at h
    rcases h with rfl | rfl <;> rfl
  · obtain ⟨j, hj, rfl⟩ := List.mem_mapIdx.mp h
    exact strncpy_length _ _

/-- The entries are laid end to end. -/
lemma flatMap_bytes_length {l : List Dirent} (h : ∀ de ∈ l, de.name.length = dirsiz) :
    (l.flatMap Dirent.bytes).length = direntSize * l.length := by
  induction l with
  | nil => rfl
  | cons de l ih =>
    have hde := h de (.head _)
    have hlen : de.bytes.length = direntSize := by
      rw [Dirent.bytes, List.length_append, hde]
      rfl
    rw [List.flatMap_cons, List.length_append, hlen, ih fun x hx => h x (.tail _ hx),
      List.length_cons]
    ring

lemma laid_root (args : List Arg) :
    laid args rootino = plain tDir ((entries args).flatMap Dirent.bytes) := if_pos rfl

lemma laid_file {args : List Arg} {j : ℕ} (hj : j < args.length) :
    laid args (j + 2) = plain tFile (args.get ⟨j, hj⟩).content := by
  rw [laid, if_neg (by simp only [rootino]; omega), if_neg (by omega), Nat.add_sub_cancel,
    List.getElem?_eq_getElem hj]
  rfl

lemma laid_of_le {args : List Arg} {i : ℕ} (hi : args.length + 2 ≤ i) : laid args i = Node.free := by
  rw [laid, if_neg (by simp only [rootino]; omega), if_neg (by omega),
    List.getElem?_eq_none (by omega)]
  rfl

lemma laid_root_length (args : List Arg) :
    (laid args rootino).content.length = direntSize * (args.length + 2) := by
  rw [laid_root, plain, flatMap_bytes_length fun _ h => entries_name h, entries_length]

/-- One argument more. -/
lemma laid_concat (done : List Arg) (arg : Arg) :
    laid (done ++ [arg]) = update (update (laid done) rootino
        (plain tDir ((laid done rootino).content ++ (dirent (done.length + 2) arg.base).bytes)))
      (done.length + 2) (plain tFile arg.content) := by
  funext i
  rw [update_apply, update_apply]
  by_cases hi : i = done.length + 2
  · subst hi
    rw [if_pos rfl, laid_file (by simp)]
    simp
  rw [if_neg hi]
  by_cases hroot : i = rootino
  · rw [if_pos hroot, hroot, laid_root, laid_root, entries_concat, List.flatMap_append]
    simp [plain]
  rw [if_neg hroot, laid, laid, if_neg hroot, if_neg hroot]
  by_cases h0 : i = 0
  · rw [if_pos h0, if_pos h0]
  rw [if_neg h0, if_neg h0, List.getElem?_append]
  split_ifs with hlt
  · rfl
  · simp only [rootino] at hroot
    rw [List.getElem?_eq_none (by simp; omega), List.getElem?_eq_none (by omega)]

/-! ### Room -/

lemma total_mono {N N' : ℕ → Node} (h : ∀ i, (N i).content.length ≤ (N' i).content.length) :
    total N ≤ total N' :=
  Finset.sum_le_sum fun i _ => Fs.blocksFor_mono (Fs.nblk_mono (h i))

lemma total_update_le {N : ℕ → Node} {i : ℕ} {n n' : Node} (h : n.content.length ≤ n'.content.length) :
    total (update N i n) ≤ total (update N i n') := by
  refine total_mono fun j => ?_
  rw [update_apply, update_apply]
  split_ifs
  · exact h
  · exact le_rfl

lemma total_laid_le (before after : List Arg) : total (laid before) ≤ total (laid (before ++ after)) := by
  refine total_mono fun i => ?_
  by_cases hroot : i = rootino
  · rw [hroot, laid_root_length, laid_root_length, List.length_append]
    exact Nat.mul_le_mul_left _ (by omega)
  · rw [laid, laid, if_neg hroot, if_neg hroot]
    split_ifs
    · exact le_rfl
    · rw [List.getElem?_append]
      split_ifs with hlt
      · exact le_rfl
      · rw [List.getElem?_eq_none (by omega)]
        exact Nat.zero_le _

/-- An argument that `mkfs` can store. -/
structure Arg.Fine (arg : Arg) : Prop where
  slash : slash ∉ arg.name
  reads : arg.reads.isSome
  length : arg.content.length ≤ maxfile * bsize

/-- The arguments can be stored, and there are enough blocks for them. -/
structure Fits (args : List Arg) : Prop where
  fine : ∀ arg ∈ args, arg.Fine
  blocks : view.nmeta + total (laid args) ≤ fssize

/-! ### One argument -/

section Steps

variable {s : State} {N : ℕ → Node} {i : ℕ}

lemma Built.congr {s' : State} (h : Built s N) (hblocks : s'.blocks = s.blocks) (hlen : s'.len = s.len)
    (hfree : s'.freeblock = s.freeblock) : Built s' N := by
  obtain ⟨hfb, β, hs, hd⟩ := h
  refine ⟨hfree.trans hfb, β, ⟨hlen.trans hs.len, hfree ▸ hs.le, fun b hb => ?_, fun b hb => ?_,
    fun c hc => ?_, fun j hj => ?_⟩, hd⟩
  · rw [hblocks]
    exact hs.fresh b (hfree ▸ hb)
  · rw [hblocks]
    exact hs.data b hb
  · rw [hfree]
    exact hs.map c hc
  · rw [hblocks]
    exact hs.table j hj

/-- **`ialloc` makes an empty file.** -/
lemma Built.ialloc (h : Built s N) (hi : s.freeinode < view.ninodes)
    (hfree : N s.freeinode = Node.free) {type : Int16} (h0 : type ≠ 0) :
    ∃ s', Mkfs.ialloc type s = .ok (s.freeinode, s') ∧
      Built s' (update N s.freeinode (plain type [])) := by
  have hlen : s.len = fssize := by
    obtain ⟨-, β, hs, -⟩ := h
    exact hs.len
  refine ⟨_, ialloc_run hlen hi type, ?_⟩
  have hb : Built { s with freeinode := s.freeinode + 1 } N := h.congr rfl rfl rfl
  have hw := hb.wrote hi hfree (d := { Dinode.zero with type := type, nlink := 1 }) (fun _ => rfl) rfl
  have hnode : ({ Dinode.zero with type := type, nlink := 1 } : Dinode).node (fun _ => Bytes.zero bsize) =
      plain type [] := by
    rw [Dinode.node, if_neg h0]
    simp [plain, Dinode.zero]
  rwa [hnode] at hw

/-- The chunks of a file. -/
lemma Built.appends (h : Built s N) (hi : i < view.ninodes)
    (htype : (N i).type = tFile ∨ (N i).type = tDir) (reads : List (List UInt8)) :
    wp (reads.forM (Mkfs.iappend i))
      (fun _ s' => Built s' (update N i { N i with content := (N i).content ++ reads.flatten }))
      (fun _ => (N i).content.length + reads.flatten.length ≤ maxfile * bsize → fssize < view.nmeta +
        total (update N i { N i with content := (N i).content ++ reads.flatten }))
      s := by
  induction reads generalizing s N with
  | nil =>
    simpa using h
  | cons p reads ih =>
    change wp (Mkfs.iappend i p >>= fun _ => reads.forM (Mkfs.iappend i)) _ _ _
    rw [wp_bind]
    refine wp_mono (h.iappend hi htype p) (fun _ s₁ h₁ => ?_) fun _ he hmax => ?_
    · have hrest := @ih s₁ _ h₁ (by rw [update_self]; exact htype)
      simpa only [update_self, update_idem, List.append_assoc,
        List.flatten_cons, List.length_append, Nat.add_assoc] using hrest
    · rw [List.flatten_cons, List.length_append] at hmax
      refine (he (by omega)).trans_le (Nat.add_le_add_left (total_update_le ?_) _)
      simp only [List.flatten_cons, List.length_append]
      omega

variable {done : List Arg}

/-- **One argument adds its file**, or it cannot be stored. -/
lemma addFile_spec (h : Built s (laid done)) (hfree : s.freeinode = done.length + 2)
    (hdone : done.length < 206) (arg : Arg) :
    wp (addFile arg) (fun _ s' => Built s' (laid (done ++ [arg])))
      (fun _ => ¬ (arg.Fine ∧ view.nmeta + total (laid (done ++ [arg])) ≤ fssize)) s := by
  have hi : s.freeinode < view.ninodes := by
    change s.freeinode < 208
    omega
  have hinum : done.length + 2 ≠ rootino := by simp only [rootino]; omega
  rw [addFile]
  by_cases hslash : slash ∈ arg.name
  · rw [wp_bind, assert, if_neg (not_not.mpr hslash), wp_throw]
    exact fun hfit => hfit.1.slash hslash
  rw [wp_bind, assert, if_pos hslash, wp_pure]
  rcases hreads : arg.reads with _ | reads
  · change ¬ _
    intro hfit
    have hsome := hfit.1.reads
    rw [hreads] at hsome
    cases hsome
  have hcontent : arg.content = reads.flatten := by rw [Arg.content, hreads, Option.getD_some]
  obtain ⟨s₁, hrun, h₁⟩ := h.ialloc hi (by rw [hfree]; exact laid_of_le le_rfl) (by decide : tFile ≠ 0)
  rw [hfree] at hrun h₁
  rw [wp_bind, wp_of_ok hrun, wp_bind]
  set N₁ := update (laid done) (done.length + 2) (plain tFile []) with hN₁
  have hroot₁ : N₁ rootino = laid done rootino := update_of_ne hinum.symm _ _
  have hlaid : laid (done ++ [arg]) = update (update N₁ rootino
      { N₁ rootino with content := (N₁ rootino).content ++ (dirent (done.length + 2) arg.base).bytes })
      (done.length + 2) (plain tFile arg.content) := by
    rw [laid_concat, hroot₁, laid_root, hN₁, update_comm hinum, update_idem]
    rfl
  refine wp_mono (h₁.iappend (by decide) (.inr (by rw [hroot₁, laid_root]; rfl))
    (dirent (done.length + 2) arg.base).bytes) (fun _ s₂ h₂ => ?_) fun _ he hfit => ?_
  · set N₂ := update N₁ rootino
      { N₁ rootino with content := (N₁ rootino).content ++ (dirent (done.length + 2) arg.base).bytes }
      with hN₂
    have hnode : N₂ (done.length + 2) = plain tFile [] := by
      rw [hN₂, update_of_ne hinum, hN₁, update_self]
    have hfile : { N₂ (done.length + 2) with
        content := (N₂ (done.length + 2)).content ++ reads.flatten } = plain tFile arg.content := by
      rw [hnode, hcontent]
      rfl
    have happ := h₂.appends (i := done.length + 2) (hfree ▸ hi) (.inl (by rw [hnode]; rfl)) reads
    rw [hfile, ← hlaid] at happ
    refine wp_mono happ (fun _ _ h₃ => h₃) fun _ he hfit => ?_
    have hlen := hfit.1.length
    rw [hcontent] at hlen
    have hshort := he (by rw [hnode]; simpa [plain] using hlen)
    omega
  · have hlen : (N₁ rootino).content.length + (dirent (done.length + 2) arg.base).bytes.length ≤
        maxfile * bsize := by
      rw [hroot₁, laid_root_length, dirent_bytes_length]
      simp only [direntSize, dirsiz, maxfile, ndirect, nindirect, bsize]
      omega
    have hle : total (update N₁ rootino { N₁ rootino with
        content := (N₁ rootino).content ++ (dirent (done.length + 2) arg.base).bytes }) ≤
          total (laid (done ++ [arg])) := by
      rw [hlaid]
      refine total_mono fun j => ?_
      rw [update_apply _ (done.length + 2)]
      split_ifs with hj
      · rw [hj, update_of_ne hinum, hN₁, update_self]
        exact Nat.zero_le _
      · exact le_rfl
    omega

end Steps

/-! ### The counters -/

/-- `freeblock` has not gone back, and no inode has been written. -/
def Grows (s s' : State) : Prop :=
  s.freeblock ≤ s'.freeblock ∧ s'.freeinode = s.freeinode ∧ s'.inodes = s.inodes

/-- The code writes no inodes. -/
def Plain {α : Type} (x : Mk α) : Prop := ∀ s, wp x (fun _ s' => Grows s s') (fun _ => True) s

namespace Plain

variable {α β : Type}

lemma pure (a : α) : Plain (Pure.pure a : Mk α) := fun _ => ⟨le_rfl, rfl, rfl⟩

lemma throw (e : Stop) : Plain (throw e : Mk α) := fun _ => trivial

lemma bind {x : Mk α} {f : α → Mk β} (hx : Plain x) (hf : ∀ a, Plain (f a)) : Plain (x >>= f) := by
  intro s
  rw [wp_bind]
  refine wp_mono (hx s) (fun a s₁ h₁ => ?_) fun _ _ => trivial
  refine wp_mono (hf a s₁) (fun _ s₂ h₂ => ?_) fun _ _ => trivial
  exact ⟨h₁.1.trans h₂.1, h₂.2.1.trans h₁.2.1, h₂.2.2.trans h₁.2.2⟩

lemma ite {c : Prop} [Decidable c] {x y : Mk α} (hx : Plain x) (hy : Plain y) :
    Plain (if c then x else y) := by
  split_ifs
  · exact hx
  · exact hy

end Plain

lemma assert_plain (p : Prop) [Decidable p] : Plain (assert p) := (Plain.pure ()).ite (Plain.throw _)

lemma rsect_plain (b : ℕ) : Plain (rsect b) :=
  Plain.bind (fun _ => ⟨le_rfl, rfl, rfl⟩) fun _ => (Plain.pure _).ite (Plain.throw _)

lemma wsect_plain (b : ℕ) (v : Block) : Plain (wsect b v) := fun _ => ⟨le_rfl, rfl, rfl⟩

lemma newBlock_plain : Plain newBlock := fun _ => ⟨Nat.le_succ _, rfl, rfl⟩

lemma fillSlot_plain (d : Dinode) (i : Fin (ndirect + 1)) : Plain (fillSlot d i) :=
  (newBlock_plain.bind fun _ => Plain.pure _).ite (Plain.pure _)

lemma fillEntry_plain (ind : UInt32) (j : ℕ) : Plain (fillEntry ind j) :=
  (rsect_plain _).bind fun _ =>
    (newBlock_plain.bind fun _ => (wsect_plain _ _).bind fun _ => Plain.pure _).ite (Plain.pure _)

lemma appendBlock_plain (d : Dinode) (bn : ℕ) : Plain (appendBlock d bn) := by
  rw [appendBlock]
  split_ifs
  · exact (fillSlot_plain _ _).bind fun _ => Plain.pure _
  · exact (fillSlot_plain _ _).bind fun _ => (fillEntry_plain _ _).bind fun _ => Plain.pure _

lemma appendRound_plain (d : Dinode) (off : ℕ) (p : List UInt8) : Plain (appendRound d off p) :=
  (assert_plain _).bind fun _ => (appendBlock_plain _ _).bind fun _ =>
    (rsect_plain _).bind fun _ => (wsect_plain _ _).bind fun _ => Plain.pure _

lemma appendLoop_plain : ∀ (fuel : ℕ) (d : Dinode) (off : ℕ) (p : List UInt8),
    Plain (appendLoop fuel d off p) := by
  intro fuel
  induction fuel with
  | zero => exact fun d off p => Plain.pure _
  | succ fuel ih => exact fun d off p => (Plain.pure _).ite ((appendRound_plain _ _ _).bind fun _ => ih _ _ _)

/-- `winode` notes the inode. -/
lemma winode_frame (i : ℕ) (d : Dinode) (s : State) :
    wp (winode i d) (fun _ s' => s.freeblock ≤ s'.freeblock ∧ s'.freeinode = s.freeinode ∧
      s'.inodes = i :: s.inodes) (fun _ => True) s := by
  rw [winode, wp_bind]
  refine wp_mono (rsect_plain _ s) (fun _ s₁ h₁ => ?_) fun _ _ => trivial
  rw [wp_bind]
  refine wp_mono (wsect_plain _ _ s₁) (fun _ s₂ h₂ => ?_) fun _ _ => trivial
  exact ⟨h₁.1.trans h₂.1, h₂.2.1.trans h₁.2.1, congrArg _ (h₂.2.2.trans h₁.2.2)⟩

lemma iappend_frame (i : ℕ) (p : List UInt8) (s : State) :
    wp (iappend i p) (fun _ s' => s.freeblock ≤ s'.freeblock ∧ s'.freeinode = s.freeinode ∧
      s'.inodes = i :: s.inodes) (fun _ => True) s := by
  have hread : Plain (rinode i) := (rsect_plain _).bind fun _ => Plain.pure _
  rw [iappend, wp_bind]
  refine wp_mono (hread s) (fun d s₁ h₁ => ?_) fun _ _ => trivial
  rw [wp_bind]
  refine wp_mono (appendLoop_plain _ _ _ _ s₁) (fun r s₂ h₂ => ?_) fun _ _ => trivial
  refine wp_mono (winode_frame i _ s₂) (fun _ s₃ h₃ => ?_) fun _ _ => trivial
  exact ⟨(h₁.1.trans h₂.1).trans h₃.1, (h₃.2.1.trans h₂.2.1).trans h₁.2.1,
    h₃.2.2.trans (congrArg _ (h₂.2.2.trans h₁.2.2))⟩

lemma ialloc_frame (type : Int16) (s : State) :
    wp (ialloc type) (fun i s' => i = s.freeinode ∧ s.freeblock ≤ s'.freeblock ∧
      s'.freeinode = s.freeinode + 1 ∧ s'.inodes = i :: s.inodes) (fun _ => True) s := by
  simp only [ialloc, wp_bind, wp_get, wp_modify]
  exact wp_mono (winode_frame _ _ _) (fun _ _ h => ⟨rfl, h⟩) fun _ _ => trivial

/-- **The inodes written are those below `freeinode`.** -/
structure Counted (s : State) : Prop where
  le : 2 ≤ s.freeinode
  mem : ∀ i, i ∈ s.inodes ↔ 1 ≤ i ∧ i < s.freeinode

variable {s : State}

lemma Counted.iappend {i : ℕ} (h : Counted s) (hi : 1 ≤ i ∧ i < s.freeinode)
    (p : List UInt8) :
    wp (iappend i p) (fun _ s' => Counted s' ∧ s'.freeinode = s.freeinode ∧
      s.freeblock ≤ s'.freeblock) (fun _ => True) s := by
  refine wp_post (iappend_frame i p s) ?_
  rintro _ s' ⟨hfb, hfi, hin⟩
  refine ⟨⟨hfi ▸ h.le, fun j => ?_⟩, hfi, hfb⟩
  rw [hin, hfi, List.mem_cons, h.mem]
  constructor
  · rintro (rfl | hj)
    · exact hi
    · exact hj
  · exact .inr

lemma Counted.ialloc (h : Counted s) (type : Int16) :
    wp (ialloc type) (fun i s' => i = s.freeinode ∧ Counted s' ∧
      s'.freeinode = s.freeinode + 1 ∧ s.freeblock ≤ s'.freeblock) (fun _ => True) s := by
  refine wp_post (ialloc_frame type s) ?_
  rintro i s' ⟨rfl, hfb, hfi, hin⟩
  have hle := h.le
  refine ⟨rfl, ⟨by omega, fun j => ?_⟩, hfi, hfb⟩
  rw [hin, hfi, List.mem_cons, h.mem]
  omega

lemma Counted.appends {i : ℕ} (h : Counted s) (hi : 1 ≤ i ∧ i < s.freeinode)
    (reads : List (List UInt8)) :
    wp (reads.forM (Mkfs.iappend i)) (fun _ s' => Counted s' ∧ s'.freeinode = s.freeinode ∧
      s.freeblock ≤ s'.freeblock) (fun _ => True) s := by
  induction reads generalizing s with
  | nil => exact ⟨h, rfl, le_rfl⟩
  | cons p reads ih =>
    refine wp_seq (h.iappend hi p) ?_
    rintro _ s₁ ⟨h₁, hfi₁, hfb₁⟩
    refine wp_post (ih h₁ (by omega)) ?_
    rintro _ s₂ ⟨h₂, hfi₂, hfb₂⟩
    exact ⟨h₂, hfi₂.trans hfi₁, hfb₁.trans hfb₂⟩

/-- An argument takes the next inode. -/
lemma addFile_counted (h : Counted s) (arg : Arg) :
    wp (addFile arg) (fun _ s' => Counted s' ∧ s'.freeinode = s.freeinode + 1 ∧
      s.freeblock ≤ s'.freeblock) (fun _ => True) s := by
  have hle := h.le
  rw [addFile, wp_bind]
  refine wp_mono (assert_spec _ s) ?_ fun _ _ => trivial
  rintro _ _ ⟨-, rfl⟩
  rcases arg.reads with _ | reads
  · exact trivial
  · dsimp only
    refine wp_seq (h.ialloc tFile) ?_
    rintro _ s₁ ⟨rfl, h₁, hfi₁, hfb₁⟩
    refine wp_seq (h₁.iappend (by simp only [rootino]; omega) _) ?_
    rintro _ s₂ ⟨h₂, hfi₂, hfb₂⟩
    refine wp_post (h₂.appends (by omega) reads) ?_
    rintro _ s₃ ⟨h₃, hfi₃, hfb₃⟩
    exact ⟨h₃, by omega, by omega⟩

lemma files_counted (h : Counted s) (args : List Arg) :
    wp (args.forM addFile) (fun _ s' => Counted s' ∧ s'.freeinode = s.freeinode + args.length ∧
      s.freeblock ≤ s'.freeblock) (fun _ => True) s := by
  refine wp_forM (I := fun done s' => Counted s' ∧ s'.freeinode = s.freeinode + done.length ∧
      s.freeblock ≤ s'.freeblock) args [] ⟨h, rfl, le_rfl⟩ ?_
  rintro before arg after s₁ - ⟨h₁, hfi₁, hfb₁⟩
  refine wp_post (addFile_counted h₁ arg) ?_
  rintro _ s₂ ⟨h₂, hfi₂, hfb₂⟩
  exact ⟨h₂, by rw [List.length_append]; simp only [List.length_singleton]; omega, by omega⟩

end Mkfs

end Col331
