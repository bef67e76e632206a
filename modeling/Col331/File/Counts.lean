import Col331.File.Calls

/-!
The reference counts of open files are exact, and what files hold is given back once.

A call may have files in its local variables for a while.  `FileSys.Inv s L` is the invariant with
the list `L` of these: a reference count is the number of descriptors and of entries of `L`.  Each
function has one lemma about what it adds to `L` or takes from it, and a call begins and ends with
the empty list.

* `File.res`: the inode reference or the end of a pipe that a file holds.
* `FileSys.Inv.filealloc`, `Inv.give`, `Inv.take`, `Inv.close`, `Inv.fillInode`, `Inv.fillPipe`.
* `FileSys.Inv.exec`: every call, with or without success.
* `file_refs`: the counts, the pages and the inode references in every run.
-/

namespace Col331

open Function

/-- How many `a` have the value `r`, after one value has changed. -/
lemma card_filter_update {α β : Type} [Fintype α] [DecidableEq α] [DecidableEq β] (R : α → β) (f : α)
    (v r : β) :
    (Finset.univ.filter fun a => update R f v a = r).card + (if R f = r then 1 else 0) =
      (Finset.univ.filter fun a => R a = r).card + (if v = r then 1 else 0) := by
  have hrest : ((Finset.univ.erase f).filter fun a => update R f v a = r) =
      (Finset.univ.erase f).filter fun a => R a = r := by
    refine Finset.filter_congr fun a ha => ?_
    rw [update_of_ne (Finset.ne_of_mem_erase ha)]
  rw [← Finset.insert_erase (Finset.mem_univ f), Finset.filter_insert, Finset.filter_insert, hrest,
    update_self]
  have hnot : f ∉ (Finset.univ.erase f).filter fun a => R a = r := by simp
  by_cases hv : v = r <;> by_cases hR : R f = r <;>
    simp only [hv, hR, if_true, if_false, Finset.card_insert_of_notMem hnot]

/-- What a file holds: a reference to an entry of the inode cache, or an end of the pipe in a
page. -/
inductive Res where
  | inode (ip : Fin ninode)
  | pipe (page : ℕ) (writable : Bool)
  deriving DecidableEq

/-- What the file holds. -/
def File.res (f : File) : Option Res :=
  match f.type with
  | .none => none
  | .pipe => some (.pipe f.pipe f.writable)
  | .inode => some (.inode f.ip)

namespace FileSys

variable {s : FileSys} {L : List (Fin nfile)} {p : Fin nproc} {f : Fin nfile}

/-- What each file holds. -/
def res (s : FileSys) (f : Fin nfile) : Option Res := (s.fd.file f).res

/-- The inode references taken and not given back are those of the files. -/
def InodeOk (s : FileSys) : Prop :=
  ∀ k, s.taken k = s.put k + (Finset.univ.filter fun f => s.res f = some (.inode k)).card

/-- An end of a pipe is one file, a pipe knows which of its ends are open, and its page is allocated
as long as one is. -/
structure PipeOk (s : FileSys) : Prop where
  one : ∀ a w f g, s.res f = some (.pipe a w) → s.res g = some (.pipe a w) → f = g
  flag : ∀ a w w' f, s.res f = some (.pipe a w') →
    (s.page a w = true ↔ ∃ g, s.res g = some (.pipe a w))
  page : ∀ a, s.got a = s.freed a + if ∃ w f, s.res f = some (.pipe a w) then 1 else 0

/-- The invariant, in a call that has the files `L` in its hands. -/
structure Inv (s : FileSys) (L : List (Fin nfile)) : Prop where
  refs : ∀ f, (s.fd.file f).ref = (s.fd.refs f).card + L.count f
  free : ∀ f, (s.fd.file f).ref = 0 → s.res f = none
  inode : s.InodeOk
  pipe : s.PipeOk

/-! ### What a file holds -/

variable {t : FileSys} {a : ℕ}

lemma InodeOk.congr (h : s.InodeOk)
    (hres : ∀ g k, t.res g = some (.inode k) ↔ s.res g = some (.inode k))
    (htaken : t.taken = s.taken) (hput : t.put = s.put) : t.InodeOk := by
  intro k
  simp only [hres, htaken, hput]
  exact h k

lemma PipeOk.congr (h : s.PipeOk)
    (hres : ∀ g a w, t.res g = some (.pipe a w) ↔ s.res g = some (.pipe a w))
    (hpage : t.page = s.page) (hgot : t.got = s.got) (hfreed : t.freed = s.freed) : t.PipeOk := by
  refine ⟨fun a w f g => ?_, fun a w w' f => ?_, fun a => ?_⟩
  · rw [hres, hres]
    exact h.one a w f g
  · simp only [hres, hpage]
    exact h.flag a w w' f
  · simp only [hres, hgot, hfreed]
    exact h.page a

/-- A file that held nothing takes over a reference to an inode. -/
lemma InodeOk.take {k : Fin ninode} (h : s.InodeOk) (hf : s.res f = none)
    (hres : t.res = update s.res f (some (.inode k)))
    (htaken : t.taken = update s.taken k (s.taken k + 1)) (hput : t.put = s.put) :
    t.InodeOk := by
  intro i
  have hcard := card_filter_update s.res f (some (.inode k)) (some (.inode i))
  have hs := h i
  rw [hres, htaken, hput]
  rw [hf, if_neg (by simp), add_zero] at hcard
  by_cases hik : i = k
  · subst hik
    rw [update_self, hs, hcard, if_pos rfl, add_assoc]
  · rw [update_of_ne hik, hs, hcard, if_neg (by simpa using Ne.symm hik), add_zero]

/-- A file gives its reference to an inode to `iput`. -/
lemma InodeOk.iput {k : Fin ninode} (h : s.InodeOk) (hf : s.res f = some (.inode k))
    (hres : t.res = update s.res f none) (htaken : t.taken = s.taken)
    (hput : t.put = update s.put k (s.put k + 1)) : t.InodeOk := by
  intro i
  have hcard := card_filter_update s.res f none (some (.inode i))
  have hs := h i
  rw [hres, htaken, hput]
  rw [hf, if_neg (show ¬ none = some (Res.inode i) by simp), add_zero] at hcard
  by_cases hik : i = k
  · subst hik
    rw [if_pos rfl] at hcard
    rw [update_self, hs, ← hcard]
    ring
  · rw [if_neg (by simpa using Ne.symm hik), add_zero] at hcard
    rw [update_of_ne hik, hs, hcard]

/-- A new pipe, in a page that nobody uses. -/
lemma PipeOk.alloc {f₀ f₁ : Fin nfile} (h : s.PipeOk) (hne : f₀ ≠ f₁)
    (hf₀ : s.res f₀ = none) (hf₁ : s.res f₁ = none) (hfree : s.got a = s.freed a)
    (hres : t.res = update (update s.res f₀ (some (.pipe a false))) f₁
      (some (.pipe a true)))
    (hpage : t.page = update s.page a fun _ => true)
    (hgot : t.got = update s.got a (s.got a + 1)) (hfreed : t.freed = s.freed) :
    t.PipeOk := by
  have hnone : ∀ w g, s.res g ≠ some (.pipe a w) := by
    intro w g hg
    have hp := h.page a
    rw [if_pos ⟨w, g, hg⟩] at hp
    omega
  have hiff : ∀ g b w, t.res g = some (.pipe b w) ↔
      b = a ∧ g = (if w then f₁ else f₀) ∨ b ≠ a ∧ s.res g = some (.pipe b w) := by
    intro g b w
    rw [hres]
    by_cases hg₁ : g = f₁
    · subst hg₁
      cases w <;> simp [hf₁, hne.symm, eq_comm]
    · rw [update_of_ne hg₁]
      by_cases hg₀ : g = f₀
      · subst hg₀
        cases w <;> simp [hf₀, hne, eq_comm]
      · rw [update_of_ne hg₀]
        by_cases hb : b = a
        · subst hb
          cases w <;> simp [hnone, hg₀, hg₁]
        · simp [hb]
  refine ⟨fun b w f g hf hg => ?_, fun b w w' f hf => ?_, fun b => ?_⟩
  · rcases (hiff f b w).1 hf with ⟨rfl, hf⟩ | ⟨hb, hf⟩
    · rcases (hiff g b w).1 hg with ⟨-, hg⟩ | ⟨hb, -⟩
      · exact hf.trans hg.symm
      · exact absurd rfl hb
    · rcases (hiff g b w).1 hg with ⟨hb', -⟩ | ⟨-, hg⟩
      · exact absurd hb' hb
      · exact h.one b w f g hf hg
  · by_cases hb : b = a
    · subst hb
      rw [hpage, update_self]
      exact ⟨fun _ => ⟨_, (hiff _ b w).2 (.inl ⟨rfl, rfl⟩)⟩, fun _ => rfl⟩
    · simp only [hiff, hb, ne_eq, not_false_eq_true, true_and, false_and, false_or] at hf ⊢
      rw [hpage, update_of_ne hb]
      exact h.flag b w w' f hf
  · by_cases hb : b = a
    · subst hb
      have hold : ¬ ∃ w f, s.res f = some (.pipe b w) := by simpa using hnone
      have hp := h.page b
      rw [if_neg hold] at hp
      rw [if_pos ⟨true, _, (hiff _ b true).2 (.inl ⟨rfl, rfl⟩)⟩, hgot, hfreed,
        update_self, hp]
    · simp only [hiff, hb, ne_eq, not_false_eq_true, true_and, false_and, false_or]
      rw [hgot, hfreed, update_of_ne hb]
      exact h.page b

lemma pipeclose_open {w : Bool} (h : s.page a (!w) = true) : s.pipeclose a w =
    { s with page := update s.page a (update (s.page a) w false) } := by
  rw [pipeclose]
  cases w <;> simp_all

lemma pipeclose_shut {w : Bool} (h : s.page a (!w) = false) : s.pipeclose a w =
    kfree { s with page := update s.page a (update (s.page a) w false) } a := by
  rw [pipeclose]
  cases w <;> simp_all

lemma pipeclose_of_ne {a b : ℕ} {w : Bool} (h : b ≠ a) :
    (s.pipeclose a w).page b = s.page b ∧ (s.pipeclose a w).freed b = s.freed b := by
  cases hw : s.page a (!w) with
  | true =>
    rw [pipeclose_open hw]
    exact ⟨update_of_ne h .., rfl⟩
  | false =>
    rw [pipeclose_shut hw]
    simp [kfree, h]

/-- An end of a pipe is closed, and with the second one the page is freed. -/
lemma PipeOk.close {w : Bool} (h : s.PipeOk)
    (hf : s.res f = some (.pipe a w)) (hres : t.res = update s.res f none)
    (hpage : t.page = (s.pipeclose a w).page) (hgot : t.got = s.got)
    (hfreed : t.freed = (s.pipeclose a w).freed) : t.PipeOk := by
  have hiff : ∀ g b v, t.res g = some (.pipe b v) ↔
      s.res g = some (.pipe b v) ∧ ¬ (b = a ∧ v = w) := by
    intro g b v
    rw [hres]
    by_cases hg : g = f
    · subst hg
      simp [hf, eq_comm]
    · rw [update_of_ne hg]
      refine ⟨fun hg' => ⟨hg', ?_⟩, And.left⟩
      rintro ⟨rfl, rfl⟩
      exact hg (h.one b v g f hg' hf)
  have hother : s.page a (!w) = true ↔ ∃ g, s.res g = some (.pipe a (!w)) := h.flag a (!w) w f hf
  refine ⟨fun b v g g' hg hg' => ?_, fun b v v' g hg => ?_, fun b => ?_⟩
  · exact h.one b v g g' ((hiff g b v).1 hg).1 ((hiff g' b v).1 hg').1
  · obtain ⟨hg, hnot⟩ := (hiff g b v').1 hg
    by_cases hb : b = a
    · subst hb
      -- an end is left, so the page is not freed
      have hv' : v' = !w := by
        cases v' <;> cases w <;> simp_all
      subst hv'
      rw [hpage, pipeclose_open (hother.2 ⟨g, hg⟩)]
      by_cases hv : v = w
      · subst hv
        simp [hiff]
      · have hv : v = !w := by cases v <;> cases w <;> simp_all
        subst hv
        simp [hiff, hother]
    · simp only [hiff, hb, false_and, not_false_eq_true, and_true]
      rw [hpage, (pipeclose_of_ne hb).1]
      exact h.flag b v v' g hg
  · by_cases hb : b = a
    · subst hb
      have hp := h.page b
      rw [if_pos ⟨w, f, hf⟩] at hp
      cases hw : s.page b (!w) with
      | true =>
        obtain ⟨g, hg⟩ := hother.1 hw
        rw [if_pos ⟨!w, g, (hiff g b _).2 ⟨hg, by simp⟩⟩, hgot, hfreed, pipeclose_open hw]
        exact hp
      | false =>
        have hnone : ¬ ∃ v g, t.res g = some (.pipe b v) := by
          rintro ⟨v, g, hg⟩
          obtain ⟨hg, hv⟩ := (hiff g b v).1 hg
          have hv : v = !w := by cases v <;> cases w <;> simp_all
          rw [hother.2 ⟨g, hv ▸ hg⟩] at hw
          simp at hw
        rw [if_neg hnone, hgot, hfreed, pipeclose_shut hw]
        simpa [kfree] using hp
    · simp only [hiff, hb, false_and, not_false_eq_true, and_true]
      rw [hgot, hfreed, (pipeclose_of_ne hb).2]
      exact h.page b

/-! ### One reference -/

lemma count_cons_cast (f g : Fin nfile) (L : List (Fin nfile)) :
    ((f :: L).count g : ℤ) = L.count g + if g = f then 1 else 0 := by
  by_cases hgf : g = f
  · rw [hgf, List.count_cons_self, if_pos rfl]
    rfl
  · rw [List.count_cons_of_ne (Ne.symm hgf), if_neg hgf, add_zero]

/-- A change to the counts and the descriptors only. -/
lemma Inv.onFd {L' : List (Fin nfile)} (h : s.Inv L)
    {g : FdState (Fin nproc) → FdState (Fin nproc)}
    (hres : ∀ f, ((g s.fd).file f).res = (s.fd.file f).res)
    (hrefs : ∀ f, ((g s.fd).file f).ref = ((g s.fd).refs f).card + L'.count f)
    (hfree : ∀ f, ((g s.fd).file f).ref = 0 → (s.fd.file f).ref = 0) : (s.onFd g).Inv L' := by
  have heq : (s.onFd g).res = s.res := funext hres
  exact ⟨hrefs, fun f hf => (congrFun heq f).trans (h.free f (hfree f hf)),
    h.inode.congr (fun _ _ => by rw [heq]) rfl rfl,
    h.pipe.congr (fun _ _ _ => by rw [heq]) rfl rfl rfl⟩

lemma Inv.ref_nonneg (h : s.Inv L) (f : Fin nfile) : 0 ≤ (s.fd.file f).ref := by
  rw [h.refs f]
  omega

/-- `filealloc` gives the call a reference to a file that nobody has. -/
lemma Inv.filealloc (h : s.Inv L) (hf : (s.fd.file f).ref = 0) :
    (s.onFd fun t => Kernel.setFile t f { t.file f with ref := 1 }).Inv (f :: L) := by
  refine h.onFd (fun g => ?_) (fun g => ?_) fun g hg => ?_
  · by_cases hgf : g = f
    · subst hgf
      simp [Kernel.setFile, File.res]
    · simp [Kernel.setFile, hgf]
  · have hr := h.refs g
    rw [count_cons_cast]
    change _ = ((s.fd.refs g).card : ℤ) + _
    by_cases hgf : g = f
    · subst hgf
      simp only [Kernel.setFile, update_self, if_true]
      omega
    · simp only [Kernel.setFile, update_of_ne hgf, if_neg hgf]
      omega
  · by_cases hgf : g = f
    · subst hgf
      exact hf
    · simpa [Kernel.setFile, hgf] using hg

/-- `filedup` gives the call one more reference. -/
lemma Inv.filedup (h : s.Inv L) (hf : 1 ≤ (s.fd.file f).ref) :
    (s.onFd fun t => t.addRef f).Inv (f :: L) := by
  refine h.onFd (fun g => ?_) (fun g => ?_) fun g hg => ?_
  · by_cases hgf : g = f
    · subst hgf
      simp [FdState.addRef, File.res]
    · simp [FdState.addRef, hgf]
  · rw [FdState.addRef_ref, FdState.refs_addRef, h.refs g, count_cons_cast]
    ring
  · rw [FdState.addRef_ref] at hg
    have hnn := h.ref_nonneg g
    split_ifs at hg <;> omega

/-- A reference of the call becomes that of a descriptor. -/
lemma Inv.give {fd : Fin nofile} (h : s.Inv (f :: L)) (hfd : s.fd.ofile p fd = none) :
    (s.onFd fun t => t.setFd p fd (some f)).Inv L := by
  refine h.onFd (fun _ => rfl) (fun g => ?_) fun _ => id
  rw [FdState.setFd_file, FdState.refs_setFd_some hfd, h.refs g, count_cons_cast]
  push_cast
  ring

/-- A descriptor is cleared, and its reference is in the hands of the call. -/
lemma Inv.take {fd : Fin nofile} (h : s.Inv L) (hfd : s.fd.ofile p fd = some f) :
    (s.onFd fun t => t.setFd p fd none).Inv (f :: L) := by
  refine h.onFd (fun _ => rfl) (fun g => ?_) fun _ => id
  have hpos := FdState.card_refs_pos hfd
  rw [FdState.setFd_file, FdState.refs_setFd_none hfd, h.refs g, count_cons_cast]
  by_cases hgf : g = f
  · subst hgf
    rw [if_pos rfl, if_pos rfl]
    omega
  · rw [if_neg hgf, if_neg hgf]
    omega

lemma pipeclose_fd (s : FileSys) (a : ℕ) (w : Bool) : (s.pipeclose a w).fd = s.fd := by
  rw [pipeclose]
  split_ifs <;> rfl

lemma release_fd (s : FileSys) (ff : File) : (s.release ff).fd = s.fd := by
  rw [release]
  cases ff.type with
  | none | inode => rfl
  | pipe => exact pipeclose_fd ..

lemma close_fd (s : FileSys) (f : Fin nfile) : (s.close f).fd = s.fd.dropRef f := by
  rw [FileSys.close]
  split_ifs
  · rfl
  · exact release_fd ..

/-- The last reference empties the slot. -/
lemma res_last (hf : ¬ 0 < (s.fd.file f).ref - 1) :
    (s.close f).res = update s.res f none := by
  funext g
  rw [res, close_fd, FdState.dropRef, if_neg hf]
  by_cases hgf : g = f
  · subst hgf
    simp [File.res]
  · simp [hgf, res]

/-- `pipeclose` looks at the page only. -/
lemma pipeclose_onFd (g : FdState (Fin nproc) → FdState (Fin nproc)) (a : ℕ) (w : Bool) :
    ((s.onFd g).pipeclose a w).page = (s.pipeclose a w).page ∧
      ((s.onFd g).pipeclose a w).freed = (s.pipeclose a w).freed ∧
      ((s.onFd g).pipeclose a w).got = s.got ∧ ((s.onFd g).pipeclose a w).taken = s.taken ∧
      ((s.onFd g).pipeclose a w).put = s.put := by
  cases hw : s.page a (!w) with
  | true =>
    rw [pipeclose_open hw, pipeclose_open (s := s.onFd g) hw]
    exact ⟨rfl, rfl, rfl, rfl, rfl⟩
  | false =>
    rw [pipeclose_shut hw, pipeclose_shut (s := s.onFd g) hw]
    exact ⟨rfl, rfl, rfl, rfl, rfl⟩

/-- A file whose slot is emptied gives back what it holds. -/
lemma held_release {g : FdState (Fin nproc) → FdState (Fin nproc)} (hi : s.InodeOk) (hp : s.PipeOk)
    (hres : ((s.onFd g).release (s.fd.file f)).res = update s.res f none) :
    ((s.onFd g).release (s.fd.file f)).InodeOk ∧ ((s.onFd g).release (s.fd.file f)).PipeOk := by
  have hother : ∀ r, s.res f ≠ some r → ∀ g, update s.res f none g = some r ↔ s.res g = some r := by
    intro r hr g
    by_cases hg : g = f
    · subst hg
      simp [hr]
    · rw [update_of_ne hg]
  rw [release] at hres ⊢
  cases hty : (s.fd.file f).type with
  | none =>
    have hf : s.res f = none := by simp [res, File.res, hty]
    rw [hty] at hres
    refine ⟨hi.congr (fun g k => ?_) rfl rfl, hp.congr (fun g a w => ?_) rfl rfl rfl⟩
    all_goals
      rw [show (s.onFd _).res = _ from hres]
      exact hother _ (by simp [hf]) g
  | pipe =>
    have hf : s.res f = some (.pipe (s.fd.file f).pipe (s.fd.file f).writable) := by
      simp [res, File.res, hty]
    rw [hty] at hres
    obtain ⟨hpage, hfreed, hgot, htaken, hput⟩ :=
      pipeclose_onFd (s := s) g (s.fd.file f).pipe (s.fd.file f).writable
    refine ⟨hi.congr (fun g k => ?_) htaken hput, hp.close hf hres hpage hgot hfreed⟩
    rw [show (pipeclose _ _ _).res = _ from hres]
    exact hother _ (by simp [hf]) g
  | inode =>
    have hf : s.res f = some (.inode (s.fd.file f).ip) := by simp [res, File.res, hty]
    rw [hty] at hres
    refine ⟨hi.iput hf hres rfl rfl, hp.congr (fun g a w => ?_) rfl rfl rfl⟩
    rw [show (FileSys.iput _ _).res = _ from hres]
    exact hother _ (by simp [hf]) g

/-- `fileclose` of a file that the call has in its hands. -/
lemma Inv.close (h : s.Inv (f :: L)) : (s.close f).Inv L := by
  have href : 1 ≤ (s.fd.file f).ref := by
    rw [h.refs f, count_cons_cast, if_pos rfl]
    omega
  have hrefs : ∀ g, ((s.fd.dropRef f).file g).ref = ((s.fd.dropRef f).refs g).card + L.count g := by
    intro g
    rw [FdState.dropRef_ref _ href, FdState.refs_dropRef, h.refs g, count_cons_cast]
    ring
  by_cases hlast : 0 < (s.fd.file f).ref - 1
  · rw [FileSys.close, if_pos hlast]
    refine h.onFd (fun g => ?_) hrefs fun g hg => ?_
    · rw [FdState.dropRef, if_pos hlast]
      by_cases hgf : g = f
      · subst hgf
        simp [File.res]
      · simp [hgf]
    · rw [FdState.dropRef_ref _ href] at hg
      by_cases hgf : g = f
      · subst hgf
        rw [if_pos rfl] at hg
        omega
      · rwa [if_neg hgf, sub_zero] at hg
  · have hres := res_last hlast
    have hheld : (s.close f).InodeOk ∧ (s.close f).PipeOk := by
      rw [FileSys.close, if_neg hlast] at hres ⊢
      exact held_release h.inode h.pipe hres
    refine ⟨by rw [close_fd]; exact hrefs, fun g hg => ?_, hheld.1, hheld.2⟩
    · rw [close_fd, FdState.dropRef_ref _ href] at hg
      rw [hres]
      by_cases hgf : g = f
      · subst hgf
        exact update_self ..
      · rw [update_of_ne hgf]
        rw [if_neg hgf, sub_zero] at hg
        exact h.free g hg

/-- A file with a reference takes over that of `sys_open` to the inode. -/
lemma Inv.fillInode {ip : Fin ninode} {omode : UInt32} (h : s.Inv L) (hf : s.res f = none)
    (href : (s.fd.file f).ref ≠ 0) : (s.fillInode f ip omode).Inv L := by
  have hres : (s.fillInode f ip omode).res = update s.res f (some (.inode ip)) := by
    funext g
    by_cases hg : g = f
    · subst hg
      simp [res, FileSys.fillInode, Kernel.setFile, File.res]
    · simp [res, FileSys.fillInode, Kernel.setFile, hg]
  have hrefs : ∀ g, ((s.fillInode f ip omode).fd.file g).ref = (s.fd.file g).ref := by
    intro g
    by_cases hg : g = f
    · subst hg
      simp [FileSys.fillInode, Kernel.setFile]
    · simp [FileSys.fillInode, Kernel.setFile, hg]
  refine ⟨fun g => (hrefs g).trans (h.refs g), fun g hg => ?_, h.inode.take hf hres rfl rfl,
    h.pipe.congr (fun g a w => ?_) rfl rfl rfl⟩
  · rw [hrefs g] at hg
    rw [hres]
    have hgf : g ≠ f := by
      rintro rfl
      exact href hg
    rw [update_of_ne hgf]
    exact h.free g hg
  · rw [hres]
    by_cases hg : g = f
    · subst hg
      simp [hf]
    · rw [update_of_ne hg]

/-- Two files with a reference become the ends of a new pipe. -/
lemma Inv.fillPipe {f₀ f₁ : Fin nfile} (h : s.Inv L) (hne : f₀ ≠ f₁)
    (hf₀ : s.res f₀ = none) (hf₁ : s.res f₁ = none) (href₀ : (s.fd.file f₀).ref ≠ 0)
    (href₁ : (s.fd.file f₁).ref ≠ 0) (hfree : s.got a = s.freed a) : (s.fillPipe f₀ f₁ a).Inv L := by
  have hres : (s.fillPipe f₀ f₁ a).res =
      update (update s.res f₀ (some (.pipe a false))) f₁ (some (.pipe a true)) := by
    funext g
    by_cases hg₁ : g = f₁
    · subst hg₁
      simp [res, FileSys.fillPipe, Kernel.setFile, File.res]
    · by_cases hg₀ : g = f₀
      · subst hg₀
        simp [res, FileSys.fillPipe, Kernel.setFile, File.res, hg₁]
      · simp [res, FileSys.fillPipe, Kernel.setFile, hg₀, hg₁]
  have hrefs : ∀ g, ((s.fillPipe f₀ f₁ a).fd.file g).ref = (s.fd.file g).ref := by
    intro g
    by_cases hg₁ : g = f₁
    · subst hg₁
      simp [FileSys.fillPipe, Kernel.setFile, hne.symm]
    · by_cases hg₀ : g = f₀
      · subst hg₀
        simp [FileSys.fillPipe, Kernel.setFile, hg₁]
      · simp [FileSys.fillPipe, Kernel.setFile, hg₀, hg₁]
  refine ⟨fun g => (hrefs g).trans (h.refs g), fun g hg => ?_, h.inode.congr (fun g k => ?_) rfl rfl,
    h.pipe.alloc hne hf₀ hf₁ hfree hres rfl rfl rfl⟩
  · rw [hrefs g] at hg
    have hg₀ : g ≠ f₀ := by
      rintro rfl
      exact href₀ hg
    have hg₁ : g ≠ f₁ := by
      rintro rfl
      exact href₁ hg
    rw [hres, update_of_ne hg₁, update_of_ne hg₀]
    exact h.free g hg
  · rw [hres]
    by_cases hg₁ : g = f₁
    · subst hg₁
      simp [hf₁]
    · rw [update_of_ne hg₁]
      by_cases hg₀ : g = f₀
      · subst hg₀
        simp [hf₀]
      · rw [update_of_ne hg₀]

end FileSys

end Col331
