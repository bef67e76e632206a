import Col331.Fs.Writers
import Col331.Logic.Lock

/-!
Writers that share a `struct file` neither lose nor overlap data.

* `Regular s k c`: entry `k` of the inode cache is a regular file with content `c`.
* `WritersInv`: the invariant, with the list of the chunks in the order in which they were written, and
  the process that holds the inode's lock.
* `shared_writes`: **the bytes from the starting offset on are the chunks of all calls**, each once and
  those of a process in their order.
-/

namespace Col331

open Fs Function Prog

variable {V : Volume}

/-! ### A regular file -/

section File

variable {s s' s₁ : Fs V} {k : Fin ninode} {c : List UInt8}

/-- A lock that is taken was free. -/
lemma ilock_free (hrun : Fs.ilock k s = .ok ((), s')) : (s.inode k).busy = false := by
  simp only [Fs.ilock, bind_run, get_run] at hrun
  split_ifs at hrun with h1 h2 h3
  · simp [panic] at hrun
  · simp at hrun
  all_goals simpa using h2

/-- Entry `k` of the inode cache is a regular file with content `c`. -/
structure Regular (s : Fs V) (k : Fin ninode) (c : List UInt8) : Prop where
  ok : s.Ok
  ref : 0 < (s.inode k).ref
  type : (s.nodes (s.inode k).inum).type = tFile
  content : s.content k = c

namespace Regular

section

variable (h : Regular s k c)

include h

lemma opened (hv : (s.inode k).valid = true) : Opened s k := by
  refine ⟨h.ref, hv, .inl ?_⟩
  rw [← (h.ok.rel.nodeOf h.ref hv).1.type, nodeOf_abs h.ref]
  exact h.type

/-- The file is kept by whatever keeps the inodes and the entry's number and count. -/
lemma of_nodes {a : Afs V} {x : Slot} (hrel : Rel s' a) (hx : a.slot k = x)
    (hinum : x.inum = (s.inode k).inum) (href : x.ref = (s.inode k).ref)
    (hnode : a.node = s.nodes) : Regular s' k c := by
  obtain ⟨hr, hi, -⟩ := hrel.slot_eq hx (by rw [href]; exact h.ref)
  have hnodes : s'.nodes (s'.inode k).inum = s.nodes (s.inode k).inum := by
    rw [hi, hinum, ← hrel.node_eq (h.ok.cache.inum k h.ref), hnode]
  refine ⟨hrel.ok, by rw [hr, href]; exact h.ref, by rw [hnodes]; exact h.type, ?_⟩
  rw [Fs.content, hnodes]
  exact h.content

/-- Locking the file. -/
lemma ilock (hrun : Fs.ilock k s = .ok ((), s')) :
    Regular s' k c ∧ (s'.inode k).valid = true ∧ (s'.inode k).busy = true := by
  have hslot : s.abs.slot k = _ := slots_of_pos h.ref
  obtain ⟨a, ha, hrel⟩ := (wp_of_ok hrun).mp (sim_ilock k s s.abs h.ok.rel (Afs.ilock_ne_wild _))
  have hx : a.slot k = { s.abs.slot k with busy := true, valid := true } := by
    rw [Afs.ilock_ok ha]
    exact update_self ..
  rw [hslot] at hx
  obtain ⟨-, -, hbusy, hvalid⟩ := hrel.slot_eq hx h.ref
  refine ⟨h.of_nodes hrel hx rfl rfl ?_, hvalid, hbusy⟩
  rw [Afs.ilock_ok ha]
  rfl

lemma iunlock (hrun : Fs.iunlock k s = .ok ((), s')) : Regular s' k c := by
  have hslot : s.abs.slot k = _ := slots_of_pos h.ref
  have hno : ¬ (s.abs.slot k).ref < 1 := by
    have := h.ref
    rw [hslot]
    dsimp only
    omega
  have hub : Afs.iunlock k s.abs ≠ .error .wild := by
    simp only [Afs.iunlock, bind_run, get_run, if_neg hno]
    split_ifs <;> simp
  obtain ⟨a, ha, hrel⟩ := (wp_of_ok hrun).mp (sim_iunlock k s s.abs h.ok.rel hub)
  have heq : a = s.abs.setSlot k { s.abs.slot k with busy := false } := by
    simp only [Afs.iunlock, bind_run, get_run, if_neg hno] at ha
    split_ifs at ha
    all_goals simp_all
  have hx : a.slot k = { s.abs.slot k with busy := false } := by
    rw [heq]
    exact update_self ..
  rw [hslot] at hx
  refine h.of_nodes hrel hx rfl rfl ?_
  rw [heq]
  rfl

/-- The file once bytes are written to it and its size is set. -/
lemma of_wrote (hv : (s.inode k).valid = true) {off : ℕ} {src : List UInt8}
    (hno : ¬ Refused c.length off src.length) (hW : Wrote s k (nblk c.length) off src s₁)
    (hs' : s' = if c.length < off + src.length then s₁.resized k (off + src.length) else s₁) :
    Regular s' k (Afs.overlay c src off) ∧ (s'.inode k).valid = true ∧
      (s'.inode k).busy = (s.inode k).busy := by
  have hc := h.content
  subst hc
  obtain ⟨hok, ⟨href, hinum, hbusy, hvalid⟩, hnode⟩ := (h.opened hv).of_wrote h.ok src off hno hW hs'
  have hself := hnode _ (h.ok.cache.inum k h.ref)
  rw [if_pos rfl, ← hinum] at hself
  refine ⟨⟨hok, by rw [href]; exact h.ref, ?_, by rw [Fs.content, hself]⟩, hvalid, hbusy⟩
  rw [hself, hinum]
  exact h.type

end

end Regular

/-! ### In the middle of `writei` -/

/-- The bytes `done` have been written at `off` of a file with content `c`, whose size is not set
yet. -/
def Midway (s : Fs V) (k : Fin ninode) (c : List UInt8) (off : ℕ) (done : List UInt8) : Prop :=
  ∃ s₀, Regular s₀ k c ∧ (s₀.inode k).valid = true ∧ (s₀.inode k).busy = true ∧
    ((done = [] ∧ s = s₀) ∨ (done ≠ [] ∧ Wrote s₀ k (nblk c.length) off done s))

namespace Midway

variable {off : ℕ} {done xs : List UInt8}

lemma busy (h : Midway s k c off done) : (s.inode k).busy = true := by
  obtain ⟨s₀, -, -, hb, ⟨-, rfl⟩ | ⟨-, hW⟩⟩ := h
  · exact hb
  · rw [hW.inode, update_self]
    exact hb

lemma working (h : Regular s k c) (hv : (s.inode k).valid = true) : Working s k (nblk c.length) := by
  rw [← h.content, ← (h.opened hv).size_eq h.ok]
  exact (h.opened hv).working h.ok

/-- One round of the loop. -/
lemma writeBlock (h : Midway s k c off done) (hoff : off ≤ c.length) (hxs : xs ≠ [])
    (hfit : (off + done.length) % bsize + xs.length ≤ bsize)
    (hmax : off + (done.length + xs.length) ≤ maxfile * bsize)
    (hrun : Fs.writeBlock k (off + done.length) xs s = .ok ((), s')) :
    Midway s' k c off (done ++ xs) := by
  obtain ⟨s₀, hreg, hv, hb, hcase⟩ := h
  have hw := working hreg hv
  refine ⟨s₀, hreg, hv, hb, .inr ⟨by simp [hxs], ?_⟩⟩
  rcases hcase with ⟨rfl, rfl⟩ | ⟨hne, hW⟩
  · exact ((wp_of_ok hrun).mp (round_spec hw (hoff.trans (le_nblk_mul _)) hxs (by simpa using hfit)
      (by simpa using hmax))).1
  · have hround := round_spec (hW.working hw)
      ((le_nblk_mul _).trans (Nat.mul_le_mul_right _ (le_max_right _ _))) hxs hfit (by omega)
    exact hW.trans hw hne ((wp_of_ok hrun).mp hround).1

/-- The end of `writei`. -/
lemma writeEnd (h : Midway s k c off done) (hne : done ≠ []) (hno : ¬ Refused c.length off done.length)
    (hrun : Fs.writeEnd k done.length (off + done.length) s = .ok ((), s')) :
    Regular s' k (Afs.overlay c done off) ∧ (s'.inode k).valid = true ∧ (s'.inode k).busy = true := by
  obtain ⟨s₀, hreg, hv, hb, ⟨hnil, -⟩ | ⟨-, hW⟩⟩ := h
  · exact absurd hnil hne
  · have hsize : (s.inode k).d.size.toNat = c.length := by
      rw [hW.fields, ← hreg.content]
      exact (hreg.opened hv).size_eq hreg.ok
    have hs' : s' = if c.length < off + done.length then s.resized k (off + done.length) else s := by
      have hpos : 0 < done.length := List.length_pos_iff.mpr hne
      simp only [Fs.writeEnd, bind_run, get_run, hsize] at hrun
      split_ifs at hrun ⊢ with h1 h2 h2
      · simpa [setSize, bind_run, resized, eq_comm] using hrun
      · omega
      · omega
      · simpa [eq_comm] using hrun
    obtain ⟨hreg', hv', hb'⟩ := hreg.of_wrote hv hno hW hs'
    exact ⟨hreg', hv', hb'.trans hb⟩

end Midway

end File

/-! ### Counting by process -/

section Count

variable {P β : Type} [DecidableEq P]

/-- A sum over a list, process by process. -/
lemma sum_map_eq_sum_filter (f : P × β → ℕ) (S : Finset P) (A : List (P × β)) (hA : ∀ x ∈ A, x.1 ∈ S) :
    (A.map f).sum = ∑ p ∈ S, ((A.filter (·.1 = p)).map f).sum := by
  induction A with
  | nil => simp
  | cons x A ih =>
    have hx : ∀ p, (((x :: A).filter (·.1 = p)).map f).sum =
        (if x.1 = p then f x else 0) + ((A.filter (·.1 = p)).map f).sum := by
      intro p
      by_cases h : x.1 = p <;> simp [h]
    simp only [hx, Finset.sum_add_distrib, Finset.sum_ite_eq, hA x List.mem_cons_self, if_true,
      List.map_cons, List.sum_cons]
    rw [ih fun y hy => hA y (.tail _ hy)]

/-- Sums are compared process by process. -/
lemma sum_map_le_of_filter {γ : Type} {f : P × β → ℕ} {g : P × γ → ℕ} {A : List (P × β)}
    {B : List (P × γ)} (h : ∀ p, ((A.filter (·.1 = p)).map f).sum ≤ ((B.filter (·.1 = p)).map g).sum) :
    (A.map f).sum ≤ (B.map g).sum := by
  have hS : ∀ p, p ∈ (A.map Prod.fst ++ B.map Prod.fst).toFinset ↔
      (∃ x ∈ A, x.1 = p) ∨ ∃ x ∈ B, x.1 = p := by simp
  rw [sum_map_eq_sum_filter f (A.map Prod.fst ++ B.map Prod.fst).toFinset A
      fun x hx => (hS _).mpr (.inl ⟨x, hx, rfl⟩),
    sum_map_eq_sum_filter g (A.map Prod.fst ++ B.map Prod.fst).toFinset B
      fun x hx => (hS _).mpr (.inr ⟨x, hx, rfl⟩)]
  exact Finset.sum_le_sum fun p _ => h p

end Count

/-! ### The invariant -/

namespace WriterPc

/-- The process holds the inode's lock. -/
def holds : WriterPc → Bool
  | .locked _ | .writing .. | .returned .. | .advanced .. => true
  | _ => false

/-- The chunks of the call that are not counted as written. -/
@[simp] def pending : WriterPc → List (List UInt8)
  | .idle => []
  | .head src | .begun src | .locked src | .writing src .. | .returned src _ => chunks src
  | .advanced src _ | .unlocked src _ => chunks (src.drop maxChunk)

/-- There is something to write, and `writei` does not fail. -/
def Sound : WriterPc → Prop
  | .idle | .head _ => True
  | .begun src | .locked src | .writing src .. => src ≠ []
  | .returned src r | .advanced src r | .unlocked src r => src ≠ [] ∧ r = (src.take maxChunk).length

/-- The file as the process that holds the lock finds it; `c` is the content that the writes before
its own have made, and `off` their end. -/
def Phase (fs : Fs V) (k : Fin ninode) (c : List UInt8) (off : ℕ) : WriterPc → Prop
  | .locked _ => Regular fs k c ∧ (fs.inode k).valid = true ∧ (fs.inode k).busy = true
  | .writing src todo o => ∃ done, done ++ todo = src.take maxChunk ∧ o = off + done.length ∧
      ¬ Refused c.length off (src.take maxChunk).length ∧ Midway fs k c off done
  | .returned src _ => Regular fs k (Afs.overlay c (src.take maxChunk) off) ∧ (fs.inode k).busy = true
  | .advanced _ _ => Regular fs k c ∧ (fs.inode k).busy = true
  | _ => Regular fs k c

lemma Phase.busy {fs : Fs V} {k : Fin ninode} {c : List UInt8} {off : ℕ} {pc : WriterPc}
    (h : pc.Phase fs k c off) (hh : pc.holds = true) : (fs.inode k).busy = true := by
  cases pc with
  | locked src => exact h.2.2
  | writing src todo o =>
    obtain ⟨done, -, -, -, hm⟩ := h
    exact hm.busy
  | returned src r => exact h.2
  | advanced src r => exact h.2
  | _ => exact nomatch hh

end WriterPc

section Invariant

variable {P : Type} [DecidableEq P]

/-- The bytes of the chunks. -/
abbrev bytesOf (L : List (P × List UInt8)) : List UInt8 := L.flatMap Prod.snd

omit [DecidableEq P] in
lemma length_bytesOf (L : List (P × List UInt8)) :
    (bytesOf L).length = (L.map fun x => x.2.length).sum := List.length_flatMap

/-- **The invariant**, for a file that was open at `start` with content `c₀`: `L` are the chunks
written so far, and `o` is the process that holds the inode's lock. -/
structure WritersInv (k : Fin ninode) (c₀ : List UInt8) (start : ℕ) (w : Writers P V)
    (L : List (P × List UInt8)) (o : Option P) : Prop where
  order : ∀ p, (L.filter (·.1 = p)).map Prod.snd ++ (w.pc p).pending =
    (w.calls.filter (·.1 = p)).flatMap fun x => chunks x.2
  sound : ∀ p, (w.pc p).Sound
  owner : ∀ p, (w.pc p).holds = true ↔ o = some p
  off : w.off.toNat = start + (bytesOf L).length
  phase : (o.elim .idle w.pc).Phase w.fs k (Afs.overlay c₀ (bytesOf L) start)
    (start + (bytesOf L).length)

namespace WritersInv

variable {k : Fin ninode} {c₀ : List UInt8} {start : ℕ} {w w' : Writers P V}
  {L X : List (P × List UInt8)} {o : Option P} {p : P} {pc' : WriterPc}

lemma init {fs : Fs V} {off : UInt32} (h : Regular fs k c₀) :
    WritersInv k c₀ off.toNat (Writers.init fs off : Writers P V) [] none := by
  refine ⟨fun _ => rfl, fun _ => trivial, fun _ => by simp [Writers.init, WriterPc.holds], rfl, ?_⟩
  have hnil : Afs.overlay c₀ (bytesOf ([] : List (P × List UInt8))) off.toNat = c₀ := by
    simp [Afs.overlay]
  rw [hnil]
  exact h

section

variable (h : WritersInv k c₀ start w L o)

include h

/-- **A process moves**: what has to be shown of it, when the others stay where they are. -/
lemma move (o' : Option P) {Y : List (P × List UInt8)}
    (hpc : w'.pc = update w.pc p pc') (hcalls : w'.calls = w.calls ++ Y)
    (hX : ∀ x ∈ X, x.1 = p) (hY : ∀ y ∈ Y, y.1 = p)
    (horder : X.map Prod.snd ++ pc'.pending = (w.pc p).pending ++ Y.flatMap fun x => chunks x.2)
    (hsound : pc'.Sound) (howner : ∀ q, q ≠ p → (o' = some q ↔ o = some q))
    (hholds : pc'.holds = true ↔ o' = some p)
    (hoff : w'.off.toNat = start + (bytesOf (L ++ X)).length)
    (hphase : (o'.elim .idle w'.pc).Phase w'.fs k (Afs.overlay c₀ (bytesOf (L ++ X)) start)
      (start + (bytesOf (L ++ X)).length)) : WritersInv k c₀ start w' (L ++ X) o' := by
  refine ⟨fun q => ?_, ?_, ?_, hoff, hphase⟩
  all_goals rw [hpc]
  by_cases hq : q = p
  · subst hq
    have hXp : X.filter (·.1 = q) = X := List.filter_eq_self.mpr fun x hx => by simp [hX x hx]
    have hYp : Y.filter (·.1 = q) = Y := List.filter_eq_self.mpr fun y hy => by simp [hY y hy]
    rw [update_self, hcalls, List.filter_append, List.filter_append, hXp, hYp,
      List.map_append, List.append_assoc, horder, List.flatMap_append, ← h.order q, List.append_assoc]
  · have hXp : X.filter (·.1 = q) = [] := List.filter_eq_nil_iff.mpr fun x hx => by
      simpa [hX x hx] using Ne.symm hq
    have hYp : Y.filter (·.1 = q) = [] := List.filter_eq_nil_iff.mpr fun y hy => by
      simpa [hY y hy] using Ne.symm hq
    rw [update_of_ne hq, hcalls, List.filter_append, List.filter_append, hXp, hYp,
      List.append_nil, List.append_nil]
    exact h.order q
  · exact (forall_update_iff _ fun _ (x : WriterPc) => x.Sound).mpr ⟨hsound, fun q _ => h.sound q⟩
  · exact Held.move (l := WriterPc.holds) h.owner hholds howner

/-- The process that holds the lock finds the file as `Phase` says. -/
lemma phase_of_holds (hp : (w.pc p).holds = true) :
    o = some p ∧ (w.pc p).Phase w.fs k (Afs.overlay c₀ (bytesOf L) start)
      (start + (bytesOf L).length) := by
  have ho := (h.owner p).mp hp
  have hphase := h.phase
  rw [ho] at hphase
  exact ⟨ho, hphase⟩

/-- A process that does not hold the lock moves, and leaves the file alone. -/
lemma stay {Y : List (P × List UInt8)}
    (hpc : w'.pc = update w.pc p pc') (hcalls : w'.calls = w.calls ++ Y)
    (hfs : w'.fs = w.fs) (hoff : w'.off = w.off) (hY : ∀ y ∈ Y, y.1 = p)
    (horder : pc'.pending = (w.pc p).pending ++ Y.flatMap fun x => chunks x.2)
    (hsound : pc'.Sound) (hp : (w.pc p).holds = false) (hp' : pc'.holds = false) :
    WritersInv k c₀ start w' L o := by
  have hne : o ≠ some p := fun ho => by simp [(h.owner p).mpr ho] at hp
  have hphase : o.elim .idle w'.pc = o.elim .idle w.pc := by
    cases o with
    | none => rfl
    | some q =>
      rw [hpc]
      exact update_of_ne (fun hq => hne (by rw [hq])) _ _
  have hmove := h.move (X := []) o hpc hcalls (by simp) hY horder hsound (fun _ _ => Iff.rfl)
    (by simp [hp', hne]) (by rw [hoff, List.append_nil]; exact h.off)
    (by rw [hphase, hfs, List.append_nil]; exact h.phase)
  rwa [List.append_nil] at hmove

/-- The process that holds the lock moves, and keeps it. -/
lemma keep (hp : (w.pc p).holds = true)
    (hpc : w'.pc = update w.pc p pc') (hcalls : w'.calls = w.calls) (hoff : w'.off = w.off)
    (horder : pc'.pending = (w.pc p).pending) (hsound : pc'.Sound) (hp' : pc'.holds = true)
    (hphase : pc'.Phase w'.fs k (Afs.overlay c₀ (bytesOf L) start) (start + (bytesOf L).length)) :
    WritersInv k c₀ start w' L o := by
  have ho := (h.owner p).mp hp
  have hmove := h.move (X := []) (Y := []) o hpc (by rw [hcalls, List.append_nil]) (by simp) (by simp)
    (by simpa using horder) hsound (fun _ _ => Iff.rfl) (by simp [hp', ho])
    (by rw [hoff, List.append_nil]; exact h.off) (by
      rw [ho, Option.elim_some, hpc, update_self, List.append_nil]
      exact hphase)
  rwa [List.append_nil] at hmove

end

end WritersInv

/-! ### The steps -/

lemma Afs.overlay_append {c A B : List UInt8} {start : ℕ} (h : start ≤ c.length) :
    Afs.overlay (Afs.overlay c A start) B (start + A.length) = Afs.overlay c (A ++ B) start := by
  have htake : (c.take start ++ A).length = start + A.length := by
    rw [List.length_append, List.length_take, min_eq_left h]
  have hfront : (Afs.overlay c A start).take (start + A.length) = c.take start ++ A := by
    rw [Afs.overlay, ← htake, List.take_left]
  have hback : (Afs.overlay c A start).drop (start + A.length + B.length) =
      c.drop (start + A.length + B.length) := by
    rw [Afs.overlay, List.drop_append, List.drop_eq_nil_of_le (by omega), List.nil_append,
      List.drop_drop, htake]
    congr 1
    omega
  have hdef : Afs.overlay (Afs.overlay c A start) B (start + A.length) =
      (Afs.overlay c A start).take (start + A.length) ++ B ++
        (Afs.overlay c A start).drop (start + A.length + B.length) := rfl
  rw [hdef, hfront, hback, Afs.overlay, List.length_append, Nat.add_assoc, List.append_assoc]
  simp only [List.append_assoc]

variable {k : Fin ninode} {c₀ : List UInt8} {start : ℕ} {w w' : Writers P V}
  {L : List (P × List UInt8)} {o : Option P} {p : P}

/-- The number of bytes of all calls. -/
def total (calls : List (P × List UInt8)) : ℕ := (calls.map fun x => x.2.length).sum

lemma Writers.after_eq_ok {x : Kern (Fs V) Unit} {pc : WriterPc} (h : w.after p pc x = .ok w') :
    ∃ fs, x w.fs = .ok ((), fs) ∧ w' = { w.goto p pc with fs } := by
  rw [Writers.after] at h
  rcases hx : x w.fs with e | ⟨⟨⟩, fs⟩
  · rw [hx] at h
    nomatch h
  · rw [hx, Except.ok.injEq] at h
    exact ⟨fs, rfl, h.symm⟩

namespace WritersInv

variable {src : List UInt8}

section

variable (h : WritersInv k c₀ start w L o)

include h

lemma call (hidle : w.pc p = .idle) :
    WritersInv k c₀ start { w.goto p (.head src) with calls := w.calls ++ [(p, src)] } L o :=
  h.stay (Y := [(p, src)]) rfl rfl rfl rfl (by simp) (by simp [hidle]) trivial
    (by rw [hidle]; rfl) rfl

lemma begun (hp : w.pc p = .begun src)
    {fs : Fs V} (hrun : Fs.ilock k w.fs = .ok ((), fs)) :
    WritersInv k c₀ start { w.goto p (.locked src) with fs } L (some p) := by
  have hfree := ilock_free hrun
  have ho : o = none := by
    cases o with
    | none => rfl
    | some q =>
      have hq := (h.owner q).mpr rfl
      rw [(h.phase_of_holds hq).2.busy hq] at hfree
      nomatch hfree
  subst ho
  obtain ⟨hreg, hvalid, hbusy⟩ := Regular.ilock h.phase hrun
  have hmove : WritersInv k c₀ start { w.goto p (.locked src) with fs } (L ++ []) (some p) :=
    h.move (Y := []) (some p) rfl (List.append_nil _).symm (by simp) (by simp) (by simp [hp])
    (by have := h.sound p; rwa [hp] at this) (fun q hq => by simp [Ne.symm hq])
    (by simp [WriterPc.holds]) (by rw [List.append_nil]; exact h.off) (by
      dsimp only [Writers.goto, Option.elim_some]
      rw [List.append_nil, update_self]
      exact ⟨hreg, hvalid, hbusy⟩)
  rwa [List.append_nil] at hmove

/-- The bytes a process has written and has still to write are those of its calls. -/
lemma sum_filter (q : P) :
    ((L.filter (·.1 = q)).map fun x => x.2.length).sum + (w.pc q).pending.flatten.length =
      ((w.calls.filter (·.1 = q)).map fun x => x.2.length).sum := by
  have hcalls : ((w.calls.filter (·.1 = q)).flatMap fun x => chunks x.2).flatten.length =
      ((w.calls.filter (·.1 = q)).map fun x => x.2.length).sum := by
    induction w.calls.filter (·.1 = q) with
    | nil => rfl
    | cons x l ih => simp [flatten_chunks, ih]
  rw [← hcalls, ← h.order q, List.flatten_append, List.length_append, ← length_bytesOf]
  rfl

/-- The chunks that are written, with the one that `p` is about to write, are among those of the
calls. -/
lemma length_le (hsrc : src ≠ [])
    (hp : (w.pc p).pending = chunks src) :
    (bytesOf L).length + (src.take maxChunk).length ≤ total w.calls := by
  have hsum := sum_map_le_of_filter (f := fun x => x.2.length) (g := fun x => x.2.length)
    (A := L ++ [(p, src.take maxChunk)]) (B := w.calls) fun q => ?_
  · simpa [total, length_bytesOf] using hsum
  · rw [← h.sum_filter q, List.filter_append, List.map_append, List.sum_append]
    refine Nat.add_le_add_left ?_ _
    by_cases hq : p = q
    · subst hq
      rw [hp, chunks_of_ne hsrc]
      simp
    · simp [hq]

/-- Once no call is going on, all bytes are written. -/
lemma length_eq (hidle : ∀ p, w.pc p = .idle) :
    (bytesOf L).length = total w.calls := by
  have hsum : ∀ q, ((L.filter (·.1 = q)).map fun x => x.2.length).sum =
      ((w.calls.filter (·.1 = q)).map fun x => x.2.length).sum := by
    intro q
    rw [← h.sum_filter q, hidle q]
    rfl
  rw [length_bytesOf, total]
  exact le_antisymm (sum_map_le_of_filter fun q => (hsum q).le)
    (sum_map_le_of_filter fun q => (hsum q).ge)

lemma locked (hp : w.pc p = .locked src)
    (hstart : start ≤ c₀.length) (hfit : start + total w.calls ≤ maxfile * bsize) :
    WritersInv k c₀ start (w.goto p (w.enter (w.fs.inode k) src)) L o := by
  have hsrc : src ≠ [] := by
    have := h.sound p
    rwa [hp] at this
  have hh : (w.pc p).holds = true := by rw [hp]; rfl
  obtain ⟨-, hphase⟩ := h.phase_of_holds hh
  rw [hp] at hphase
  obtain ⟨hreg, hvalid, hbusy⟩ := hphase
  have hop := hreg.opened hvalid
  have hsize : (w.fs.inode k).d.size.toNat = (Afs.overlay c₀ (bytesOf L) start).length := by
    rw [hop.size_eq hreg.ok, hreg.content]
  have hlen := @Afs.overlay_length c₀ (bytesOf L) start hstart
  have hle := h.length_le hsrc (p := p) (by rw [hp]; rfl)
  have hoff := h.off
  have hno : ¬ Refused (Afs.overlay c₀ (bytesOf L) start).length (start + (bytesOf L).length)
      (src.take maxChunk).length := by
    simp only [Refused, hlen]
    simp only [maxfile, nindirect, ndirect, bsize] at *
    omega
  have henter : w.enter (w.fs.inode k) src = .writing src (src.take maxChunk) w.off.toNat := by
    simp only [Refused, not_or] at hno
    rw [Writers.enter, if_neg hop.ne_dev, hsize, hoff, if_neg (by omega), if_neg hno.2.2]
  rw [henter]
  refine h.keep hh rfl rfl rfl (by rw [hp]; rfl) hsrc rfl ⟨[], rfl, ?_, hno, ?_⟩
  · rw [hoff]
    rfl
  · exact ⟨w.fs, hreg, hvalid, hbusy, .inl ⟨rfl, rfl⟩⟩

end

section Writing

variable {src todo : List UInt8} {off : ℕ} {fs : Fs V}

lemma writing (h : WritersInv k c₀ start w L o) (hp : w.pc p = .writing src todo off)
    (hstart : start ≤ c₀.length) (htodo : todo ≠ [])
    (hrun : writeBlock k off (todo.take (min todo.length (bsize - off % bsize))) w.fs = .ok ((), fs)) :
    WritersInv k c₀ start { w.goto p (.writing src
      (todo.drop (min todo.length (bsize - off % bsize)))
      (off + min todo.length (bsize - off % bsize))) with fs } L o := by
  have hh : (w.pc p).holds = true := by rw [hp]; rfl
  have hsrc : src ≠ [] := by
    have := h.sound p
    rwa [hp] at this
  obtain ⟨-, hphase⟩ := h.phase_of_holds hh
  rw [hp] at hphase
  obtain ⟨done, hdone, rfl, hno, hmid⟩ := hphase
  set off := start + (bytesOf L).length + done.length with hoff
  have hpos : 0 < todo.length := List.length_pos_iff.mpr htodo
  set m := min todo.length (bsize - off % bsize) with hm
  have hm0 : 0 < m := by simp only [bsize] at *; omega
  have htake : (todo.take m).length = m := by rw [List.length_take]; omega
  have hlen : done.length + todo.length = (src.take maxChunk).length := by
    rw [← hdone, List.length_append]
  have hle : start + (bytesOf L).length ≤ (Afs.overlay c₀ (bytesOf L) start).length := by
    rw [Afs.overlay_length hstart]
    exact le_max_right _ _
  refine h.keep hh rfl rfl rfl (by rw [hp]; rfl) hsrc rfl
    ⟨done ++ todo.take m, ?_, ?_, hno, hmid.writeBlock hle ?_ ?_ ?_ hrun⟩
  · rw [List.append_assoc, List.take_append_drop, hdone]
  · rw [List.length_append, htake, hoff]
    omega
  · rw [← List.length_pos_iff, htake]
    exact hm0
  · rw [htake]
    simp only [bsize] at *
    omega
  · simp only [Refused, not_or] at hno
    rw [htake]
    omega

lemma written (h : WritersInv k c₀ start w L o) (hp : w.pc p = .writing src [] off)
    (hrun : writeEnd k (src.take maxChunk).length off w.fs = .ok ((), fs)) :
    WritersInv k c₀ start { w.goto p (.returned src (src.take maxChunk).length) with fs } L o := by
  have hh : (w.pc p).holds = true := by rw [hp]; rfl
  have hsrc : src ≠ [] := by
    have := h.sound p
    rwa [hp] at this
  obtain ⟨-, hphase⟩ := h.phase_of_holds hh
  rw [hp] at hphase
  obtain ⟨done, hdone, rfl, hno, hmid⟩ := hphase
  rw [List.append_nil] at hdone
  subst hdone
  have hne : src.take maxChunk ≠ [] := by
    rw [Ne, List.take_eq_nil_iff]
    exact not_or.mpr ⟨by decide, hsrc⟩
  obtain ⟨hreg, -, hbusy⟩ := hmid.writeEnd hne hno hrun
  exact h.keep hh rfl rfl rfl (by rw [hp]; rfl) ⟨hsrc, rfl⟩ rfl ⟨hreg, hbusy⟩

end Writing

section Done

variable {src : List UInt8} {r : ℤ}

lemma returned (h : WritersInv k c₀ start w L o) (hp : w.pc p = .returned src r)
    (hstart : start ≤ c₀.length) (hfit : start + total w.calls ≤ maxfile * bsize) :
    WritersInv k c₀ start { w.goto p (.advanced src r) with
      off := if 0 < r then w.off + UInt32.ofNat r.toNat else w.off }
      (L ++ [(p, src.take maxChunk)]) o := by
  have hh : (w.pc p).holds = true := by rw [hp]; rfl
  obtain ⟨ho, hphase⟩ := h.phase_of_holds hh
  have hsound := h.sound p
  rw [hp] at hphase hsound
  obtain ⟨hsrc, rfl⟩ := hsound
  obtain ⟨hreg, hbusy⟩ := hphase
  have hle := h.length_le hsrc (p := p) (by rw [hp]; rfl)
  have hpos : 0 < (src.take maxChunk).length := by
    rw [List.length_take]
    have := List.length_pos_iff.mpr hsrc
    simp only [maxChunk, logSize, maxOpBlocks]
    omega
  have hbytes : bytesOf (L ++ [(p, src.take maxChunk)]) = bytesOf L ++ src.take maxChunk := by
    simp [bytesOf]
  have hoff := h.off
  refine h.move (Y := []) o rfl (List.append_nil _).symm (by simp) (by simp) ?_ ⟨hsrc, rfl⟩ (fun _ _ => Iff.rfl)
    (by simp [ho, WriterPc.holds]) ?_ ?_
  · rw [hp]
    simp [chunks_of_ne hsrc]
  · dsimp only
    rw [if_pos (by omega), Int.toNat_natCast, hbytes, List.length_append, ← Nat.add_assoc, ← hoff]
    exact toNat_off_add (by omega)
  · rw [ho]
    dsimp only [Writers.goto, Option.elim_some]
    rw [update_self, hbytes, ← Afs.overlay_append hstart]
    exact ⟨hreg, hbusy⟩

lemma advanced (h : WritersInv k c₀ start w L o) (hp : w.pc p = .advanced src r) {fs : Fs V}
    (hrun : iunlock k w.fs = .ok ((), fs)) :
    WritersInv k c₀ start { w.goto p (.unlocked src r) with fs } L none := by
  have hh : (w.pc p).holds = true := by rw [hp]; rfl
  obtain ⟨ho, hphase⟩ := h.phase_of_holds hh
  have hsound := h.sound p
  rw [hp] at hphase hsound
  have hreg := hphase.1.iunlock hrun
  have hmove : WritersInv k c₀ start { w.goto p (.unlocked src r) with fs } (L ++ []) none :=
    h.move (Y := []) none rfl (List.append_nil _).symm (by simp) (by simp) (by simp [hp]) hsound
    (fun q hq => by simp [ho, Ne.symm hq]) (by simp [WriterPc.holds])
    (by rw [List.append_nil]; exact h.off) (by
      rw [List.append_nil]
      exact hreg)
  rwa [List.append_nil] at hmove

lemma unlocked (h : WritersInv k c₀ start w L o) (hp : w.pc p = .unlocked src r)
    (hrun : Writers.run k w p = .ok w') : WritersInv k c₀ start w' L o := by
  have hsound := h.sound p
  rw [hp] at hsound
  obtain ⟨-, rfl⟩ := hsound
  have hdrop : src.drop (src.take maxChunk).length = src.drop maxChunk := by
    rw [List.length_take]
    rcases Nat.le_total maxChunk src.length with hle | hle
    · rw [min_eq_left hle]
    · rw [min_eq_right hle, List.drop_eq_nil_of_le le_rfl, List.drop_eq_nil_of_le hle]
  rw [Writers.run, hp] at hrun
  dsimp only at hrun
  rw [if_neg (by omega), if_neg (by simp), Except.ok.injEq, Int.toNat_natCast, hdrop] at hrun
  subst hrun
  exact h.stay (Y := []) rfl (List.append_nil _).symm rfl rfl (by simp)
    (by simp [hp]) trivial (by rw [hp]; rfl) rfl

end Done

/-- **Every step keeps the invariant.** -/
lemma step (h : WritersInv k c₀ start w L o) (hstart : start ≤ c₀.length)
    (hfit : start + total w.calls ≤ maxfile * bsize) {a : WriterAct P}
    (hrun : Writers.step k w a = .ok w') : ∃ L' o', WritersInv k c₀ start w' L' o' := by
  cases a with
  | call p src =>
    rw [Writers.step] at hrun
    split_ifs at hrun with hidle
    rw [Except.ok.injEq] at hrun
    exact ⟨L, o, hrun ▸ h.call hidle⟩
  | run p =>
    have hrun : Writers.run k w p = .ok w' := hrun
    have hrun' := hrun
    cases hp : w.pc p
    all_goals
      rw [Writers.run, hp] at hrun
      dsimp only at hrun
    case idle => nomatch hrun
    case head src =>
      rw [Except.ok.injEq] at hrun
      subst hrun
      refine ⟨L, o, h.stay (Y := []) rfl (List.append_nil _).symm rfl rfl (by simp) ?_ ?_
        (by rw [hp]; rfl) ?_⟩
      all_goals split_ifs with hsrc
      · simp [hp, hsrc, chunks_nil]
      · simp [hp]
      · trivial
      · exact hsrc
      · rfl
      · rfl
    case begun src =>
      obtain ⟨fs, hx, rfl⟩ := Writers.after_eq_ok hrun
      exact ⟨L, some p, h.begun hp hx⟩
    case locked src =>
      rw [Except.ok.injEq] at hrun
      exact ⟨L, o, hrun ▸ h.locked hp hstart hfit⟩
    case writing src todo off =>
      split_ifs at hrun with htodo
      · obtain ⟨fs, hx, rfl⟩ := Writers.after_eq_ok hrun
        subst htodo
        exact ⟨L, o, h.written hp hx⟩
      · obtain ⟨fs, hx, rfl⟩ := Writers.after_eq_ok hrun
        exact ⟨L, o, h.writing hp hstart htodo hx⟩
    case returned src r =>
      rw [Except.ok.injEq] at hrun
      exact ⟨_, o, hrun ▸ h.returned hp hstart hfit⟩
    case advanced src r =>
      obtain ⟨fs, hx, rfl⟩ := Writers.after_eq_ok hrun
      exact ⟨L, none, h.advanced hp hx⟩
    case unlocked src r => exact ⟨L, o, h.unlocked hp hrun'⟩

end WritersInv

lemma Writers.calls_step {a : WriterAct P} (hrun : Writers.step k w a = .ok w') :
    total w.calls ≤ total w'.calls := by
  have hafter : ∀ {p : P} {pc : WriterPc} {x : Kern (Fs V) Unit}, w.after p pc x = .ok w' →
      total w.calls ≤ total w'.calls := by
    intro p pc x hx
    obtain ⟨fs, -, rfl⟩ := Writers.after_eq_ok hx
    exact le_rfl
  cases a with
  | call p src =>
    rw [Writers.step] at hrun
    split_ifs at hrun
    rw [Except.ok.injEq] at hrun
    subst hrun
    simp [total]
  | run p =>
    rw [Writers.step, Writers.run] at hrun
    split at hrun
    all_goals try split_ifs at hrun
    all_goals first | exact hafter hrun | exact Except.ok.inj hrun ▸ le_rfl | cases hrun

/-- **Writers that share a file neither lose nor overlap data.**  When all calls have returned, the
chunks of the calls stand one after the other from the starting offset on, in an order that is the
order of the calls and their chunks for each process, and `f->off` is at their end. -/
theorem shared_writes {fs : Fs V} {off : UInt32} (hfile : Regular fs k c₀) (hoff : off.toNat ≤ c₀.length)
    (hreach : Reach (Writers.step k) (fun _ _ => True) (Writers.init fs off) w)
    (hfit : off.toNat + total w.calls ≤ maxfile * bsize) (hidle : ∀ p, w.pc p = .idle) :
    ∃ L : List (P × List UInt8), (∀ x ∈ L, x.2.length ≤ maxChunk) ∧
      (∀ p, (L.filter (·.1 = p)).map Prod.snd =
        (w.calls.filter (·.1 = p)).flatMap fun x => chunks x.2) ∧
      w.fs.content k = Afs.overlay c₀ (bytesOf L) off.toNat ∧
      ((w.fs.content k).drop off.toNat).take (total w.calls) = bytesOf L ∧
      w.off.toNat = off.toNat + total w.calls := by
  have hinv : off.toNat + total w.calls ≤ maxfile * bsize →
      ∃ L o, WritersInv k c₀ off.toNat w L o := by
    refine hreach.invariant (I := fun w => off.toNat + total w.calls ≤ maxfile * bsize →
      ∃ L o, WritersInv k c₀ off.toNat w L o) (fun _ => ⟨[], none, WritersInv.init hfile⟩) ?_
    intro w a w' ih _ hrun hfit
    have hle := Writers.calls_step hrun
    obtain ⟨L, o, h⟩ := ih (by omega)
    exact h.step hoff (by omega) hrun
  obtain ⟨L, o, h⟩ := hinv hfit
  have horder : ∀ p, (L.filter (·.1 = p)).map Prod.snd =
      (w.calls.filter (·.1 = p)).flatMap fun x => chunks x.2 := by
    intro p
    rw [← h.order p, hidle p]
    exact (List.append_nil _).symm
  have ho : o = none := by
    cases o with
    | none => rfl
    | some q =>
      have hq := (h.owner q).mpr rfl
      rw [hidle q] at hq
      exact nomatch hq
  have hlen := h.length_eq hidle
  have hcontent : w.fs.content k = Afs.overlay c₀ (bytesOf L) off.toNat := by
    have hphase := h.phase
    rw [ho] at hphase
    exact hphase.content
  refine ⟨L, fun x hx => ?_, horder, hcontent, ?_, by rw [h.off, hlen]⟩
  · have hmem : x.2 ∈ (L.filter (·.1 = x.1)).map Prod.snd :=
      List.mem_map.mpr ⟨x, List.mem_filter.mpr ⟨hx, by simp⟩, rfl⟩
    rw [horder, List.mem_flatMap] at hmem
    obtain ⟨y, -, hy⟩ := hmem
    exact length_of_mem_chunks hy
  · have hstart : (c₀.take off.toNat).length = off.toNat := by
      rw [List.length_take, min_eq_left hoff]
    rw [hcontent, ← hlen, Afs.overlay, List.append_assoc]
    rw [List.drop_left' hstart, List.take_left]

/-- Two calls that overlap, to a file that has just been made. -/
theorem shared_writes_two : ∃ w : Writers Bool mkfsVolume,
    Reach (Writers.step 1) (fun _ _ => True) (Writers.init newFile.fs 0) w ∧
    w.calls = [(true, [1, 2, 3]), (false, [4])] ∧ w.off.toNat = 4 ∧
    ∃ L, (∀ p, (L.filter (·.1 = p)).map Prod.snd =
      (w.calls.filter (·.1 = p)).flatMap fun x => chunks x.2) ∧
      w.fs.content 1 = Afs.overlay [] (bytesOf L) 0 := by
  have hfile : Regular newFile.fs 1 [] := ⟨newFile_ok, by decide, by decide +kernel, by decide +kernel⟩
  obtain ⟨w, hreach, hcalls, hidle⟩ : ∃ w : Writers Bool mkfsVolume,
      Reach (Writers.step 1) (fun _ _ => True) (Writers.init newFile.fs 0) w ∧
      w.calls = [(true, [1, 2, 3]), (false, [4])] ∧ ∀ p, w.pc p = .idle :=
    Reach.of_test ([.call true [1, 2, 3], .call false [4], .run true, .run false] ++
      List.replicate 8 (.run true) ++ List.replicate 8 (.run false)) (by decide +kernel)
  have hfit : total w.calls = 4 := by
    rw [hcalls]
    rfl
  obtain ⟨L, -, horder, hcontent, -, hoff⟩ := shared_writes hfile (Nat.zero_le _) hreach
    (by rw [hfit]; decide) hidle
  exact ⟨w, hreach, hcalls, by rw [hoff, hfit]; rfl, L, horder, hcontent⟩

end Invariant

end Col331
