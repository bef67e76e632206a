import Col331.Fs.Rel

/-!
The references that a call holds while it runs.

* `Ref`: a reference to an entry of the inode cache, with the inode in it.
* `Holds base τ a`: the cache of `a` counts the references in `base`, which others hold, and those
  in the list `τ`, which the running call holds; it keeps the inodes of both in place.
* `Holds.iget`, `Holds.ilock`, `Holds.iunlock`, `Holds.idup`, `Holds.iput`: what each operation does
  to the list.
-/

namespace Col331

open Function Prog

variable {V : Volume}

/-- The ways to stop that are of no interest here: an operation that waits, a table that is full,
and the checks of the kernel other than those named. -/
def Stop.Tame (e : Stop) : Prop :=
  e ∉ [.wild, .panic .freeingFree, .panic .bmapRange, .panic .ilockNoType, .panic .unlinkNlink]

instance : DecidablePred Stop.Tame := fun _ => inferInstanceAs (Decidable (_ ∉ _))

/-- A reference: an entry of the cache, the number of the inode in it, and whether it is known to
have been read. -/
structure Ref where
  slot : Fin ninode
  inum : ℕ
  valid : Bool

/-- The cache of `a` has the references counted in `base` and those in `τ`. -/
structure Holds (base : Fin ninode → Slot) (τ : List Ref) (a : Afs V) : Prop where
  ref : ∀ k, (a.slot k).ref = (base k).ref + τ.countP (·.slot = k)
  nonneg : ∀ k, 0 ≤ (base k).ref
  kept : ∀ k, 0 < (base k).ref → (a.slot k).inum = (base k).inum ∧
    ((base k).valid = true → (a.slot k).valid = true)
  mem : ∀ t ∈ τ, (a.slot t.slot).inum = t.inum ∧ (t.valid = true → (a.slot t.slot).valid = true)
  range : ∀ k, 0 < (a.slot k).ref → (a.slot k).inum < V.ninodes
  uniq : ∀ k l, 0 < (a.slot k).ref → 0 < (a.slot l).ref → (a.slot k).inum = (a.slot l).inum → k = l

/-- The inodes after `iput` of entry `k`, which holds inode `i`. -/
def Afs.putNodes (a : Afs V) (k : Fin ninode) (i : ℕ) : ℕ → Node :=
  if (a.slot k).ref = 1 ∧ (a.slot k).valid = true ∧ (a.node i).nlink = 0 then
    update a.node i Node.free
  else a.node

namespace Holds

variable {base : Fin ninode → Slot} {τ τ' : List Ref} {a : Afs V} {k : Fin ninode} {i : ℕ} {v : Bool}

/-- The order of the references does not matter. -/
lemma perm (h : Holds base τ a) (hp : τ.Perm τ') : Holds base τ' a :=
  ⟨fun k => by rw [h.ref k, hp.countP_eq], h.nonneg, h.kept, fun t ht => h.mem t (hp.mem_iff.mpr ht),
    h.range, h.uniq⟩

lemma swap {t u : Ref} (h : Holds base (t :: u :: τ) a) : Holds base (u :: t :: τ) a :=
  h.perm (List.Perm.swap _ _ _)

section

variable (h : Holds base τ a)

include h

/-- Inodes are not the cache's business. -/
lemma setNode (j : ℕ) (n : Node) : Holds base τ (a.setNode j n) :=
  ⟨h.ref, h.nonneg, h.kept, h.mem, h.range, h.uniq⟩

lemma pos {t : Ref} (ht : t ∈ τ) : 0 < (a.slot t.slot).ref := by
  have hcount : 0 < τ.countP (·.slot = t.slot) := List.countP_pos_iff.mpr ⟨t, ht, by simp⟩
  have hbase := h.nonneg t.slot
  rw [h.ref]
  omega

lemma pos_base (hk : 0 < (base k).ref) : 0 < (a.slot k).ref := by
  rw [h.ref]
  omega

lemma lt {t : Ref} (ht : t ∈ τ) : t.inum < V.ninodes := by
  rw [← (h.mem t ht).1]
  exact h.range _ (h.pos ht)

/-- One entry is changed. -/
lemma set {sl : Slot}
    (hcount : ∀ l ≠ k, τ'.countP (·.slot = l) = τ.countP (·.slot = l))
    (hsub : ∀ t ∈ τ', t.slot ≠ k → t ∈ τ)
    (href : sl.ref = (base k).ref + τ'.countP (·.slot = k))
    (hkept : 0 < (base k).ref → sl.inum = (base k).inum ∧ ((base k).valid = true → sl.valid = true))
    (hmem : ∀ t ∈ τ', t.slot = k → sl.inum = t.inum ∧ (t.valid = true → sl.valid = true))
    (hrange : 0 < sl.ref → sl.inum < V.ninodes)
    (huniq : 0 < sl.ref → ∀ l, l ≠ k → 0 < (a.slot l).ref → (a.slot l).inum ≠ sl.inum) :
    Holds base τ' (a.setSlot k sl) := by
  have hself : (a.setSlot k sl).slot k = sl := update_self ..
  have hother : ∀ l ≠ k, (a.setSlot k sl).slot l = a.slot l := fun l hl => update_of_ne hl ..
  refine ⟨fun l => ?_, h.nonneg, fun l hl => ?_, fun t ht => ?_, fun l => ?_, fun l m => ?_⟩
  · by_cases hlk : l = k
    · rw [hlk, hself, href]
    · rw [hother l hlk, h.ref, hcount l hlk]
  · by_cases hlk : l = k
    · subst hlk
      rw [hself]
      exact hkept hl
    · rw [hother l hlk]
      exact h.kept l hl
  · by_cases hlk : t.slot = k
    · rw [hlk, hself]
      exact hmem t ht hlk
    · rw [hother _ hlk]
      exact h.mem t (hsub t ht hlk)
  · by_cases hlk : l = k
    · rw [hlk, hself]
      exact hrange
    · rw [hother l hlk]
      exact h.range l
  · by_cases hlk : l = k
    · by_cases hmk : m = k
      · exact fun _ _ _ => hlk.trans hmk.symm
      · rw [hlk, hself, hother m hmk]
        exact fun h1 h2 h3 => absurd h3.symm (huniq h1 m hmk h2)
    · by_cases hmk : m = k
      · rw [hmk, hself, hother l hlk]
        exact fun h1 h2 h3 => absurd h3 (huniq h2 l hlk h1)
      · rw [hother l hlk, hother m hmk]
        exact h.uniq l m

/-- An entry in use is changed, with the same inode in it. -/
lemma set_same {sl : Slot} (hk : 0 < (a.slot k).ref)
    (hcount : ∀ l ≠ k, τ'.countP (·.slot = l) = τ.countP (·.slot = l))
    (hsub : ∀ t ∈ τ', t.slot ≠ k → t ∈ τ)
    (href : sl.ref = (base k).ref + τ'.countP (·.slot = k))
    (hinum : sl.inum = (a.slot k).inum)
    (hvalid : (a.slot k).valid = true → sl.valid = true)
    (hmem : ∀ t ∈ τ', t.slot = k → sl.inum = t.inum ∧ (t.valid = true → sl.valid = true)) :
    Holds base τ' (a.setSlot k sl) := by
  refine h.set hcount hsub href (fun hb => ?_) hmem (fun _ => ?_) fun _ l hl hr heq => hl ?_
  · rw [hinum]
    exact ⟨(h.kept k hb).1, fun hv => hvalid ((h.kept k hb).2 hv)⟩
  · rw [hinum]
    exact h.range k hk
  · exact h.uniq l k hr hk (heq.trans hinum)

/-- Between calls nothing is held on top. -/
lemma rebase : Holds a.slot [] a :=
  ⟨fun _ => by simp, fun k => by rw [h.ref]; have := h.nonneg k; omega, fun _ _ => ⟨rfl, id⟩,
    nofun, h.range, h.uniq⟩

/-- One of the references in the base is taken into the hand. -/
lemma take (hk : 0 < (base k).ref) :
    Holds (update base k { base k with ref := (base k).ref - 1 })
      (⟨k, (base k).inum, (base k).valid⟩ :: τ) a := by
  refine ⟨fun l => ?_, fun l => ?_, fun l => ?_, fun t ht => ?_, h.range, h.uniq⟩
  · by_cases hl : l = k
    · subst hl
      simp only [update_self, List.countP_cons, decide_true, if_true, h.ref l]
      push_cast
      ring
    · simp [update_of_ne hl, Ne.symm hl, h.ref l]
  · by_cases hl : l = k
    · subst hl
      simp only [update_self]
      omega
    · rw [update_of_ne hl]
      exact h.nonneg l
  · by_cases hl : l = k
    · subst hl
      simp only [update_self]
      exact fun _ => h.kept l hk
    · rw [update_of_ne hl]
      exact h.kept l
  · rcases List.mem_cons.mp ht with rfl | ht
    · exact h.kept k hk
    · exact h.mem t ht

end

/-! ### The operations -/

/-- `iget` adds a reference. -/
lemma iget (h : Holds base τ a) (hi : i < V.ninodes) :
    wp (InodeLayer.iget i) (fun k a' => Holds base (⟨k, i, false⟩ :: τ) a' ∧ a'.node = a.node)
      Stop.Tame a := by
  change wp (Afs.iget i) _ _ _
  simp only [Afs.iget, wp_bind, wp_get]
  rw [if_neg (by omega)]
  have hcount : ∀ k l, l ≠ k → (⟨k, i, false⟩ :: τ : List Ref).countP (·.slot = l) =
      τ.countP (·.slot = l) := fun k l hl => by simp [Ne.symm hl]
  have hsub : ∀ k (t : Ref), t ∈ (⟨k, i, false⟩ :: τ : List Ref) → t.slot ≠ k → t ∈ τ := by
    intro k t ht hne
    rcases List.mem_cons.mp ht with rfl | ht
    · exact absurd rfl hne
    · exact ht
  cases hc : a.cached? i with
  | some k =>
    obtain ⟨hpos, hinum⟩ := Afs.cached?_some hc
    refine ⟨h.set_same hpos (hcount k) (hsub k) ?_ rfl id fun t ht hk => ?_, rfl⟩
    · simp only [List.countP_cons, decide_true, if_true, h.ref k]
      push_cast
      ring
    · rcases List.mem_cons.mp ht with rfl | ht
      · exact ⟨hinum, (by simp)⟩
      · have := h.mem t ht
        rwa [hk] at this
  | none =>
    cases he : a.empty? with
    | none => exact (by decide : Stop.Tame (.panic .igetNone))
    | some k =>
      have h0 : (a.slot k).ref = 0 := Afs.empty?_some he
      have hbase : (base k).ref = 0 := by
        have := h.nonneg k
        have := h.ref k
        omega
      have hnone : τ.countP (·.slot = k) = 0 := by
        have := h.ref k
        omega
      refine ⟨h.set (hcount k) (hsub k) ?_ (fun hb => ?_) (fun t ht hk => ?_) (fun _ => hi)
        fun _ l _ hl heq => Afs.cached?_none hc l hl heq, rfl⟩
      · simp [hbase, hnone]
      · omega
      · rcases List.mem_cons.mp ht with rfl | ht
        · exact ⟨rfl, (by simp)⟩
        · have hpos := h.pos ht
          rw [hk] at hpos
          omega

/-- `ilock` reads the inode. -/
lemma ilock {E : Stop → Prop} (h : Holds base (⟨k, i, v⟩ :: τ) a) (hE : ∀ e, Stop.Tame e → E e)
    (htype : v = true ∨ (a.node i).type ≠ 0 ∨ E (.panic .ilockNoType)) :
    wp (InodeLayer.ilock k) (fun _ a' => Holds base (⟨k, i, true⟩ :: τ) a' ∧ a'.node = a.node)
      E a := by
  obtain ⟨hinum, hvalid⟩ := h.mem _ (.head _)
  have hpos := h.pos (.head _)
  change wp (Afs.ilock k) _ _ _
  simp only [Afs.ilock, wp_bind, wp_get] at *
  rw [if_neg (by omega)]
  split_ifs with hb hv
  · exact hE _ (by decide)
  · rcases htype with hvt | ht | hE'
    · exact absurd (hvalid hvt) (by simp [hv.1])
    · rw [Afs.nodeOf, hinum] at hv
      exact absurd hv.2 ht
    · exact hE'
  · refine ⟨h.set_same hpos (fun l _ => ?_) (fun t ht hne => ?_) ?_ rfl (fun _ => rfl)
      fun t ht hk => ?_, rfl⟩
    · simp [List.countP_cons]
    · rcases List.mem_cons.mp ht with rfl | ht
      · exact absurd rfl hne
      · exact .tail _ ht
    · simpa [List.countP_cons] using h.ref k
    · refine ⟨?_, fun _ => rfl⟩
      rcases List.mem_cons.mp ht with rfl | ht
      · exact hinum
      · have := (h.mem t (.tail _ ht)).1
        rwa [hk] at this

/-- `iunlock` keeps every reference. -/
lemma iunlock (h : Holds base τ a) (hk : 0 < (a.slot k).ref) :
    wp (InodeLayer.iunlock k) (fun _ a' => Holds base τ a' ∧ a'.node = a.node) Stop.Tame a := by
  change wp (Afs.iunlock k) _ _ _
  simp only [Afs.iunlock, wp_bind, wp_get]
  rw [if_neg (by omega)]
  split_ifs
  · exact (by decide : Stop.Tame (.panic .iunlock))
  · refine ⟨h.set_same hk (fun _ _ => rfl) (fun _ ht _ => ht) (h.ref k) rfl id fun t ht hk => ?_, rfl⟩
    rw [← hk]
    exact h.mem t ht

/-- `idup` of a reference that others hold. -/
lemma idup (h : Holds base τ a) (hk : 0 < (base k).ref) :
    wp (InodeLayer.idup k) (fun _ a' => Holds base (⟨k, (base k).inum, (base k).valid⟩ :: τ) a' ∧
      a'.node = a.node) Stop.Tame a := by
  have hpos := h.pos_base hk
  obtain ⟨hinum, hvalid⟩ := h.kept k hk
  change wp (Afs.idup k) _ _ _
  simp only [Afs.idup, wp_bind, wp_get]
  rw [if_neg (by omega)]
  refine ⟨h.set_same hpos (fun l hl => ?_) (fun t ht hne => ?_) ?_ rfl id fun t ht hk => ?_, rfl⟩
  · simp [Ne.symm hl]
  · rcases List.mem_cons.mp ht with rfl | ht
    · exact absurd rfl hne
    · exact ht
  · simp only [List.countP_cons, decide_true, if_true, h.ref k]
    push_cast
    ring
  · rcases List.mem_cons.mp ht with rfl | ht
    · exact ⟨hinum, hvalid⟩
    · have := h.mem t ht
      rwa [hk] at this

/-- `iput` gives a reference back; the last one to an inode without links frees it. -/
lemma iput (h : Holds base (⟨k, i, v⟩ :: τ) a) :
    wp (InodeLayer.iput k) (fun _ a' => Holds base τ a' ∧ a'.node = a.putNodes k i) Stop.Tame a := by
  obtain ⟨hinum, -⟩ := h.mem _ (.head _)
  have href := h.ref k
  have hbase := h.nonneg k
  simp only [List.countP_cons, decide_true, if_true] at href
  push_cast at href
  have hcount : ∀ l ≠ k, τ.countP (·.slot = l) =
      (⟨k, i, v⟩ :: τ : List Ref).countP (·.slot = l) := fun l hl => by simp [Ne.symm hl]
  have hsub : ∀ t ∈ τ, t.slot ≠ k → t ∈ (⟨k, i, v⟩ :: τ : List Ref) :=
    fun t ht _ => .tail _ ht
  change wp (Afs.iput k) _ _ _
  simp only [Afs.iput, wp_bind, wp_get, Afs.putNodes]
  rw [if_neg (by omega)]
  by_cases h1 : (a.slot k).ref = 1
  · -- the last reference: nothing else refers to the entry
    have hnone : ∀ t ∈ τ, t.slot ≠ k := by
      intro t ht hk
      have : 0 < τ.countP (·.slot = k) := List.countP_pos_iff.mpr ⟨t, ht, by simpa using hk⟩
      omega
    have hfree : ∀ a' : Afs V, Holds base (⟨k, i, v⟩ :: τ) a' →
        Holds base τ (a'.setSlot k Slot.free) := fun a' h' =>
      h'.set hcount hsub (by simp only [Slot.free]; omega) (fun hb => by omega)
        (fun t ht hk => absurd hk (hnone t ht)) (fun h0 => absurd h0 (lt_irrefl _))
        fun h0 => absurd h0 (lt_irrefl _)
    rw [if_pos h1]
    by_cases hz : (a.slot k).valid = true ∧ (a.node i).nlink = 0
    · have hz' : (a.slot k).ref = 1 ∧ (a.slot k).valid = true ∧ (a.node i).nlink = 0 := ⟨h1, hz⟩
      rw [if_pos (by rw [Afs.nodeOf, hinum]; exact hz), if_pos hz']
      split_ifs
      · exact (by decide : Stop.Tame (.panic .iputBusy))
      · refine ⟨hfree _ (h.setNode _ _), ?_⟩
        rw [hinum]
        rfl
    · rw [if_neg (by rw [Afs.nodeOf, hinum]; exact hz), if_neg (fun h => hz h.2)]
      exact ⟨hfree _ h, rfl⟩
  · rw [if_neg h1, if_neg (fun h => h1 h.1)]
    refine ⟨h.set_same (by omega) hcount hsub (by dsimp only; omega) rfl id fun t ht hk => ?_, rfl⟩
    have := h.mem t (.tail _ ht)
    rwa [hk] at this

/-! ### Inodes that have been locked -/

section Locked

variable {E : Stop → Prop} (h : Holds base τ a)

include h

/-- The inode of an entry that has been locked. -/
lemma held (ht : ⟨k, i, true⟩ ∈ τ) : Afs.held k a = .ok (a.node i, a) := by
  obtain ⟨hinum, hvalid⟩ := h.mem _ ht
  have hpos := h.pos ht
  simp only at hinum hvalid hpos
  simp [Afs.held, bind_run, hpos, hvalid, Afs.nodeOf, hinum]

lemma wp_type (ht : ⟨k, i, true⟩ ∈ τ) {Q : Int16 → Afs V → Prop} :
    wp (InodeLayer.type k) Q E a ↔ Q (a.node i).type a := by
  change wp (do return (← Afs.held k).type) _ _ _ ↔ _
  rw [wp_bind, wp_of_ok (h.held ht)]
  rfl

lemma wp_nlink (ht : ⟨k, i, true⟩ ∈ τ) {Q : Int16 → Afs V → Prop} :
    wp (InodeLayer.nlink k) Q E a ↔ Q (a.node i).nlink a := by
  change wp (do return (← Afs.held k).nlink) _ _ _ ↔ _
  rw [wp_bind, wp_of_ok (h.held ht)]
  rfl

lemma wp_inum (ht : ⟨k, i, v⟩ ∈ τ) {Q : ℕ → Afs V → Prop} :
    wp (InodeLayer.inum k) Q E a ↔ Q i a := by
  obtain ⟨hinum, -⟩ := h.mem _ ht
  have hpos := h.pos ht
  simp only at hinum hpos
  change wp (Afs.inum k) _ _ _ ↔ _
  simp only [Afs.inum, wp_bind, wp_get]
  rw [if_neg (by omega), hinum]
  rfl

section

variable (ht : ⟨k, i, true⟩ ∈ τ)

include ht

lemma wp_size (hdev : (a.node i).type ≠ tDev) {Q : ℕ → Afs V → Prop} :
    wp (InodeLayer.size k) Q E a ↔ Q (a.node i).content.length a := by
  change wp (Afs.size k) _ _ _ ↔ _
  rw [Afs.size, wp_bind, wp_of_ok (h.held ht), if_neg hdev]
  rfl

/-- An assignment to the attributes. -/
lemma wp_change (f : Attr → Attr) {Q : Unit → Afs V → Prop} :
    wp (InodeLayer.change k f) Q E a ↔
      Q () (a.setNode i { a.node i with
        major := (f ⟨(a.node i).major, (a.node i).minor, (a.node i).nlink⟩).major
        minor := (f ⟨(a.node i).major, (a.node i).minor, (a.node i).nlink⟩).minor
        nlink := (f ⟨(a.node i).major, (a.node i).minor, (a.node i).nlink⟩).nlink }) := by
  obtain ⟨hinum, -⟩ := h.mem _ ht
  change wp (Afs.change k f) _ _ _ ↔ _
  rw [Afs.change, wp_bind, wp_of_ok (h.held ht), wp_modify]
  simp only at hinum
  rw [hinum]

/-- Reading changes nothing. -/
lemma readi (off n : ℕ) :
    wp (InodeLayer.readi k off n) (fun _ a' => a' = a) E a := by
  change wp (Afs.readi k off n) _ _ _
  rw [Afs.readi, wp_bind, wp_of_ok (h.held ht)]
  split_ifs <;> rfl

/-- A write to an inode that is no device. -/
lemma writei (hdev : (a.node i).type ≠ tDev) (src : List UInt8) (off : ℕ) :
    wp (InodeLayer.writei k src off) (fun r a' =>
        (r = -1 ∧ a' = a) ∨ (r = src.length ∧ off ≤ (a.node i).content.length ∧
          a' = a.setNode i { a.node i with content := Afs.overlay (a.node i).content src off }))
      Stop.Tame a := by
  obtain ⟨hinum, -⟩ := h.mem _ ht
  change wp (Afs.writei k src off) _ _ _
  rw [Afs.writei, wp_bind, wp_of_ok (h.held ht), if_neg hdev]
  simp only at hinum
  split_ifs with h1
  · exact .inl ⟨rfl, rfl⟩
  · exact .inl ⟨rfl, rfl⟩
  · refine .inr ⟨rfl, by omega, ?_⟩
    dsimp only
    rw [hinum]

end

end Locked

end Holds

end Col331
