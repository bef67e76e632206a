import Col331.Bio.Steps

/-!
The buffer cache keeps one buffer for a block, in the order of the last `brelse`.

* `Bcache.Order c time l`: the list is `l`, without a gap, and sorted by `time`.
* `Order.find_next`, `Order.find_prev`: what the two searches of `bget` find.
* `BioSys.Inv`, `BioSys.Inv.step`: the invariant.
* `bcache_ok`: what it means for the users of the cache.
-/

namespace Col331

open Function

/-! ### The list -/

namespace Bcache

/-- The list of buffers is `l`, last put there first. -/
structure Order (c : Bcache) (time : Fin nbuf → ℕ) (l : List (Fin nbuf)) : Prop where
  ring : IsRing c.next c.prev none (l.map some)
  all : ∀ b, b ∈ l
  sorted : l.Pairwise fun a b => time b < time a

lemma link_ring {c : Bcache} {l : List (Fin nbuf)} {b : Fin nbuf}
    (hr : IsRing c.next c.prev none (l.map some)) (hb : b ∉ l) :
    IsRing (c.link b).next (c.link b).prev none ((b :: l).map some) := by
  have hpush := hr.push (b := some b) (by simpa using hb)
  have hne : (none : BufNode) ≠ some b := by simp
  simpa [link, setNext, setPrev, update_of_ne hne] using hpush

lemma unlink_ring {c : Bcache} {l₁ l₂ : List (Fin nbuf)} {b : Fin nbuf}
    (hr : IsRing c.next c.prev none ((l₁ ++ b :: l₂).map some)) :
    IsRing (c.unlink b).next (c.unlink b).prev none ((l₁ ++ l₂).map some) := by
  rw [List.map_append, List.map_cons] at hr
  have hunlink := hr.unlink
  -- `b` is not next to itself, so its own pointers are still there for the second assignment
  have hne : some b ≠ c.next (some b) := by
    intro e
    obtain ⟨-, hseg⟩ := Seg.append_cons.1 hr.seg
    have hmem := hseg.next_mem
    have hnd := hr.nodup
    simp only [List.nodup_cons, List.nodup_append] at hnd
    rw [← e] at hmem
    rcases List.mem_append.1 hmem with hm | hm
    · exact hnd.2.2.1.1 hm
    · simp at hm
  simpa [unlink, setNext, setPrev, update_of_ne hne] using hunlink

namespace Order

variable {c : Bcache} {time : Fin nbuf → ℕ} {l : List (Fin nbuf)}

section

variable (h : Order c time l)

include h

lemma nodup : l.Nodup :=
  ((List.nodup_cons.1 h.ring.nodup).2).of_map some

lemma length_eq : l.length = nbuf := by
  have huniv : l.toFinset = Finset.univ := by
    ext b
    simp [h.all b]
  have hcard := List.toFinset_card_of_nodup h.nodup
  rw [huniv, Finset.card_univ, Fintype.card_fin] at hcard
  exact hcard.symm

/-- The search forwards. -/
lemma find_next (f : Buf → Bool) :
    c.find c.next f = some (l.find? fun b => f (c.buf b)) := by
  rw [find, h.ring.findFrom_next _ (by simp [h.length_eq]), List.find?_map]
  cases hf : l.find? fun b => f (c.buf b) <;> simp [hf]

/-- The search backwards. -/
lemma find_prev (f : Buf → Bool) :
    c.find c.prev f = some (l.reverse.find? fun b => f (c.buf b)) := by
  rw [find, h.ring.findFrom_prev _ (by simp [h.length_eq]), ← List.map_reverse, List.find?_map]
  cases hf : l.reverse.find? fun b => f (c.buf b) <;> simp [hf]

/-- `brelse` moves the buffer to the head. -/
lemma release {clock : ℕ} (hclock : ∀ b, time b < clock) (b : Fin nbuf) :
    Order ((c.unlink b).link b) (update time b clock) (b :: l.erase b) := by
  obtain ⟨l₁, l₂, hb, rfl, herase⟩ := List.exists_erase_eq (h.all b)
  have hnd := h.nodup
  have hb₂ : b ∉ l₂ := by
    simp only [List.nodup_append, List.nodup_cons] at hnd
    exact hnd.2.1.1
  have hsorted := h.sorted.sublist (List.erase_sublist (a := b) (l := l₁ ++ b :: l₂))
  have hmem : b ∉ l₁ ++ l₂ := by simp [hb, hb₂]
  rw [herase] at hsorted ⊢
  refine ⟨link_ring (unlink_ring h.ring) hmem, fun a => ?_, ?_⟩
  · have := h.all a
    simp only [List.mem_append, List.mem_cons] at this ⊢
    tauto
  · refine List.pairwise_cons.2 ⟨fun a ha => ?_, ?_⟩
    · have hne : a ≠ b := fun e => hmem (e ▸ ha)
      rw [update_self, update_of_ne hne]
      exact hclock a
    · refine hsorted.imp_of_mem fun {x y} hx hy hxy => ?_
      have hxb : x ≠ b := fun e => hmem (e ▸ hx)
      have hyb : y ≠ b := fun e => hmem (e ▸ hy)
      rwa [update_of_ne hyb, update_of_ne hxb]

/-- The search backwards finds the buffer that was released longest ago. -/
lemma least {f : Fin nbuf → Bool} {b : Fin nbuf} (hf : l.reverse.find? f = some b) :
    f b = true ∧ ∀ a, f a = true → time b ≤ time a := by
  obtain ⟨hb, as, bs, hl, has⟩ := List.find?_eq_some_iff_append.1 hf
  refine ⟨hb, fun a ha => ?_⟩
  have hmem : a ∈ as ++ b :: bs := hl ▸ List.mem_reverse.2 (h.all a)
  have hsorted := List.pairwise_reverse.2 h.sorted
  rw [hl, List.pairwise_append, List.pairwise_cons] at hsorted
  rcases List.mem_append.1 hmem with ha' | ha'
  · exact absurd ha (by simpa using has a ha')
  · rcases List.mem_cons.1 ha' with rfl | ha'
    · exact le_rfl
    · exact (hsorted.2.1.1 a ha').le

lemma setBuf (b : Fin nbuf) (v : Buf) : Order (c.setBuf b v) time l :=
  ⟨h.ring, h.all, h.sorted⟩

end

end Order

/-- The loop of `binit` puts the buffers `bs` on the list, one after the other. -/
lemma linkAll_ring {c : Bcache} {l : List (Fin nbuf)} (bs : List (Fin nbuf))
    (hr : IsRing c.next c.prev none (l.map some)) (hnd : (bs.reverse ++ l).Nodup) :
    IsRing (c.linkAll bs).next (c.linkAll bs).prev none ((bs.reverse ++ l).map some) := by
  induction bs generalizing c l with
  | nil => exact hr
  | cons b bs ih =>
    rw [List.reverse_cons, List.append_assoc, List.singleton_append] at hnd ⊢
    have hb : b ∉ l := (List.nodup_cons.1 (hnd.sublist (List.sublist_append_right ..))).1
    exact ih (c := (c.link b).setBuf b { c.buf b with dev := -1 }) (link_ring hr hb) hnd

lemma binit_order : Order binit (fun b => b) (List.finRange nbuf).reverse := by
  refine ⟨?_, by simp, ?_⟩
  · have hring := linkAll_ring (c := ((⟨fun _ => none, fun _ => none,
      fun _ => ⟨0, 0, false, false, false⟩⟩ : Bcache).setPrev none none).setNext none none)
      (l := []) (List.finRange nbuf) (IsRing.singleton ..) (by simp [List.nodup_finRange])
    simpa [binit] using hring
  · rw [List.pairwise_reverse]
    exact List.pairwise_lt_finRange nbuf

lemma linkAll_dev {c : Bcache} {bs : List (Fin nbuf)} {b : Fin nbuf}
    (hb : b ∈ bs ∨ (c.buf b).dev = -1) : ((c.linkAll bs).buf b).dev = -1 := by
  induction bs generalizing c with
  | nil => exact hb.resolve_left (by simp)
  | cons b' bs ih =>
    refine ih (c := (c.link b').setBuf b' { c.buf b' with dev := -1 }) ?_
    rcases eq_or_ne b b' with rfl | hne
    · exact .inr (by simp [setBuf])
    · have hlink : ((c.link b').setBuf b' { c.buf b' with dev := -1 }).buf b = c.buf b := by
        simp [setBuf, hne, link, setNext, setPrev]
      rw [hlink]
      simpa [hne] using hb

lemma binit_dev (b : Fin nbuf) : (binit.buf b).dev = -1 :=
  linkAll_dev (.inl (List.mem_finRange b))

lemma linkAll_busy {c : Bcache} {bs : List (Fin nbuf)} {b : Fin nbuf}
    (hb : (c.buf b).busy = false) : ((c.linkAll bs).buf b).busy = false := by
  induction bs generalizing c with
  | nil => exact hb
  | cons b' bs ih =>
    refine ih (c := (c.link b').setBuf b' { c.buf b' with dev := -1 }) ?_
    rcases eq_or_ne b b' with rfl | hne
    · simpa [setBuf] using hb
    · simpa [setBuf, hne, link, setNext, setPrev] using hb

/-- A buffer keeps its block when it is changed in other ways. -/
lemma setBuf_key {c : Bcache} {b : Fin nbuf} {v : Buf} (hdev : v.dev = (c.buf b).dev)
    (hno : v.blockno = (c.buf b).blockno) (a : Fin nbuf) :
    ((c.setBuf b v).buf a).dev = (c.buf a).dev ∧ ((c.setBuf b v).buf a).blockno = (c.buf a).blockno :=
  (forall_update_iff c.buf fun a v => v.dev = (c.buf a).dev ∧ v.blockno = (c.buf a).blockno).mpr
    ⟨⟨hdev, hno⟩, fun _ _ => ⟨rfl, rfl⟩⟩ a

end Bcache

/-! ### The invariant -/

/-- The buffer a process in a call must hold. -/
def BufPc.needs? : BufPc → Option (Fin nbuf)
  | .fetched b | .iderw b | .brelse b => some b
  | _ => none

namespace BioSys

variable {P : Type}

/-- The invariant of the buffer cache. -/
structure Inv (s : BioSys P) : Prop where
  order : ∃ l, Bcache.Order s.cache s.time l
  clock : ∀ b, s.time b < s.clock
  unique : ∀ a b, (s.cache.buf a).dev ≠ -1 → (s.cache.buf a).dev = (s.cache.buf b).dev →
    (s.cache.buf a).blockno = (s.cache.buf b).blockno → a = b
  busy : ∀ b, (s.cache.buf b).busy = true ↔ ∃ p, s.holds p b = true
  excl : ∀ p q b, s.holds p b = true → s.holds q b = true → p = q
  pc : ∀ p b, (s.pc p).needs? = some b → s.holds p b = true

lemma boot_inv : (boot : BioSys P).Inv where
  order := ⟨_, Bcache.binit_order⟩
  clock b := b.isLt
  unique a _ ha := absurd (Bcache.binit_dev a) ha
  busy b := by
    have hb : (Bcache.binit.buf b).busy = false := Bcache.linkAll_busy rfl
    simp [boot, hb]
  excl := by simp [boot]
  pc := by simp [boot, BufPc.needs?]

variable {s : BioSys P}

lemma Inv.unique_of_key (hs : s.Inv) {c : Bcache} (hkey : ∀ a, (c.buf a).dev = (s.cache.buf a).dev ∧
    (c.buf a).blockno = (s.cache.buf a).blockno) (a a' : Fin nbuf) : (c.buf a).dev ≠ -1 →
    (c.buf a).dev = (c.buf a').dev → (c.buf a).blockno = (c.buf a').blockno → a = a' := by
  rw [(hkey a).1, (hkey a').1, (hkey a).2, (hkey a').2]
  exact hs.unique a a'

/-- Other flags than `B_BUSY` change. -/
lemma Inv.setFlags (hs : s.Inv) (b : Fin nbuf) (valid dirty : Bool) :
    (s.setBuf b { s.cache.buf b with valid, dirty }).Inv := by
  obtain ⟨l, hl⟩ := hs.order
  refine ⟨⟨l, hl.setBuf b _⟩, hs.clock, hs.unique_of_key (Bcache.setBuf_key rfl rfl), ?_, hs.excl, hs.pc⟩
  exact (forall_update_iff s.cache.buf fun a v => v.busy = true ↔ ∃ p, s.holds p a = true).mpr
    ⟨hs.busy b, fun a _ => hs.busy a⟩

/-- Sleeping processes are woken. -/
lemma Inv.wakeup (hs : s.Inv) (b : Fin nbuf) : (s.wakeup b).Inv := by
  refine ⟨hs.order, hs.clock, hs.unique, hs.busy, hs.excl, fun p b' hp => hs.pc p b' ?_⟩
  simp only [BioSys.wakeup] at hp
  split at hp
  · split at hp <;> simp [BufPc.needs?] at hp
  · exact hp

variable [DecidableEq P] {p : P} {b : Fin nbuf}

lemma Inv.goto (hs : s.Inv) {c : BufPc} (hc : ∀ b, c.needs? = some b → s.holds p b = true) :
    (s.goto p c).Inv := by
  refine ⟨hs.order, hs.clock, hs.unique, hs.busy, hs.excl, fun q b hq => ?_⟩
  rcases eq_or_ne q p with rfl | hqp
  · exact hc b (by simpa [BioSys.goto] using hq)
  · exact hs.pc q b (by simpa [BioSys.goto, hqp] using hq)

lemma Inv.goto_with (hs : s.Inv) {c : BufPc} (hc : c.needs? = some b) (hb : s.holds p b = true) :
    (s.goto p c).Inv :=
  hs.goto fun _ ha => Option.some.inj (hc.symm.trans ha) ▸ hb

/-- **`bget` takes an idle buffer**, for the block it is for or for one that no buffer is for. -/
lemma Inv.take (hs : s.Inv) {v : Buf} (hidle : (s.cache.buf b).busy = false) (hv : v.busy = true)
    (hnew : ∀ a, a ≠ b → v.dev ≠ -1 → ¬((s.cache.buf a).dev = v.dev ∧ (s.cache.buf a).blockno = v.blockno)) :
    (((s.setBuf b v).setHolds p b true).goto p (.fetched b)).Inv := by
  have hself : ((s.setBuf b v).cache.buf b) = v := by simp [setBuf, Bcache.setBuf]
  have hother : ∀ a, a ≠ b → (s.setBuf b v).cache.buf a = s.cache.buf a := fun a ha => by
    simp [setBuf, Bcache.setBuf, ha]
  have hnone : ∀ q, s.holds q b = false := by
    intro q
    by_contra hq
    have := (hs.busy b).2 ⟨q, by simpa using hq⟩
    simp [hidle] at this
  obtain ⟨l, hl⟩ := hs.order
  have hmid : ((s.setBuf b v).setHolds p b true).Inv := by
    refine ⟨⟨l, hl.setBuf b v⟩, hs.clock, fun a a' => ?_, fun a => ?_, fun q q' a hq hq' => ?_,
      fun q a hq => ?_⟩
    · change ((s.setBuf b v).cache.buf a).dev ≠ -1 → ((s.setBuf b v).cache.buf a).dev =
        ((s.setBuf b v).cache.buf a').dev → ((s.setBuf b v).cache.buf a).blockno =
        ((s.setBuf b v).cache.buf a').blockno → a = a'
      rcases eq_or_ne a b with rfl | ha <;> rcases eq_or_ne a' a with rfl | ha'
      · exact fun _ _ _ => rfl
      · rw [hself, hother a' ha']
        exact fun h1 h2 h3 => absurd ⟨h2.symm, h3.symm⟩ (hnew a' ha' h1)
      · exact fun _ _ _ => rfl
      · rw [hother a ha]
        rcases eq_or_ne a' b with rfl | hb'
        · rw [hself]
          exact fun h1 h2 h3 => absurd ⟨h2, h3⟩ (hnew a ha (h2 ▸ h1))
        · rw [hother a' hb']
          exact hs.unique a a'
    · change ((s.setBuf b v).cache.buf a).busy = true ↔ ∃ q, (if q = p ∧ a = b then true else
        s.holds q a) = true
      rcases eq_or_ne a b with rfl | ha
      · rw [hself, hv]
        exact ⟨fun _ => ⟨p, by simp⟩, fun _ => rfl⟩
      · simpa [hother a ha, ha] using hs.busy a
    · simp only [setHolds, setBuf] at hq hq'
      by_cases ha : a = b
      · subst ha
        simp only [hnone, and_true, Bool.ite_eq_true_distrib] at hq hq'
        simp_all
      · exact hs.excl q q' a (by simpa [ha] using hq) (by simpa [ha] using hq')
    · have := hs.pc q a hq
      simp only [setHolds]
      split_ifs
      · rfl
      · exact this
  exact hmid.goto_with rfl (by simp [setHolds])

/-- **`brelse` gives the buffer back.** -/
lemma Inv.brelse (hs : s.Inv) (hp : s.pc p = .brelse b) : (s.brelse p b).Inv := by
  have hb : s.holds p b = true := hs.pc p b (by rw [hp]; rfl)
  have honly : ∀ q, s.holds q b = true → q = p := fun q hq => hs.excl q p b hq hb
  obtain ⟨l, hl⟩ := hs.order
  refine Inv.wakeup ?_ b
  set c := (s.cache.unlink b).link b
  have hself : (c.setBuf b { c.buf b with busy := false }).buf b =
      { s.cache.buf b with busy := false } := update_self ..
  have hother : ∀ a, a ≠ b →
      (c.setBuf b { c.buf b with busy := false }).buf a = s.cache.buf a :=
    fun a ha => update_of_ne ha ..
  refine ⟨⟨b :: l.erase b, (hl.release hs.clock b).setBuf b _⟩, ?_,
    hs.unique_of_key (Bcache.setBuf_key (c := c) rfl rfl), fun a => ?_,
    fun q q' a hq hq' => hs.excl q q' a ?_ ?_, fun q a hq => ?_⟩
  · exact (forall_update_iff s.time fun _ x => x < s.clock + 1).mpr
      ⟨Nat.lt_succ_self _, fun a _ => (hs.clock a).trans (Nat.lt_succ_self _)⟩
  · change ((c.setBuf b { c.buf b with busy := false }).buf a).busy = true ↔
      ∃ q, (if q = p ∧ a = b then false else s.holds q a) = true
    rcases eq_or_ne a b with rfl | ha
    · rw [hself]
      refine ⟨fun h => by simp at h, fun ⟨q, hq⟩ => ?_⟩
      split_ifs at hq with hqp
      exact absurd ⟨honly q hq, rfl⟩ hqp
    · simpa [hother a ha, ha] using hs.busy a
  · simp only [BioSys.goto, setHolds] at hq
    split_ifs at hq
    exact hq
  · simp only [BioSys.goto, setHolds] at hq'
    split_ifs at hq'
    exact hq'
  · rcases eq_or_ne q p with rfl | hqp
    · simp [BioSys.goto, BufPc.needs?] at hq
    · have hold := hs.pc q a (by simpa [BioSys.goto, setHolds, hqp] using hq)
      simpa [BioSys.goto, setHolds, hqp] using hold

/-! ### `bget` -/

/-- **What `bget` does**: it waits for the buffer of the block, takes it, or recycles the clean
idle buffer that was released longest ago. -/
inductive Bget (s : BioSys P) (p : P) (dev blockno : UInt32) :
    Except (Option Panic) (BioSys P) → Prop where
  | wait (b : Fin nbuf) : (s.cache.buf b).isFor dev blockno = true →
      (s.cache.buf b).busy = true → Bget s p dev blockno (.ok (s.goto p (.asleep b dev blockno)))
  | hit (b : Fin nbuf) : (s.cache.buf b).isFor dev blockno = true →
      (s.cache.buf b).busy = false → Bget s p dev blockno
        (.ok (((s.setBuf b { s.cache.buf b with busy := true }).setHolds p b true).goto p
          (.fetched b)))
  | recycle (b : Fin nbuf) : (∀ a, (s.cache.buf a).isFor dev blockno = false) →
      (s.cache.buf b).cleanIdle = true →
      (∀ a, (s.cache.buf a).cleanIdle = true → s.time b ≤ s.time a) → Bget s p dev blockno
        (.ok (((s.setBuf b ⟨dev, blockno, true, false, false⟩).setHolds p b true).goto p
          (.fetched b)))
  | full : (∀ a, (s.cache.buf a).isFor dev blockno = false) →
      (∀ a, (s.cache.buf a).cleanIdle = false) → Bget s p dev blockno (.error (some .bgetNone))

lemma Inv.bget (hs : s.Inv) (p : P) (dev blockno : UInt32) :
    Bget s p dev blockno (s.bget p dev blockno) := by
  obtain ⟨l, hl⟩ := hs.order
  rw [BioSys.bget, hl.find_next]
  cases hf : l.find? fun b => (s.cache.buf b).isFor dev blockno with
  | some b =>
    have hb := List.find?_some hf
    simp only
    split_ifs with hbusy
    · exact .wait b hb hbusy
    · exact .hit b hb (by simpa using hbusy)
  | none =>
    have hno : ∀ a, (s.cache.buf a).isFor dev blockno = false := fun a => by
      simpa using List.find?_eq_none.1 hf a (hl.all a)
    simp only [hl.find_prev]
    cases hr : l.reverse.find? fun b => (s.cache.buf b).cleanIdle with
    | some b =>
      obtain ⟨hb, hleast⟩ := hl.least hr
      exact .recycle b hno hb hleast
    | none =>
      refine .full hno fun a => ?_
      simpa using List.find?_eq_none.1 hr a (List.mem_reverse.2 (hl.all a))

variable {s' : BioSys P}

lemma Inv.of_bget (hs : s.Inv) {dev blockno : UInt32}
    (h : s.bget p dev blockno = .ok s') : s'.Inv := by
  have hget := hs.bget p dev blockno
  rw [h] at hget
  cases hget with
  | wait b hb hbusy => exact hs.goto (by simp [BufPc.needs?])
  | hit b hb hidle =>
    refine hs.take hidle rfl fun a ha h1 h2 => ha ?_
    exact hs.unique a b (h2.1 ▸ h1) h2.1 h2.2
  | recycle b hno hb hleast =>
    refine hs.take (by simpa [Buf.cleanIdle] using (of_decide_eq_true hb).1) rfl
      fun a ha h1 h2 => ?_
    have := hno a
    simp [Buf.isFor, h2] at this

/-! ### Runs -/

section

variable (hs : s.Inv)

include hs

lemma Inv.iderw (hb : s.holds p b = true)
    (h : s.iderw p b = .ok s') : s'.Inv := by
  simp only [BioSys.iderw] at h
  split_ifs at h
  cases h
  exact hs.goto_with rfl hb

/-- **Every step keeps the invariant.** -/
lemma Inv.step {a : BioAct P} (ha : s.Promised a)
    (h : s.step a = .ok s') : s'.Inv := by
  cases a with
  | bread p dev blockno => exact Except.ok.inj h ▸ hs.goto (by simp [BufPc.needs?])
  | brelse p b =>
    simp only [BioSys.step] at h
    split_ifs at h
    cases h
    exact hs.goto_with rfl ha.2
  | bwrite p b =>
    simp only [BioSys.step] at h
    split_ifs at h
    exact (hs.setFlags b (s.cache.buf b).valid true).iderw ha.2 h
  | logWrite p b => exact Except.ok.inj h ▸ hs.setFlags b (s.cache.buf b).valid true
  | ideintr p =>
    simp only [BioSys.step] at h
    split at h
    · exact Except.ok.inj h ▸ (hs.setFlags _ true false).wakeup _
    · exact Except.ok.inj h ▸ hs
  | next p =>
    cases hp : s.pc p with
    | idle | asleep => simp only [BioSys.step, hp, Except.ok.injEq] at h; exact h ▸ hs
    | bget dev blockno =>
      simp only [BioSys.step, hp] at h
      exact hs.of_bget h
    | fetched b =>
      simp only [BioSys.step, hp] at h
      split_ifs at h
      · exact Except.ok.inj h ▸ hs.goto (by simp [BufPc.needs?])
      · exact hs.iderw (hs.pc p b (by rw [hp]; rfl)) h
    | iderw b =>
      simp only [BioSys.step, hp] at h
      split_ifs at h
      · exact Except.ok.inj h ▸ hs.goto (by simp [BufPc.needs?])
      · exact Except.ok.inj h ▸ hs
    | brelse b =>
      simp only [BioSys.step, hp, Except.ok.injEq] at h
      exact h ▸ hs.brelse hp
  | kill p =>
    simp only [BioSys.step] at h
    split at h
    · exact Except.ok.inj h ▸ hs.goto (by simp [BufPc.needs?])
    · exact Except.ok.inj h ▸ hs

/-- A step that recycles no buffer leaves each buffer to its block. -/
lemma Inv.step_key {a : BioAct P} (h : s.step a = .ok s')
    (hb : (s.cache.buf b).busy = true ∨ (s.cache.buf b).dirty = true) :
    (s'.cache.buf b).dev = (s.cache.buf b).dev ∧
      (s'.cache.buf b).blockno = (s.cache.buf b).blockno := by
  have hset := fun b' v hdev hno => @Bcache.setBuf_key s.cache b' v hdev hno b
  have hider : ∀ {t t' : BioSys P} {q b'}, t.iderw q b' = .ok t' → t'.cache = t.cache := by
    intro t t' q b' ht
    simp only [BioSys.iderw] at ht
    split_ifs at ht
    cases ht
    rfl
  cases a with
  | bread p dev blockno => exact Except.ok.inj h ▸ ⟨rfl, rfl⟩
  | brelse p b' =>
    simp only [BioSys.step] at h
    split_ifs at h
    exact Except.ok.inj h ▸ ⟨rfl, rfl⟩
  | bwrite p b' =>
    simp only [BioSys.step] at h
    split_ifs at h
    rw [hider h]
    exact hset _ _ rfl rfl
  | logWrite p b' => exact Except.ok.inj h ▸ hset _ _ rfl rfl
  | ideintr p =>
    simp only [BioSys.step] at h
    split at h
    · exact Except.ok.inj h ▸ hset _ _ rfl rfl
    · exact Except.ok.inj h ▸ ⟨rfl, rfl⟩
  | next p =>
    cases hp : s.pc p with
    | idle | asleep => simp only [BioSys.step, hp, Except.ok.injEq] at h; exact h ▸ ⟨rfl, rfl⟩
    | bget dev blockno =>
      simp only [BioSys.step, hp] at h
      have hget := hs.bget p dev blockno
      rw [h] at hget
      cases hget with
      | wait => exact ⟨rfl, rfl⟩
      | hit b' => exact hset _ _ rfl rfl
      | recycle b' hno hclean =>
        have hne : b ≠ b' := by
          rintro rfl
          simp only [Buf.cleanIdle, decide_eq_true_eq] at hclean
          simp [hclean] at hb
        simp [BioSys.goto, setHolds, setBuf, Bcache.setBuf, hne]
    | fetched b' =>
      simp only [BioSys.step, hp] at h
      split_ifs at h
      · exact Except.ok.inj h ▸ ⟨rfl, rfl⟩
      · rw [hider h]
        exact ⟨rfl, rfl⟩
    | iderw b' =>
      simp only [BioSys.step, hp] at h
      split_ifs at h <;> exact Except.ok.inj h ▸ ⟨rfl, rfl⟩
    | brelse b' =>
      simp only [BioSys.step, hp, Except.ok.injEq] at h
      exact h ▸ hset b' _ rfl rfl
  | kill p =>
    simp only [BioSys.step] at h
    split at h <;> exact Except.ok.inj h ▸ ⟨rfl, rfl⟩

/-- **The calls stop only when every buffer is in use**; in particular the searches end. -/
lemma Inv.step_error {a : BioAct P} (ha : s.Promised a) {e : Option Panic}
    (h : s.step a = .error e) : e = some .bgetNone ∧
      ∃ p dev blockno, s.pc p = .bget dev blockno ∧ ∀ b, (s.cache.buf b).cleanIdle = false := by
  have hbusy : ∀ {q b}, s.holds q b = true → (s.cache.buf b).busy = true :=
    fun hq => (hs.busy _).2 ⟨_, hq⟩
  cases a with
  | bread | logWrite => simp [BioSys.step] at h
  | brelse p b => simp [BioSys.step, hbusy ha.2] at h
  | bwrite p b =>
    simp [BioSys.step, BioSys.iderw, setBuf, Bcache.setBuf, hbusy ha.2] at h
  | ideintr | kill =>
    simp only [BioSys.step] at h
    split at h <;> simp at h
  | next p =>
    cases hp : s.pc p with
    | idle | asleep | brelse => simp [BioSys.step, hp] at h
    | bget dev blockno =>
      simp only [BioSys.step, hp] at h
      have hget := hs.bget p dev blockno
      rw [h] at hget
      cases hget with
      | full _ hno => exact ⟨rfl, p, dev, blockno, hp, hno⟩
    | fetched b =>
      have hb := hbusy (hs.pc p b (by rw [hp]; rfl))
      simp only [BioSys.step, hp] at h
      split_ifs at h with hv
      simp [BioSys.iderw, hb, hv] at h
    | iderw b =>
      simp only [BioSys.step, hp] at h
      split_ifs at h

/-- A miss recycles the clean idle buffer that was released longest ago. -/
lemma Inv.bget_miss {dev blockno : UInt32}
    (hmiss : ∀ a, ¬((s.cache.buf a).dev = dev ∧ (s.cache.buf a).blockno = blockno))
    (h : s.bget p dev blockno = .ok s') :
    ∃ b, (s.cache.buf b).cleanIdle = true ∧
      (∀ a, (s.cache.buf a).cleanIdle = true → s.time b ≤ s.time a) ∧
      s'.cache.buf = update s.cache.buf b ⟨dev, blockno, true, false, false⟩ ∧
      s'.holds p b = true := by
  have hget := hs.bget p dev blockno
  rw [h] at hget
  cases hget with
  | wait b hb | hit b hb => exact absurd (of_decide_eq_true hb) (hmiss b)
  | recycle b hno hclean hleast =>
    exact ⟨b, hclean, hleast, rfl, by simp [BioSys.goto, setHolds]⟩

omit [DecidableEq P] in
/-- Following `next` from the head, the list comes by in order. -/
lemma Inv.visits : ∃ l : List (Fin nbuf), l.Nodup ∧ l.length = nbuf ∧
    (∀ b, b ∈ l) ∧ (∀ i (hi : i < l.length), s.cache.next^[i + 1] none = some l[i]) ∧
    s.cache.next^[nbuf + 1] none = none ∧ l.Pairwise fun a b => s.time b < s.time a := by
  obtain ⟨l, hl⟩ := hs.order
  refine ⟨l, hl.nodup, hl.length_eq, hl.all, fun i hi => ?_, ?_, hl.sorted⟩
  · have hi' : i < (l.map some ++ [none]).length := by simp; omega
    rw [hl.ring.seg.iterate_next hi', List.getElem_append_left (by simpa using hi)]
    simp
  · have hi' : nbuf < (l.map some ++ [none]).length := by simp [hl.length_eq]
    rw [hl.ring.seg.iterate_next hi', List.getElem_append_right (by simp [hl.length_eq])]
    simp

omit [DecidableEq P] in
/-- `next` and `prev` are inverse to each other. -/
lemma Inv.inverse (x : BufNode) :
    s.cache.prev (s.cache.next x) = x ∧ s.cache.next (s.cache.prev x) = x := by
  obtain ⟨l, hl⟩ := hs.order
  have hx : x ∈ none :: l.map some := by
    cases x with
    | none => simp
    | some b => simp [hl.all b]
  exact ⟨hl.ring.seg.prev_next hx, hl.ring.reverse.seg.prev_next (by simpa using hx)⟩

end

end BioSys

open BioSys

variable {P : Type} [DecidableEq P]

/-- **The buffer cache** in every state that any number of processes reach by any interleaving of
their calls.  Following `next` from the head visits every buffer once, `prev` is its inverse, no
two buffers are for one block, a busy or dirty buffer stays with its block, one process holds a
buffer, and the buffers are in the order of their last `brelse`, so that a miss recycles the clean
idle buffer released longest ago. -/
theorem bcache_ok (s : BioSys P) (h : Reach BioSys.step Promised boot s) :
    ((∀ b, ∃! i, i < nbuf ∧ s.cache.next^[i + 1] none = some b) ∧
        s.cache.next^[nbuf + 1] none = none ∧
        ∀ x, s.cache.prev (s.cache.next x) = x ∧ s.cache.next (s.cache.prev x) = x) ∧
      (∀ a b, (s.cache.buf a).dev ≠ -1 → (s.cache.buf a).dev = (s.cache.buf b).dev →
        (s.cache.buf a).blockno = (s.cache.buf b).blockno → a = b) ∧
      (∀ act s' b, s.Promised act → s.step act = .ok s' →
        (s.cache.buf b).busy = true ∨ (s.cache.buf b).dirty = true →
        (s'.cache.buf b).dev = (s.cache.buf b).dev ∧
          (s'.cache.buf b).blockno = (s.cache.buf b).blockno) ∧
      (∀ p q b, s.holds p b = true → s.holds q b = true → p = q) ∧
      (∀ i j a b, i < j → j < nbuf → s.cache.next^[i + 1] none = some a →
        s.cache.next^[j + 1] none = some b → s.time b < s.time a) ∧
      (∀ p dev blockno s', s.pc p = .bget dev blockno →
        (∀ a, ¬((s.cache.buf a).dev = dev ∧ (s.cache.buf a).blockno = blockno)) →
        s.step (.next p) = .ok s' →
        ∃ b, (s.cache.buf b).cleanIdle = true ∧
          (∀ a, (s.cache.buf a).cleanIdle = true → s.time b ≤ s.time a) ∧
          s'.cache.buf = update s.cache.buf b ⟨dev, blockno, true, false, false⟩ ∧
          s'.holds p b = true) ∧
      ∀ act e, s.Promised act → s.step act = .error e → e = some .bgetNone := by
  have hs : s.Inv := h.invariant boot_inv fun _ _ _ hs ha h' => hs.step ha h'
  obtain ⟨l, hnd, hlen, hall, hnext, hlast, hsorted⟩ := hs.visits
  refine ⟨⟨fun b => ?_, hlast, hs.inverse⟩, hs.unique, fun act s' b _ h' hb => hs.step_key h' hb,
    hs.excl, fun i j a b hij hj ha hb => ?_, fun p dev blockno s' hp hmiss h' => ?_,
    fun act e ha h' => (hs.step_error ha h').1⟩
  · obtain ⟨i, hi, hib⟩ := List.getElem_of_mem (hall b)
    refine ⟨i, ⟨by omega, by rw [hnext i hi, hib]⟩, fun j ⟨hj, hjb⟩ => ?_⟩
    rw [hnext j (by omega), Option.some.injEq] at hjb
    exact hnd.getElem_inj_iff.1 (hjb.trans hib.symm)
  · rw [hnext i (by omega), Option.some.injEq] at ha
    rw [hnext j (by omega), Option.some.injEq] at hb
    rw [← ha, ← hb]
    exact List.pairwise_iff_getElem.1 hsorted i j (by omega) (by omega) hij
  · simp only [BioSys.step, hp] at h'
    exact hs.bget_miss hmiss h'

/-- One process reads block 5, another one waits for its buffer and gets it. -/
def handOver : List (BioAct (Fin 2)) :=
  [.bread 0 1 5, .next 0, .next 0, .ideintr 0, .next 0, .bread 1 1 5, .next 1, .logWrite 0 0,
    .brelse 0 0, .next 0, .next 1, .next 1]

theorem bcache_ok_handOver : ∃ s : BioSys (Fin 2), Reach BioSys.step Promised boot s ∧
    s.cache.next none = some 0 ∧ s.holds 1 0 = true ∧ (∀ p, s.holds p 0 = true → p = 1) ∧
      ∀ b, (s.cache.buf b).dev = 1 → (s.cache.buf b).blockno = 5 → b = 0 := by
  obtain ⟨s, hreach, hnext, hheld, hdev, hblock⟩ : ∃ s : BioSys (Fin 2),
      Reach BioSys.step Promised boot s ∧ s.cache.next none = some 0 ∧ s.holds 1 0 = true ∧
      (s.cache.buf 0).dev = 1 ∧ (s.cache.buf 0).blockno = 5 := Reach.of_test handOver (by decide +kernel)
  obtain ⟨-, hunique, -, hexcl, -⟩ := bcache_ok s hreach
  refine ⟨s, hreach, hnext, hheld, fun p hp => hexcl p 1 0 hp hheld, fun b hb hb' => ?_⟩
  exact hunique b 0 (by rw [hb]; decide) (hb.trans hdev.symm) (hb'.trans hblock.symm)

end Col331
