import Col331.Vm.Conserve
import Col331.Vm.Dealloc

/-!
What `allocuvm` leaves, for every pattern of failures of `kalloc`.

* `Pgdir.served`: the loop of `allocuvm` on the answers of `kalloc` alone; a page table that is missing
  has to get a page.
* `allocLoop_served`: the loop itself.
* `allocuvm_iff`: **`allocuvm` has what it says** exactly if `walkpgdir` gets the pages it asks for.
-/

namespace Col331

open Prog

variable {d d' c : Pgdir} {m m' : Mem} {pn k : ℕ}

/-! ### The answers of `kalloc` -/

/-- `kalloc` finds a page on call `calls`, with `free` pages on the free list. -/
def grants (refuse : ℕ → Bool) (free calls : ℕ) : Bool := 0 < free ∧ refuse calls = false

/-- With `k` pages to go from `pn` on, every page table that is asked for gets a page, before `kalloc`
fails for a page of the user's or all pages are there.  Of the table of `pn` it is known whether it is
there; `free` and `calls` are as in `grants`. -/
def Pgdir.served (d : Pgdir) (refuse : ℕ → Bool) : ℕ → ℕ → ℕ → ℕ → Bool → Bool
  | 0, _, _, _, _ => true
  | k + 1, pn, free, calls, there =>
    let next := if (pn + 1) % nentries = 0 then (d.pde ((pn + 1) / nentries)).isSome else true
    if grants refuse free calls then
      if there then d.served refuse k (pn + 1) (free - 1) (calls + 1) next
      else if grants refuse (free - 1) (calls + 1) then
        d.served refuse k (pn + 1) (free - 2) (calls + 2) next
      else false
    else true

lemma Mem.NoPage.grants (h : m.NoPage) : grants m.refuse m.free.length m.calls = false := by
  rcases h with h | h <;> simp [Col331.grants, h]

lemma Mem.Gets.grants {f : Frame} (h : m.Gets f m') : grants m.refuse m.free.length m.calls = true := by
  simp [Col331.grants, h.1, h.2.1]

/-! ### The loop -/

/-- What the loop of `allocuvm` does, with `k` pages to go from `pn` on. -/
structure AllocRun (oldsz newsz : ℕ) (c : Pgdir) (m : Mem) (pn k : ℕ) (served : Bool) (r : ℕ × Pgdir)
    (m' : Mem) : Prop where
  result : r.1 = newsz ∨ r.1 = 0
  frame : r.2.frame = c.frame
  below : r.1 = newsz → ∀ q < pn, r.2.entry q = c.entry q
  grown : served = true → r.1 = newsz → Grown c r.2 m m' pn k fun _ => False
  undone : served = true → r.1 ≠ newsz → pagesOf oldsz = pn ∨ (c.pde (pagesOf oldsz / nentries)).isSome →
    ∀ q, r.2.entry q = if pagesOf oldsz ≤ q ∧ q < pagesOf newsz then none else c.entry q
  balance : served = true → (m'.free : Multiset Frame) + r.2.frames = m.free + c.frames
  hole : served = false → r.1 = newsz → ∃ q, pn ≤ q ∧ q < pn + k ∧ r.2.entry q = none
  lost : served = false →
    Multiset.card ((m'.free : Multiset Frame) + r.2.frames) < Multiset.card ((m.free : Multiset Frame) + c.frames)

lemma AllocRun.done (oldsz newsz : ℕ) (c : Pgdir) (m : Mem) (pn : ℕ) :
    AllocRun oldsz newsz c m pn 0 true (newsz, c) m where
  result := .inl rfl
  frame := rfl
  below _ _ _ := rfl
  grown _ _ := ⟨fun q _ _ _ => by omega, fun _ h => h.elim, fun _ _ => rfl, fun _ _ => rfl⟩
  undone _ h := absurd rfl h
  balance _ := rfl
  hole h := nomatch h
  lost h := nomatch h

/-- Nothing that is mapped is passed over if the table of the first page is there. -/
lemma Pgdir.not_missed_of_table {oldsz : ℕ} (h : (d.pde (pn / nentries)).isSome) : ¬ d.Missed pn oldsz := by
  rintro ⟨t, ht, hnone, -⟩
  rw [hnone _ le_rfl ht] at h
  simp at h

variable {oldsz newsz : ℕ}

/-- There is no page for the user: what was mapped is given back. -/
lemma AllocRun.refused {m₁ : Mem} (hm : m₁.free = m.free) (hu : c.UserPages) (hnew : newsz < kernbase) (hle : oldsz ≤ newsz)
    (hlt : pn * pgsize < newsz) (hk : pn + k = pagesOf newsz)
    (hempty : ∀ q, pn ≤ q → q < pn + k → c.entry q = none) :
    wp (deallocuvm c newsz oldsz) (fun r m' => AllocRun oldsz newsz c m pn k true (0, r.2) m')
      (fun _ => False) m₁ := by
  refine wp_post (deallocuvm_from hu hle hnew.le) ?_
  rintro r m' ⟨-, p, hp⟩
  have hne : (0 : ℕ) ≠ newsz := by omega
  refine ⟨.inr rfl, hp.shrinks.frame, fun h => absurd h hne, fun _ h => absurd h hne, fun _ _ hstart q => ?_, fun _ => ?_,
    nofun, nofun⟩
  · have hno : ¬ c.Missed (pagesOf oldsz) newsz := by
      rcases hstart with hstart | hstart
      · rw [hp.missed]
        rintro ⟨q, hq, -, hq', hsome⟩
        rw [hempty q (hstart ▸ hq) (hk ▸ lt_pagesOf.mpr hq')] at hsome
        simp at hsome
      · exact Pgdir.not_missed_of_table hstart
    rw [(hp.cleared hno).entry]
    exact if_congr (and_congr_right fun _ => lt_pagesOf.symm) rfl rfl
  · have hpages := hp.shrinks.pages
    rw [hm] at hpages
    rw [Pgdir.frames, Pgdir.frames, hp.shrinks.frame, hp.shrinks.tables]
    calc (m'.free : Multiset Frame) + ({c.frame} + c.tables + r.2.pages)
        = {c.frame} + c.tables + ((m'.free : Multiset Frame) + r.2.pages) := by abel
      _ = (m.free : Multiset Frame) + ({c.frame} + c.tables + c.pages) := by
        rw [hpages]
        abel

/-- A page is mapped. -/
lemma AllocRun.cons {c₁ : Pgdir} {m₁ m₂ : Mem} {f : Frame} {served : Bool}
    {r : ℕ × Pgdir} (hfree : m.free.Nodup) (hg : m.Gets f m₁)
    (hmap : MapsOne c c₁ { m₁ with data := Function.update m₁.data f (Bytes.zero pgsize) } m₂ pn
      ⟨.page f, ⟨true, true⟩⟩ true)
    (hframe : c₁.frame = c.frame) (hbal : (m₂.free : Multiset Frame) + c₁.frames = m.free + c.frames)
    (hpn : pagesOf oldsz ≤ pn ∧ pn < pagesOf newsz)
    (h : AllocRun oldsz newsz c₁ m₂ (pn + 1) k served r m') :
    AllocRun oldsz newsz c m pn (k + 1) served r m' := by
  refine ⟨h.result, h.frame.trans hframe, fun hr q hq => ?_, fun hs hr => .cons hfree hg hmap (h.grown hs hr),
    fun hs hr hstart q => ?_, fun hs => (h.balance hs).trans hbal, fun hs hr => ?_, fun hs => ?_⟩
  · rw [h.below hr q (by omega), hmap.entry, if_neg (by omega)]
  · have htable : (c₁.pde (pagesOf oldsz / nentries)).isSome := by
      rw [hmap.table]
      rcases hstart with hstart | hstart
      · simp [hstart]
      · simp [hstart]
    rw [h.undone hs hr (.inr htable), hmap.entry]
    by_cases hq : pagesOf oldsz ≤ q ∧ q < pagesOf newsz
    · rw [if_pos hq, if_pos hq]
    · rw [if_neg hq, if_neg hq, if_neg (by omega)]
  · obtain ⟨q, hq, hlt, hnone⟩ := h.hole hs hr
    exact ⟨q, by omega, by omega, hnone⟩
  · rw [← hbal]
    exact h.lost hs

/-- There is no page for the table, and the page that was to be mapped is lost. -/
lemma AllocRun.lose {m₂ : Mem} {served : Bool} {r : ℕ × Pgdir}
    (hlen : m₂.free.length < m.free.length) (hnone : c.entry pn = none)
    (h : AllocRun oldsz newsz c m₂ (pn + 1) k served r m') :
    AllocRun oldsz newsz c m pn (k + 1) false r m' := by
  have hcard : Multiset.card ((m'.free : Multiset Frame) + r.2.frames) ≤
      Multiset.card ((m₂.free : Multiset Frame) + c.frames) := by
    cases served with
    | true => rw [h.balance rfl]
    | false => exact (h.lost rfl).le
  refine ⟨h.result, h.frame, fun hr q hq => h.below hr q (by omega), nofun,
    nofun, nofun, fun _ hr => ⟨pn, le_rfl, by omega, ?_⟩,
    fun _ => lt_of_le_of_lt hcard ?_⟩
  · rw [h.below hr pn (by omega), hnone]
  · rw [Multiset.card_add, Multiset.card_add, Multiset.coe_card, Multiset.coe_card]
    omega

/-- The table of the page after `pn`, once that of `pn` is there. -/
lemma MapsOne.isSome_next {e : Pte} (h : MapsOne c d' m m' pn e true)
    (hlater : ∀ i, pn / nentries < i → (c.pde i).isSome = (d.pde i).isSome) :
    (d'.pde ((pn + 1) / nentries)).isSome =
      if (pn + 1) % nentries = 0 then (d.pde ((pn + 1) / nentries)).isSome else true := by
  rw [h.table]
  split_ifs with hmod
  · have hlt : pn / nentries < (pn + 1) / nentries := by
      simp only [nentries] at hmod ⊢
      omega
    rw [hlater _ hlt, decide_eq_false (by omega), Bool.false_and, Bool.or_false]
  · rw [decide_eq_true (show (pn + 1) / nentries = pn / nentries by simp only [nentries] at hmod ⊢; omega)]
    simp

/-- **`allocuvm`**, by its loop, with `k` pages to go. -/
lemma allocLoop_served {oldsz newsz fuel : ℕ} (hfree : m.free.Nodup) (hu : c.UserPages)
    (hnew : newsz < kernbase) (hle : oldsz ≤ newsz) (hk : pn + k = pagesOf newsz) (hfuel : k ≤ fuel)
    (hpn : pagesOf oldsz ≤ pn) (hempty : ∀ q, pn ≤ q → q < pn + k → c.entry q = none)
    (hlater : ∀ i, pn / nentries < i → (c.pde i).isSome = (d.pde i).isSome) :
    wp (allocLoop oldsz newsz fuel (pn * pgsize) c) (fun r m' => AllocRun oldsz newsz c m pn k
      (d.served m.refuse k pn m.free.length m.calls (c.pde (pn / nentries)).isSome) r m') (fun _ => False) m := by
  induction fuel generalizing pn k c d m with
  | zero =>
    obtain rfl : k = 0 := by omega
    exact .done ..
  | succ fuel ih =>
    rw [allocLoop]
    split_ifs with hlt
    · obtain ⟨k, rfl⟩ : ∃ j, k = j + 1 := Nat.exists_eq_succ_of_ne_zero (by
        have := lt_pagesOf.mpr hlt
        omega)
      have hpn' : pn < 2 ^ 19 := by
        simp only [pgsize, kernbase] at hlt hnew
        omega
      rw [wp_bind]
      rcases kalloc_cases m with ⟨hno, hrun⟩ | ⟨f, m₁, hg, hrun⟩
      · rw [wp_of_ok hrun, Pgdir.served, hno.grants]
        simp only [bind_pure_comp, wp_map, Bool.false_eq_true, if_false]
        exact AllocRun.refused rfl hu hnew hle hlt hk hempty
      · have hnext : pn * pgsize + pgsize = (pn + 1) * pgsize := by ring
        have hlen : m₁.free.length = m.free.length - 1 := by rw [hg.1, List.length_cons]; rfl
        have hcalls : m₁.calls = m.calls + 1 := by rw [hg.2.2]
        have hrefuse : m₁.refuse = m.refuse := by rw [hg.2.2]
        have hfree₁ : m₁.free.Nodup := (List.nodup_cons.mp (hg.1 ▸ hfree)).2
        have hnone : c.entry pn = none := hempty pn le_rfl (by omega)
        have hk' : pn + 1 + k = pagesOf newsz := by omega
        rw [wp_of_ok hrun, Pgdir.served, hg.grants, if_pos rfl]
        rw [wp_bind, fill, wp_modify, wp_bind, hnext]
        set m₂ : Mem := { m₁ with data := Function.update m₁.data f (Bytes.zero pgsize) } with hm₂
        have hpage := @mappages_page_wp c m₂ pn f ⟨true, true⟩ hu hpn'
        -- the page is mapped, and the loop goes on
        have hgo : ∀ (c₁ : Pgdir) (m₃ : Mem), MapsOne c c₁ m₂ m₃ pn ⟨.page f, ⟨true, true⟩⟩ true →
            mappages c (pn * pgsize) pgsize (.page f) ⟨true, true⟩ m₂ = .ok ((true, c₁), m₃) →
            wp (allocLoop oldsz newsz fuel ((pn + 1) * pgsize) c₁) (fun r m' =>
              AllocRun oldsz newsz c m pn (k + 1) (d.served m.refuse k (pn + 1) m₃.free.length m₃.calls
                (if (pn + 1) % nentries = 0 then (d.pde ((pn + 1) / nentries)).isSome else true)) r m')
              (fun _ => False) m₃ := by
          intro c₁ m₃ hmap hmaps
          rw [wp_of_ok hmaps, if_pos rfl, add_zero] at hpage
          have hframe := @mappages_one_wp c m₂ pn ⟨true, true⟩ (.page f) (by omega)
          rw [wp_of_ok hmaps] at hframe
          have hbal : (m₃.free : Multiset Frame) + c₁.frames = m.free + c.frames := by
            rw [hpage.1, hg.1, ← Multiset.cons_coe, ← Multiset.singleton_add]
            abel
          rw [← hmap.isSome_next hlater, ← hrefuse, show m₁.refuse = m₃.refuse from hmap.refuse.symm]
          refine wp_post (ih (d := d) (hfree₁.sublist hmap.free.sublist) hpage.2.2 hk' (by omega) (by omega)
            (fun q hq hq' => ?_) fun i hi => ?_) fun r m' h => ?_
          · rw [hmap.entry, if_neg (by omega)]
            exact hempty q (by omega) (by omega)
          · have hpi : pn / nentries < i := lt_of_le_of_lt (Nat.div_le_div_right (Nat.le_succ pn)) hi
            rw [hmap.table, hlater i hpi, decide_eq_false (by omega), Bool.false_and, Bool.or_false]
          · exact h.cons hfree hg hmap hframe.1.frame hbal ⟨hpn, by omega⟩
        rcases mappages_cases (m := m₂) (by omega) hnone with
          ⟨htab, c₁, hmap, hmaps⟩ | ⟨htab, hno, hmaps⟩ | ⟨htab, g, m₃, c₁, hg₂, hmap, hmaps⟩
        · rw [htab, if_pos rfl, wp_of_ok hmaps, ← hlen, ← hcalls]
          exact hgo c₁ m₂ hmap hmaps
        · have hgrants : grants m.refuse (m.free.length - 1) (m.calls + 1) = false := by
            rw [← hlen, ← hcalls, ← hrefuse]
            exact hno.grants
          rw [htab, if_neg (by simp), hgrants, if_neg (by simp), wp_of_ok hmaps]
          refine wp_post (ih (d := c) hfree₁ hu hk' (by omega) (by omega)
            (fun q hq hq' => hempty q (by omega) (by omega)) fun _ _ => rfl) fun r m' h => ?_
          refine h.lose ?_ hnone
          rw [hg.1]
          exact Nat.lt_succ_self _
        · have hgrants : grants m.refuse (m.free.length - 1) (m.calls + 1) = true := by
            rw [← hlen, ← hcalls, ← hrefuse]
            exact hg₂.grants
          have hlen₃ : m₃.free.length = m.free.length - 2 := by
            have : m₁.free.length = m₃.free.length + 1 := by
              rw [show m₁.free = g :: m₃.free from hg₂.1, List.length_cons]
            omega
          have hcalls₃ : m₃.calls = m.calls + 2 := by
            rw [hg₂.2.2]
            exact congrArg (· + 1) hcalls
          rw [htab, if_neg (by simp), hgrants, if_pos rfl, wp_of_ok hmaps, ← hlen₃, ← hcalls₃]
          exact hgo c₁ m₃ hmap hmaps
    · obtain rfl : k = 0 := by
        have := mt lt_pagesOf.mp hlt
        omega
      exact .done ..

/-! ### `allocuvm` -/

/-- Every page of the first `newsz` bytes is there: those of the first `oldsz` bytes as they were, and the
others for the user, and filled with zeros. -/
def Backed (d d' : Pgdir) (m' : Mem) (oldsz newsz : ℕ) : Prop :=
  ∀ q, q * pgsize < newsz → ∃ e, d'.entry q = some e ∧
    (q < pagesOf oldsz → d.entry q = some e) ∧
    (pagesOf oldsz ≤ q → e.perm.u = true ∧ ∃ f, e.pa = .page f ∧ m'.data f = Bytes.zero pgsize)

/-- **`allocuvm` has what it says**: with the result `newsz` every page is there, and with the result 0
the user part is as it was and every page that was taken is free again, or holds a page table.  This is
so exactly if every page table that the loop asks for gets a page. -/
theorem allocuvm_iff (d : Pgdir) (m : Mem) (oldsz newsz : ℕ) (hu : d.UserPages) (hfree : m.free.Nodup)
    (hmapped : ∀ q < 2 ^ 19, (d.entry q).isSome ↔ q < pagesOf oldsz) (hle : oldsz ≤ newsz)
    (hnew : newsz < kernbase) :
    (∃ r m', allocuvm d oldsz newsz m = .ok (r, m') ∧ (r.1 = newsz ∨ r.1 = 0) ∧
      (r.1 = newsz → Backed d r.2 m' oldsz newsz) ∧
      (r.1 = 0 → (∀ q < 2 ^ 19, r.2.entry q = d.entry q) ∧
        (m'.free : Multiset Frame) + r.2.tables = m.free + d.tables)) ↔
    d.served m.refuse (pagesOf newsz - pagesOf oldsz) (pagesOf oldsz) m.free.length m.calls
      (d.pde (pagesOf oldsz / nentries)).isSome = true := by
  have hpages := pagesOf_mono hle
  have hlast := pagesOf_le hnew
  have hwp : wp (allocuvm d oldsz newsz) (fun r m' => AllocRun oldsz newsz d m (pagesOf oldsz)
      (pagesOf newsz - pagesOf oldsz) (d.served m.refuse (pagesOf newsz - pagesOf oldsz) (pagesOf oldsz)
        m.free.length m.calls (d.pde (pagesOf oldsz / nentries)).isSome) r m') (fun _ => False) m := by
    rw [allocuvm, if_neg (by omega), if_neg (by omega), pgroundup_eq_pagesOf]
    refine allocLoop_served hfree hu hnew hle (by omega) ?_ le_rfl (fun q hq hq' => ?_) fun _ _ => rfl
    · simp only [pagesOf, pgsize]
      omega
    · by_contra hsome
      have := (hmapped q (by omega)).mp (Option.isSome_iff_ne_none.mpr hsome)
      omega
  obtain ⟨r, m', hrun, h⟩ := hwp.exists_ok fun _ => id
  generalize hs : d.served m.refuse (pagesOf newsz - pagesOf oldsz) (pagesOf oldsz) m.free.length m.calls
    (d.pde (pagesOf oldsz / nentries)).isSome = served at h
  constructor
  · rintro ⟨r₁, m₁, hrun₁, -, hback, hundo⟩
    rw [hrun, Except.ok.injEq, Prod.mk.injEq] at hrun₁
    obtain ⟨rfl, rfl⟩ := hrun₁
    by_contra hserved
    rw [Bool.not_eq_true] at hserved
    rcases h.result with hr | hr
    · obtain ⟨q, hq, hq', hnone⟩ := h.hole hserved hr
      obtain ⟨e, he, -⟩ := hback hr q (lt_pagesOf.mp (by omega))
      cases hnone.symm.trans he
    · obtain ⟨hentry, hbal⟩ := hundo hr
      have hlost := h.lost hserved
      have hcard := congrArg Multiset.card hbal
      rw [Pgdir.frames, Pgdir.frames, Pgdir.pages_congr hentry] at hlost
      simp only [Multiset.card_add, Multiset.card_singleton] at hlost hcard
      omega
  · intro hserved
    refine ⟨r, m', hrun, h.result, fun hr q hq => ?_, fun hr => ?_⟩
    · have hg := h.grown hserved hr
      by_cases hold : q < pagesOf oldsz
      · obtain ⟨e, he⟩ := Option.isSome_iff_exists.mp ((hmapped q (by omega)).mpr hold)
        exact ⟨e, (hg.same q (.inl hold)).trans he, fun _ => he, fun hge => by omega⟩
      · have hq' := lt_pagesOf.mpr hq
        obtain ⟨f, -, he, hdata⟩ := hg.page q (by omega) (by omega) id
        exact ⟨_, he, fun h => absurd h hold, fun _ => ⟨rfl, f, rfl, hdata⟩⟩
    · have hentry : ∀ q < 2 ^ 19, r.2.entry q = d.entry q := by
        intro q hq
        by_cases hz : newsz = 0
        · exact (h.grown hserved (hr.trans hz.symm)).same q (by
            have : pagesOf newsz = 0 := by rw [hz]; rfl
            omega)
        · rw [h.undone hserved (by omega) (.inl rfl)]
          split_ifs with hin
          · by_contra hsome
            have := (hmapped q hq).mp (Option.isSome_iff_ne_none.mpr (Ne.symm hsome))
            omega
          · rfl
      refine ⟨hentry, ?_⟩
      have hbal := h.balance hserved
      rw [Pgdir.frames, Pgdir.frames, h.frame, Pgdir.pages_congr hentry, add_assoc, add_assoc,
        add_left_comm (m'.free : Multiset Frame), add_left_comm (m.free : Multiset Frame), ← add_assoc (m'.free : Multiset Frame),
        ← add_assoc (m.free : Multiset Frame)] at hbal
      exact add_right_cancel (add_left_cancel hbal)

/-! ### A process without memory -/

/-- A directory without page tables. -/
def bareDir : Pgdir := ⟨⟨0x300, frame300⟩, fun _ => none⟩

/-- The pages `0x310` and `0x311` are free. -/
def twoFree : Mem := { fullMem with free := [⟨0x310, by decide⟩, ⟨0x311, by decide⟩] }

/-- The page `0x310` is free. -/
def oneFree : Mem := { fullMem with free := [⟨0x310, by decide⟩] }

lemma bareDir_userPages : bareDir.UserPages := fun _ _ _ he => absurd he (by simp [Pgdir.entry, bareDir])

lemma bareDir_mapped : ∀ q < 2 ^ 19, (bareDir.entry q).isSome ↔ q < pagesOf 0 := fun q _ => by
  rw [show pagesOf 0 = 0 from rfl]
  exact iff_of_false Bool.false_ne_true (Nat.not_lt_zero q)

/-- With two free pages, `allocuvm` gets a page and the table for it. -/
theorem allocuvm_iff_twoFree : ∃ r m', allocuvm bareDir 0 pgsize twoFree = .ok (r, m') ∧
    (r.1 = pgsize ∨ r.1 = 0) ∧ (r.1 = pgsize → Backed bareDir r.2 m' 0 pgsize) ∧
    (r.1 = 0 → (∀ q < 2 ^ 19, r.2.entry q = bareDir.entry q) ∧
      (m'.free : Multiset Frame) + r.2.tables = twoFree.free + bareDir.tables) :=
  (allocuvm_iff bareDir twoFree 0 pgsize bareDir_userPages (by decide)
    bareDir_mapped (by decide) (by decide)).mpr (by rfl)

/-- **With one free page, `allocuvm` returns `newsz` and page 0 is not there.** -/
theorem allocuvm_no_table : bareDir.UserPages ∧ oneFree.free.Nodup ∧
    (∀ q < 2 ^ 19, (bareDir.entry q).isSome ↔ q < pagesOf 0) ∧
    ∃ r m', allocuvm bareDir 0 pgsize oneFree = .ok (r, m') ∧ r.1 = pgsize ∧ r.2.entry 0 = none ∧ m'.free = [] :=
  ⟨bareDir_userPages, by decide, bareDir_mapped,
    (pgsize, bareDir), _, rfl, rfl, rfl, rfl⟩

end Col331
