import Col331.Vm.Sbrk

/-!
Which pages `deallocuvm` takes away.

The loop passes over a missing page table by adding the size of a whole table to the address.  If the
address is not at the beginning of a table, it comes to lie inside the next one.

* `deallocLoop_from`: from which page on everything is taken away.
* `Pgdir.Missed`: a page before it that is mapped.
* `deallocuvm_iff`: **all pages of the range are given back** unless there is such a page; `freevm`
  gives back everything.
-/

namespace Col331

open Prog

variable {d d' : Pgdir} {m m' : Mem} {pn : ℕ}

/-- The user pages of `d` from page `pn` on below `oldsz`. -/
def Pgdir.pagesIn (d : Pgdir) (pn oldsz : ℕ) : Multiset Frame :=
  Pgdir.frameSum (2 ^ 19) fun q => if pn ≤ q ∧ q * pgsize < oldsz then Pgdir.pageOf (d.entry q) else 0

/-- The pages from `pn` on below `oldsz` are gone, each page that was mapped there is free once more,
and everything else is mapped as before. -/
structure Cleared (d d' : Pgdir) (m m' : Mem) (pn oldsz : ℕ) : Prop where
  entry : ∀ q, d'.entry q = if pn ≤ q ∧ q * pgsize < oldsz then none else d.entry q
  free : (m'.free : Multiset Frame) = m.free + d.pagesIn pn oldsz

lemma Pgdir.pages_eq_pagesIn {oldsz : ℕ}
    (h : ∀ q, d'.entry q = if pn ≤ q ∧ q * pgsize < oldsz then none else d.entry q) :
    d.pages = d'.pages + d.pagesIn pn oldsz := by
  rw [pages, pages, pagesIn, frameSum, frameSum, frameSum, ← Finset.sum_add_distrib]
  refine Finset.sum_congr rfl fun q _ => ?_
  rw [h]
  split_ifs
  · rw [pageOf, zero_add]
  · rw [add_zero]

/-- **`deallocuvm`**, by its loop, takes away everything from some page on: that page is as far into its
table as the first one, and all tables before its own are missing. -/
lemma deallocLoop_from {oldsz fuel : ℕ} (hu : d.UserPages) (hold : oldsz ≤ kernbase)
    (hfuel : oldsz ≤ (pn + fuel) * pgsize) :
    wp (deallocLoop oldsz fuel (pn * pgsize) d) (fun d' m' => ∃ p, pn ≤ p ∧
      p % nentries = pn % nentries ∧ (∀ i, pn / nentries ≤ i → i < p / nentries → d.pde i = none) ∧
      ((d.pde (p / nentries)).isSome ∨ pn % nentries = 0 ∨ oldsz ≤ p * pgsize) ∧
      Shrinks d d' m m' p oldsz ∧ ∀ q, p ≤ q → q * pgsize < oldsz → d'.entry q = none)
      (fun _ => False) m := by
  induction fuel generalizing pn with
  | zero =>
    refine ⟨pn, le_rfl, rfl, fun i _ _ => by omega, .inr (.inr ?_), .refl d m _ _, fun q hq hlt => ?_⟩
    · simpa using hfuel
    · simp only [pgsize] at hfuel hlt
      omega
  | succ fuel ih =>
    by_cases hs : (d.pde (pn / nentries)).isSome ∨ pn % nentries = 0
    · refine wp_post (deallocLoop_wp hu hold hfuel) fun d' m' h => ?_
      refine ⟨pn, le_rfl, rfl, fun i _ _ => by omega, hs.imp_right .inl, h.1, h.2 hs⟩
    · rw [not_or] at hs
      rw [deallocLoop]
      by_cases hlt : pn * pgsize < oldsz
      · have hpn : pn < 2 ^ 20 := by
          simp only [pgsize, kernbase] at hlt hold
          omega
        have hnext : pn * pgsize + (nentries - 1) * pgsize + pgsize = (pn + nentries) * pgsize := by
          simp only [pgsize, nentries]
          ring
        rw [if_pos hlt, if_neg (by rw [Pgdir.hasTable_eq hpn]; exact hs.1), hnext]
        have hfuel' : oldsz ≤ (pn + nentries + fuel) * pgsize :=
          hfuel.trans (Nat.mul_le_mul_right _ (by simp only [nentries]; omega))
        refine wp_post (ih hfuel') fun d' m' h => ?_
        obtain ⟨p, hle, hmod, hnone, hor, hshrink, hclear⟩ := h
        have hmod' : (pn + nentries) % nentries = pn % nentries := Nat.add_mod_right ..
        have hdiv : (pn + nentries) / nentries = pn / nentries + 1 := Nat.add_div_right _ (by decide)
        refine ⟨p, by omega, hmod.trans hmod', fun i hi hip => ?_, hmod' ▸ hor, hshrink, hclear⟩
        by_cases hi' : i = pn / nentries
        · rw [hi']
          simpa using hs.1
        · exact hnone i (by omega) hip
      · rw [if_neg hlt]
        refine ⟨pn, le_rfl, rfl, fun i _ _ => by omega, .inr (.inr (Nat.not_lt.mp hlt)), .refl d m _ _,
          fun q hq hq' => ?_⟩
        have := Nat.mul_le_mul_right pgsize hq
        omega

/-- A page that the loop of `deallocuvm` from page `pn` on passes over although it is mapped: the table
of `pn` is missing, and in the first table after it a page below `oldsz` is mapped that is nearer to the
beginning of its table than `pn`. -/
def Pgdir.Missed (d : Pgdir) (pn oldsz : ℕ) : Prop :=
  ∃ t > pn / nentries, (∀ i, pn / nentries ≤ i → i < t → d.pde i = none) ∧
    ∃ q, t * nentries ≤ q ∧ q < t * nentries + pn % nentries ∧ q * pgsize < oldsz ∧ (d.entry q).isSome

lemma Pgdir.entry_of_pde {q : ℕ} (h : d.pde (q / nentries) = none) : d.entry q = none := by
  rw [Pgdir.entry, h]
  rfl

/-- The pages that are not taken away are the missed ones. -/
lemma Pgdir.missed_iff {oldsz p : ℕ} (hle : pn ≤ p) (hmod : p % nentries = pn % nentries)
    (hnone : ∀ i, pn / nentries ≤ i → i < p / nentries → d.pde i = none)
    (hor : (d.pde (p / nentries)).isSome ∨ pn % nentries = 0 ∨ oldsz ≤ p * pgsize) :
    d.Missed pn oldsz ↔ ∃ q, pn ≤ q ∧ q < p ∧ q * pgsize < oldsz ∧ (d.entry q).isSome := by
  have hp := Nat.div_add_mod p nentries
  have hpn := Nat.div_add_mod pn nentries
  constructor
  · rintro ⟨t, ht, htnone, q, hq, hq', hlt, hsome⟩
    have htq : q / nentries = t := by
      have := Nat.mod_lt pn (show 0 < nentries by decide)
      simp only [nentries] at hq hq' this ⊢
      omega
    have hpt : p / nentries = t := by
      rcases Nat.lt_trichotomy (p / nentries) t with h | h | h
      · -- the loop has found a table before, or has ended
        rcases hor with hor | hor | hor
        · rw [htnone _ (Nat.div_le_div_right hle) h] at hor
          simp at hor
        · omega
        · have hpq : p ≤ q := by
            have := Nat.div_lt_iff_lt_mul (show 0 < nentries by decide) |>.mp h
            omega
          have := Nat.mul_le_mul_right pgsize hpq
          omega
      · exact h
      · rw [Pgdir.entry_of_pde (htq ▸ hnone t ht.le h)] at hsome
        simp at hsome
    refine ⟨q, ?_, ?_, hlt, hsome⟩
    · simp only [nentries] at hpn ht hq
      omega
    · rw [hmod, hpt, Nat.mul_comm] at hp
      omega
  · rintro ⟨q, hq, hqp, hlt, hsome⟩
    have hdiv : q / nentries = p / nentries := by
      refine le_antisymm (Nat.div_le_div_right hqp.le) (Nat.not_lt.mp fun h => ?_)
      rw [Pgdir.entry_of_pde (hnone _ (Nat.div_le_div_right hq) h)] at hsome
      simp at hsome
    have hqdiv := Nat.div_add_mod q nentries
    rw [hmod] at hp
    rw [hdiv] at hqdiv
    refine ⟨p / nentries, ?_, hnone, q, ?_, ?_, hlt, hsome⟩
    · refine lt_of_le_of_ne (Nat.div_le_div_right hle) fun heq => ?_
      rw [← heq] at hp
      omega
    · rw [Nat.mul_comm]
      omega
    · rw [Nat.mul_comm]
      omega

/-- `deallocuvm` takes away everything from page `p` on. -/
structure ClearedFrom (d d' : Pgdir) (m m' : Mem) (pn oldsz p : ℕ) : Prop where
  le : pn ≤ p
  shrinks : Shrinks d d' m m' p oldsz
  clear : ∀ q, p ≤ q → q * pgsize < oldsz → d'.entry q = none
  missed : d.Missed pn oldsz ↔ ∃ q, pn ≤ q ∧ q < p ∧ q * pgsize < oldsz ∧ (d.entry q).isSome

lemma deallocuvm_from {oldsz newsz : ℕ} (hu : d.UserPages) (hle : newsz ≤ oldsz) (hold : oldsz ≤ kernbase) :
    wp (deallocuvm d oldsz newsz)
      (fun r m' => r.1 = newsz ∧ ∃ p, ClearedFrom d r.2 m m' (pagesOf newsz) oldsz p) (fun _ => False) m := by
  rw [deallocuvm]
  split_ifs with heq
  · obtain rfl : oldsz = newsz := by omega
    have hbound : oldsz ≤ pagesOf oldsz * pgsize := by
      simp only [pagesOf, pgsize]
      omega
    refine ⟨rfl, pagesOf oldsz, le_rfl, .refl d m _ _, fun q hq hlt => ?_, ?_⟩
    · have := Nat.mul_le_mul_right pgsize hq
      omega
    · exact Pgdir.missed_iff le_rfl rfl (fun i _ _ => by omega) (.inr (.inr hbound))
  · rw [pgroundup_eq_pagesOf]
    simp only [bind_pure_comp, wp_map]
    refine wp_post (deallocLoop_from hu hold ?_) fun d' m' h => ?_
    · simp only [pagesOf, pgsize]
      omega
    · obtain ⟨p, hp, hmod, hnone, hor, hshrink, hclear⟩ := h
      exact ⟨trivial, p, hp, hshrink, hclear, Pgdir.missed_iff hp hmod hnone hor⟩

lemma ClearedFrom.cleared {oldsz p : ℕ} (h : ClearedFrom d d' m m' pn oldsz p) (hno : ¬ d.Missed pn oldsz) :
    Cleared d d' m m' pn oldsz := by
  have hentry : ∀ q, d'.entry q = if pn ≤ q ∧ q * pgsize < oldsz then none else d.entry q := by
    intro q
    split_ifs with hq
    · by_cases hqp : p ≤ q
      · exact h.clear q hqp hq.2
      · have hnone : d.entry q = none := by
          by_contra hsome
          exact hno (h.missed.mpr ⟨q, hq.1, by omega, hq.2, Option.isSome_iff_ne_none.mpr hsome⟩)
        rcases h.shrinks.entry q with h' | ⟨h', -⟩
        · rw [h', hnone]
        · exact h'
    · rcases h.shrinks.entry q with h' | ⟨-, hpq, hlt⟩
      · exact h'
      · exact absurd ⟨h.le.trans hpq, hlt⟩ hq
  refine ⟨hentry, ?_⟩
  have hpages := h.shrinks.pages
  rw [Pgdir.pages_eq_pagesIn hentry, add_comm d'.pages, ← add_assoc] at hpages
  exact add_right_cancel hpages

lemma ClearedFrom.not_missed {oldsz p : ℕ} (h : ClearedFrom d d' m m' pn oldsz p)
    (hc : Cleared d d' m m' pn oldsz) : ¬ d.Missed pn oldsz := by
  intro hmiss
  obtain ⟨q, hq, hqp, hlt, hsome⟩ := h.missed.mp hmiss
  have hkept : d'.entry q = d.entry q := (h.shrinks.entry q).resolve_right fun hn => by omega
  rw [← hkept, hc.entry, if_pos ⟨hq, hlt⟩] at hsome
  simp at hsome

/-- **`deallocuvm` gives back the whole range** exactly if it passes over no page that is mapped, and
`freevm` gives back every user page, every page table and the directory. -/
theorem deallocuvm_iff (d : Pgdir) (m : Mem) (oldsz newsz : ℕ) (hu : d.UserPages) (hle : newsz ≤ oldsz)
    (hold : oldsz ≤ kernbase) :
    ((∃ r m', deallocuvm d oldsz newsz m = .ok (r, m') ∧ r.1 = newsz ∧
        Cleared d r.2 m m' (pagesOf newsz) oldsz) ∧
      ∃ m', freevm d m = .ok ((), m') ∧ (m'.free : Multiset Frame) = m.free + d.frames) ↔
    ¬ d.Missed (pagesOf newsz) oldsz := by
  obtain ⟨r, m', hrun, hsz, p, hp⟩ := (deallocuvm_from (m := m) hu hle hold).exists_ok fun _ => id
  constructor
  · rintro ⟨⟨r₁, m₁, hrun₁, -, hc⟩, -⟩
    rw [hrun, Except.ok.injEq, Prod.mk.injEq] at hrun₁
    obtain ⟨rfl, rfl⟩ := hrun₁
    exact hp.not_missed hc
  · intro hno
    obtain ⟨u, m₁, hfree, hfrees, -⟩ := (freevm_wp (m := m) hu).exists_ok fun _ => id
    exact ⟨⟨r, m', hrun, hsz, hp.cleared hno⟩, m₁, hfree, hfrees⟩

/-! ### A hole -/

/-- The directory in page `0x300` with one page table, in page `0x301`, for the second 4 megabytes of
the address space, and one user page in it, `0x302`, at the address `0x400000`. -/
def holeDir : Pgdir where
  frame := ⟨0x300, frame300⟩
  pde i := if i = 1 then
    some ⟨⟨0x301, frame301⟩, fun j => if j = 0 then some ⟨.page ⟨0x302, frame302⟩, ⟨true, true⟩⟩ else none⟩
  else none

/-- No page is free. -/
def fullMem : Mem where
  free := []
  data _ := Bytes.zero pgsize
  refuse _ := false
  calls := 0
  starved := false
  kdata := ⟨0x200, frame200⟩

lemma holeDir_userPages : holeDir.UserPages := by
  intro q _ e he
  rw [Pgdir.entry, holeDir] at he
  dsimp only at he
  split_ifs at he with hi
  · dsimp only [Option.bind_some] at he
    split_ifs at he
    exact ⟨_, by rw [← Option.some.inj he]⟩
  · simp at he

/-- From table to table, everything is given back. -/
theorem deallocuvm_iff_aligned :
    (∃ r m', deallocuvm holeDir 0x401000 0 fullMem = .ok (r, m') ∧ r.1 = 0 ∧
        Cleared holeDir r.2 fullMem m' (pagesOf 0) 0x401000) ∧
      ∃ m', freevm holeDir fullMem = .ok ((), m') ∧ (m'.free : Multiset Frame) = fullMem.free + holeDir.frames := by
  refine (deallocuvm_iff holeDir fullMem 0x401000 0 holeDir_userPages (by decide) (by decide)).mpr ?_
  rintro ⟨t, -, -, q, hq, hq', -⟩
  have : pagesOf 0 % nentries = 0 := by decide
  omega

/-- **From an address inside a missing table, the page at `0x400000` stays mapped.** -/
theorem deallocuvm_skips : holeDir.UserPages ∧ 0x401000 ≤ kernbase ∧
    ∃ r m', deallocuvm holeDir 0x401000 0x1000 fullMem = .ok (r, m') ∧
      (pagesOf 0x1000 ≤ 0x400 ∧ 0x400 * pgsize < 0x401000) ∧ (r.2.entry 0x400).isSome ∧ m'.free = [] :=
  ⟨holeDir_userPages, by decide, (0x1000, holeDir), fullMem, rfl, by decide, rfl, rfl⟩

end Col331
