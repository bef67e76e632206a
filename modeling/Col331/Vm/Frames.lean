import Col331.Vm.Paging

/-!
Which pages a page directory holds, and that none gets lost when it is extended.

* `Pgdir.entry_setPte`, `Pgdir.entry_addTable`: what changes of the entries.
* `Pgdir.tables`, `Pgdir.pages`, `Pgdir.frames`: the pages of the page tables, the user pages, and all
  pages of a directory, each as often as it is there.
* `walkpgdir_cases`, `mapLoop_wp`, `mappages_wp`: what `walkpgdir` and `mappages` do.
-/

namespace Col331

open Function Prog

/-! ### Entries -/

lemma pdx_mul {pn : ℕ} (h : pn < 2 ^ 20) : pdx (pn * pgsize) = pn / nentries := by
  simp only [pdx, pgsize, nentries]
  omega

lemma ptx_mul (pn : ℕ) : ptx (pn * pgsize) = pn % nentries := by
  simp only [ptx, pgsize, nentries]
  omega

namespace Pgdir

variable {d : Pgdir} {pn q : ℕ} {f : Frame} {e : Option Pte}

lemma pte_eq (h : pn < 2 ^ 20) : d.pte (pn * pgsize) = d.entry pn := by
  rw [pte, pdx_mul h, ptx_mul, entry]

lemma hasTable_eq (h : pn < 2 ^ 20) : d.hasTable (pn * pgsize) = (d.pde (pn / nentries)).isSome := by
  rw [hasTable, pdx_mul h]

/-- A page with an entry has a table. -/
lemma hasTable_of_entry (h : pn < 2 ^ 20) (he : (d.entry pn).isSome) : d.hasTable (pn * pgsize) := by
  rw [hasTable_eq h]
  rw [entry] at he
  cases hp : d.pde (pn / nentries) with
  | none => simp [hp] at he
  | some t => rfl

lemma entry_setPte (h : pn < 2 ^ 20) (ht : d.hasTable (pn * pgsize)) (q : ℕ) :
    (d.setPte (pn * pgsize) e).entry q = if q = pn then e else d.entry q := by
  rw [hasTable_eq h] at ht
  obtain ⟨t, ht⟩ := Option.isSome_iff_exists.mp ht
  rw [entry, setPte, pdx_mul h, ptx_mul]
  by_cases hq : q / nentries = pn / nentries
  · rw [hq, ht]
    simp only [update_self, Option.map_some, Option.bind_some]
    by_cases hm : q % nentries = pn % nentries
    · have : q = pn := by
        have h₁ := Nat.div_add_mod q nentries
        have h₂ := Nat.div_add_mod pn nentries
        rw [hq, hm] at h₁
        omega
      rw [if_pos this, hm, update_self]
    · have : q ≠ pn := by
        rintro rfl
        exact hm rfl
      rw [if_neg this, update_of_ne hm, entry, hq, ht]
      rfl
  · have : q ≠ pn := by
      rintro rfl
      exact hq rfl
    rw [if_neg this, entry]
    simp only [update_of_ne hq]

/-- A new table has no entries. -/
lemma entry_addTable (h : pn < 2 ^ 20) (ht : d.hasTable (pn * pgsize) = false) (q : ℕ) :
    (d.addTable (pn * pgsize) f).entry q = d.entry q := by
  rw [hasTable_eq h, Option.isSome_eq_false_iff, Option.isNone_iff_eq_none] at ht
  rw [entry, entry, addTable, pdx_mul h]
  by_cases hq : q / nentries = pn / nentries
  · simp [hq, ht]
  · simp [hq]

lemma hasTable_addTable (va : ℕ) : (d.addTable va f).hasTable va = true := by
  simp [hasTable, addTable]

@[simp] lemma setPte_isSome (va i : ℕ) : ((d.setPte va e).pde i).isSome = (d.pde i).isSome := by
  rw [setPte]
  by_cases hi : i = pdx va
  · subst hi
    simp
  · simp [hi]

/-! ### Pages -/

/-- The page of an entry, if it is one from `kalloc`. -/
def pageOf : Option Pte → Multiset Frame
  | some ⟨.page f, _⟩ => {f}
  | some ⟨.raw _, _⟩ | none => 0

/-- The page of a table. -/
def tableOf : Option PageTable → Multiset Frame
  | some t => {t.frame}
  | none => 0

/-- The pages of the first `n` of a family. -/
@[irreducible]
def frameSum (n : ℕ) (g : ℕ → Multiset Frame) : Multiset Frame := ∑ i ∈ Finset.range n, g i

/-- The pages of the page tables. -/
def tables (d : Pgdir) : Multiset Frame := frameSum nentries fun i => tableOf (d.pde i)

/-- The user pages. -/
def pages (d : Pgdir) : Multiset Frame := frameSum (2 ^ 19) fun q => pageOf (d.entry q)

/-- All pages of the directory. -/
def frames (d : Pgdir) : Multiset Frame := {d.frame} + d.tables + d.pages

/-- One summand changes. -/
lemma frameSum_change {n : ℕ} (g g' : ℕ → Multiset Frame) {i : ℕ} (hi : i < n)
    (h : ∀ j, j ≠ i → g' j = g j) : frameSum n g' + g i = frameSum n g + g' i := by
  have hi : i ∈ Finset.range n := Finset.mem_range.mpr hi
  have hrest : ∑ j ∈ (Finset.range n).erase i, g' j = ∑ j ∈ (Finset.range n).erase i, g j :=
    Finset.sum_congr rfl fun j hj => h j (Finset.ne_of_mem_erase hj)
  rw [frameSum, frameSum, ← Finset.add_sum_erase _ g' hi, ← Finset.add_sum_erase _ g hi, hrest]
  abel

lemma frameSum_congr {n : ℕ} {g g' : ℕ → Multiset Frame} (h : ∀ i < n, g' i = g i) :
    frameSum n g' = frameSum n g := by
  rw [frameSum, frameSum]
  exact Finset.sum_congr rfl fun i hi => h i (Finset.mem_range.mp hi)

lemma frameSum_eq_zero {n : ℕ} {g : ℕ → Multiset Frame} (h : ∀ i < n, g i = 0) : frameSum n g = 0 := by
  rw [frameSum]
  exact Finset.sum_eq_zero fun i hi => h i (Finset.mem_range.mp hi)

lemma tables_addTable (h : pn < 2 ^ 20) (ht : d.hasTable (pn * pgsize) = false) :
    (d.addTable (pn * pgsize) f).tables = d.tables + {f} := by
  rw [hasTable_eq h, Option.isSome_eq_false_iff, Option.isNone_iff_eq_none] at ht
  have hi : pn / nentries < nentries := by
    simp only [nentries]
    omega
  have hsum := frameSum_change (fun i => tableOf (d.pde i))
    (fun i => tableOf ((d.addTable (pn * pgsize) f).pde i)) hi fun j hj => by
      simp [addTable, pdx_mul h, hj]
  rw [tables, tables]
  simpa [ht, tableOf, addTable, pdx_mul h] using hsum

lemma tables_setPte (va : ℕ) : (d.setPte va e).tables = d.tables := by
  refine frameSum_congr fun i _ => ?_
  rw [setPte]
  by_cases hi : i = pdx va
  · subst hi
    cases d.pde (pdx va) <;> simp [tableOf]
  · simp [hi]

lemma pages_congr {d' : Pgdir} (h : ∀ q < 2 ^ 19, d'.entry q = d.entry q) : d'.pages = d.pages :=
  frameSum_congr fun q hq => by rw [h q hq]

/-- One entry changes. -/
lemma pages_change {d' : Pgdir} (hpn : pn < 2 ^ 19)
    (h : ∀ q, d'.entry q = if q = pn then e else d.entry q) :
    d'.pages + pageOf (d.entry pn) = d.pages + pageOf e := by
  have hsum := frameSum_change (fun q => pageOf (d.entry q)) (fun q => pageOf (d'.entry q))
    hpn fun j hj => by rw [h, if_neg hj]
  have he : d'.entry pn = e := by rw [h, if_pos rfl]
  rw [he] at hsum
  exact hsum

end Pgdir

/-! ### `kalloc` and `walkpgdir` -/

/-- `kalloc` finds nothing. -/
def Mem.NoPage (m : Mem) : Prop := m.free = [] ∨ m.refuse m.calls = true

/-- `kalloc` returns the page `f`. -/
def Mem.Gets (m : Mem) (f : Frame) (m' : Mem) : Prop :=
  m.free = f :: m'.free ∧ m.refuse m.calls = false ∧ m' = { m with free := m'.free, calls := m.calls + 1 }

lemma kalloc_cases (m : Mem) :
    m.NoPage ∧ kalloc m = .ok (none, { m with calls := m.calls + 1 }) ∨
    ∃ f m', m.Gets f m' ∧ kalloc m = .ok (some f, m') := by
  cases hf : m.free with
  | nil => exact .inl ⟨.inl hf, by simp only [kalloc, hf]⟩
  | cons f free =>
    by_cases hr : m.refuse m.calls = true
    · exact .inl ⟨.inr hr, by simp only [kalloc, hf, hr, if_pos]⟩
    · rw [Bool.not_eq_true] at hr
      exact .inr ⟨f, { m with free, calls := m.calls + 1 }, ⟨hf, hr, rfl⟩, by simp [kalloc, hf, hr]⟩

lemma kfree_run (f : Frame) (m : Mem) : kfree f m =
    .ok ((), { m with data := update m.data f fun _ => 1, free := f :: m.free }) := rfl

lemma walkpgdir_cases (d : Pgdir) (va : ℕ) (m : Mem) :
    d.hasTable va = true ∧ walkpgdir d va m = .ok (some d, m) ∨
    d.hasTable va = false ∧ m.NoPage ∧
      walkpgdir d va m = .ok (none, { m with calls := m.calls + 1, starved := true }) ∨
    d.hasTable va = false ∧ ∃ f m', m.Gets f m' ∧ walkpgdir d va m = .ok (some (d.addTable va f), m') := by
  cases ht : d.hasTable va with
  | true => exact .inl ⟨rfl, by simp [walkpgdir, ht]⟩
  | false =>
    refine .inr ?_
    rcases kalloc_cases m with ⟨hn, hk⟩ | ⟨f, m', hg, hk⟩
    · refine .inl ⟨rfl, hn, ?_⟩
      rw [walkpgdir, ht, if_neg (by simp), bind_ok hk]
      rfl
    · exact .inr ⟨rfl, f, m', hg, by simp [walkpgdir, ht, bind_run, hk]⟩

/-! ### `mappages` -/

/-- What is kept while the directory `d` is extended to `d'`, with new tables for the pages `r` only. -/
structure Extends (d d' : Pgdir) (m m' : Mem) (r : ℕ → Prop) : Prop where
  frame : d'.frame = d.frame
  tables : (m'.free : Multiset Frame) + d'.tables = m.free + d.tables
  data : m'.data = m.data
  refuse : m'.refuse = m.refuse
  kdata : m'.kdata = m.kdata
  mono : ∀ i, (d.pde i).isSome → (d'.pde i).isSome
  only : ∀ i, (d'.pde i).isSome → (d.pde i).isSome ∨ ∃ q, r q ∧ i = q / nentries

lemma Extends.refl (d : Pgdir) (m : Mem) (r : ℕ → Prop) : Extends d d m m r :=
  ⟨rfl, rfl, rfl, rfl, rfl, fun _ => id, fun _ => .inl⟩

lemma Extends.trans {d₁ d₂ d₃ : Pgdir} {m₁ m₂ m₃ : Mem} {r : ℕ → Prop} (h : Extends d₁ d₂ m₁ m₂ r)
    (h' : Extends d₂ d₃ m₂ m₃ r) : Extends d₁ d₃ m₁ m₃ r := by
  refine ⟨h'.frame.trans h.frame, h'.tables.trans h.tables, h'.data.trans h.data,
    h'.refuse.trans h.refuse, h'.kdata.trans h.kdata, fun i hi => h'.mono i (h.mono i hi), fun i hi => ?_⟩
  rcases h'.only i hi with hi | hi
  · exact h.only i hi
  · exact .inr hi

lemma Extends.weaken {d d' : Pgdir} {m m' : Mem} {r r' : ℕ → Prop} (h : Extends d d' m m' r)
    (hr : ∀ q, r q → r' q) : Extends d d' m m' r' :=
  { h with only := fun i hi => (h.only i hi).imp_right fun ⟨q, hq, he⟩ => ⟨q, hr q hq, he⟩ }

variable {d : Pgdir} {m : Mem} {pn : ℕ} {perm : Perm}

lemma Extends.addTable {m' : Mem} {f : Frame} (hpn : pn < 2 ^ 20)
    (ht : d.hasTable (pn * pgsize) = false) (hg : m.Gets f m') :
    Extends d (d.addTable (pn * pgsize) f) m m' (· = pn) := by
  obtain ⟨hfree, -, hm⟩ := hg
  refine ⟨rfl, ?_, by rw [hm], by rw [hm], by rw [hm], fun i hi => ?_, fun i hi => ?_⟩
  · rw [Pgdir.tables_addTable hpn ht, hfree, ← Multiset.cons_coe, ← Multiset.singleton_add]
    abel
  · by_cases he : i = pdx (pn * pgsize)
    · simp [Pgdir.addTable, he]
    · simpa [Pgdir.addTable, he] using hi
  · by_cases he : i = pdx (pn * pgsize)
    · exact .inr ⟨pn, rfl, he.trans (pdx_mul hpn)⟩
    · exact .inl (by simpa [Pgdir.addTable, he] using hi)

lemma Extends.setPte (e : Option Pte) (va : ℕ) (r : ℕ → Prop) : Extends d (d.setPte va e) m m r :=
  ⟨rfl, by rw [Pgdir.tables_setPte], rfl, rfl, rfl, fun i hi => by simpa using hi,
    fun i hi => .inl (by simpa using hi)⟩

/-- The directory that `walkpgdir` returns has a table for the page, and the same entries. -/
lemma walkpgdir_wp (hpn : pn < 2 ^ 20) : wp (walkpgdir d (pn * pgsize)) (fun r m' =>
    match r with
    | none => Extends d d m m' (· = pn) ∧ m'.starved = true
    | some d' => Extends d d' m m' (· = pn) ∧ m'.starved = m.starved ∧ d'.hasTable (pn * pgsize) = true ∧
        ∀ q, d'.entry q = d.entry q) (fun _ => False) m := by
  rcases walkpgdir_cases d (pn * pgsize) m with ⟨ht, hw⟩ | ⟨ht, -, hw⟩ | ⟨ht, f, m', hg, hw⟩
  · rw [wp_of_ok hw]
    exact ⟨.refl d m _, rfl, ht, fun _ => rfl⟩
  · rw [wp_of_ok hw]
    exact ⟨⟨rfl, rfl, rfl, rfl, rfl, fun _ => id, fun _ => .inl⟩, rfl⟩
  · rw [wp_of_ok hw]
    exact ⟨.addTable hpn ht hg, by rw [hg.2.2], Pgdir.hasTable_addTable _,
      fun q => Pgdir.entry_addTable hpn ht q⟩

/-- **`mappages`**, by its loop: the first `k` of the `n` pages are mapped, and all of them unless there
is no page for a table.  It panics only if a page was mapped before. -/
lemma mapLoop_wp {n : ℕ} {pa : Phys} (hpn : pn + n ≤ 2 ^ 20) :
    wp (mapLoop perm n (pn * pgsize) pa d) (fun r m' =>
      Extends d r.2 m m' (fun q => pn ≤ q ∧ q < pn + n) ∧ m'.starved = (m.starved || !r.1) ∧ ∃ k ≤ n, (r.1 = true ↔ k = n) ∧
        (∀ q, pn ≤ q → q < pn + k → d.entry q = none) ∧ ∀ q, r.2.entry q =
          if pn ≤ q ∧ q < pn + k then some ⟨Phys.next^[q - pn] pa, perm⟩ else d.entry q)
      (fun _ => ∃ k < n, (d.entry (pn + k)).isSome) m := by
  induction n generalizing pn pa d m with
  | zero =>
    refine ⟨.refl d m _, by simp, 0, le_refl 0, by simp, fun q _ _ => by omega, fun q => ?_⟩
    rw [if_neg (by omega)]
  | succ n ih =>
    rw [mapLoop, wp_bind]
    refine wp_mono (walkpgdir_wp (by omega)) (fun r m₁ h₁ => ?_) fun _ => False.elim
    cases r with
    | none =>
      refine ⟨h₁.1.weaken (fun q hq => by omega), by simp [h₁.2], 0, by omega, by simp,
        fun q _ _ => by omega, fun q => ?_⟩
      rw [if_neg (by omega)]
    | some d₁ =>
      obtain ⟨hext, hst, ht, hentry⟩ := h₁
      dsimp only
      split_ifs with hsome
      · rw [Pgdir.pte_eq (by omega), hentry] at hsome
        exact ⟨0, by omega, hsome⟩
      · have hset := Pgdir.entry_setPte (e := some ⟨pa, perm⟩) (by omega : pn < 2 ^ 20) ht
        have hnext : pn * pgsize + pgsize = (pn + 1) * pgsize := by ring
        rw [hnext]
        refine wp_mono (ih (by omega)) ?_ ?_
        · rintro ⟨ok, d₂⟩ m₂ ⟨hext₂, hst₂, k, hk, hok, hnone, hentry₂⟩
          refine ⟨(hext.weaken fun q hq => by omega).trans ((Extends.setPte _ _ _).trans
            (hext₂.weaken fun q hq => by omega)), by rw [hst₂, hst], k + 1, by omega,
            hok.trans (by simp), fun q hq hq' => ?_, fun q => ?_⟩
          · by_cases hqp : q = pn
            · subst hqp
              rwa [Pgdir.pte_eq (by omega), hentry, Bool.not_eq_true, Option.isSome_eq_false_iff,
                Option.isNone_iff_eq_none] at hsome
            · have := hnone q (by omega) (by omega)
              rwa [hset, if_neg hqp, hentry] at this
          rw [hentry₂, hset, hentry]
          by_cases hq : q = pn
          · subst hq
            rw [if_neg (by omega), if_pos rfl, if_pos (by omega), Nat.sub_self]
            rfl
          · rw [if_neg hq]
            by_cases hin : pn + 1 ≤ q ∧ q < pn + 1 + k
            · rw [if_pos hin, if_pos (by omega), show q - pn = (q - (pn + 1)) + 1 by omega,
                iterate_succ_apply]
            · rw [if_neg hin, if_neg (by omega)]
        · rintro _ ⟨k, hk, hsome'⟩
          rw [hset, if_neg (by omega), hentry] at hsome'
          exact ⟨k + 1, by omega, by rwa [show pn + (k + 1) = pn + 1 + k by ring]⟩

/-- `mappages` of `n` pages from page `pn` on. -/
lemma mappages_eq {n : ℕ} {pa : Phys} (hn : 0 < n) (hpn : pn + n ≤ 2 ^ 20) :
    mappages d (pn * pgsize) (n * pgsize) pa perm = mapLoop perm n (pn * pgsize) pa d := by
  have hlast : (pn * pgsize + n * pgsize - 1) % 2 ^ 32 / pgsize = pn + n - 1 := by
    simp only [pgsize]
    omega
  have hdiv : pn * pgsize / pgsize = pn := by simp [pgsize]
  have hround : pgrounddown (pn * pgsize) = pn * pgsize := by rw [pgrounddown, hdiv]
  have hrounds : (pn + n - 1 + 2 ^ 20 - pn) % 2 ^ 20 + 1 = n := by omega
  rw [mappages, hlast, hdiv, hround, hrounds]

/-- `mappages` of one page. -/
lemma mappages_one_wp {pa : Phys} (hpn : pn < 2 ^ 20) :
    wp (mappages d (pn * pgsize) pgsize pa perm) (fun r m' => Extends d r.2 m m' (· = pn) ∧
      m'.starved = (m.starved || !r.1) ∧
        (r.1 = true → d.entry pn = none) ∧
        ∀ q, r.2.entry q = if q = pn ∧ r.1 = true then some ⟨pa, perm⟩ else d.entry q)
      (fun _ => (d.entry pn).isSome) m := by
  have hone : mappages d (pn * pgsize) (1 * pgsize) pa perm = _ := mappages_eq one_pos (by omega)
  rw [Nat.one_mul] at hone
  rw [hone]
  refine wp_mono (mapLoop_wp (by omega)) ?_ ?_
  · rintro ⟨ok, d'⟩ m' ⟨hext, hst, k, hk, hok, hnone, hentry⟩
    refine ⟨hext.weaken fun q hq => by omega, hst, fun htrue => ?_, fun q => ?_⟩
    · exact hnone pn le_rfl (by rw [hok.1 htrue]; omega)
    rw [hentry]
    cases ok with
    | false =>
      have hk0 : k = 0 := by
        have : k ≠ 1 := fun h => Bool.false_ne_true (hok.2 h)
        omega
      rw [if_neg (by omega), if_neg (by simp)]
    | true =>
      rw [hok.1 rfl]
      by_cases hq : q = pn
      · subst hq
        rw [if_pos (by omega), if_pos ⟨rfl, rfl⟩, Nat.sub_self]
        rfl
      · rw [if_neg (by omega), if_neg (by simp [hq])]
  · rintro _ ⟨k, hk, hsome⟩
    rwa [show pn + k = pn by omega] at hsome

end Col331
