import Col331.Vm.Exec
import Col331.Vm.Uvm

/-!
`growproc` of `proc.c`: what becomes of the size and of the user pages.

* `Pgdir.missing`: the page tables that are missing for a range of pages.
* `allocLoop_wp`: `allocuvm` either maps all pages, or leaves out the last one because there is no page
  for its table, or takes back what it has done.
* `Task.growproc_atomic`: **`growproc` does all or nothing**, but for what `Task.SbrkSafe` excludes.
-/

namespace Col331

open Function Prog

variable {d d' : Pgdir} {m m' : Mem} {pn k : ℕ}

/-! ### Pages and tables -/

/-- The number of pages that the first `sz` bytes are on. -/
def pagesOf (sz : ℕ) : ℕ := (sz + pgsize - 1) / pgsize

lemma lt_pagesOf {q sz : ℕ} : q < pagesOf sz ↔ q * pgsize < sz := by
  simp only [pagesOf, pgsize]
  omega

lemma pagesOf_mono {sz sz' : ℕ} (h : sz ≤ sz') : pagesOf sz ≤ pagesOf sz' :=
  Nat.div_le_div_right (by omega)

lemma pagesOf_le {sz : ℕ} (h : sz < kernbase) : pagesOf sz ≤ 2 ^ 19 := by
  simp only [pagesOf, pgsize, kernbase] at h ⊢
  omega

lemma pgroundup_eq_pagesOf (sz : ℕ) : pgroundup sz = pagesOf sz * pgsize := rfl

/-- Of the `k` pages from `pn` on, those that begin a page table that is not there. -/
def Pgdir.missing (d : Pgdir) : ℕ → ℕ → ℕ
  | _, 0 => 0
  | pn, k + 1 =>
    (if pn % nentries = 0 ∧ (d.pde (pn / nentries)).isNone then 1 else 0) + d.missing (pn + 1) k

lemma Pgdir.missing_congr (h : ∀ q, pn ≤ q → q < pn + k → q % nentries = 0 →
    (d'.pde (q / nentries)).isNone = (d.pde (q / nentries)).isNone) : d'.missing pn k = d.missing pn k := by
  induction k generalizing pn with
  | zero => rfl
  | succ k ih =>
    rw [Pgdir.missing, Pgdir.missing, ih fun q hq hlt => h q (by omega) (by omega)]
    by_cases hpn : pn % nentries = 0
    · rw [h pn le_rfl (by omega) hpn]
    · simp only [hpn, false_and]

/-- `kalloc` fails only if there is no free page. -/
def Mem.Alone (m : Mem) : Prop := ∀ i, m.refuse i = false

lemma Mem.Alone.noPage (h : m.Alone) : m.NoPage ↔ m.free = [] := by
  rw [Mem.NoPage, h]
  simp

/-- What `mappages` makes of a page that is not mapped. -/
structure MapsOne (d d' : Pgdir) (m m' : Mem) (pn : ℕ) (e : Pte) (ok : Bool) : Prop where
  entry : ∀ q, d'.entry q = if q = pn ∧ ok then some e else d.entry q
  table : ∀ i, (d'.pde i).isSome = ((d.pde i).isSome || (decide (i = pn / nentries) && ok))
  free : m'.free <:+ m.free
  count : m'.free.length + (if (d.pde (pn / nentries)).isNone ∧ ok then 1 else 0) = m.free.length
  fails : ok = false ↔ (d.pde (pn / nentries)).isNone ∧ m.free = []
  data : m'.data = m.data
  refuse : m'.refuse = m.refuse

/-- **`mappages`** of one page that is not mapped: the table is there, or there is no page for it, or it
is new. -/
lemma mappages_cases {pa : Phys} {perm : Perm} (hpn : pn < 2 ^ 20) (hnone : d.entry pn = none) :
    ((d.pde (pn / nentries)).isSome = true ∧ ∃ d', MapsOne d d' m m pn ⟨pa, perm⟩ true ∧
      mappages d (pn * pgsize) pgsize pa perm m = .ok ((true, d'), m)) ∨
    ((d.pde (pn / nentries)).isSome = false ∧ m.NoPage ∧ mappages d (pn * pgsize) pgsize pa perm m =
      .ok ((false, d), { m with calls := m.calls + 1, starved := true })) ∨
    ((d.pde (pn / nentries)).isSome = false ∧ ∃ f m' d', m.Gets f m' ∧ MapsOne d d' m m' pn ⟨pa, perm⟩ true ∧
      mappages d (pn * pgsize) pgsize pa perm m = .ok ((true, d'), m')) := by
  have hone : mappages d (pn * pgsize) (1 * pgsize) pa perm = _ := mappages_eq one_pos (by omega)
  rw [Nat.one_mul] at hone
  rw [hone, mapLoop]
  have hdir := Pgdir.hasTable_eq (d := d) hpn
  rcases walkpgdir_cases d (pn * pgsize) m with ⟨ht, hw⟩ | ⟨ht, hno, hw⟩ | ⟨ht, f, m₁, hg, hw⟩
  · have htab : (d.pde (pn / nentries)).isSome = true := hdir.symm.trans ht
    have hpte : d.pte (pn * pgsize) = none := by rw [Pgdir.pte_eq hpn, hnone]
    refine .inl ⟨htab, d.setPte (pn * pgsize) (some ⟨pa, perm⟩), ⟨fun q => ?_, fun i => ?_,
      List.suffix_refl _, ?_, ?_, rfl, rfl⟩, ?_⟩
    · rw [Pgdir.entry_setPte hpn ht]
      simp
    · by_cases hi : i = pn / nentries
      · simp [hi, htab]
      · simp [hi]
    · simp [Option.isSome_iff_ne_none.mp htab]
    · simp [Option.isSome_iff_ne_none.mp htab]
    · rw [bind_ok hw]
      dsimp only
      rw [hpte]
      rfl
  · refine .inr (.inl ⟨hdir.symm.trans ht, hno, ?_⟩)
    rw [bind_ok hw]
    rfl
  · have htab : (d.pde (pn / nentries)).isSome = false := hdir.symm.trans ht
    have hadd : ∀ q, (d.addTable (pn * pgsize) f).entry q = d.entry q := Pgdir.entry_addTable hpn ht
    have hpte : (d.addTable (pn * pgsize) f).pte (pn * pgsize) = none := by
      rw [Pgdir.pte_eq hpn, hadd, hnone]
    refine .inr (.inr ⟨htab, f, m₁, (d.addTable (pn * pgsize) f).setPte (pn * pgsize) (some ⟨pa, perm⟩), hg,
      ⟨fun q => ?_, fun i => ?_, ?_, ?_, ?_, by rw [hg.2.2], by rw [hg.2.2]⟩, ?_⟩)
    · rw [Pgdir.entry_setPte hpn (Pgdir.hasTable_addTable _), hadd]
      simp
    · rw [Pgdir.setPte_isSome, Pgdir.addTable, pdx_mul hpn]
      by_cases hi : i = pn / nentries
      · simp [hi]
      · simp [hi]
    · rw [hg.1]
      exact List.suffix_cons f m₁.free
    · rw [hg.1]
      simpa using htab
    · simp [hg.1]
    · rw [bind_ok hw]
      dsimp only
      rw [hpte]
      rfl

lemma mappages_alone_wp {pa : Phys} {perm : Perm} (hm : m.Alone) (hpn : pn < 2 ^ 20)
    (hnone : d.entry pn = none) :
    wp (mappages d (pn * pgsize) pgsize pa perm)
      (fun r m' => MapsOne d r.2 m m' pn ⟨pa, perm⟩ r.1) (fun _ => False) m := by
  rcases mappages_cases (m := m) hpn hnone with ⟨-, d', hmap, hrun⟩ | ⟨htab, hno, hrun⟩ |
    ⟨-, f, m', d', -, hmap, hrun⟩
  · rw [wp_of_ok hrun]
    exact hmap
  · rw [wp_of_ok hrun]
    refine ⟨fun q => by simp, fun i => by simp, List.suffix_refl _, by simp, ?_, rfl, rfl⟩
    exact iff_of_true rfl ⟨by simpa using htab, hm.noPage.mp hno⟩
  · rw [wp_of_ok hrun]
    exact hmap

/-! ### `allocuvm` -/

/-- The last of the `k` pages from `pn` on begins a page table, and with `free` pages there is none left
for it. -/
def Pgdir.LastTable (d : Pgdir) (free pn k : ℕ) : Prop :=
  0 < k ∧ (pn + k - 1) % nentries = 0 ∧ (d.pde ((pn + k - 1) / nentries)).isNone ∧
    k + d.missing pn k = free + 1

instance (free : ℕ) : Decidable (d.LastTable free pn k) := inferInstanceAs (Decidable (_ ∧ _))

/-- The directory has got the `k` pages from `pn` on, but for those in `hole`. -/
structure Grown (d d' : Pgdir) (m m' : Mem) (pn k : ℕ) (hole : ℕ → Prop) : Prop where
  page : ∀ q, pn ≤ q → q < pn + k → ¬ hole q → ∃ f ∈ m.free,
    d'.entry q = some ⟨.page f, ⟨true, true⟩⟩ ∧ m'.data f = Bytes.zero pgsize
  hole : ∀ q, hole q → d'.entry q = none
  same : ∀ q, q < pn ∨ pn + k ≤ q → d'.entry q = d.entry q
  data : ∀ f, f ∉ m.free → m'.data f = m.data f

/-- One page more. -/
lemma Grown.cons {d₁ : Pgdir} {m₁ m₂ : Mem} {f : Frame} {hole : ℕ → Prop} (hfree : m.free.Nodup)
    (hg : m.Gets f m₁)
    (hmap : MapsOne d d₁ { m₁ with data := update m₁.data f (Bytes.zero pgsize) } m₂ pn
      ⟨.page f, ⟨true, true⟩⟩ true)
    (h : Grown d₁ d' m₂ m' (pn + 1) k hole) : Grown d d' m m' pn (k + 1) hole := by
  have hsub : ∀ g ∈ m₂.free, g ∈ m₁.free := fun g hg => hmap.free.subset hg
  have hnodup : (f :: m₁.free).Nodup := hg.1 ▸ hfree
  have hdata : m₁.data = m.data := by rw [hg.2.2]
  refine ⟨fun q hq hlt hhole => ?_, h.hole, fun q hq => ?_, fun g hgf => ?_⟩
  · by_cases hqp : q = pn
    · subst hqp
      refine ⟨f, by simp [hg.1], ?_, ?_⟩
      · rw [h.same q (by omega), hmap.entry, if_pos ⟨rfl, rfl⟩]
      · rw [h.data f fun hf => (List.nodup_cons.mp hnodup).1 (hsub f hf), hmap.data]
        exact update_self ..
    · obtain ⟨g, hgm, he⟩ := h.page q (by omega) (by omega) hhole
      exact ⟨g, hg.1 ▸ List.mem_cons_of_mem f (hsub g hgm), he⟩
  · rw [h.same q (by omega), hmap.entry, if_neg (by omega)]
  · rw [hg.1, List.mem_cons, not_or] at hgf
    rw [h.data g fun hm₂ => hgf.2 (hsub g hm₂), hmap.data]
    exact (update_of_ne hgf.1 ..).trans (congrFun hdata g)

/-- What `allocuvm` does in the end, with `k` pages to go from `pn` on. -/
def Allocated (oldsz newsz : ℕ) (d : Pgdir) (m : Mem) (pn k : ℕ) (r : ℕ × Pgdir) (m' : Mem) : Prop :=
  if k + d.missing pn k ≤ m.free.length ∨ d.LastTable m.free.length pn k then
    r.1 = newsz ∧
      Grown d r.2 m m' pn k fun q => d.LastTable m.free.length pn k ∧ q = pn + k - 1
  else r.1 = 0 ∧
    ∀ q, r.2.entry q = if pagesOf oldsz ≤ q ∧ q < pagesOf newsz then none else d.entry q

variable {oldsz newsz : ℕ}

/-- There is no page any more. -/
lemma deallocuvm_all (hu : d.UserPages) (hnew : newsz < kernbase)
    (hle : oldsz ≤ newsz)
    (hstart : (d.pde (pagesOf oldsz / nentries)).isSome ∨ pagesOf oldsz % nentries = 0) :
    wp (deallocuvm d newsz oldsz) (fun r _ =>
      ∀ q, r.2.entry q = if pagesOf oldsz ≤ q ∧ q < pagesOf newsz then none else d.entry q)
      (fun _ => False) m := by
  rw [deallocuvm]
  split_ifs with heq
  · intro q
    obtain rfl : oldsz = newsz := by omega
    rw [if_neg (by omega)]
  · rw [pgroundup_eq_pagesOf]
    simp only [bind_pure_comp, wp_map]
    refine wp_post (deallocLoop_wp hu hnew.le ?_) fun d' m' h q => ?_
    · simp only [pagesOf, pgsize]
      omega
    · split_ifs with hq
      · exact h.2 hstart q hq.1 (lt_pagesOf.mp hq.2)
      · rcases h.1.entry q with h' | ⟨-, hle, hlt⟩
        · exact h'
        · exact absurd ⟨hle, lt_pagesOf.mpr hlt⟩ hq

lemma Pgdir.UserPages.mapsOne {e : Pte} {f : Frame} {ok : Bool} (hu : d.UserPages)
    (h : MapsOne d d' m m' pn e ok) (he : e.pa = .page f) : d'.UserPages := by
  intro q hq e' he'
  rw [h.entry] at he'
  split_ifs at he' with hif
  · cases he'
    exact ⟨f, he⟩
  · exact hu q hq e' he'

/-- A page that is mapped changes nothing about the tables of the pages after it. -/
lemma MapsOne.isNone {e : Pte} {ok : Bool} (h : MapsOne d d' m m' pn e ok) {q : ℕ} (hq : pn < q)
    (hmod : q % nentries = 0) :
    (d'.pde (q / nentries)).isNone = (d.pde (q / nentries)).isNone := by
  have hne : q / nentries ≠ pn / nentries := by
    simp only [nentries] at hmod ⊢
    omega
  have := h.table (q / nentries)
  rw [decide_eq_false hne, Bool.false_and, Bool.or_false] at this
  rw [← Option.not_isSome, ← Option.not_isSome, this]

/-- The pages that are needed, one page later. -/
lemma MapsOne.need {e : Pte} {ok : Bool} (h : MapsOne d d' m m' pn e ok) (k : ℕ) :
    d.missing pn (k + 1) = (if pn % nentries = 0 ∧ (d.pde (pn / nentries)).isNone then 1 else 0) +
      d'.missing (pn + 1) k := by
  rw [Pgdir.missing, Pgdir.missing_congr fun q hq _ hmod => h.isNone hq hmod]

/-- The cases of `Allocated` are the same one page later. -/
lemma MapsOne.shift {e : Pte} (h : MapsOne d d' m m' pn e true)
    (htab : pn % nentries = 0 ∨ (d.pde (pn / nentries)).isSome) :
    (k + 1 + d.missing pn (k + 1) ≤ m.free.length + 1 ↔
      k + d'.missing (pn + 1) k ≤ m'.free.length) ∧
    (d.LastTable (m.free.length + 1) pn (k + 1) ↔ d'.LastTable m'.free.length (pn + 1) k) := by
  have hcount := h.count
  rw [h.need]
  have hif : (if pn % nentries = 0 ∧ (d.pde (pn / nentries)).isNone then 1 else 0) =
      if (d.pde (pn / nentries)).isNone ∧ (true : Bool) = true then 1 else 0 := by
    refine if_congr ?_ rfl rfl
    rw [and_iff_left rfl]
    refine and_iff_right_of_imp fun hn => htab.resolve_right ?_
    rw [← Option.not_isSome] at hn
    simpa using hn
  rw [← hif] at hcount
  refine ⟨by omega, ?_⟩
  rw [Pgdir.LastTable, Pgdir.LastTable, h.need, show pn + (k + 1) - 1 = pn + k by omega]
  cases k with
  | zero =>
    refine iff_of_false ?_ (by simp)
    rintro ⟨-, hmod, hnone, heq⟩
    rw [Nat.add_zero] at hmod hnone
    rw [if_pos ⟨hmod, hnone⟩] at hcount heq
    simp only [Pgdir.missing] at heq
    omega
  | succ k =>
    rw [show pn + 1 + (k + 1) - 1 = pn + (k + 1) by omega]
    by_cases hmod : (pn + (k + 1)) % nentries = 0
    · rw [h.isNone (by omega) hmod]
      refine and_congr (by simp) (and_congr_right fun _ => and_congr_right fun _ => ?_)
      omega
    · simp only [hmod, false_and, and_false]

/-- Without free pages, nothing is mapped. -/
lemma Pgdir.not_allocated_nil : ¬ (k + 1 + d.missing pn (k + 1) ≤ 0 ∨ d.LastTable 0 pn (k + 1)) := by
  rintro (h | ⟨-, hmod, hnone, heq⟩)
  · omega
  · obtain rfl : k = 0 := by omega
    rw [Pgdir.missing, if_pos ⟨hmod, hnone⟩] at heq
    omega

lemma Allocated.done (oldsz newsz : ℕ) (d : Pgdir) (m : Mem) (pn : ℕ) :
    Allocated oldsz newsz d m pn 0 (newsz, d) m := by
  rw [Allocated, if_pos (.inl (by simp [Pgdir.missing]))]
  refine ⟨rfl, fun q hq hlt => by omega, ?_, fun _ _ => rfl, fun _ _ => rfl⟩
  rintro q ⟨⟨h, -⟩, -⟩
  omega

/-- A page was mapped. -/
lemma Allocated.cons {d₁ : Pgdir} {m₁ m₂ : Mem} {f : Frame} {r : ℕ × Pgdir}
    (hfree : m.free.Nodup) (hg : m.Gets f m₁)
    (hmap : MapsOne d d₁ { m₁ with data := update m₁.data f (Bytes.zero pgsize) } m₂ pn
      ⟨.page f, ⟨true, true⟩⟩ true)
    (htab : pn % nentries = 0 ∨ (d.pde (pn / nentries)).isSome)
    (hpn : pagesOf oldsz ≤ pn ∧ pn < pagesOf newsz)
    (h : Allocated oldsz newsz d₁ m₂ (pn + 1) k r m') :
    Allocated oldsz newsz d m pn (k + 1) r m' := by
  obtain ⟨hle, hlast⟩ := hmap.shift (k := k) htab
  have hlen : m.free.length = m₁.free.length + 1 := by rw [hg.1, List.length_cons]
  rw [Allocated, hlen]
  rw [Allocated] at h
  by_cases hif : k + d₁.missing (pn + 1) k ≤ m₂.free.length ∨ d₁.LastTable m₂.free.length (pn + 1) k
  · rw [if_pos hif] at h
    rw [if_pos ((or_congr hle hlast).mpr hif)]
    have hhole : (fun q => d.LastTable (m₁.free.length + 1) pn (k + 1) ∧ q = pn + (k + 1) - 1) =
        fun q => d₁.LastTable m₂.free.length (pn + 1) k ∧ q = pn + 1 + k - 1 :=
      funext fun q => propext (and_congr hlast (by omega))
    rw [hhole]
    exact ⟨h.1, .cons hfree hg hmap h.2⟩
  · rw [if_neg hif] at h
    rw [if_neg (mt (or_congr hle hlast).mp hif)]
    refine ⟨h.1, fun q => ?_⟩
    rw [h.2, hmap.entry]
    by_cases hq : pagesOf oldsz ≤ q ∧ q < pagesOf newsz
    · rw [if_pos hq, if_pos hq]
    · rw [if_neg hq, if_neg hq, if_neg (by omega)]

/-- There was no page for the table. -/
lemma Allocated.cons_lost {d₁ : Pgdir} {m₁ m₂ : Mem} {f : Frame} {r : ℕ × Pgdir}
    (hg : m.Gets f m₁)
    (hmap : MapsOne d d₁ { m₁ with data := update m₁.data f (Bytes.zero pgsize) } m₂ pn
      ⟨.page f, ⟨true, true⟩⟩ false)
    (htab : pn % nentries = 0 ∨ (d.pde (pn / nentries)).isSome)
    (hempty : d.entry pn = none) (h : Allocated oldsz newsz d₁ m₂ (pn + 1) k r m') :
    Allocated oldsz newsz d m pn (k + 1) r m' := by
  obtain ⟨hnone, hnil⟩ := hmap.fails.mp rfl
  have hmod : pn % nentries = 0 := htab.resolve_right fun hs => by simp [Option.isSome_iff_ne_none.mp hs] at hnone
  have hlen : m.free.length = 1 := by rw [hg.1, List.length_cons, show m₁.free = [] from hnil]; rfl
  have hlen₂ : m₂.free = [] := List.suffix_nil.mp (hnil ▸ hmap.free)
  have hentry : ∀ q, d₁.entry q = d.entry q := fun q => by
    rw [hmap.entry, if_neg (by simp)]
  have hdata : ∀ g, g ∉ m.free → m₂.data g = m.data g := fun g hgf => by
    rw [hg.1, List.mem_cons, not_or] at hgf
    rw [hmap.data]
    refine (update_of_ne hgf.1 ..).trans ?_
    rw [hg.2.2]
  rw [Allocated, hlen]
  rw [Allocated, hlen₂] at h
  cases k with
  | zero =>
    have hlast : d.LastTable 1 pn 1 := by
      refine ⟨one_pos, hmod, hnone, ?_⟩
      rw [Pgdir.missing, if_pos ⟨hmod, hnone⟩]
      rfl
    rw [if_pos (.inl (by simp [Pgdir.missing]))] at h
    rw [if_pos (.inr hlast)]
    refine ⟨h.1, fun q hq hlt hhole => (hhole ⟨hlast, by omega⟩).elim, fun q hq => ?_, fun q hq => ?_,
      fun g hgf => ?_⟩
    · rw [h.2.same q (by omega), hentry, hq.2]
      exact hempty
    · rw [h.2.same q (by omega), hentry]
    · rw [h.2.data g (by simp [hlen₂]), hdata g hgf]
  | succ k =>
    rw [List.length_nil, if_neg Pgdir.not_allocated_nil] at h
    rw [if_neg]
    · refine ⟨h.1, fun q => ?_⟩
      rw [h.2, hentry]
    · rw [hmap.need, if_pos ⟨hmod, hnone⟩]
      rintro (hle | ⟨-, -, -, heq⟩)
      · omega
      · rw [hmap.need, if_pos ⟨hmod, hnone⟩] at heq
        omega

/-- **`allocuvm`**, by its loop, with `k` pages to go. -/
lemma allocLoop_wp {oldsz newsz fuel : ℕ} (hm : m.Alone) (hfree : m.free.Nodup) (hu : d.UserPages)
    (hnew : newsz < kernbase) (hle : oldsz ≤ newsz) (hk : pn + k = pagesOf newsz) (hfuel : k ≤ fuel)
    (hempty : ∀ q, pn ≤ q → q < pn + k → d.entry q = none) (hpn : pagesOf oldsz ≤ pn)
    (htab : pn % nentries = 0 ∨ (d.pde (pn / nentries)).isSome ∨ m.free = [])
    (hstart : (d.pde (pagesOf oldsz / nentries)).isSome ∨ pagesOf oldsz % nentries = 0) :
    wp (allocLoop oldsz newsz fuel (pn * pgsize) d) (Allocated oldsz newsz d m pn k)
      (fun _ => False) m := by
  induction fuel generalizing pn k d m with
  | zero =>
    obtain rfl : k = 0 := by omega
    exact .done ..
  | succ fuel ih =>
    rw [allocLoop]
    split_ifs with hlt
    · have hkpos : k ≠ 0 := by
        have := lt_pagesOf.mpr hlt
        omega
      obtain ⟨k, rfl⟩ := Nat.exists_eq_succ_of_ne_zero hkpos
      have hpn' : pn < 2 ^ 20 := by
        simp only [pgsize, kernbase] at hlt hnew
        omega
      rw [wp_bind]
      rcases kalloc_cases m with ⟨hno, hrun⟩ | ⟨f, m₁, hg, hrun⟩
      · -- no page: what was mapped is given back
        have hnil := hm.noPage.mp hno
        rw [wp_of_ok hrun]
        simp only [bind_pure_comp, wp_map]
        refine wp_post (deallocuvm_all hu hnew hle hstart) fun r m' h => ?_
        rw [Allocated, if_neg]
        · exact ⟨rfl, h⟩
        · rw [hnil]
          exact Pgdir.not_allocated_nil
      · have htab' : pn % nentries = 0 ∨ (d.pde (pn / nentries)).isSome :=
          htab.imp_right fun h => h.resolve_right (by simp [hg.1])
        have hm₁ : m₁.Alone := by
          rw [hg.2.2]
          exact hm
        rw [wp_of_ok hrun]
        rw [wp_bind, fill, wp_modify]
        refine wp_seq (mappages_alone_wp hm₁ hpn' (hempty pn le_rfl (by omega))) ?_
        rintro ⟨ok, d₁⟩ m₂ hmap
        rw [show pn * pgsize + pgsize = (pn + 1) * pgsize by ring]
        have hfree₂ : m₂.free.Nodup := by
          rw [hg.1] at hfree
          exact (List.nodup_cons.mp hfree).2.sublist hmap.free.sublist
        have hmono : ∀ i, (d.pde i).isSome → (d₁.pde i).isSome := fun i hi => by
          rw [hmap.table, hi, Bool.true_or]
        refine wp_post (ih (fun i => by rw [hmap.refuse]; exact hm₁ i) hfree₂
          (hu.mapsOne hmap rfl) (k := k) (by omega) (by omega) (fun q hq hlt' => ?_) (by omega) ?_
          (hstart.imp_left (hmono _))) fun r m' h => ?_
        · rw [hmap.entry, if_neg (by omega)]
          exact hempty q (by omega) (by omega)
        · -- the next page begins a table, or its table is there, or there are no more pages
          by_cases hmod : (pn + 1) % nentries = 0
          · exact .inl hmod
          · refine .inr ?_
            rw [show (pn + 1) / nentries = pn / nentries by simp only [nentries] at hmod ⊢; omega]
            cases ok with
            | false =>
              have hnil : m₁.free = [] := (hmap.fails.mp rfl).2
              exact .inr (List.suffix_nil.mp (hnil ▸ hmap.free))
            | true =>
              refine .inl ?_
              rw [hmap.table]
              simp
        · cases ok with
          | false => exact .cons_lost hg hmap htab' (hempty pn le_rfl (by omega)) h
          | true => exact .cons hfree hg hmap htab' ⟨hpn, by omega⟩ h
    · obtain rfl : k = 0 := by
        have := mt lt_pagesOf.mp hlt
        omega
      exact .done ..

/-! ### `growproc` -/

namespace Task

/-- The pages of the first `sz` bytes are the user pages that are mapped, each to a page of its own. -/
structure Contiguous (p : Task) (m : Mem) : Prop where
  size : p.sz < kernbase
  user : p.pgdir.UserPages
  mapped : ∀ q < 2 ^ 19, (p.pgdir.entry q).isSome ↔ q * pgsize < p.sz
  once : ∀ q < 2 ^ 19, ∀ q' < 2 ^ 19, ∀ f perm perm', p.pgdir.entry q = some ⟨.page f, perm⟩ →
    p.pgdir.entry q' = some ⟨.page f, perm'⟩ → q = q'
  apart : ∀ q < 2 ^ 19, ∀ f perm, p.pgdir.entry q = some ⟨.page f, perm⟩ → f ∉ m.free
  free : m.free.Nodup

/-- The size has changed by `n`, and the user pages with it. -/
structure Resized (p p' : Task) (m m' : Mem) (n : ℤ) : Prop where
  size : (p'.sz : ℤ) = p.sz + n
  mapped : ∀ q < 2 ^ 19, (p'.pgdir.entry q).isSome ↔ ((q * pgsize : ℕ) : ℤ) < p.sz + n
  old : ∀ q < 2 ^ 19, q * pgsize < p.sz → (p'.pgdir.entry q).isSome →
    p'.pgdir.entry q = p.pgdir.entry q ∧
      ∀ f perm, p.pgdir.entry q = some ⟨.page f, perm⟩ → m'.data f = m.data f
  new : ∀ q < 2 ^ 19, p.sz ≤ q * pgsize → ((q * pgsize : ℕ) : ℤ) < p.sz + n →
    ∃ f, p'.pgdir.entry q = some ⟨.page f, ⟨true, true⟩⟩ ∧ m'.data f = Bytes.zero pgsize

/-- What `growproc(n)` is to do, with the result `r`. -/
def SbrkOk (p : Task) (m : Mem) (n : ℤ) (r : ℤ × Task) (m' : Mem) : Prop :=
  (r.1 = 0 → p.Resized r.2 m m' n) ∧
    (r.1 = -1 → r.2.sz = p.sz ∧ ∀ q < 2 ^ 19, r.2.pgdir.entry q = p.pgdir.entry q)

/-- What `growproc` does right: the size does not become 0 or negative, and memory does not run out at
the page table of the last page. -/
def SbrkSafe (p : Task) (m : Mem) (n : ℤ) : Prop :=
  (n < 0 → p.sz = 0 ∨ -n < p.sz) ∧
    (0 < n → p.sz + n < kernbase → ¬ p.pgdir.LastTable m.free.length (pagesOf p.sz)
      (pagesOf (p.sz + n).toNat - pagesOf p.sz))

variable {p : Task} {n : ℤ}

/-- The table of the first page above the size is there, or begins there. -/
lemma Contiguous.start (h : p.Contiguous m) {sz : ℕ} (hsz : sz ≤ p.sz) :
    (p.pgdir.pde (pagesOf sz / nentries)).isSome ∨ pagesOf sz % nentries = 0 := by
  by_cases hmod : pagesOf sz % nentries = 0
  · exact .inr hmod
  · have hsize := h.size
    have hpos : 0 < pagesOf sz := Nat.pos_of_ne_zero fun h0 => hmod (by rw [h0, Nat.zero_mod])
    have hlt : (pagesOf sz - 1) * pgsize < sz := lt_pagesOf.mp (by omega)
    have hq : pagesOf sz - 1 < 2 ^ 19 := by
      simp only [pgsize, kernbase] at hlt hsize
      omega
    have hentry : (p.pgdir.entry (pagesOf sz - 1)).isSome := (h.mapped _ hq).mpr (by omega)
    have htab := Pgdir.hasTable_of_entry (by omega) hentry
    rw [Pgdir.hasTable_eq (by omega)] at htab
    rw [show pagesOf sz / nentries = (pagesOf sz - 1) / nentries by simp only [nentries] at hmod ⊢; omega]
    exact .inl htab

lemma SbrkOk.unchanged {r : ℤ × Task} (hr : r.1 = -1) (hsz : r.2.sz = p.sz)
    (h : ∀ q < 2 ^ 19, r.2.pgdir.entry q = p.pgdir.entry q) : p.SbrkOk m n r m' :=
  ⟨fun h0 => by rw [hr] at h0; omega, fun _ => ⟨hsz, h⟩⟩

lemma SbrkOk.of_zero {p' : Task} : p.SbrkOk m n (0, p') m' ↔ p.Resized p' m m' n :=
  ⟨fun h => h.1 rfl, fun h => ⟨fun _ => h, fun h0 => by simp at h0⟩⟩

section

variable (h : p.Contiguous m)

include h

/-- What was mapped for the new size. -/
lemma Contiguous.resized_iff {newsz : ℕ} {hole : Prop}
    (hnewsz : (p.sz : ℤ) + n = newsz) (hpages : pagesOf p.sz ≤ pagesOf newsz)
    (hmax : pagesOf newsz ≤ 2 ^ 19) (hlast : hole → pagesOf p.sz < pagesOf newsz)
    (hg : Grown p.pgdir d' m m' (pagesOf p.sz) (pagesOf newsz - pagesOf p.sz) fun q =>
      hole ∧ q = pagesOf p.sz + (pagesOf newsz - pagesOf p.sz) - 1) :
    p.Resized { p with pgdir := d', sz := newsz } m m' n ↔ ¬ hole := by
  constructor
  · intro hres hhole
    have hpos := hlast hhole
    have hmapped := (hres.mapped (pagesOf newsz - 1) (by omega)).mpr (by
      rw [hnewsz, Nat.cast_lt, ← lt_pagesOf]
      omega)
    rw [show d'.entry (pagesOf newsz - 1) = none from hg.hole _ ⟨hhole, by omega⟩] at hmapped
    simp at hmapped
  · intro hhole
    have hsame : ∀ q, q < pagesOf p.sz ∨ pagesOf newsz ≤ q → d'.entry q = p.pgdir.entry q := fun q hq =>
      hg.same q (by omega)
    have hnew : ∀ q, pagesOf p.sz ≤ q → q < pagesOf newsz →
        ∃ f ∈ m.free, d'.entry q = some ⟨.page f, ⟨true, true⟩⟩ ∧ m'.data f = Bytes.zero pgsize :=
      fun q hq hlt => hg.page q hq (by omega) fun h => hhole h.1
    refine ⟨hnewsz.symm, fun q hq => ?_, fun q hq hlt _ => ⟨hsame q ?_, fun f perm he => ?_⟩,
      fun q hq hle hlt => ?_⟩
    · rw [hnewsz, Nat.cast_lt, ← lt_pagesOf]
      by_cases hin : pagesOf p.sz ≤ q ∧ q < pagesOf newsz
      · obtain ⟨f, -, he, -⟩ := hnew q hin.1 hin.2
        exact iff_of_true (by rw [he]; rfl) hin.2
      · change (d'.entry q).isSome ↔ _
        rw [hsame q (by omega), h.mapped q hq, ← lt_pagesOf]
        omega
    · exact .inl (lt_pagesOf.mpr hlt)
    · exact hg.data f (h.apart q hq f perm he)
    · rw [hnewsz, Nat.cast_lt, ← lt_pagesOf] at hlt
      obtain ⟨f, -, he⟩ := hnew q (not_lt.mp (mt lt_pagesOf.mp (by omega))) hlt
      exact ⟨f, he⟩

/-- Growth. -/
lemma Contiguous.grow (hm : m.Alone) (hn : 0 < n ∧ n < 2 ^ 31) :
    wp (p.growproc n) (fun r m' => (r.1 = 0 ∨ r.1 = -1) ∧ (p.SbrkOk m n r m' ↔ p.SbrkSafe m n))
      (fun _ => False) m := by
  have hsize := h.size
  obtain ⟨newsz, hnewsz⟩ : ∃ newsz : ℕ, (p.sz : ℤ) + n = newsz := ⟨(p.sz + n).toNat, by omega⟩
  have hmod : ((p.sz + n) % 2 ^ 32).toNat = newsz := by
    simp only [kernbase] at hsize
    omega
  have hsafe : p.SbrkSafe m n ↔ (newsz < kernbase → ¬ p.pgdir.LastTable m.free.length (pagesOf p.sz)
      (pagesOf newsz - pagesOf p.sz)) := by
    rw [SbrkSafe, hnewsz, Int.toNat_natCast, Nat.cast_lt]
    exact ⟨fun h => h.2 hn.1, fun h => ⟨fun h0 => by omega, fun _ => h⟩⟩
  rw [growproc, hmod, if_pos hn.1, allocuvm]
  split_ifs with hbig hlt
  · refine ⟨.inr rfl, iff_of_true (.unchanged rfl rfl fun _ _ => rfl) (hsafe.mpr fun h => ?_)⟩
    omega
  · omega
  · have hpages : pagesOf p.sz ≤ pagesOf newsz := pagesOf_mono (by omega)
    have hmax : pagesOf newsz ≤ 2 ^ 19 := pagesOf_le (by omega)
    have hnone : ∀ q, pagesOf p.sz ≤ q → q < pagesOf newsz → p.pgdir.entry q = none := fun q hq hlt => by
      have := mt (h.mapped q (by omega)).mp (mt lt_pagesOf.mpr (by omega))
      simpa using this
    rw [wp_bind, pgroundup_eq_pagesOf]
    refine wp_post (allocLoop_wp hm h.free h.user (by omega) (by omega)
      (k := pagesOf newsz - pagesOf p.sz) (by omega) (by simp only [pagesOf, pgsize]; omega)
      (fun q hq hlt => hnone q hq (by omega)) le_rfl ((h.start le_rfl).symm.imp_right .inl)
      (h.start le_rfl)) ?_
    rintro ⟨sz', d'⟩ m' hall
    rw [Allocated] at hall
    split_ifs at hall with hif
    · obtain ⟨rfl, hgrown⟩ := hall
      dsimp only
      rw [if_neg (by omega)]
      refine ⟨.inl rfl, SbrkOk.of_zero.trans ?_⟩
      rw [hsafe, h.resized_iff hnewsz hpages hmax (fun hlast => by have := hlast.1; omega) hgrown]
      exact ⟨fun h _ => h, fun h => h (by omega)⟩
    · obtain ⟨rfl, hentry⟩ := hall
      dsimp only
      rw [if_pos rfl]
      refine ⟨.inr rfl, iff_of_true (.unchanged rfl rfl fun q _ => ?_) (hsafe.mpr fun _ => ?_)⟩
      · rw [hentry]
        split_ifs with hq
        · exact (hnone q hq.1 hq.2).symm
        · rfl
      · exact fun hlast => hif (.inr hlast)

/-- Shrinking, by less than the size. -/
lemma Contiguous.shrink {newsz : ℕ} (hlt : newsz < p.sz)
    (hnewsz : (p.sz : ℤ) + n = newsz) :
    wp (deallocuvm p.pgdir p.sz newsz) (fun r m' => r.1 = newsz ∧
      p.Resized { p with pgdir := r.2, sz := newsz } m m' n) (fun _ => False) m := by
  have hsize := h.size
  have hmono := pagesOf_mono hlt.le
  rw [deallocuvm, if_neg (by omega), pgroundup_eq_pagesOf]
  simp only [bind_pure_comp, wp_map]
  refine wp_post (deallocLoop_wp h.user hsize.le ?_) fun d' m' hs => ⟨trivial, ?_⟩
  · simp only [pagesOf, pgsize]
    omega
  obtain ⟨hs, hnone⟩ := hs
  have hnone := hnone (h.start hlt.le)
  have hsame : ∀ q, q < pagesOf newsz → d'.entry q = p.pgdir.entry q := fun q hq =>
    (hs.entry q).resolve_right (by omega)
  refine ⟨hnewsz.symm, fun q hq => ?_, fun q hq hlt' hsome => ?_, fun q hq hle hlt' => ?_⟩
  · rw [hnewsz, Nat.cast_lt, ← lt_pagesOf]
    by_cases hin : q < pagesOf newsz
    · rw [hsame q hin, h.mapped q hq, ← lt_pagesOf]
      omega
    · refine iff_of_false (fun hsome => ?_) hin
      rcases hs.entry q with he | ⟨he, -⟩
      · have hlt' := (h.mapped q hq).mp (he ▸ hsome)
        simp [hnone q (by omega) hlt'] at hsome
      · simp [he] at hsome
  · have hin : q < pagesOf newsz := by
      by_contra hge
      have hsome' : (d'.entry q).isSome := hsome
      simp [hnone q (by omega) hlt'] at hsome'
    refine ⟨hsame q hin, fun f perm he => hs.data f fun q' e hq' hlt'' he' hpa => ?_⟩
    obtain ⟨pa, perm'⟩ := e
    obtain rfl : pa = .page f := hpa
    have := h.once q hq q' (by simp only [pgsize, kernbase] at hlt'' hsize; omega) f perm perm' he he'
    omega
  · omega

/-- Shrinking to nothing: the pages are gone. -/
lemma Contiguous.shrink_zero (hpos : 0 < p.sz) :
    wp (deallocuvm p.pgdir p.sz 0) (fun r _ => r.1 = 0 ∧ r.2.entry 0 = none) (fun _ => False) m := by
  have hsize := h.size
  rw [deallocuvm, if_neg (by omega), pgroundup_eq_pagesOf]
  simp only [bind_pure_comp, wp_map]
  refine wp_post (deallocLoop_wp h.user hsize.le ?_) fun d' m' hs => ⟨trivial, ?_⟩
  · simp only [pagesOf, pgsize]
    omega
  · exact hs.2 (h.start (Nat.zero_le _)) 0 (by simp [pagesOf]) (by simpa using hpos)

lemma Resized.refl : p.Resized p m m 0 where
  size := by simp
  mapped q hq := by rw [add_zero, Nat.cast_lt, h.mapped q hq]
  old _ _ _ _ := ⟨rfl, fun _ _ _ => rfl⟩
  new q _ _ _ := by omega

lemma growproc_wp (hm : m.Alone) (hn : -2 ^ 31 ≤ n ∧ n < 2 ^ 31) :
    wp (p.growproc n) (fun r m' => (r.1 = 0 ∨ r.1 = -1) ∧ (p.SbrkOk m n r m' ↔ p.SbrkSafe m n))
      (fun _ => False) m := by
  have hsize := h.size
  by_cases hpos : 0 < n
  · exact h.grow hm ⟨hpos, hn.2⟩
  by_cases hneg : n < 0
  · have hsafe : p.SbrkSafe m n ↔ p.sz = 0 ∨ -n < p.sz := 
      ⟨fun h => h.1 hneg, fun h => ⟨fun _ => h, fun h0 => by omega⟩⟩
    rw [hsafe, growproc, if_neg hpos, if_pos hneg, wp_bind]
    by_cases hlt : -n < p.sz
    · obtain ⟨newsz, hnewsz⟩ : ∃ newsz : ℕ, (p.sz : ℤ) + n = newsz := ⟨(p.sz + n).toNat, by omega⟩
      have hmod : ((p.sz + n) % 2 ^ 32).toNat = newsz := by
        simp only [kernbase] at hsize
        omega
      rw [hmod]
      refine wp_post (h.shrink (by omega) hnewsz) ?_
      rintro ⟨sz', d'⟩ m' ⟨rfl, hres⟩
      dsimp only
      rw [if_neg (by omega)]
      exact ⟨.inl rfl, iff_of_true (SbrkOk.of_zero.mpr hres) (.inr hlt)⟩
    by_cases hzero : p.sz = 0
    · -- the size is 0 already, which `deallocuvm` returns
      rw [deallocuvm, if_pos (by omega), wp_pure]
      dsimp only
      rw [if_pos hzero]
      exact ⟨.inr rfl, iff_of_true (.unchanged rfl rfl fun _ _ => rfl) (.inl hzero)⟩
    have hunsafe : ¬ (p.sz = 0 ∨ -n < p.sz) := by omega
    by_cases hall : -n = p.sz
    · have hmod : ((p.sz + n) % 2 ^ 32).toNat = 0 := by
        rw [← hall]
        simp
      rw [hmod]
      refine wp_post (h.shrink_zero (by omega)) ?_
      rintro ⟨sz', d'⟩ m' ⟨rfl, hnone⟩
      dsimp only
      rw [if_pos rfl]
      refine ⟨.inr rfl, iff_of_false (fun hok => ?_) hunsafe⟩
      have hsome : (p.pgdir.entry 0).isSome :=
        (h.mapped 0 (by norm_num)).mpr (by rw [Nat.zero_mul]; omega)
      rw [← (hok.2 rfl).2 0 (by norm_num)] at hsome
      simp [show d'.entry 0 = none from hnone] at hsome
    · -- the sum wraps around, and `deallocuvm` does nothing
      rw [deallocuvm, if_pos (by simp only [kernbase] at hsize; omega), wp_pure]
      dsimp only
      rw [if_neg hzero]
      refine ⟨.inl rfl, iff_of_false (fun hok => ?_) hunsafe⟩
      have := (hok.1 rfl).size
      omega
  · obtain rfl : n = 0 := by omega
    rw [growproc, if_neg hpos, if_neg hneg]
    refine ⟨.inl rfl, iff_of_true (SbrkOk.of_zero.mpr (.refl h)) ⟨fun h0 => ?_, fun h0 => ?_⟩⟩ <;> omega

end

/-- **`growproc` does all or nothing**, exactly if the size does not become 0 or negative and memory does
not run out at the page table of the last page. -/
theorem growproc_atomic (p : Task) (m : Mem) (n : ℤ) (h : p.Contiguous m) (hm : m.Alone)
    (hn : -2 ^ 31 ≤ n ∧ n < 2 ^ 31) :
    ∃ r m', p.growproc n m = .ok (r, m') ∧ (r.1 = 0 ∨ r.1 = -1) ∧
      (p.SbrkOk m n r m' ↔ p.SbrkSafe m n) := by
  have hwp := growproc_wp h hm hn
  cases hrun : p.growproc n m with
  | error e => exact ((wp_of_error hrun).mp hwp).elim
  | ok r => exact ⟨r.1, r.2, rfl, (wp_of_ok hrun).mp hwp⟩

/-- A process with one byte. -/
def oneByte : Task where
  pgdir := ⟨⟨0x300, frame300⟩, fun i => if i = 0 then some ⟨⟨0x301, frame301⟩, fun j =>
    if j = 0 then some ⟨.page ⟨0x302, frame302⟩, ⟨true, true⟩⟩ else none⟩ else none⟩
  sz := 1
  eip := 0
  esp := 0
  ofile _ := none

lemma oneByte_entry (q : ℕ) : oneByte.pgdir.entry q =
    if q = 0 then some ⟨.page ⟨0x302, by decide⟩, ⟨true, true⟩⟩ else none := by
  by_cases hq : q = 0
  · subst hq
    rfl
  · rw [if_neg hq, Pgdir.entry, oneByte]
    by_cases hi : q / nentries = 0
    · have hj : q % nentries ≠ 0 := by
        simp only [nentries] at hi ⊢
        omega
      simp [hi, hj]
    · simp [hi]

lemma oneByte_contiguous : oneByte.Contiguous (Mem.fresh [⟨0x303, by decide⟩]) where
  size := by decide
  user q hq e he := by
    rw [oneByte_entry] at he
    split_ifs at he
    exact ⟨_, by rw [← Option.some.inj he]⟩
  mapped q hq := by
    rw [oneByte_entry]
    by_cases h0 : q = 0
    · subst h0
      decide
    · have hone : oneByte.sz = 1 := rfl
      rw [if_neg h0, hone]
      simp only [Option.isSome_none, Bool.false_eq_true, false_iff, pgsize]
      omega
  once q hq q' hq' f perm perm' he he' := by
    rw [oneByte_entry] at he he'
    split_ifs at he he' with h h'
    omega
  apart q hq f perm he := by
    rw [oneByte_entry] at he
    split_ifs at he
    obtain ⟨hf, -⟩ := Pte.mk.inj (Option.some.inj he)
    obtain rfl := Phys.page.inj hf
    decide
  free := by decide

theorem growproc_atomic_onePage : ∃ r m', oneByte.growproc 4096 (Mem.fresh [⟨0x303, by decide⟩]) =
    .ok (r, m') ∧ oneByte.SbrkOk (Mem.fresh [⟨0x303, by decide⟩]) 4096 r m' := by
  obtain ⟨r, m', hrun, -, hiff⟩ :=
    growproc_atomic oneByte _ 4096 oneByte_contiguous (fun _ => rfl) (by norm_num)
  refine ⟨r, m', hrun, hiff.mpr ⟨fun h => ?_, fun _ _ hlast => ?_⟩⟩
  · omega
  · exact absurd hlast.2.1 (by decide)

/-- To take the last byte from a process fails, but the page is gone. -/
theorem growproc_unmaps : ¬ ∀ (p : Task) (m : Mem) (n : ℤ), p.Contiguous m → m.Alone →
    -2 ^ 31 ≤ n ∧ n < 2 ^ 31 → ∀ r m', p.growproc n m = .ok (r, m') → p.SbrkOk m n r m' := by
  intro hall
  have hrun : (match oneByte.growproc (-1) (Mem.fresh [⟨0x303, by decide⟩]) with
      | .ok (r, _) => decide (r.1 = -1 ∧ r.2.pgdir.entry 0 = none)
      | .error _ => false) = true := by decide +kernel
  cases hgrow : oneByte.growproc (-1) (Mem.fresh [⟨0x303, by decide⟩]) with
  | error e => simp [hgrow] at hrun
  | ok r =>
    rw [hgrow] at hrun
    obtain ⟨hr, hnone⟩ := of_decide_eq_true hrun
    have hok := hall _ _ _ oneByte_contiguous (fun _ => rfl) (by norm_num) _ _ hgrow
    have hsame := (hok.2 hr).2 0 (by norm_num)
    rw [hnone, oneByte_entry, if_pos rfl] at hsame
    exact Option.some_ne_none _ hsame.symm

end Task

end Col331
