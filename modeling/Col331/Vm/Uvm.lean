import Col331.Vm.Frames

/-!
What `deallocuvm`, `freevm` and `setupkvm` do.

* `Pgdir.UserPages`: the user part maps pages from `kalloc` only.
* `deallocLoop_wp`: `deallocuvm` gives pages back, and all of them in its range if it starts where a
  table begins or is present.
* `freevm_wp`: `freevm` gives everything back.
* `setupkvm_wp`: a new directory, with the kernel part and nothing in the user part.
-/

namespace Col331

open Prog

variable {d : Pgdir} {m : Mem} {pn : ℕ}

/-- The user part maps pages from `kalloc` only. -/
def Pgdir.UserPages (d : Pgdir) : Prop :=
  ∀ q < 2 ^ 19, ∀ e, d.entry q = some e → ∃ f, e.pa = .page f

lemma Pgdir.UserPages.mono {d' : Pgdir} (h : d.UserPages)
    (hd : ∀ q, d'.entry q = d.entry q ∨ d'.entry q = none) : d'.UserPages := by
  intro q hq e he
  rcases hd q with h' | h'
  · exact h q hq e (h' ▸ he)
  · simp [h'] at he

/-! ### `deallocuvm` -/

/-- What is kept while pages of `d` from page `pn` on below `oldsz` are given back. -/
structure Shrinks (d d' : Pgdir) (m m' : Mem) (pn oldsz : ℕ) : Prop where
  frame : d'.frame = d.frame
  tables : d'.tables = d.tables
  hasTable : ∀ i, (d'.pde i).isSome = (d.pde i).isSome
  entry : ∀ q, d'.entry q = d.entry q ∨ d'.entry q = none ∧ pn ≤ q ∧ q * pgsize < oldsz
  pages : (m'.free : Multiset Frame) + d'.pages = m.free + d.pages
  data : ∀ f, (∀ q e, pn ≤ q → q * pgsize < oldsz → d.entry q = some e → e.pa ≠ .page f) →
    m'.data f = m.data f
  rest : m'.refuse = m.refuse ∧ m'.calls = m.calls ∧ m'.starved = m.starved ∧ m'.kdata = m.kdata

lemma Shrinks.refl (d : Pgdir) (m : Mem) (pn oldsz : ℕ) : Shrinks d d m m pn oldsz :=
  ⟨rfl, rfl, fun _ => rfl, fun _ => .inl rfl, rfl, fun _ _ => rfl, rfl, rfl, rfl, rfl⟩

lemma Shrinks.trans {d₁ d₂ d₃ : Pgdir} {m₁ m₂ m₃ : Mem} {pn pn' oldsz : ℕ} (hle : pn ≤ pn')
    (h : Shrinks d₁ d₂ m₁ m₂ pn oldsz) (h' : Shrinks d₂ d₃ m₂ m₃ pn' oldsz) :
    Shrinks d₁ d₃ m₁ m₃ pn oldsz := by
  refine ⟨h'.frame.trans h.frame, h'.tables.trans h.tables,
    fun i => (h'.hasTable i).trans (h.hasTable i), fun q => ?_, h'.pages.trans h.pages, fun f hf => ?_,
    h'.rest.1.trans h.rest.1, h'.rest.2.1.trans h.rest.2.1, h'.rest.2.2.1.trans h.rest.2.2.1,
    h'.rest.2.2.2.trans h.rest.2.2.2⟩
  · rcases h'.entry q with h₂ | ⟨h₂, h₃, h₄⟩
    · rw [h₂]
      exact h.entry q
    · exact .inr ⟨h₂, hle.trans h₃, h₄⟩
  · rw [h'.data f, h.data f hf]
    intro q e hq hlt he
    refine hf q e (hle.trans hq) hlt ?_
    rcases h.entry q with h₂ | ⟨h₂, -⟩
    · rwa [h₂] at he
    · simp [h₂] at he

/-- One page is given back. -/
lemma Shrinks.kfree {f : Frame} {perm : Perm} {oldsz : ℕ} (hpn : pn < 2 ^ 19)
    (hlt : pn * pgsize < oldsz) (he : d.entry pn = some ⟨.page f, perm⟩) :
    wp (kfree f) (fun _ m' => Shrinks d (d.setPte (pn * pgsize) none) m m' pn oldsz)
      (fun _ => False) m := by
  have hpn' : pn < 2 ^ 20 := by omega
  have ht := Pgdir.hasTable_of_entry hpn' (d := d) (by rw [he]; rfl)
  have hset := Pgdir.entry_setPte (e := none) hpn' ht
  refine ⟨rfl, Pgdir.tables_setPte _, fun i => Pgdir.setPte_isSome _ _, fun q => ?_, ?_, fun g hg => ?_,
    rfl, rfl, rfl, rfl⟩
  · rw [hset]
    split_ifs with hq
    · exact .inr ⟨rfl, by omega, hq ▸ hlt⟩
    · exact .inl rfl
  · have hpages := Pgdir.pages_change hpn hset
    rw [he] at hpages
    rw [← Multiset.cons_coe, ← Multiset.singleton_add]
    have : Pgdir.pageOf (some ⟨.page f, perm⟩) = {f} := rfl
    rw [this, Pgdir.pageOf, add_zero] at hpages
    rw [← hpages]
    abel
  · have hne : g ≠ f := by
      rintro rfl
      exact hg pn _ le_rfl hlt he rfl
    exact Function.update_of_ne hne ..

/-- **`deallocuvm`**, by its loop. -/
lemma deallocLoop_wp {oldsz fuel : ℕ} (hu : d.UserPages) (hold : oldsz ≤ kernbase)
    (hfuel : oldsz ≤ (pn + fuel) * pgsize) :
    wp (deallocLoop oldsz fuel (pn * pgsize) d) (fun d' m' => Shrinks d d' m m' pn oldsz ∧
      ((d.pde (pn / nentries)).isSome ∨ pn % nentries = 0 →
        ∀ q, pn ≤ q → q * pgsize < oldsz → d'.entry q = none)) (fun _ => False) m := by
  induction fuel generalizing pn d m with
  | zero =>
    refine ⟨.refl d m _ _, fun _ q hq hlt => ?_⟩
    simp only [pgsize] at hfuel hlt
    omega
  | succ fuel ih =>
    rw [deallocLoop]
    split_ifs with hlt ht
    · have hpn : pn < 2 ^ 19 := by
        simp only [pgsize, kernbase] at hlt hold
        omega
      have hpn' : pn < 2 ^ 20 := by omega
      have hnext : pn * pgsize + pgsize = (pn + 1) * pgsize := by ring
      have htab : (d.pde (pn / nentries)).isSome := by
        rw [← Pgdir.hasTable_eq hpn', ht]
      -- the next page is in the same table, or begins one
      have hstart : ∀ {d' : Pgdir}, (∀ i, (d'.pde i).isSome = (d.pde i).isSome) →
          (d'.pde ((pn + 1) / nentries)).isSome ∨ (pn + 1) % nentries = 0 := by
        intro d' hd'
        by_cases hmod : (pn + 1) % nentries = 0
        · exact .inr hmod
        · refine .inl ?_
          rw [hd', show (pn + 1) / nentries = pn / nentries by simp only [nentries] at hmod ⊢; omega]
          exact htab
      rw [Pgdir.pte_eq hpn', hnext]
      cases he : d.entry pn with
      | none =>
        refine wp_mono (ih hu (by rw [show pn + 1 + fuel = pn + (fuel + 1) by ring]; exact hfuel))
          (fun d' m' h => ?_) fun _ => False.elim
        refine ⟨(Shrinks.refl d m pn oldsz).trans (by omega) h.1, fun _ q hq hq' => ?_⟩
        by_cases hqp : q = pn
        · subst hqp
          rcases h.1.entry q with h' | ⟨h', -⟩
          · rw [h', he]
          · exact h'
        · exact h.2 (hstart fun _ => rfl) q (by omega) hq'
      | some e =>
        obtain ⟨f, hf⟩ := hu pn hpn e he
        obtain ⟨pa, perm⟩ := e
        obtain rfl : pa = .page f := hf
        rw [wp_bind]
        refine wp_mono (Shrinks.kfree hpn hlt he) (fun _ m₁ h₁ => ?_) fun _ => False.elim
        have hu₁ : (d.setPte (pn * pgsize) none).UserPages :=
          hu.mono fun q => (h₁.entry q).imp_right fun h => h.1
        refine wp_mono (ih hu₁ (by rw [show pn + 1 + fuel = pn + (fuel + 1) by ring]; exact hfuel))
          (fun d' m' h => ?_) fun _ => False.elim
        refine ⟨h₁.trans (by omega) h.1, fun _ q hq hq' => ?_⟩
        by_cases hqp : q = pn
        · subst hqp
          rcases h.1.entry q with h' | ⟨h', -⟩
          · rw [h', Pgdir.entry_setPte hpn' ht, if_pos rfl]
          · exact h'
        · exact h.2 (hstart h₁.hasTable) q (by omega) hq'
    · -- no table: the pages of a whole table are left out
      have hpn' : pn < 2 ^ 20 := by
        simp only [pgsize, kernbase] at hlt hold
        omega
      have htab : d.pde (pn / nentries) = none := by
        rw [Pgdir.hasTable_eq hpn'] at ht
        simpa using ht
      have hnext : pn * pgsize + (nentries - 1) * pgsize + pgsize = (pn + nentries) * pgsize := by
        simp only [pgsize, nentries]
        ring
      rw [hnext]
      refine wp_mono (ih hu (hfuel.trans (Nat.mul_le_mul_right _ (by simp only [nentries]; omega))))
        (fun d' m' h => ?_) fun _ => False.elim
      refine ⟨(Shrinks.refl d m pn oldsz).trans (by omega) h.1, fun hs q hq hq' => ?_⟩
      have hmod : pn % nentries = 0 := by
        rcases hs with hs | hs
        · simp [htab] at hs
        · exact hs
      by_cases hin : q < pn + nentries
      · have hsame : q / nentries = pn / nentries := by
          simp only [nentries] at hin hmod ⊢
          omega
        rcases h.1.entry q with h' | ⟨h', -⟩
        · rw [h', Pgdir.entry, hsame, htab]
          rfl
        · exact h'
      · refine h.2 (.inr ?_) q (by omega) hq'
        simp only [nentries] at hmod ⊢
        omega
    · refine ⟨.refl d m _ _, fun _ q hq hq' => ?_⟩
      have := Nat.mul_le_mul_right pgsize hq
      omega

/-! ### `freevm` -/

/-- What `freevm` and `kfree` leave alone. -/
def SameRest (m m' : Mem) : Prop :=
  m'.refuse = m.refuse ∧ m'.calls = m.calls ∧ m'.starved = m.starved ∧ m'.kdata = m.kdata

lemma freeTables_wp (n i : ℕ) : wp (freeTables d n i) (fun _ m' =>
    (m'.free : Multiset Frame) = m.free + Pgdir.frameSum n (fun j => Pgdir.tableOf (d.pde (i + j))) ∧
      SameRest m m') (fun _ => False) m := by
  induction n generalizing i m with
  | zero => exact ⟨by simp [Pgdir.frameSum], rfl, rfl, rfl, rfl⟩
  | succ n ih =>
    have hsum : Pgdir.frameSum (n + 1) (fun j => Pgdir.tableOf (d.pde (i + j))) =
        Pgdir.tableOf (d.pde i) + Pgdir.frameSum n (fun j => Pgdir.tableOf (d.pde (i + 1 + j))) := by
      rw [Pgdir.frameSum, Finset.sum_range_succ', add_comm, Pgdir.frameSum, Nat.add_zero]
      simp only [Nat.add_assoc, Nat.add_comm 1]
    rw [freeTables, hsum]
    cases d.pde i with
    | none =>
      refine wp_post (ih (i + 1)) fun _ m₁ h => ⟨?_, h.2⟩
      rw [h.1, Pgdir.tableOf, zero_add]
    | some t =>
      rw [wp_bind, wp_of_ok (kfree_run ..)]
      refine wp_post (ih (i + 1)) fun _ m₁ h => ⟨?_, h.2⟩
      rw [h.1, Pgdir.tableOf, ← Multiset.cons_coe, ← Multiset.singleton_add]
      abel

/-- **`freevm`** gives back every page of the directory. -/
lemma freevm_wp (hu : d.UserPages) : wp (freevm d) (fun _ m' =>
    (m'.free : Multiset Frame) = m.free + d.frames ∧ SameRest m m') (fun _ => False) m := by
  have hzero : pgroundup 0 = 0 * pgsize := by decide
  rw [freevm, deallocuvm, if_neg (by decide), hzero]
  simp only [wp_bind, wp_map, bind_pure_comp]
  refine wp_mono (deallocLoop_wp hu le_rfl (by norm_num)) (fun d₁ m₁ h₁ => ?_) fun _ => False.elim
  obtain ⟨hs, hnone⟩ := h₁
  have hempty : d₁.pages = 0 := by
    refine Pgdir.frameSum_eq_zero fun q hq => ?_
    rw [hnone (.inr rfl) q (by omega) (by simp only [pgsize, kernbase]; omega)]
    rfl
  rw [wp_bind]
  refine wp_mono (freeTables_wp nentries 0) (fun _ m₂ h₂ => ?_) fun _ => False.elim
  simp only [Nat.zero_add] at h₂
  rw [wp_of_ok (kfree_run ..)]
  refine ⟨?_, h₂.2.1.trans hs.rest.1, h₂.2.2.1.trans hs.rest.2.1, h₂.2.2.2.1.trans hs.rest.2.2.1,
    h₂.2.2.2.2.trans hs.rest.2.2.2⟩
  have hpages := hs.pages
  rw [hempty, add_zero] at hpages
  rw [← Multiset.cons_coe, ← Multiset.singleton_add, h₂.1, hpages, hs.frame, Pgdir.frames, ← hs.tables,
    Pgdir.tables]
  abel

/-! ### `setupkvm` -/

/-- The pages `S`, and no others, are mapped, for the kernel. -/
structure KernelPart (d : Pgdir) (S : ℕ → Prop) : Prop where
  mapped : ∀ q, S q → ∃ no w, d.entry q = some ⟨.raw no, ⟨w, false⟩⟩
  other : ∀ q, ¬ S q → d.entry q = none
  table : ∀ i, (d.pde i).isSome → ∃ q, S q ∧ i = q / nentries

lemma iterate_next_raw (k no : ℕ) : Phys.next^[k] (.raw no) = .raw (no + k) := by
  induction k generalizing no with
  | zero => rfl
  | succ k ih =>
    rw [Function.iterate_succ_apply, Phys.next, ih]
    congr 1
    ring

/-- One entry of `kmap` is mapped. -/
lemma KernelPart.mappages {S : ℕ → Prop} {n no : ℕ} {w : Bool} (h : KernelPart d S) (hn : 0 < n)
    (hpn : pn + n ≤ 2 ^ 20) (hfree : ∀ q, pn ≤ q → q < pn + n → ¬ S q) :
    wp (mappages d (pn * pgsize) (n * pgsize) (.raw no) ⟨w, false⟩) (fun r m' =>
      Extends d r.2 m m' (fun q => pn ≤ q ∧ q < pn + n) ∧ m'.starved = (m.starved || !r.1) ∧
        (r.1 = true → KernelPart r.2 fun q => S q ∨ pn ≤ q ∧ q < pn + n)) (fun _ => False) m := by
  rw [mappages_eq hn hpn]
  refine wp_mono (mapLoop_wp hpn) ?_ ?_
  · rintro ⟨ok, d'⟩ m' ⟨hext, hst, k, -, hok, -, hentry⟩
    refine ⟨hext, hst, fun htrue => ?_⟩
    obtain rfl := hok.1 htrue
    refine ⟨fun q hq => ?_, fun q hq => ?_, fun i hi => ?_⟩
    · rw [hentry]
      split_ifs with hin
      · exact ⟨_, w, by rw [iterate_next_raw]⟩
      · exact h.mapped q (hq.resolve_right hin)
    · rw [not_or] at hq
      rw [hentry, if_neg hq.2]
      exact h.other q hq.1
    · rcases hext.only i hi with hi | ⟨q, hq, he⟩
      · obtain ⟨q, hq, he⟩ := h.table i hi
        exact ⟨q, .inl hq, he⟩
      · exact ⟨q, .inr hq, he⟩
  · rintro _ ⟨k, hk, hsome⟩
    rw [h.other _ (hfree (pn + k) (by omega) (by omega))] at hsome
    simp at hsome

/-- The pages that the kernel maps. -/
def KernelPage (q : ℕ) : Prop := 0x80000 ≤ q ∧ q < 0x8E000 ∨ 0xFE000 ≤ q ∧ q < 0x100000

/-- What has become of the pages that were free: `lost` are gone, and some are exactly if there was no
page for a page table. -/
def Lost (m m' : Mem) (lost : Multiset Frame) : Prop :=
  lost = 0 ∧ m'.starved = m.starved ∨ lost ≠ 0 ∧ m'.starved = true

/-- What no function of `vm.c` changes but by calling `kalloc`. -/
def SameData (m m' : Mem) : Prop := m'.data = m.data ∧ m'.refuse = m.refuse ∧ m'.kdata = m.kdata

/-- A new directory with only the kernel part, or what is left if there is none. -/
def NewDir (m : Mem) (r : Option Pgdir) (m' : Mem) : Prop :=
  SameData m m' ∧
  match r with
  | none => ∃ lost, (m'.free : Multiset Frame) + lost = m.free ∧ Lost m m' lost
  | some d => (m'.free : Multiset Frame) + ({d.frame} + d.tables) = m.free ∧
      m'.starved = m.starved ∧ KernelPart d KernelPage

/-- The loop of `setupkvm`, for one entry of `kmap`. -/
lemma kmapLoop_cons_wp {S : ℕ → Prop} {k : Kmap} {ks : List Kmap} {m₀ : Mem} {n : ℕ}
    (h : KernelPart d S) (hk : k.virt = pn * pgsize) (hkn : k.pages = n) (hn : 0 < n)
    (hpn : pn + n ≤ 2 ^ 20) (hfree : ∀ q, pn ≤ q → q < pn + n → ¬ S q)
    (hm : SameData m₀ m ∧ (m.free : Multiset Frame) + ({d.frame} + d.tables) = m₀.free ∧
      m.starved = m₀.starved)
    (hrest : ∀ d' m', KernelPart d' (fun q => S q ∨ pn ≤ q ∧ q < pn + n) →
      SameData m₀ m' ∧ (m'.free : Multiset Frame) + ({d'.frame} + d'.tables) = m₀.free ∧
        m'.starved = m₀.starved → wp (kmapLoop ks d') (NewDir m₀) (fun _ => False) m') :
    wp (kmapLoop (k :: ks) d) (NewDir m₀) (fun _ => False) m := by
  obtain ⟨⟨hdata, hrefuse, hkdata⟩, hbal, hst⟩ := hm
  rw [kmapLoop, hk, hkn, wp_bind]
  refine wp_mono (h.mappages hn hpn hfree) ?_ fun _ => False.elim
  rintro ⟨ok, d'⟩ m' ⟨hext, hst', hkern⟩
  have hsame : SameData m₀ m' :=
    ⟨hext.data.trans hdata, hext.refuse.trans hrefuse, hext.kdata.trans hkdata⟩
  have hbal' : (m'.free : Multiset Frame) + ({d'.frame} + d'.tables) = m₀.free := by
    rw [← hbal, hext.frame]
    have := hext.tables
    calc (m'.free : Multiset Frame) + ({d.frame} + d'.tables)
        = {d.frame} + ((m'.free : Multiset Frame) + d'.tables) := by abel
      _ = (m.free : Multiset Frame) + ({d.frame} + d.tables) := by
        rw [this]
        abel
  cases ok with
  | false =>
    -- the directory and its tables are lost
    generalize hl : ({d'.frame} : Multiset Frame) + d'.tables = lost at hbal'
    refine ⟨hsame, lost, hbal', .inr ⟨?_, hst'.trans (Bool.or_true _)⟩⟩
    rintro rfl
    have hcard := congrArg Multiset.card hl
    rw [Multiset.card_add, Multiset.card_singleton, Multiset.card_zero] at hcard
    omega
  | true => exact hrest d' m' (hkern rfl) ⟨hsame, hbal', (hst'.trans (Bool.or_false _)).trans hst⟩

lemma KernelPart.congr {S S' : ℕ → Prop} (h : KernelPart d S) (hS : ∀ q, S q ↔ S' q) :
    KernelPart d S' := by
  rwa [← funext fun q => propext (hS q)]

/-- **`setupkvm`.** -/
lemma setupkvm_wp : wp setupkvm (NewDir m) (fun _ => False) m := by
  rw [setupkvm, wp_bind]
  rcases kalloc_cases m with ⟨-, hk⟩ | ⟨f, m₁, ⟨hfree, -, hm₁⟩, hk⟩
  · rw [wp_of_ok hk]
    exact ⟨⟨rfl, rfl, rfl⟩, 0, by simp, .inl ⟨rfl, rfl⟩⟩
  · rw [wp_of_ok hk]
    rw [wp_bind, wp_get]
    obtain ⟨hlo, hhi⟩ := m₁.kdata.2
    have hstart : SameData m m₁ ∧ (m₁.free : Multiset Frame) +
        ({(⟨f, fun _ => none⟩ : Pgdir).frame} + (⟨f, fun _ => none⟩ : Pgdir).tables) = m.free ∧
        m₁.starved = m.starved := by
      refine ⟨⟨by rw [hm₁], by rw [hm₁], by rw [hm₁]⟩, ?_, by rw [hm₁]⟩
      have hnone : (⟨f, fun _ => none⟩ : Pgdir).tables = 0 :=
        Pgdir.frameSum_eq_zero fun i _ => rfl
      rw [hnone, hfree, ← Multiset.cons_coe, ← Multiset.singleton_add]
      abel
    have hempty : KernelPart ⟨f, fun _ => none⟩ fun _ => False :=
      ⟨fun _ h => h.elim, fun _ _ => rfl, fun i hi => by simp at hi⟩
    refine kmapLoop_cons_wp hempty (by norm_num : _ = 0x80000 * pgsize) (rfl : _ = 0x100) (by norm_num)
      (by norm_num) (fun _ _ _ => id) hstart fun d₁ m₁' h₁ hm₁' => ?_
    refine kmapLoop_cons_wp h₁ (by norm_num : _ = 0x80100 * pgsize) (rfl : _ = m₁.kdata.1 - 0x100)
      (by omega) (by omega) (fun q _ _ => by simp only [false_or]; omega) hm₁' fun d₂ m₂ h₂ hm₂ => ?_
    refine kmapLoop_cons_wp h₂ (show _ = (0x80000 + m₁.kdata.1) * pgsize by simp only [kernbase]; ring)
      (rfl : _ = 0xE000 - m₁.kdata.1) (by omega) (by omega)
      (fun q _ _ => by simp only [false_or]; omega) hm₂ fun d₃ m₃ h₃ hm₃ => ?_
    refine kmapLoop_cons_wp h₃ (by norm_num : _ = 0xFE000 * pgsize) (rfl : _ = 0x2000) (by norm_num)
      (by norm_num) (fun q _ _ => by simp only [false_or]; omega) hm₃ fun d₄ m₄ h₄ hm₄ => ?_
    refine ⟨hm₄.1, hm₄.2.1, hm₄.2.2, h₄.congr fun q => ?_⟩
    simp only [KernelPage, false_or]
    omega

end Col331
