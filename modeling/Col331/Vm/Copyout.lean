import Col331.Vm.Exec

/-!
`copyout` of `vm.c` on an arbitrary range of addresses.

* `Pgdir.user`, `Pgdir.place`: the page that a user reads at an address, and the byte of it.
* `copyout_spec`: `copyout` goes on to the first address of the range that is not one of a user
  page.  It returns -1 there if the directory has a page table for the address, and reads through a
  null pointer if it has none.
* `CopiesOut`, `copyout_iff`: what `copyout` is for, and the ranges on which it does that.
-/

namespace Col331

open Function Prog

namespace Pgdir

/-- The page with the address `a`, if it is present and the user may access it. -/
def user (d : Pgdir) (a : ℕ) : Option Frame :=
  match d.pte a with
  | some ⟨.page f, ⟨_, true⟩⟩ => some f
  | _ => none

/-- The page and the offset in it of the address `a`. -/
def place (d : Pgdir) (a : ℕ) : Option (Frame × ℕ) := (d.user a).map fun f => (f, a % pgsize)

/-- What does not come from `kalloc` is mapped for the kernel only. -/
def RawForKernel (d : Pgdir) : Prop := ∀ a no w, d.pte a ≠ some ⟨.raw no, ⟨w, true⟩⟩

/-- `va + i` is the first address from `va` on that is not in a page of the user. -/
def FirstBad (d : Pgdir) (va i : ℕ) : Prop :=
  d.user (va + i) = none ∧ ∀ j < i, (d.user (va + j)).isSome

variable {d : Pgdir} {a b va i k : ℕ} {f : Frame}

section

variable (h : a / pgsize = b / pgsize)

include h

lemma pdx_of_page : pdx a = pdx b := by
  simp only [pdx, pgsize, nentries] at h ⊢
  omega

lemma pte_of_page : d.pte a = d.pte b := by
  rw [pte, pte, ptx, ptx, pdx_of_page h, h]

lemma user_of_page : d.user a = d.user b := by
  rw [user, user, pte_of_page h]

lemma hasTable_of_page : d.hasTable a = d.hasTable b := by
  rw [hasTable, hasTable, pdx_of_page h]

end

lemma place_eq_some {o : ℕ} : d.place a = some (f, o) ↔ d.user a = some f ∧ a % pgsize = o := by
  rw [place]
  cases d.user a <;> simp

/-- Addresses in the page of `a`. -/
lemma add_of_page (h : a % pgsize + k < pgsize) :
    (a + k) / pgsize = a / pgsize ∧ (a + k) % pgsize = a % pgsize + k := by
  simp only [pgsize] at h ⊢
  omega

lemma FirstBad.add (h : d.FirstBad (va + k) i) (hk : ∀ j < k, (d.user (va + j)).isSome) :
    d.FirstBad va (k + i) := by
  refine ⟨by rw [← Nat.add_assoc]; exact h.1, fun j hj => ?_⟩
  rcases Nat.lt_or_ge j k with hjk | hjk
  · exact hk j hjk
  · have := h.2 (j - k) (by omega)
    rwa [show va + k + (j - k) = va + j by omega] at this

lemma FirstBad.unique (h : d.FirstBad va i) (hk : d.FirstBad va k) : i = k := by
  rcases Nat.lt_trichotomy i k with hlt | he | hlt
  · exact absurd (hk.2 i hlt) (by simp [h.1])
  · exact he
  · exact absurd (h.2 k hlt) (by simp [hk.1])

end Pgdir

variable {d : Pgdir} {va : ℕ} {buf xs ys : List UInt8} {m m₁ m₂ : Mem} {f : Frame}

/-! ### What is written -/

/-- The byte at offset `o` of the page `f`. -/
def Mem.byteAt (m : Mem) (f : Frame) (o : ℕ) : UInt8 := (m.data f).byte o

/-- `buf` has been stored from `va` on: where one byte of a page has several addresses in the range,
one of the bytes for it is there. -/
def Written (d : Pgdir) (va : ℕ) (buf : List UInt8) (m m' : Mem) : Prop :=
  ∀ f, ∀ o < pgsize,
    (∃ j, ∃ h : j < buf.length, d.place (va + j) = some (f, o) ∧ m'.byteAt f o = buf[j]) ∨
      (∀ j < buf.length, d.place (va + j) ≠ some (f, o)) ∧ m'.byteAt f o = m.byteAt f o

lemma Written.append {n : ℕ} (h₁ : Written d va xs m m₁) (hn : xs.length = n)
    (h₂ : Written d (va + n) ys m₁ m₂) : Written d va (xs ++ ys) m m₂ := by
  subst hn
  intro f o ho
  rcases h₂ f o ho with ⟨j, hj, hp, hb⟩ | ⟨hout, hb⟩
  · refine .inl ⟨xs.length + j, by simpa using hj, by rwa [← Nat.add_assoc], ?_⟩
    rw [hb, List.getElem_append_right (by omega)]
    simp
  · rcases h₁ f o ho with ⟨j, hj, hp, hb'⟩ | ⟨hout', hb'⟩
    · refine .inl ⟨j, by rw [List.length_append]; omega, hp, ?_⟩
      rw [hb, hb', List.getElem_append_left hj]
    · refine .inr ⟨fun j hj => ?_, hb.trans hb'⟩
      rcases Nat.lt_or_ge j xs.length with hjx | hjx
      · exact hout' j hjx
      · have := hout (j - xs.length) (by rw [List.length_append] at hj; omega)
        rwa [show va + xs.length + (j - xs.length) = va + j by omega] at this

/-- A store inside one page. -/
lemma written_store (hf : d.user va = some f) (hlen : va % pgsize + buf.length ≤ pgsize) :
    Written d va buf m
      { m with data := update m.data f ((m.data f).splice (va % pgsize) buf) } := by
  have hplace : ∀ j < buf.length, d.place (va + j) = some (f, va % pgsize + j) := fun j hj =>
    have ⟨hpage, hoff⟩ := Pgdir.add_of_page (a := va) (k := j) (by omega)
    Pgdir.place_eq_some.2 ⟨(Pgdir.user_of_page hpage).trans hf, hoff⟩
  intro g o ho
  by_cases hg : g = f
  · subst hg
    rw [Mem.byteAt, Mem.byteAt]
    simp only [update_self]
    by_cases hin : va % pgsize ≤ o ∧ o < va % pgsize + buf.length
    · refine .inl ⟨o - va % pgsize, by omega, ?_, ?_⟩
      · rw [hplace _ (by omega), show va % pgsize + (o - va % pgsize) = o by omega]
      · rw [Bytes.byte_splice _ _ _ ho, if_pos hin, List.getD_eq_getElem]
    · refine .inr ⟨fun j hj he => ?_, Bytes.byte_splice_of_disjoint _ (by omega)⟩
      rw [hplace j hj] at he
      have : va % pgsize + j = o := by simpa using he
      omega
  · refine .inr ⟨fun j hj he => hg ?_, by simp [Mem.byteAt, hg]⟩
    rw [hplace j hj] at he
    exact (congrArg Prod.fst (Option.some.inj he)).symm

/-! ### The loop -/

/-- **`copyout` goes on to the first address that is not in a page of the user.** -/
lemma copyout_spec (hd : d.RawForKernel) : ∀ {fuel va : ℕ} {buf : List UInt8} {m : Mem},
    buf.length ≤ fuel → va + buf.length ≤ 2 ^ 32 →
      wp (copyout d fuel va buf)
        (fun ok m' =>
          if ok then (∀ i < buf.length, (d.user (va + i)).isSome) ∧ Written d va buf m m'
          else ∃ i < buf.length, d.FirstBad va i ∧ d.hasTable (va + i) = true)
        (fun _ => ∃ i < buf.length, d.FirstBad va i ∧ d.hasTable (va + i) = false) m
  | 0, va, buf, m, hfuel, _ => by
    obtain rfl := List.eq_nil_of_length_eq_zero (Nat.le_zero.1 hfuel)
    exact ⟨by simp, fun f o _ => .inr ⟨by simp, rfl⟩⟩
  | fuel + 1, va, buf, m, hfuel, hva => by
    have hpage : pgrounddown va / pgsize = va / pgsize := by simp [pgrounddown]
    rw [copyout]
    by_cases hnil : buf = []
    · rw [if_pos hnil]
      subst hnil
      exact ⟨by simp, fun f o _ => .inr ⟨by simp, rfl⟩⟩
    have hlen := List.length_pos_iff.2 hnil
    rw [if_neg hnil]
    dsimp only
    rw [Pgdir.hasTable_of_page hpage, Pgdir.pte_of_page hpage]
    by_cases ht : d.hasTable va = false
    · -- no table: the entry is read all the same
      rw [if_pos ht]
      have hp : d.pte va = none := by
        rw [Pgdir.hasTable, Option.isSome_eq_false_iff, Option.isNone_iff_eq_none] at ht
        rw [Pgdir.pte, ht, Option.bind_none]
      exact ⟨0, hlen, ⟨by rw [Nat.add_zero, Pgdir.user, hp], by simp⟩, ht⟩
    · rw [if_neg ht]
      rw [Bool.not_eq_false] at ht
      have hbad (hu : d.user va = none) : ∃ i < buf.length,
          d.FirstBad va i ∧ d.hasTable (va + i) = true := ⟨0, hlen, ⟨hu, by simp⟩, ht⟩
      split
      next f w hp =>
        have hu : d.user va = some f := by rw [Pgdir.user, hp]
        have hoff : va - pgrounddown va = va % pgsize := by
          simp only [pgrounddown, pgsize]
          omega
        have hmod := Nat.mod_lt va (show 0 < pgsize by decide)
        rw [hoff]
        set n := min (pgsize - va % pgsize) buf.length with hn
        have htake : (buf.take n).length = n := by rw [List.length_take]; omega
        have hfirst : ∀ j < n, (d.user (va + j)).isSome := fun j hj => by
          rw [Pgdir.user_of_page (Pgdir.add_of_page (by omega)).1, hu]
          rfl
        have hw : Written d va (buf.take n) m _ := written_store hu (by omega)
        rw [wp_bind, store, wp_modify]
        by_cases hend : n = buf.length
        · -- the last page of the range
          have hdrop : buf.drop n = [] := List.drop_eq_nil_of_le (by omega)
          rw [List.take_of_length_le (by omega)] at hw ⊢
          have hdone (fuel a : ℕ) : copyout d fuel a [] = pure true := by
            cases fuel with
            | zero => rw [copyout]
            | succ fuel => rw [copyout, if_pos rfl]
          rw [hdrop, hdone]
          exact ⟨fun j hj => hfirst j (by omega), hw⟩
        · have hnext : (pgrounddown va + pgsize) % 2 ^ 32 = va + n := by
            simp only [pgrounddown, pgsize] at hn hmod hoff ⊢
            omega
          have hrest : (buf.drop n).length = buf.length - n := List.length_drop
          rw [hnext]
          refine wp_mono (copyout_spec hd (by omega) (by omega)) (fun ok m' h => ?_) fun e h => ?_
          · cases ok with
            | true =>
              refine ⟨fun j hj => ?_, ?_⟩
              · rcases Nat.lt_or_ge j n with hjn | hjn
                · exact hfirst j hjn
                · have := h.1 (j - n) (by omega)
                  rwa [show va + n + (j - n) = va + j by omega] at this
              · have := hw.append htake h.2
                rwa [List.take_append_drop] at this
            | false =>
              obtain ⟨i, hi, hb, ht⟩ := h
              exact ⟨n + i, by omega, hb.add hfirst, by rwa [← Nat.add_assoc]⟩
          · obtain ⟨i, hi, hb, ht⟩ := h
            exact ⟨n + i, by omega, hb.add hfirst, by rwa [← Nat.add_assoc]⟩
      next no w hp => exact absurd hp (hd _ _ _)
      next pa w hp => exact hbad (by cases pa <;> rw [Pgdir.user, hp])
      next hp => exact hbad (by rw [Pgdir.user, hp])

/-! ### The ranges on which `copyout` is right -/

/-- What `copyout` is for: it copies the buffer if all of the range is in pages of the user, and
returns -1 if not. -/
def CopiesOut (d : Pgdir) (va : ℕ) (buf : List UInt8) (m : Mem) : Prop :=
  ((∀ i < buf.length, (d.user (va + i)).isSome) → ∃ m',
    copyout d buf.length va buf m = .ok (true, m') ∧
    (∀ i, ∀ h : i < buf.length, ∀ f o, d.place (va + i) = some (f, o) →
      m'.byteAt f o = buf[i]) ∧
    ∀ f, ∀ o < pgsize, (∀ i < buf.length, d.place (va + i) ≠ some (f, o)) →
      m'.byteAt f o = m.byteAt f o) ∧
  ((¬ ∀ i < buf.length, (d.user (va + i)).isSome) → ∃ m',
    copyout d buf.length va buf m = .ok (false, m'))

/-- No byte of a page has two addresses in the range with different bytes for it. -/
def Agreeing (d : Pgdir) (va : ℕ) (buf : List UInt8) : Prop :=
  ∀ i j, ∀ hi : i < buf.length, ∀ hj : j < buf.length,
    (d.place (va + i)).isSome → d.place (va + i) = d.place (va + j) → buf[i] = buf[j]

/-- **`copyout` is right on a range if and only if there is a page table for the first address that
is not in a page of the user, and pages that are mapped twice do not matter.** -/
theorem copyout_iff (d : Pgdir) (va : ℕ) (buf : List UInt8) (m : Mem) (hd : d.RawForKernel)
    (hva : va + buf.length ≤ 2 ^ 32) :
    CopiesOut d va buf m ↔
      (∀ i < buf.length, d.FirstBad va i → d.hasTable (va + i) = true) ∧
        ((∀ i < buf.length, (d.user (va + i)).isSome) → Agreeing d va buf) := by
  have hspec := copyout_spec hd (m := m) le_rfl hva
  rw [CopiesOut]
  constructor
  · rintro ⟨hall, hsome⟩
    constructor
    · intro i hi hbad
      have hnot : ¬ ∀ i < buf.length, (d.user (va + i)).isSome := fun h => by
        simpa [hbad.1] using h i hi
      obtain ⟨m', hm⟩ := hsome hnot
      obtain ⟨k, -, hk, ht⟩ := (wp_of_ok hm).1 hspec
      rwa [hbad.unique hk]
    · intro h i j hi hj hp he
      obtain ⟨m', -, hb, -⟩ := hall h
      obtain ⟨⟨f, o⟩, hfo⟩ := Option.isSome_iff_exists.1 hp
      rw [← hb i hi f o hfo, hb j hj f o (he ▸ hfo)]
  · rintro ⟨htable, hagree⟩
    obtain ⟨r, m', hm, hpost⟩ := hspec.exists_ok fun e ⟨i, hi, hbad, ht⟩ => by
      simpa [ht] using htable i hi hbad
    cases r with
    | true =>
      obtain ⟨hall, hw⟩ := hpost
      refine ⟨fun _ => ⟨m', hm, fun i hi f o hp => ?_, fun f o ho hn => ?_⟩, fun h => absurd hall h⟩
      · have ho : o < pgsize := by
          rw [← (Pgdir.place_eq_some.1 hp).2]
          exact Nat.mod_lt _ (by decide)
        rcases hw f o ho with ⟨j, hj, hpj, hb⟩ | ⟨hn, -⟩
        · rw [hb]
          exact hagree hall j i hj hi (by simp [hpj]) (hpj.trans hp.symm)
        · exact absurd hp (hn i hi)
      · rcases hw f o ho with ⟨j, hj, hpj, -⟩ | ⟨-, hb⟩
        · exact absurd hpj (hn j hj)
        · exact hb
    | false =>
      obtain ⟨i, hi, hbad, -⟩ := hpost
      exact ⟨fun h => absurd (h i hi) (by simp [hbad.1]), fun _ => ⟨m', hm⟩⟩

/-- A directory with no page table but the first. -/
def pageDir : Pgdir :=
  ⟨⟨0x200, frame200⟩, fun i => if i = 0 then
    some ⟨⟨0x201, frame201⟩, fun _ => some ⟨.page ⟨0x202, by decide⟩, ⟨true, true⟩⟩⟩ else none⟩

lemma pageDir_raw : pageDir.RawForKernel := fun a no w h => by
  rw [Pgdir.pte, pageDir] at h
  dsimp only at h
  split_ifs at h <;> simp at h

theorem copyout_iff_pageDir : pageDir.RawForKernel ∧ CopiesOut pageDir 5 [7] (Mem.fresh []) := by
  refine ⟨pageDir_raw, (copyout_iff pageDir 5 [7] (Mem.fresh []) pageDir_raw (by decide)).2
    ⟨fun i hi hb => ?_, fun _ => ?_⟩⟩
  · obtain rfl : i = 0 := by simpa using hi
    rfl
  · intro i j hi hj _ _
    obtain rfl : i = 0 := by simpa using hi
    obtain rfl : j = 0 := by simpa using hj
    rfl

/-- **Behind the first 4 MB, `copyout` reads through a null pointer.** -/
theorem copyout_no_table : ¬ ∀ (d : Pgdir) (va : ℕ) (buf : List UInt8) (m : Mem), d.RawForKernel →
    va + buf.length ≤ 2 ^ 32 → CopiesOut d va buf m := by
  intro h
  obtain ⟨m', hm⟩ := (h pageDir 0x400000 [7] (Mem.fresh []) pageDir_raw (by decide)).2 fun h =>
    absurd (h 0 (by decide)) (by decide)
  have hc : copyout pageDir 1 0x400000 [7] (Mem.fresh []) = .error .wild := rfl
  exact absurd (hc.symm.trans hm) nofun

end Col331
