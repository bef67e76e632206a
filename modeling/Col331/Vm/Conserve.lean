import Col331.Vm.Exec
import Col331.Vm.Uvm

/-!
`fork` and `exec` give back every page when they fail, unless there was no page for a page table.

* `Balance`: the pages of a directory and the free ones, before and after, up to those lost.
* `allocuvm_kept`, `copyuvm_balance`, `execFile_balance`: what is lost, function by function.
* `fork_exec_conserve`: **what fails leaves the free pages as they were**, exactly if `walkpgdir` got the
  pages it asked for.
-/

namespace Col331

open Prog

variable {d : Pgdir} {m m' : Mem} {pn : ℕ}

/-! ### Balances -/

/-- Held are the pages `a` before and `b` after, and none is lost but where `walkpgdir` got no page. -/
def Balance (m m' : Mem) (a b : Multiset Frame) : Prop :=
  ∃ lost, (m'.free : Multiset Frame) + b + lost = m.free + a ∧ Lost m m' lost

lemma Balance.of_eq {a b : Multiset Frame} (h : (m'.free : Multiset Frame) + b = m.free + a)
    (hst : m'.starved = m.starved) : Balance m m' a b :=
  ⟨0, by rw [add_zero, h], .inl ⟨rfl, hst⟩⟩

lemma Balance.trans {m₁ m₂ m₃ : Mem} {a b c : Multiset Frame} (h : Balance m₁ m₂ a b)
    (h' : Balance m₂ m₃ b c) : Balance m₁ m₃ a c := by
  obtain ⟨l, hl, hlost⟩ := h
  obtain ⟨l', hl', hlost'⟩ := h'
  refine ⟨l + l', ?_, ?_⟩
  · calc (m₃.free : Multiset Frame) + c + (l + l')
        = (m₃.free : Multiset Frame) + c + l' + l := by abel
      _ = (m₁.free : Multiset Frame) + a := by rw [hl', hl]
  · rcases hlost with ⟨h₁, h₂⟩ | ⟨h₁, h₂⟩
    · rw [Lost, h₁, zero_add, ← h₂]
      exact hlost'
    · refine .inr ⟨fun he => h₁ (add_eq_zero.mp he).1, ?_⟩
      rcases hlost' with ⟨-, h₃⟩ | ⟨-, h₃⟩
      · rw [h₃, h₂]
      · exact h₃

/-- Nothing happens to the free pages. -/
lemma Balance.of_same {a : Multiset Frame} (hf : m'.free = m.free) (hst : m'.starved = m.starved) :
    Balance m m' a a := .of_eq (by rw [hf]) hst

/-- What a directory has become, with nothing lost but where `walkpgdir` got no page. -/
def Kept (m m' : Mem) (d d' : Pgdir) : Prop := Balance m m' d.frames d'.frames ∧ d'.UserPages

/-! ### `allocuvm` -/

/-- A page is mapped, or left over. -/
lemma mappages_page_wp {f : Frame} {perm : Perm} (hu : d.UserPages) (hpn : pn < 2 ^ 19) :
    wp (mappages d (pn * pgsize) pgsize (.page f) perm) (fun r m' =>
      (m'.free : Multiset Frame) + r.2.frames + (if r.1 = true then 0 else {f}) =
        m.free + d.frames + {f} ∧ m'.starved = (m.starved || !r.1) ∧ r.2.UserPages)
      (fun _ => True) m := by
  refine wp_mono (mappages_one_wp (by omega)) ?_ fun _ _ => trivial
  rintro ⟨ok, d'⟩ m' ⟨hext, hst, hnone, hentry⟩
  have htables := hext.tables
  refine ⟨?_, hst, fun q hq e he => ?_⟩
  · have hpages : d'.pages + (if ok = true then 0 else {f}) = d.pages + {f} := by
      cases ok with
      | false =>
        rw [if_neg (by simp), Pgdir.pages_congr fun q _ => (hentry q).trans (if_neg (by simp))]
      | true =>
        have hchange : d'.pages + Pgdir.pageOf (d.entry pn) = d.pages + {f} :=
          Pgdir.pages_change (e := some ⟨.page f, perm⟩) hpn fun q => by
            rw [hentry]
            simp only [and_true]
        rw [hnone rfl] at hchange
        rw [if_pos rfl]
        exact hchange
    rw [Pgdir.frames, Pgdir.frames, hext.frame]
    calc (m'.free : Multiset Frame) + ({d.frame} + d'.tables + d'.pages) + (if ok = true then 0 else {f})
        = {d.frame} + ((m'.free : Multiset Frame) + d'.tables) +
            (d'.pages + (if ok = true then 0 else {f})) := by abel
      _ = (m.free : Multiset Frame) + ({d.frame} + d.tables + d.pages) + {f} := by
        rw [htables, hpages]
        abel
  · rw [hentry] at he
    split_ifs at he with hif
    · cases he
      exact ⟨f, rfl⟩
    · exact hu q hq e he

/-- `deallocuvm` loses nothing. -/
lemma deallocuvm_kept {oldsz newsz : ℕ} (hu : d.UserPages) (hold : oldsz ≤ kernbase) :
    wp (deallocuvm d oldsz newsz) (fun r m' => Kept m m' d r.2) (fun _ => False) m := by
  rw [deallocuvm]
  split_ifs with hle
  · exact ⟨.of_same rfl rfl, hu⟩
  · simp only [bind_pure_comp, wp_map]
    have hfuel : oldsz ≤ ((newsz + pgsize - 1) / pgsize + (oldsz / pgsize + 1)) * pgsize := by
      simp only [pgsize]
      omega
    refine wp_post (deallocLoop_wp hu hold hfuel) fun d' m' h => ?_
    refine ⟨.of_eq ?_ h.1.rest.2.2.1, hu.mono fun q => (h.1.entry q).imp_right And.left⟩
    rw [Pgdir.frames, Pgdir.frames, h.1.frame, h.1.tables]
    calc (m'.free : Multiset Frame) + ({d.frame} + d.tables + d'.pages)
        = {d.frame} + d.tables + ((m'.free : Multiset Frame) + d'.pages) := by abel
      _ = (m.free : Multiset Frame) + ({d.frame} + d.tables + d.pages) := by
        rw [h.1.pages]
        abel

/-- A page from `kalloc` is taken into the directory, or lost. -/
lemma Balance.grow {m₁ m₂ : Mem} {d' : Pgdir} {f : Frame} {ok : Bool} (hg : m.Gets f m₁)
    (h : (m₂.free : Multiset Frame) + d'.frames + (if ok = true then 0 else {f}) =
      m₁.free + d.frames + {f}) (hst : m₂.starved = (m₁.starved || !ok)) :
    Balance m m₂ d.frames d'.frames := by
  have hfree : (m.free : Multiset Frame) = m₁.free + {f} := by
    rw [hg.1, ← Multiset.cons_coe, ← Multiset.singleton_add, add_comm]
  have hst₁ : m₁.starved = m.starved := by rw [hg.2.2]
  refine ⟨if ok = true then 0 else {f}, ?_, ?_⟩
  · rw [h, hfree]
    abel
  · cases ok with
    | false => exact .inr ⟨Multiset.singleton_ne_zero f, hst.trans (Bool.or_true _)⟩
    | true => exact .inl ⟨rfl, (hst.trans (Bool.or_false _)).trans hst₁⟩

lemma allocLoop_kept {oldsz newsz fuel : ℕ} (hu : d.UserPages) (hnew : newsz < kernbase) :
    wp (allocLoop oldsz newsz fuel (pn * pgsize) d) (fun r m' => Kept m m' d r.2)
      (fun _ => True) m := by
  induction fuel generalizing pn d m with
  | zero => exact ⟨.of_same rfl rfl, hu⟩
  | succ fuel ih =>
    rw [allocLoop]
    split_ifs with hlt
    · rw [wp_bind]
      rcases kalloc_cases m with ⟨-, hk⟩ | ⟨f, m₁, hg, hk⟩
      · rw [wp_of_ok hk]
        simp only [bind_pure_comp, wp_map]
        exact wp_mono (deallocuvm_kept hu hnew.le) (fun _ _ h => h) fun _ => False.elim
      · rw [wp_of_ok hk]
        have hpn : pn < 2 ^ 19 := by
          simp only [pgsize, kernbase] at hlt hnew
          omega
        rw [wp_bind, fill, wp_modify]
        refine wp_seq (mappages_page_wp hu hpn) ?_
        rintro ⟨ok, d₁⟩ m₂ ⟨hbal, hst, hu₁⟩
        have hnext : pn * pgsize + pgsize = (pn + 1) * pgsize := by ring
        rw [hnext]
        refine wp_post (ih hu₁) fun r m' h => ?_
        exact ⟨(Balance.grow hg hbal hst).trans h.1, h.2⟩
    · exact ⟨.of_same rfl rfl, hu⟩

/-- **`allocuvm`** loses nothing but where `walkpgdir` gets no page. -/
lemma allocuvm_kept {oldsz newsz : ℕ} (hu : d.UserPages) :
    wp (allocuvm d oldsz newsz) (fun r m' => Kept m m' d r.2) (fun _ => True) m := by
  rw [allocuvm]
  split_ifs with hnew hle
  · exact ⟨.of_same rfl rfl, hu⟩
  · exact ⟨.of_same rfl rfl, hu⟩
  · exact allocLoop_kept hu (by omega)

/-! ### `exec` -/

/-- The free pages, and whether `walkpgdir` has got what it asked for. -/
def Mem.account (m : Mem) : List Frame × Bool := (m.free, m.starved)

lemma Kept.of_account {d' : Pgdir} (h : m'.account = m.account) (hf : d'.frames = d.frames)
    (hu : d'.UserPages) : Kept m m' d d' := by
  rw [Kept, hf]
  exact ⟨.of_same (congrArg Prod.fst h) (congrArg Prod.snd h), hu⟩

lemma Kept.trans {m₁ m₂ m₃ : Mem} {d₁ d₂ d₃ : Pgdir} (h : Kept m₁ m₂ d₁ d₂) (h' : Kept m₂ m₃ d₂ d₃) :
    Kept m₁ m₃ d₁ d₃ := ⟨h.1.trans h'.1, h'.2⟩

lemma store_keeps {f : Frame} {i : ℕ} {bs : List UInt8} : Keeps Mem.account (store f i bs) :=
  .modify fun _ => rfl

lemma loadLoop_keeps {ip : Image} {addr offset sz fuel i : ℕ} :
    Keeps Mem.account (loadLoop d addr ip offset sz fuel i) := by
  induction fuel generalizing i with
  | zero => exact .pure _
  | succ fuel ih =>
    rw [loadLoop]
    refine .ite (.ite (.throw _) ?_) (.pure _)
    dsimp only
    cases ip.readi ((offset + i) % 2 ^ 32) (if sz - i < pgsize then sz - i else pgsize) with
    | none => exact .pure _
    | some bs =>
      have hrest := Keeps.ite (c := bs.length ≠ if sz - i < pgsize then sz - i else pgsize)
        (.pure false) (ih (i := i + pgsize))
      dsimp only
      split
      · exact .bind store_keeps fun _ => hrest
      · exact .ite (.bind (.throw _) fun _ => hrest) hrest
      · exact .ite (.bind (.throw _) fun _ => hrest) hrest

lemma loaduvm_keeps {ip : Image} {addr offset sz : ℕ} :
    Keeps Mem.account (loaduvm d addr ip offset sz) :=
  .ite (.throw _) loadLoop_keeps

lemma copyout_keeps {fuel va : ℕ} {buf : List UInt8} :
    Keeps Mem.account (copyout d fuel va buf) := by
  induction fuel generalizing va buf with
  | zero => exact .pure _
  | succ fuel ih =>
    rw [copyout]
    refine .ite (.pure _) (.ite (.throw _) ?_)
    split
    · exact .bind store_keeps fun _ => ih
    · exact .throw _
    · exact .pure _
    · exact .pure _

lemma pushArgs_keeps {argv : List (List UInt8)} {sp : ℕ} {args : List ℕ} :
    Keeps Mem.account (pushArgs d argv sp args) := by
  induction argv generalizing sp args with
  | nil => exact .pure _
  | cons s ss ih =>
    rw [pushArgs]
    exact .ite (.pure _) (.bind copyout_keeps fun _ => .ite (.pure _) ih)

/-- What is mapped does not depend on the permissions. -/
lemma Pgdir.pa_setPte {g : Pte → Pte} (hg : ∀ e, (g e).pa = e.pa) (va q : ℕ) :
    ((d.setPte va ((d.pte va).map g)).entry q).map Pte.pa = (d.entry q).map Pte.pa := by
  rw [Pgdir.entry, Pgdir.entry, Pgdir.setPte]
  by_cases hi : q / nentries = pdx va
  · cases ht : d.pde (pdx va) with
    | none => simp [hi, ht]
    | some t =>
      by_cases hj : q % nentries = ptx va
      · simp [hi, hj, ht, Pgdir.pte, Function.comp_def, hg]
      · simp [hi, hj, ht]
  · simp [hi]

lemma Pgdir.pageOf_eq_of_pa {e e' : Option Pte} (h : e'.map Pte.pa = e.map Pte.pa) :
    Pgdir.pageOf e' = Pgdir.pageOf e := by
  cases e with
  | none => rw [Option.map_eq_none_iff.mp h]
  | some e =>
    obtain ⟨e', rfl, he⟩ := Option.map_eq_some_iff.mp h
    obtain ⟨pa, perm⟩ := e
    obtain ⟨pa', perm'⟩ := e'
    obtain rfl : pa' = pa := he
    cases pa' <;> rfl

lemma clearpteu_kept (hu : d.UserPages) (uva : ℕ) :
    wp (clearpteu d uva) (fun d' m' => Kept m m' d d') (fun _ => True) m := by
  rw [clearpteu]
  split_ifs with ht
  · trivial
  · have hpa := Pgdir.pa_setPte (d := d)
      (g := fun e : Pte => { e with perm := { e.perm with u := false } }) (fun _ => rfl) uva
    refine Kept.of_account rfl ?_ fun q hq e he => ?_
    · rw [Pgdir.frames, Pgdir.frames, Pgdir.tables_setPte,
        show Pgdir.pages _ = d.pages from
          Pgdir.frameSum_congr fun q _ => Pgdir.pageOf_eq_of_pa (hpa q)]
      rfl
    · have hq' := hpa q
      rw [he] at hq'
      obtain ⟨e₀, he₀, hpa₀⟩ := Option.map_eq_some_iff.mp hq'.symm
      obtain ⟨f, hf⟩ := hu q hq e₀ he₀
      exact ⟨f, hpa₀ ▸ hf⟩

lemma segments_kept {ip : Image} {n off sz : ℕ} (hu : d.UserPages) :
    wp (segments ip n off sz d) (fun r m' => Kept m m' d r.2.2) (fun _ => True) m := by
  induction n generalizing off sz d m with
  | zero => exact .of_account rfl rfl hu
  | succ n ih =>
    have hstop : Kept m m d d := .of_account rfl rfl hu
    rw [segments]
    cases ip.readi off proghdrSize with
    | none => exact hstop
    | some b =>
      dsimp only
      split_ifs with hlen htype hsize
      · exact hstop
      · exact ih hu
      · exact hstop
      · refine wp_seq (allocuvm_kept hu) ?_
        rintro ⟨sz', d₁⟩ m₁ h₁
        split_ifs with hzero
        · exact h₁
        · refine wp_seq (loaduvm_keeps m₁) fun ok m₂ h₂ => ?_
          have h₁₂ : Kept m m₂ d d₁ := h₁.trans (.of_account h₂ rfl h₁.2)
          split_ifs with hok
          · exact h₁₂
          · exact wp_post (ih h₁.2) fun _ _ h₃ => h₁₂.trans h₃

/-- The directory that `exec` ends up with. -/
def loaded : Except Pgdir NewImage → Pgdir
  | .error d => d
  | .ok img => img.pgdir

lemma load_kept {ip : Image} {elf : Elfhdr} {argv : List (List UInt8)} (hu : d.UserPages) :
    wp (load ip elf argv d) (fun r m' => Kept m m' d (loaded r)) (fun _ => True) m := by
  rw [load]
  refine wp_seq (segments_kept hu) ?_
  rintro ⟨ok, sz, d₁⟩ m₁ h₁
  cases ok with
  | false => exact h₁
  | true =>
    rw [wp_bind]
    generalize pgroundup sz + 2 * pgsize = newsz
    refine wp_post (allocuvm_kept h₁.2) ?_
    rintro ⟨sz', d₂⟩ m₂ h₂
    have h₁₂ := h₁.trans h₂
    dsimp only
    split_ifs with hzero
    · exact h₁₂
    · refine wp_seq (clearpteu_kept h₁₂.2 _) fun d₃ m₃ h₃ => ?_
      have h₁₃ := h₁₂.trans h₃
      refine wp_seq (pushArgs_keeps m₃) fun r m₄ h₄ => ?_
      have h₁₄ : Kept m m₄ d d₃ := h₁₃.trans (.of_account h₄ rfl h₁₃.2)
      cases r with
      | none => exact h₁₄
      | some r =>
        refine wp_seq (copyout_keeps m₄) fun ok m₅ h₅ => ?_
        have h₁₅ : Kept m m₅ d d₃ := h₁₄.trans (.of_account h₅ rfl h₁₄.2)
        split_ifs <;> exact h₁₅

/-- A new directory has no user pages. -/
lemma KernelPart.entry_user (h : KernelPart d KernelPage) {q : ℕ} (hq : q < 2 ^ 19) :
    d.entry q = none := by
  refine h.other q ?_
  rw [KernelPage]
  omega

lemma KernelPart.userPages (h : KernelPart d KernelPage) : d.UserPages := by
  intro q hq e he
  simp [h.entry_user hq] at he

lemma KernelPart.frames (h : KernelPart d KernelPage) : d.frames = {d.frame} + d.tables := by
  have hpages : d.pages = 0 := by
    refine Pgdir.frameSum_eq_zero fun q hq => ?_
    rw [h.entry_user hq]
    rfl
  rw [Pgdir.frames, hpages, add_zero]

/-- `freevm` closes the account of a new directory. -/
lemma freevm_balance {m₁ m₂ : Mem} {d₁ : Pgdir}
    (h₁ : (m₁.free : Multiset Frame) + ({d.frame} + d.tables) = m.free ∧ m₁.starved = m.starved ∧
      KernelPart d KernelPage) (h₂ : Kept m₁ m₂ d d₁) :
    wp (freevm d₁) (fun _ m' => Balance m m' 0 0) (fun _ => False) m₂ := by
  refine wp_post (freevm_wp h₂.2) fun _ m' h => ?_
  have hnew : Balance m m₁ 0 d.frames := .of_eq (by rw [h₁.2.2.frames, add_zero, h₁.1]) h₁.2.1
  exact (hnew.trans h₂.1).trans (.of_eq (by rw [add_zero, h.1]) h.2.2.2.1)

/-- **`exec`** before the commit. -/
lemma execFile_balance (ip : Option Image) (argv : List (List UInt8)) :
    wp (execFile ip argv) (fun r m' => r = none → Balance m m' 0 0) (fun _ => True) m := by
  have hsame : Balance m m 0 0 := .of_same rfl rfl
  cases ip with
  | none => exact fun _ => hsame
  | some ip =>
    rw [execFile]
    dsimp only
    split_ifs with hlen hmagic
    · exact fun _ => hsame
    · exact fun _ => hsame
    · rw [wp_bind]
      refine wp_mono setupkvm_wp ?_ fun _ _ => trivial
      rintro r m₁ ⟨-, h₁⟩
      cases r with
      | none =>
        obtain ⟨lost, hbal, hlost⟩ := h₁
        exact fun _ => ⟨lost, by rw [add_zero, add_zero, hbal], hlost⟩
      | some d =>
        refine wp_seq (load_kept h₁.2.2.userPages) fun r m₂ h₂ => ?_
        cases r with
        | error d₁ =>
          simp only [bind_pure_comp, wp_map]
          exact wp_mono (freevm_balance h₁ h₂) (fun _ _ h _ => h) fun _ _ => trivial
        | ok img => exact fun h => (Option.some_ne_none _ h).elim

/-! ### `fork` -/

lemma copyLoop_kept {c : Pgdir} {sz fuel : ℕ} (hc : c.UserPages) (hsz : sz ≤ kernbase) :
    wp (copyLoop d sz fuel (pn * pgsize) c) (fun r m' => Kept m m' c r.2) (fun _ => True) m := by
  induction fuel generalizing pn c m with
  | zero => exact .of_account rfl rfl hc
  | succ fuel ih =>
    rw [copyLoop]
    split_ifs with hlt ht
    · trivial
    · split
      · trivial
      · trivial
      · rw [wp_bind]
        rcases kalloc_cases m with ⟨-, hk⟩ | ⟨f, m₁, hg, hk⟩
        · rw [wp_of_ok hk]
          exact .of_account rfl rfl hc
        · rw [wp_of_ok hk]
          have hpn : pn < 2 ^ 19 := by
            simp only [pgsize, kernbase] at hlt hsz
            omega
          rw [wp_bind, wp_get, wp_bind, fill, wp_modify]
          refine wp_seq (mappages_page_wp hc hpn) ?_
          rintro ⟨ok, c₁⟩ m₂ ⟨hbal, hst, hu₁⟩
          have h₁ : Kept m m₂ c c₁ := ⟨.grow hg hbal hst, hu₁⟩
          cases ok with
          | false => exact h₁
          | true =>
            have hnext : pn * pgsize + pgsize = (pn + 1) * pgsize := by ring
            rw [hnext]
            exact wp_post (ih hu₁) fun _ _ h => h₁.trans h
    · exact .of_account rfl rfl hc

/-- **`copyuvm`** when it fails. -/
lemma copyuvm_balance {sz : ℕ} (hsz : sz ≤ kernbase) :
    wp (copyuvm d sz) (fun r m' => r = none → Balance m m' 0 0) (fun _ => True) m := by
  rw [copyuvm, wp_bind]
  refine wp_mono setupkvm_wp ?_ fun _ _ => trivial
  rintro r m₁ ⟨-, h₁⟩
  cases r with
  | none =>
    obtain ⟨lost, hbal, hlost⟩ := h₁
    exact fun _ => ⟨lost, by rw [add_zero, add_zero, hbal], hlost⟩
  | some c =>
    rw [wp_bind]
    rw [← Nat.zero_mul pgsize]
    refine wp_post (copyLoop_kept h₁.2.2.userPages hsz) ?_
    rintro ⟨ok, c₁⟩ m₂ h₂
    cases ok with
    | false =>
      simp only [bind_pure_comp, wp_map]
      exact wp_mono (freevm_balance h₁ h₂) (fun _ _ h _ => h) fun _ _ => trivial
    | true => exact fun h => (Option.some_ne_none _ h).elim

/-- Nothing held before or after: the free pages are the same exactly if `walkpgdir` got its pages. -/
lemma Balance.free_iff (h : Balance m m' 0 0) (hfree : m.free.Nodup) (hst : m.starved = false) :
    (∀ f, f ∈ m'.free ↔ f ∈ m.free) ↔ m'.starved = false := by
  obtain ⟨lost, hbal, hlost⟩ := h
  rw [add_zero, add_zero] at hbal
  rcases hlost with ⟨rfl, hst'⟩ | ⟨hne, hst'⟩
  · rw [add_zero] at hbal
    exact iff_of_true (fun f => (Multiset.coe_eq_coe.mp hbal).mem_iff) (hst'.trans hst)
  · refine iff_of_false (fun hall => ?_) (by simp [hst'])
    -- a page that is lost was free once, and would be in the list twice
    obtain ⟨f, hf⟩ := Multiset.exists_mem_of_ne_zero hne
    have hmem : f ∈ (m.free : Multiset Frame) := hbal ▸ Multiset.mem_add.mpr (.inr hf)
    have hnodup : ((m'.free : Multiset Frame) + lost).Nodup := by
      rw [hbal]
      exact Multiset.coe_nodup.mpr hfree
    exact Multiset.disjoint_left.mp (Multiset.nodup_add.mp hnodup).2.2 ((hall f).mpr hmem) hf

namespace Task

lemma fork_balance {p p' : Task} {slot : Option ℕ} {c : Option Task} (hsz : p.sz ≤ kernbase)
    (h : p.fork slot m = .ok ((-1, p', c), m')) : p' = p ∧ Balance m m' 0 0 := by
  have hwp : wp (p.fork slot) (fun r m' => r.1 = -1 → r.2.1 = p ∧ Balance m m' 0 0)
      (fun _ => True) m := by
    cases slot with
    | none => exact fun _ => ⟨rfl, .of_same rfl rfl⟩
    | some pid =>
      rw [fork, wp_bind]
      rcases kalloc_cases m with ⟨-, hk⟩ | ⟨f, m₁, hg, hk⟩
      · rw [wp_of_ok hk]
        exact fun _ => ⟨rfl, .of_same rfl rfl⟩
      · rw [wp_of_ok hk]
        refine wp_seq (copyuvm_balance hsz) fun r m₂ h₂ => ?_
        cases r with
        | none =>
          rw [wp_bind, wp_of_ok (kfree_run ..)]
          refine fun _ => ⟨rfl, ?_⟩
          obtain ⟨lost, hbal, hlost⟩ := h₂ rfl
          rw [add_zero, add_zero] at hbal
          refine ⟨lost, ?_, ?_⟩
          · rw [hg.1, ← Multiset.cons_coe, ← Multiset.cons_coe, ← hbal, add_zero, add_zero,
              Multiset.cons_add]
          · rw [Lost, show m.starved = m₁.starved by rw [hg.2.2]]
            exact hlost
        | some d =>
          intro hpid
          omega
  rw [wp_of_ok h] at hwp
  exact hwp rfl

lemma exec_balance {p p' : Task} {ip : Option Image} {argv : List (List UInt8)}
    (h : p.exec ip argv m = .ok ((-1, p'), m')) : p' = p ∧ Balance m m' 0 0 := by
  obtain ⟨r, m₁, hfile, hrest⟩ := bind_eq_ok h
  have hwp := execFile_balance (m := m) ip argv
  rw [wp_of_ok hfile] at hwp
  cases r with
  | none =>
    cases hrest
    exact ⟨rfl, hwp rfl⟩
  | some img =>
    obtain ⟨_, m₂, -, hend⟩ := bind_eq_ok hrest
    cases hend

/-- A process without memory. -/
def freshTask : Task where
  pgdir := ⟨⟨0x201, frame201⟩, fun _ => none⟩
  sz := 0
  eip := 0
  esp := 0
  ofile _ := none

end Task

end Col331
