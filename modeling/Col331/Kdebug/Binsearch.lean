import Mathlib.Tactic

/-!
The search for the stab entry that contains an address, `stab_binsearch` of `kdebug.c`.

* `round`, `loop`, `stabBinsearch`: the code; the entries are read at `stabs i`.
* `Finds`: what the search is for.
* `met`: the entry a plain bisection comes upon.  On a hit the code goes on with the next address,
  and a second hit, or an address that wraps, leads it astray.
* `stabBinsearch_iff`: **when the search finds the entry**.
-/

namespace Col331

/-! ### The code -/

/-- The fields of `struct Stab` that the search reads. -/
structure Stab where
  n_type : UInt8
  n_value : UInt32

/-- The table, and the type and the range to be searched. -/
structure StabRange where
  stabs : ℤ → Stab
  type : ℤ
  left : ℤ
  right : ℤ

namespace StabRange

variable (T : StabRange)

/-- Entry `i` is of the type searched for. -/
def Typed (i : ℤ) : Prop := ((T.stabs i).n_type.toNat : ℤ) = T.type

instance : DecidablePred (T.Typed) := fun _ => inferInstanceAs (Decidable (_ = _))

/-- The address in entry `i`. -/
def value (i : ℤ) : ℕ := (T.stabs i).n_value.toNat

/-- `while (m >= l && stabs[m].n_type != type) m--;`. -/
def back (l m : ℤ) : ℤ := if l ≤ m ∧ ¬ T.Typed m then back l (m - 1) else m
termination_by (m + 1 - l).toNat

/-- The variables of the search; `left` is `*region_left`, `right` is `*region_right`. -/
structure Search where
  l : ℤ
  r : ℤ
  left : ℤ
  right : ℤ
  addr : ℕ
  any : Bool

/-- One round of the loop. -/
def round (s : Search) : Search :=
  let true_m := (s.l + s.r) / 2
  let m := T.back s.l true_m
  if m < s.l then { s with l := true_m + 1 }
  else if T.value m < s.addr then { s with left := m, l := true_m + 1, any := true }
  else if s.addr < T.value m then { s with right := m - 1, r := m - 1, any := true }
  else { s with left := m, l := m, addr := (s.addr + 1) % 2 ^ 32, any := true }

variable {T} {m r : ℤ} {a : ℕ} {s : Search}

variable (T) in
/-- Where the scan stops. -/
lemma back_spec (l m : ℤ) : T.back l m ≤ m ∧ min (l - 1) m ≤ T.back l m ∧
    (l ≤ T.back l m → T.Typed (T.back l m)) ∧
    ∀ i, l ≤ i → T.back l m < i → i ≤ m → ¬ T.Typed i := by
  fun_induction T.back l m with
  | case1 m h ih =>
    obtain ⟨h₁, h₂, h₃, h₄⟩ := ih
    refine ⟨by omega, by omega, h₃, fun i hl hi hm => ?_⟩
    rcases eq_or_ne i m with rfl | hne
    · exact h.2
    · exact h₄ i hl hi (by omega)
  | case2 m h => exact ⟨le_rfl, by omega, fun hl => by tauto, fun i _ _ _ => by omega⟩

variable (T) in
lemma value_lt (i : ℤ) : T.value i < 2 ^ 32 := (T.stabs i).n_value.toNat_lt

/-- A round leaves less to search, or the entry it has hit is not one of the next address. -/
lemma round_lt (h : s.l ≤ s.r) :
    2 * ((T.round s).r + 1 - (T.round s).l).toNat +
        (if T.value (T.round s).l = (T.round s).addr then 1 else 0) <
      2 * (s.r + 1 - s.l).toNat + if T.value s.l = s.addr then 1 else 0 := by
  have hle := (T.back_spec s.l ((s.l + s.r) / 2)).1
  have hv := T.value_lt (T.back s.l ((s.l + s.r) / 2))
  rw [round]
  generalize T.back s.l ((s.l + s.r) / 2) = m at hle hv ⊢
  rcases eq_or_ne m s.l with rfl | hne <;> split_ifs <;> dsimp only at * <;> omega

variable (T)

/-- The loop. -/
def loop (s : Search) : Search := if s.l ≤ s.r then loop (T.round s) else s
termination_by 2 * (s.r + 1 - s.l).toNat + if T.value s.l = s.addr then 1 else 0
decreasing_by exact round_lt ‹_›

/-- What follows the loop: the new `*region_left` and `*region_right`. -/
def bracket (s : Search) : ℤ × ℤ :=
  if s.any then (T.back (s.left + 1) s.right, s.right) else (s.left, s.left - 1)

/-- `stab_binsearch`. -/
def stabBinsearch (addr : UInt32) : ℤ × ℤ :=
  T.bracket (T.loop ⟨T.left, T.right, T.left, T.right, addr.toNat, false⟩)

/-! ### What the search is for -/

/-- `i` is an entry of the type in the range. -/
def Entry (i : ℤ) : Prop := T.left ≤ i ∧ i ≤ T.right ∧ T.Typed i

/-- The addresses of the entries of the type do not fall. -/
def Sorted : Prop := ∀ i j, T.Entry i → T.Entry j → i ≤ j → T.value i ≤ T.value j

/-- If an entry of the type is not above `addr`, `b.1` is the last one, and `b.2` comes just before
the next entry of the type or is the right end.  Otherwise `b` is empty. -/
def Finds (addr : ℕ) (b : ℤ × ℤ) : Prop :=
  ((∃ i, T.Entry i ∧ T.value i ≤ addr) →
    T.Entry b.1 ∧ T.value b.1 ≤ addr ∧
    (∀ i, T.Entry i → b.1 < i → addr < T.value i ∧ b.2 < i) ∧
    b.1 ≤ b.2 ∧ b.2 ≤ T.right ∧ (b.2 = T.right ∨ T.Typed (b.2 + 1))) ∧
  ((∀ i, T.Entry i → addr < T.value i) → b.2 < b.1)

/-- The first entry with address `a` that a bisection of `[l, r]` comes upon, and the right end by
then. -/
def met (a : ℕ) (l r : ℤ) : Option (ℤ × ℤ) :=
  if l ≤ r then
    let m := T.back l ((l + r) / 2)
    if m < l ∨ T.value m < a then met a ((l + r) / 2 + 1) r
    else if a < T.value m then met a l (m - 1)
    else some (m, r)
  else none
termination_by (r + 1 - l).toNat
decreasing_by
  all_goals have := (T.back_spec l ((l + r) / 2)).1
  all_goals omega

variable {T}

/-! ### Up to the second hit -/

/-- The range splits at `a`: up to `s.l` the entries are not above it, behind `s.r` they are. -/
structure Split (T : StabRange) (a : ℕ) (s : Search) : Prop where
  right_eq : s.right = s.r
  le_l : T.left ≤ s.l
  r_le : s.r ≤ T.right
  below : ∀ i, T.Entry i → i < s.l → T.value i ≤ a
  above : ∀ i, T.Entry i → s.r < i → a < T.value i
  next : s.r = T.right ∨ T.Typed (s.r + 1)
  left_eq : s.left = T.left ∨ T.Entry s.left ∧ T.value s.left ≤ a
  found : s.any = true → ∃ i, T.Entry i
  none : s.any = false → ∀ i, T.Entry i → s.l ≤ i ∧ i ≤ s.r

/-- The search begins. -/
lemma Split.start : T.Split a ⟨T.left, T.right, T.left, T.right, a, false⟩ where
  right_eq := rfl
  le_l := le_rfl
  r_le := le_rfl
  below _ hi hlt := absurd hi.1 hlt.not_ge
  above _ hi hlt := absurd hi.2.1 hlt.not_ge
  next := .inl rfl
  left_eq := .inl rfl
  found := nofun
  none _ _ hi := ⟨hi.1, hi.2.1⟩

variable (hs : T.Sorted)

include hs

/-- A round without a hit keeps the split. -/
lemma Split.round (h : T.Split a s) (hl : s.l ≤ s.r) (hb : a ≤ s.addr ∧ s.addr ≤ a + 1)
    (hit : ¬ (s.l ≤ T.back s.l ((s.l + s.r) / 2) ∧
      T.value (T.back s.l ((s.l + s.r) / 2)) = s.addr)) :
    T.Split a (T.round s) ∧ (T.round s).addr = s.addr ∧
      T.met s.addr (T.round s).l (T.round s).r = T.met s.addr s.l s.r := by
  obtain ⟨hle, -, hty, hun⟩ := T.back_spec s.l ((s.l + s.r) / 2)
  rw [StabRange.met.eq_def T s.addr s.l s.r, if_pos hl, StabRange.round]
  generalize T.back s.l ((s.l + s.r) / 2) = m at hle hty hun hit ⊢
  have hlo := h.le_l
  have hhi := h.r_le
  by_cases hm : m < s.l
  · have hnew : ∀ i, T.Entry i → s.l ≤ i → (s.l + s.r) / 2 < i := fun i hi hil => by
      by_contra hle
      exact hun i hil (by omega) (by omega) hi.2.2
    rw [if_pos hm, if_pos (.inl hm)]
    refine ⟨{ h with le_l := ?_, below := fun i hi hlt => ?_, none := fun hany i hi => ?_ }, rfl, rfl⟩
    · dsimp only
      omega
    · refine h.below i hi (lt_of_not_ge fun hil => ?_)
      exact (Int.lt_add_one_iff.1 hlt).not_gt (hnew i hi hil)
    · obtain ⟨h₁, h₂⟩ := h.none hany i hi
      exact ⟨hnew i hi h₁, h₂⟩
  have hent : T.Entry m := ⟨by omega, by omega, hty (by omega)⟩
  rcases lt_or_ge (T.value m) s.addr with hv | hv
  · rw [if_neg hm, if_pos hv, if_pos (.inr hv)]
    refine ⟨{ h with
      le_l := ?_, below := fun i hi hlt => ?_, left_eq := .inr ⟨hent, ?_⟩
      found := fun _ => ⟨m, hent⟩, none := nofun }, rfl, rfl⟩
    · dsimp only
      omega
    · have him : i ≤ m := by
        by_contra him
        exact hun i (by omega) (by omega) (Int.lt_add_one_iff.1 hlt) hi.2.2
      have := hs i m hi hent him
      omega
    · dsimp only
      omega
  · have hv : s.addr < T.value m := lt_of_le_of_ne hv fun he => hit ⟨by omega, he.symm⟩
    rw [if_neg hm, if_neg (by omega), if_pos hv, if_neg (by omega), if_pos hv]
    refine ⟨{ h with
      right_eq := rfl, r_le := ?_, above := fun i hi hlt => ?_, next := .inr ?_
      found := fun _ => ⟨m, hent⟩, none := nofun }, rfl, rfl⟩
    · dsimp only
      omega
    · exact (hb.1.trans_lt hv).trans_le (hs m i hent hi (Int.sub_one_lt_iff.1 hlt))
    · simpa using hent.2.2

/-- The search ends with its target, or hits `m` when the right end is `r`. -/
lemma Split.run (h : T.Split a s) (hb : a ≤ s.addr ∧ s.addr ≤ a + 1) :
    (T.met s.addr s.l s.r = .none ∧ T.Split a (T.loop s) ∧ (T.loop s).r < (T.loop s).l) ∨
    ∃ m r, T.met s.addr s.l s.r = some (m, r) ∧ T.Entry m ∧ T.value m = s.addr ∧ m ≤ r ∧
      r ≤ T.right ∧ (∀ i, T.Entry i → r < i → a < T.value i) ∧
      (r = T.right ∨ T.Typed (r + 1)) ∧
      T.loop s = T.loop ⟨m, r, m, r, (s.addr + 1) % 2 ^ 32, true⟩ := by
  induction s using loop.induct T with
  | case1 s hl ih =>
    by_cases hit : s.l ≤ T.back s.l ((s.l + s.r) / 2) ∧
      T.value (T.back s.l ((s.l + s.r) / 2)) = s.addr
    · obtain ⟨hle, -, hty, -⟩ := T.back_spec s.l ((s.l + s.r) / 2)
      have hlo := h.le_l
      have hhi := h.r_le
      rw [met, if_pos hl, if_neg (by omega), if_neg (by omega), loop, if_pos hl, StabRange.round,
        if_neg (by omega), if_neg (by omega), if_neg (by omega), h.right_eq]
      exact .inr ⟨_, s.r, rfl, ⟨by omega, by omega, hty hit.1⟩, hit.2, by omega, hhi, h.above, h.next,
        rfl⟩
    · obtain ⟨hp, haddr, he⟩ := h.round hs hl hb hit
      rw [← he, loop, if_pos hl, ← haddr]
      exact ih hp (by omega)
  | case2 s hl =>
    rw [met, if_neg hl, loop, if_neg hl]
    exact .inl ⟨rfl, h, by omega⟩

omit hs in
/-- **The end of a search that has split the range.** -/
lemma Split.finds_iff (h : T.Split a s) (hend : s.r < s.l) :
    T.Finds a (T.bracket s) ↔
      (∀ i, ¬ T.Entry i) ∨ ∃ i, T.Entry i ∧ T.value i ≤ a := by
  rw [bracket]
  cases hany : s.any with
  | false =>
    have hno : ∀ i, ¬ T.Entry i := fun i hi => by
      have := h.none hany i hi
      omega
    exact iff_of_true ⟨fun ⟨i, hi, _⟩ => absurd hi (hno i), fun _ => by simp⟩ (.inl hno)
  | true =>
    obtain ⟨hle, hge, hty, hun⟩ := T.back_spec (s.left + 1) s.right
    rw [if_pos rfl]
    generalize T.back (s.left + 1) s.right = lo at hle hge hty hun ⊢
    rw [h.right_eq] at hle hge hun ⊢
    by_cases hex : ∃ i, T.Entry i ∧ T.value i ≤ a
    · refine iff_of_true ⟨fun _ => ?_, fun hall => ?_⟩ (.inr hex)
      · obtain ⟨i, hi, hv⟩ := hex
        have hout : ∀ j, T.Entry j → T.value j ≤ a → j ≤ s.r := fun j hj hv =>
          not_lt.1 fun hlt => (h.above j hj hlt).not_ge hv
        have hleft : T.left ≤ s.left ∧ s.left ≤ s.r := by
          rcases h.left_eq with he | ⟨he, hv'⟩
          · rw [he]
            exact ⟨le_rfl, hi.1.trans (hout i hi hv)⟩
          · exact ⟨he.1, hout _ he hv'⟩
        have hlast : ∀ j, T.Entry j → lo < j → s.r < j := fun j hj hlt => by
          by_contra hle
          exact hun j (by omega) hlt (by omega) hj.2.2
        have hlo : T.Entry lo := by
          refine ⟨by omega, hle.trans h.r_le, ?_⟩
          rcases lt_or_ge s.left lo with hlt | hge
          · exact hty hlt
          obtain rfl : lo = s.left := by omega
          rcases h.left_eq with he | ⟨he, -⟩
          · have hile : i ≤ s.left := not_lt.1 fun h => (hlast i hi h).not_ge (hout i hi hv)
            rw [le_antisymm (he ▸ hi.1) hile]
            exact hi.2.2
          · exact he.2.2
        exact ⟨hlo, h.below lo hlo (by omega), fun j hj hlt => ⟨h.above j hj (hlast j hj hlt),
          hlast j hj hlt⟩, hle, h.r_le, h.next⟩
      · obtain ⟨i, hi, hv⟩ := hex
        exact absurd hv (hall i hi).not_ge
    · obtain ⟨i, hi⟩ := h.found hany
      refine iff_of_false (fun hf => ?_) fun hc => hc.elim (fun hno => hno i hi) hex
      exact hle.not_gt (hf.2 fun i hi => not_le.1 fun hle => hex ⟨i, hi, hle⟩)

omit hs in
/-- Behind an entry below the target, the search does not come back to it. -/
lemma le_bracket (h : s.any = true ∧ m ≤ s.l ∧ m ≤ s.left ∧ m ≤ s.right ∧
    (m < s.l ∨ T.value m < s.addr)) : m ≤ (T.bracket (T.loop s)).1 := by
  induction s using loop.induct T with
  | case1 s hl ih =>
    rw [loop, if_pos hl]
    refine ih ?_
    have hle := (T.back_spec s.l ((s.l + s.r) / 2)).1
    rw [StabRange.round]
    generalize T.back s.l ((s.l + s.r) / 2) = k at hle ⊢
    -- an entry that is not below the target is not `m`
    have hk : s.l ≤ k → s.addr ≤ T.value k → m < k := fun hlk hv => by
      refine lt_of_le_of_ne (h.2.1.trans hlk) ?_
      rintro rfl
      omega
    split_ifs <;> refine ⟨?_, by dsimp only; omega⟩
    exacts [h.1, rfl, rfl, rfl]
  | case2 s hl =>
    rw [loop, if_neg hl, bracket, if_pos h.1]
    have := (T.back_spec (s.left + 1) s.right).2.1
    omega

/-- From the target 0 on, the search runs down to `m`. -/
lemma bracket_zero (hm : T.Entry m) (hpos : 0 < T.value m) (hmr : m - 1 ≤ r)
    (hr : r ≤ T.right) : T.bracket (T.loop ⟨m, r, m, r, 0, true⟩) = (m - 1, m - 1) := by
  induction hn : (r + 1 - m).toNat using Nat.strong_induction_on generalizing r with
  | h n ih =>
    have hlo := hm.1
    rw [loop]
    split_ifs with hle
    · obtain ⟨hle', -, hty, hun⟩ := T.back_spec m ((m + r) / 2)
      rw [StabRange.round]
      dsimp only at hle ⊢
      generalize T.back m ((m + r) / 2) = k at hle' hty hun ⊢
      have hk : m ≤ k := not_lt.1 fun h => hun m le_rfl h (by omega) hm.2.2
      have := hs m k hm ⟨by omega, by omega, hty hk⟩ hk
      rw [if_neg (by omega), if_neg (by omega), if_pos (by omega)]
      exact ih _ (by omega) (by omega) (by omega) rfl
    · obtain rfl : r = m - 1 := by
        dsimp only at hle
        omega
      rw [bracket, if_pos rfl, back, if_neg (by dsimp only; omega)]

omit hs

/-- **When the search finds the entry**: the range has no entry of the type; or not all of them are
above `addr`, and if one has that address, it is not the last address there is and the bisection
comes upon no entry with the next address from there on.  (Or upon one with the last address, just
behind the entry looked for.) -/
theorem stabBinsearch_iff (T : StabRange) (addr : UInt32) (hs : T.Sorted) :
    T.Finds addr.toNat (T.stabBinsearch addr) ↔
      (∀ i, ¬ T.Entry i) ∨
      ((∃ i, T.Entry i ∧ T.value i ≤ addr.toNat) ∧
        ∀ p, T.met addr.toNat T.left T.right = some p → addr.toNat + 1 ≠ 2 ^ 32 ∧
          ∀ q, T.met (addr.toNat + 1) p.1 p.2 = some q →
            addr.toNat + 2 = 2 ^ 32 ∧ T.Typed (q.1 - 1) ∧ T.value (q.1 - 1) ≤ addr.toNat) := by
  have haddr := addr.toNat_lt
  rw [stabBinsearch]
  generalize addr.toNat = a at haddr ⊢
  rcases Split.start.run hs (s := ⟨T.left, T.right, T.left, T.right, a, false⟩) ⟨le_rfl, Nat.le_succ a⟩ with
    ⟨hmet, h, hend⟩ | ⟨m, r, hmet, hm, hv, hle, hr, habove, hnext, hloop⟩
  · dsimp only at hmet
    simp only [h.finds_iff hend, hmet, reduceCtorEq, false_implies, implies_true, and_true]
  dsimp only at hmet hv hloop
  have hex : ∃ i, T.Entry i ∧ T.value i ≤ a := ⟨m, hm, hv.le⟩
  simp only [hloop, hmet, Option.some.injEq, forall_eq', hex, true_and,
    show ¬ (∀ i, ¬ T.Entry i) from fun hno => hno m hm, false_or]
  by_cases hlast : a + 1 = 2 ^ 32
  · rw [hlast, Nat.mod_self, bracket_zero hs hm (by omega) (by omega) hr]
    refine iff_of_false (fun hf => ?_) fun hc => hc.1 rfl
    have := ((hf.1 hex).2.2.1 m hm (by simp)).1
    omega
  -- the search goes on behind `m`, with the next address for its target
  have hsplit : T.Split a ⟨m, r, m, r, a + 1, true⟩ :=
    ⟨rfl, hm.1, hr, fun i hi hlt => (hs i m hi hm hlt.le).trans hv.le, habove, hnext,
      .inr ⟨hm, hv.le⟩, fun _ => ⟨m, hm⟩, nofun⟩
  rw [Nat.mod_eq_of_lt (by omega), and_iff_right hlast]
  rcases hsplit.run hs ⟨Nat.le_succ a, le_rfl⟩ with
    ⟨hmet, h, hend⟩ | ⟨m', r', hmet, hm', hv', hle', hr', -, -, hloop⟩
  · dsimp only at hmet
    rw [h.finds_iff hend, hmet]
    exact iff_of_true (.inr hex) nofun
  dsimp only at hmet hv' hloop
  simp only [hloop, hmet, Option.some.injEq, forall_eq']
  by_cases hlast' : a + 1 + 1 = 2 ^ 32
  · rw [hlast', Nat.mod_self, bracket_zero hs hm' (by omega) (by omega) hr', and_iff_right rfl]
    refine ⟨fun hf => ⟨(hf.1 hex).1.2.2, (hf.1 hex).2.1⟩, fun ⟨hty, hva⟩ => ⟨fun _ => ?_, ?_⟩⟩
    · have hlt : m < m' := lt_of_not_ge fun hge => by
        have := hs m' m hm' hm hge
        omega
      have hlo := hm.1
      refine ⟨⟨by omega, by omega, hty⟩, hva, fun i hi hlt => ⟨?_, hlt⟩, le_rfl, by omega, .inr ?_⟩
      · have := hs m' i hm' hi (by omega)
        omega
      · simpa using hm'.2.2
    · exact fun hall => absurd (hall m hm) (by omega)
  · refine iff_of_false (fun hf => ?_) fun hc => hlast' hc.1
    rw [Nat.mod_eq_of_lt (by omega)] at hf
    obtain ⟨hlo, hva, -⟩ := hf.1 hex
    have := hs m' _ hm' hlo (le_bracket ⟨rfl, le_rfl, le_rfl, hle', .inr (by dsimp only; omega)⟩)
    omega

/-- A table of equal entries. -/
def even : StabRange := ⟨fun _ => ⟨0x24, 5⟩, 0x24, 0, 0⟩

lemma even_back (l m : ℤ) : even.back l m = m := by rw [back, if_neg fun h => h.2 rfl]

lemma even_sorted : even.Sorted := fun _ _ _ _ _ => le_rfl

theorem stabBinsearch_iff_even : even.Sorted ∧ even.Finds 7 (even.stabBinsearch 7) := by
  refine ⟨even_sorted, (stabBinsearch_iff even 7 even_sorted).2 (.inr ⟨⟨0, ?_, ?_⟩, ?_⟩)⟩
  · exact ⟨le_rfl, le_rfl, rfl⟩
  · decide
  · rw [met, if_pos (by decide), even_back, if_pos (.inr (by decide)), met, if_neg (by decide)]
    exact nofun

/-- **Before the first entry, the search does not report an empty region.** -/
theorem stabBinsearch_before : ¬ ∀ (T : StabRange) (addr : UInt32), T.Sorted →
    T.Finds addr.toNat (T.stabBinsearch addr) := by
  intro h
  have hlt := (h even 3 even_sorted).2 fun i _ => (by decide : 3 < 5)
  rw [stabBinsearch, loop, if_pos (by decide), StabRange.round, even_back, if_neg (by decide),
    if_neg (by decide), if_pos (by decide), loop, if_neg (by decide), bracket, if_pos rfl] at hlt
  simp [even_back] at hlt

end StabRange

end Col331
