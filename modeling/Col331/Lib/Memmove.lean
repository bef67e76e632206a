import Mathlib.Data.UInt
import Mathlib.Tactic.SplitIfs

/-!
The three `memmove`s: of the xv6 kernel, of JOS, and of the user library `ulib.c`.

* `movs w`: one round of a copy, `w` bytes that are read before any of them is written; `upward` and
  `downward` are rounds at pointers that go up or down.
* `upward_eq`, `downward_eq`: when the rounds together are one copy.
* `memmove_simultaneous`: **both kernels copy as if all bytes were read first**.
* `ulib_memmove_iff`: **the user library does what the kernel does** unless it runs into bytes that it has
  written itself.
-/

namespace Col331

/-- The memory, by 32-bit address. -/
abbrev Ram := UInt32 → UInt8

/-- `w` bytes are copied from `s` to `d`, all of them read first: `*d = *s` for one byte, `movsl` for
four. -/
def movs (w : ℕ) (m : Ram) (d s : UInt32) : Ram := fun a =>
  if (a - d).toNat < w then m (s + (a - d)) else m a

/-- The memory after some rounds at `d`, `d + w`, and so on: `*d++ = *s++`, or `rep movs` after `cld`. -/
def upward (w : ℕ) (m : Ram) (d s : UInt32) : ℕ → Ram
  | 0 => m
  | k + 1 => movs w (upward w m d s k) (d + .ofNat (w * k)) (s + .ofNat (w * k))

/-- The memory after some rounds at `d`, `d - w`, and so on: `*--d = *--s`, or `rep movs` after `std`. -/
def downward (w : ℕ) (m : Ram) (d s : UInt32) : ℕ → Ram
  | 0 => m
  | k + 1 => movs w (downward w m d s k) (d - .ofNat (w * k)) (s - .ofNat (w * k))

/-- `memmove` of `string.c` in xv6: what it returns, and the memory. -/
def Xv6.memmove (m : Ram) (dst src n : UInt32) : UInt32 × Ram :=
  (dst,
    if src < dst ∧ dst < src + n then downward 1 m (dst + n - 1) (src + n - 1) n.toNat
    else upward 1 m dst src n.toNat)

/-- `memmove` of `lib/string.c` in JOS. The source takes `(int)s % 4`, which is zero for the same `s`. -/
def Jos.memmove (m : Ram) (dst src n : UInt32) : UInt32 × Ram :=
  (dst,
    if src < dst ∧ dst < src + n then
      let s := src + n
      let d := dst + n
      if s % 4 = 0 ∧ d % 4 = 0 ∧ n % 4 = 0 then downward 4 m (d - 4) (s - 4) (n / 4).toNat
      else downward 1 m (d - 1) (s - 1) n.toNat
    else if src % 4 = 0 ∧ dst % 4 = 0 ∧ n % 4 = 0 then upward 4 m dst src (n / 4).toNat
    else upward 1 m dst src n.toNat)

/-- `memmove` of `ulib.c`, with a signed length. -/
def Ulib.memmove (m : Ram) (dst src : UInt32) (n : Int32) : UInt32 × Ram :=
  (dst, upward 1 m dst src n.toInt.toNat)

variable {m : Ram} {d s dst src n : UInt32} {w k l : ℕ}

/-! ### Rounds -/

/-- A copy, and one round above it. -/
lemma movs_up (h : d = s ∨ l + w ≤ (d - s).toNat) (hmax : l + w ≤ 2 ^ 32) :
    movs w (movs l m d s) (d + .ofNat l) (s + .ofNat l) = movs (l + w) m d s := by
  funext a
  have hto : a - (d + .ofNat l) = a - d - .ofNat l := by grind
  have hread : s + .ofNat l + (a - d - .ofNat l) = s + (a - d) := by grind
  have hfrom : s + (a - d) - d = a - d - (d - s) := by grind
  rw [← sub_eq_zero, ← UInt32.toNat_inj, UInt32.toNat_zero] at h
  have hx := (a - d).toNat_lt
  simp only [movs, hto, hread, hfrom, UInt32.toNat_sub _ (UInt32.ofNat l), UInt32.toNat_sub _ (d - s),
    UInt32.toNat_ofNat']
  split_ifs <;> first | rfl | omega

/-- A copy, and one round below it. -/
lemma movs_down (h : (d - s).toNat + (l + w) ≤ 2 ^ 32) :
    movs w (movs l m (d + .ofNat w) (s + .ofNat w)) d s = movs (l + w) m d s := by
  funext a
  have hto : ∀ x, x - (d + .ofNat w) = x - d - .ofNat w := by grind
  have hread : s + .ofNat w + (a - d - .ofNat w) = s + (a - d) := by grind
  have hfrom : s + (a - d) - d = a - d - (d - s) := by grind
  have hx := (a - d).toNat_lt
  simp only [movs, hto, hread, hfrom, UInt32.toNat_sub _ (UInt32.ofNat w), UInt32.toNat_sub _ (d - s),
    UInt32.toNat_ofNat']
  split_ifs <;> first | rfl | omega

/-- **Upward rounds are one copy** if none reads what an earlier one has written. -/
lemma upward_eq (h : d = s ∨ w * k ≤ (d - s).toNat) (hmax : w * k ≤ 2 ^ 32) :
    upward w m d s k = movs (w * k) m d s := by
  induction k with
  | zero => exact funext fun a => (if_neg (by simp)).symm
  | succ k ih =>
    rw [Nat.mul_succ] at h hmax ⊢
    rw [upward, ih (h.imp_right (by omega)) (by omega), movs_up h hmax]

/-- **Downward rounds are one copy** if none reads what an earlier one has written. -/
lemma downward_eq (hn : n = .ofNat (w * k)) (h : (d - s).toNat + w * k ≤ 2 ^ 32) :
    downward w m (d + n - .ofNat w) (s + n - .ofNat w) k = movs (w * k) m d s := by
  subst hn
  induction k generalizing d s with
  | zero => exact funext fun a => (if_neg (by simp)).symm
  | succ k ih =>
    have hround : ∀ x : UInt32,
        x + .ofNat (w * (k + 1)) - .ofNat w = x + .ofNat w + .ofNat (w * k) - .ofNat w := fun x => by
      rw [Nat.mul_succ, UInt32.ofNat_add]
      grind
    have hlast : ∀ x : UInt32, x + .ofNat w + .ofNat (w * k) - .ofNat w - .ofNat (w * k) = x := fun x => by
      grind
    have hdiff : d + .ofNat w - (s + .ofNat w) = d - s := by grind
    rw [Nat.mul_succ] at h
    rw [hround, hround, downward, ih (by rw [hdiff]; omega), hlast, hlast, movs_down h, Nat.mul_succ]

/-! ### The kernels -/

/-- The bytes from `src` on have come to `dst` as if all of them were read first, and the others are as
they were. -/
structure Moved (m m' : Ram) (dst src n : UInt32) : Prop where
  range : ∀ i < n, m' (dst + i) = m (src + i)
  rest : ∀ a, (∀ i < n, a ≠ dst + i) → m' a = m a

lemma moved_movs (m : Ram) (dst src n : UInt32) : Moved m (movs n.toNat m dst src) dst src n where
  range i hi := by
    rw [movs, add_sub_cancel_left, if_pos (UInt32.lt_iff_toNat_lt.mp hi)]
  rest a ha := if_neg fun hlt => ha (a - dst) (UInt32.lt_iff_toNat_lt.mpr hlt) (by grind)

/-- Rounds of `w` bytes, in the direction that both kernels take. -/
lemma directed_eq (hk : w * k = n.toNat) (hd : dst.toNat + n.toNat ≤ 2 ^ 32)
    (hs : src.toNat + n.toNat ≤ 2 ^ 32) :
    (src < dst ∧ dst < src + n →
      downward w m (dst + n - .ofNat w) (src + n - .ofNat w) k = movs n.toNat m dst src) ∧
    (¬(src < dst ∧ dst < src + n) → upward w m dst src k = movs n.toNat m dst src) := by
  rw [← hk, UInt32.lt_iff_toNat_lt, UInt32.lt_iff_toNat_lt, UInt32.toNat_add]
  refine ⟨fun h => downward_eq (by rw [hk, UInt32.ofNat_toNat]) ?_, fun h => upward_eq ?_ (by omega)⟩
  · rw [UInt32.toNat_sub]
    omega
  · rw [UInt32.toNat_sub, ← UInt32.toNat_inj]
    omega

lemma four_mul_div (h : n % 4 = 0) : 4 * (n / 4).toNat = n.toNat := by
  have h4 : n.toNat % 4 = 0 := congrArg UInt32.toNat h
  exact Nat.mul_div_cancel' (Nat.dvd_of_mod_eq_zero h4)

/-- **Both kernels copy as if simultaneously**, in each of the ways that they copy. -/
theorem memmove_simultaneous (m : Ram) (dst src n : UInt32) (hd : dst.toNat + n.toNat ≤ 2 ^ 32)
    (hs : src.toNat + n.toNat ≤ 2 ^ 32) :
    Moved m (Xv6.memmove m dst src n).2 dst src n ∧ Moved m (Jos.memmove m dst src n).2 dst src n := by
  have hbyte := directed_eq (m := m) (Nat.one_mul n.toNat) hd hs
  have hword := fun h4 => directed_eq (m := m) (four_mul_div h4) hd hs
  have hxv6 : (Xv6.memmove m dst src n).2 = movs n.toNat m dst src := by
    rw [Xv6.memmove]
    split_ifs with h
    · exact hbyte.1 h
    · exact hbyte.2 h
  have hjos : (Jos.memmove m dst src n).2 = movs n.toNat m dst src := by
    rw [Jos.memmove]
    dsimp only
    split_ifs with h h4 h4
    · exact (hword h4.2.2).1 h
    · exact hbyte.1 h
    · exact (hword h4.2.2).2 h
    · exact hbyte.2 h
  rw [hxv6, hjos]
  exact ⟨moved_movs m dst src n, moved_movs m dst src n⟩

/-- Two words are moved up by one: the last byte. -/
theorem memmove_simultaneous_up : (Jos.memmove (·.toUInt8) 104 100 8).2 (104 + 7) = 107 :=
  (memmove_simultaneous (·.toUInt8) 104 100 8 (by decide) (by decide)).2.range 7 (by decide)

/-! ### The user library -/

/-- Upward rounds from a source below the destination repeat what is between the two. -/
lemma upward_one (hne : d ≠ s) (hk : k ≤ 2 ^ 32) (a : UInt32) :
    upward 1 m d s k a = if (a - d).toNat < k then m (s + (a - d) % (d - s)) else m a := by
  induction k generalizing a with
  | zero => rfl
  | succ k ih =>
    have hto : a - (d + .ofNat (1 * k)) = a - d - .ofNat k := by grind
    have hread : s + .ofNat (1 * k) + (a - d - .ofNat k) = s + (a - d) := by grind
    have hfrom : s + (a - d) - d = a - d - (d - s) := by grind
    rw [upward, movs, hto, hread, ih (by omega), ih (by omega), hfrom]
    generalize a - d = x
    have hx := x.toNat_lt
    have hpos : 0 < (d - s).toNat :=
      Nat.pos_of_ne_zero fun h0 => hne (sub_eq_zero.mp (UInt32.toNat_inj.mp h0))
    generalize d - s = e at hpos
    rw [UInt32.toNat_sub, UInt32.toNat_sub, UInt32.toNat_ofNat']
    by_cases hxk : x.toNat = k
    · rw [if_pos (by omega), if_pos (show x.toNat < k + 1 by omega)]
      split_ifs with hlt
      · have hmod : x.toNat % e.toNat = (x.toNat - e.toNat) % e.toNat := Nat.mod_eq_sub_mod (by omega)
        congr 2
        rw [← UInt32.toNat_inj, UInt32.toNat_mod, UInt32.toNat_mod, hmod, UInt32.toNat_sub]
        congr 1
        omega
      · congr 2
        rw [← UInt32.toNat_inj, UInt32.toNat_mod, Nat.mod_eq_of_lt (by omega)]
    · rw [if_neg (by omega)]
      split_ifs <;> first | rfl | omega

/-- **The user library does what the kernel does**, unless the source lies below the destination, reaches
into it and does not repeat with the distance of the two. -/
theorem ulib_memmove_iff (m : Ram) (dst src : UInt32) (n : Int32) (hn : 0 ≤ n) :
    (Ulib.memmove m dst src n).2 = (Xv6.memmove m dst src n.toUInt32).2 ↔
      (src < dst ∧ dst < src + n.toUInt32 →
        ∀ i < n.toUInt32, m (src + i) = m (src + i % (dst - src))) := by
  have hlen : n.toInt.toNat = n.toUInt32.toNat := (Int32.toNat_toBitVec_of_le hn).symm
  have hmax := n.toInt_lt
  rw [Ulib.memmove, Xv6.memmove, hlen]
  dsimp only
  split_ifs with h
  · generalize n.toUInt32 = n at *
    have h' := h
    rw [UInt32.lt_iff_toNat_lt, UInt32.lt_iff_toNat_lt, UInt32.toNat_add] at h'
    have hdown : downward 1 m (dst + n - 1) (src + n - 1) n.toNat = movs (1 * n.toNat) m dst src := by
      refine downward_eq (by rw [Nat.one_mul, UInt32.ofNat_toNat]) ?_
      rw [UInt32.toNat_sub]
      omega
    have hne : dst ≠ src := fun heq => by
      rw [heq] at h'
      omega
    have hup := upward_one (m := m) (k := n.toNat) hne (by omega)
    rw [hdown, Nat.one_mul]
    refine ⟨fun heq _ i hi => ?_, fun hper => funext fun a => ?_⟩
    · have hbyte := congrFun heq (dst + i)
      rw [(moved_movs m dst src n).range i hi, hup, add_sub_cancel_left,
        if_pos (UInt32.lt_iff_toNat_lt.mp hi)] at hbyte
      exact hbyte.symm
    · rw [hup, movs]
      split_ifs with ha
      · exact (hper h _ (UInt32.lt_iff_toNat_lt.mpr ha)).symm
      · rfl
  · exact iff_of_true rfl fun h' => absurd h' h

theorem ulib_memmove_iff_down :
    (Ulib.memmove (·.toUInt8) 100 104 8).2 = (Xv6.memmove (·.toUInt8) 100 104 8).2 :=
  (ulib_memmove_iff _ 100 104 8 (by decide)).mpr fun h => nomatch h

/-- Two bytes are moved up by one: the user library doubles the first. -/
theorem ulib_memmove_doubles : ¬ ∀ (m : Ram) (dst src : UInt32) (n : Int32), 0 ≤ n →
    (Ulib.memmove m dst src n).2 = (Xv6.memmove m dst src n.toUInt32).2 := fun h =>
  absurd (congrFun (h (·.toUInt8) 101 100 2 (by decide)) 102) (by decide)

end Col331
