import Mathlib.Tactic

/-!
A ring buffer with free-running counters: `n` cells, and two 32-bit counters `r` and `w` of what
was taken out and put in, which wrap around.  The cell of a count is its remainder by `n`, which
divides `2 ^ 32`.

* `window data r w`: the contents, oldest first.
* `window_push`, `window_pop`: what `data[w++ % n] = b` and `data[r++ % n]` do to them.
-/

namespace Col331

open Function

variable {α : Type} {n : ℕ} [NeZero n]

/-- `c % n`. -/
def cell (n : ℕ) [NeZero n] (c : UInt32) : Fin n := Fin.ofNat n c.toNat

/-- The contents of the cells from the count `r` up to the count `w`. -/
def window (data : Fin n → α) (r w : UInt32) : List α :=
  (List.range (w - r).toNat).map fun j => data (cell n (r + UInt32.ofNat j))

lemma length_window (data : Fin n → α) (r w : UInt32) :
    (window data r w).length = (w - r).toNat := by
  simp [window]

@[simp] lemma window_self (data : Fin n → α) (r : UInt32) : window data r r = [] := by
  simp [window]

lemma add_ofNat_toNat_sub (r w : UInt32) : r + UInt32.ofNat (w - r).toNat = w := by
  rw [UInt32.ofNat_toNat, UInt32.add_comm, UInt32.sub_add_cancel]

/-- The count after `j` more steps is in the cell `j` further on, also if the counter wraps. -/
lemma cell_add (hn : n ∣ 2 ^ 32) (r : UInt32) (j : ℕ) :
    (cell n (r + UInt32.ofNat j)).val = (r.toNat + j) % n := by
  have htoNat : (r + UInt32.ofNat j).toNat = (r.toNat + j) % 2 ^ 32 := by
    simp [UInt32.toNat_add]
  rw [cell, Fin.val_ofNat, htoNat, Nat.mod_mod_of_dvd _ hn]

lemma toNat_succ_sub {r w : UInt32} (h : (w - r).toNat + 1 < 2 ^ 32) :
    (w + 1 - r).toNat = (w - r).toNat + 1 := by
  simp only [UInt32.toNat_sub, UInt32.toNat_add, UInt32.toNat_one] at h ⊢
  omega

lemma toNat_sub_succ {r w : UInt32} (h : r ≠ w) : (w - (r + 1)).toNat + 1 = (w - r).toNat := by
  have hne : r.toNat ≠ w.toNat := fun e => h (UInt32.toNat_inj.1 e)
  simp only [UInt32.toNat_sub, UInt32.toNat_add, UInt32.toNat_one]
  have hr := r.toNat_lt
  have hw := w.toNat_lt
  omega

/-- **A value is put in** where there is room. -/
lemma window_push (hn : n ∣ 2 ^ 32) (hlt : n < 2 ^ 32) (data : Fin n → α) (r w : UInt32) (b : α)
    (hroom : (w - r).toNat < n) :
    window (update data (cell n w) b) r (w + 1) = window data r w ++ [b] := by
  rw [window, window, toNat_succ_sub (by omega), List.range_succ, List.map_append, List.map_cons,
    List.map_nil, add_ofNat_toNat_sub, update_self]
  congr 1
  refine List.map_congr_left fun j hj => update_of_ne (fun heq => ?_) ..
  -- the cells of the window are fewer than `n` steps apart, so they are different
  rw [List.mem_range] at hj
  have hcell := congrArg Fin.val heq
  have hw : (cell n w).val = (r.toNat + (w - r).toNat) % n := by
    rw [← cell_add hn, add_ofNat_toNat_sub]
  rw [cell_add hn, hw] at hcell
  have hmod : j ≡ (w - r).toNat [MOD n] := Nat.ModEq.add_left_cancel' r.toNat hcell
  have := hmod.eq_of_lt_of_lt (by omega) hroom
  omega

/-- **The oldest value is taken out.** -/
lemma window_pop (data : Fin n → α) {r w : UInt32} (h : r ≠ w) :
    window data r w = data (cell n r) :: window data (r + 1) w := by
  rw [window, window, ← toNat_sub_succ h, List.range_succ_eq_map, List.map_cons, List.map_map]
  congr 1
  · simp
  · refine List.map_congr_left fun j _ => ?_
    have hadd : r + UInt32.ofNat (j + 1) = r + 1 + UInt32.ofNat j := by
      rw [UInt32.ofNat_add, UInt32.add_comm (UInt32.ofNat j), ← UInt32.add_assoc]
      rfl
    simp only [comp_apply, Nat.succ_eq_add_one, hadd]

/-- The contents up to a count in between, and from there on. -/
lemma window_append (data : Fin n → α) {r w e : UInt32} (h : (w - r).toNat ≤ (e - r).toNat) :
    window data r e = window data r w ++ window data w e := by
  have hew : (e - r).toNat = (w - r).toNat + (e - w).toNat := by
    simp only [UInt32.toNat_sub] at h ⊢
    have hw := w.toNat_lt
    omega
  rw [window, hew, List.range_add, List.map_append, List.map_map]
  congr 1
  refine List.map_congr_left fun j _ => ?_
  rw [comp_apply, UInt32.ofNat_add, ← UInt32.add_assoc, add_ofNat_toNat_sub]

/-- A value that is put in further on leaves the contents as they are. -/
lemma window_update (hn : n ∣ 2 ^ 32) (hlt : n < 2 ^ 32) (data : Fin n → α) {r w e : UInt32} (b : α)
    (h : (w - r).toNat ≤ (e - r).toNat) (hroom : (e - r).toNat < n) :
    window (update data (cell n e) b) r w = window data r w := by
  have hpush := window_push hn hlt data r e b hroom
  have hsucc := toNat_succ_sub (r := r) (w := e) (by omega)
  rw [window_append _ h, window_append (w := w) _ (by omega), List.append_assoc] at hpush
  exact (List.append_inj hpush (by simp [length_window])).1

end Col331
