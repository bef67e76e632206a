import Mathlib.Data.List.GetD
import Mathlib.Tactic

/-!
Tables of descriptors as POSIX has them: what is opened gets the lowest number that is free.

* `Fds.get`, `Fds.put`: a descriptor and what it refers to.
* `Fds.lowest`, `Fds.place`: the lowest free descriptor, and opening something there.
-/

namespace Col331

/-- A table of descriptors.  Those that are not in the list are closed. -/
abbrev Fds (α : Type) := List (Option α)

namespace Fds

variable {α : Type}

/-- What a descriptor refers to. -/
def get (t : Fds α) (fd : ℕ) : Option α := t.getD fd none

/-- The descriptor `fd` refers to `x`. -/
def put (x : Option α) : ℕ → Fds α → Fds α
  | 0, [] => [x]
  | 0, _ :: t => x :: t
  | fd + 1, [] => none :: put x fd []
  | fd + 1, y :: t => y :: put x fd t

/-- `close`. -/
def close (t : Fds α) (fd : ℕ) : Fds α := put none fd t

/-- `dup2`. -/
def dup2 (t : Fds α) (old new : ℕ) : Fds α := put (t.get old) new t

/-- The lowest free descriptor. -/
def lowest : Fds α → ℕ
  | some _ :: t => lowest t + 1
  | none :: _ | [] => 0

/-- Something is opened. -/
def place (t : Fds α) (x : α) : Fds α := put (some x) t.lowest t

@[simp] lemma get_put (t : Fds α) (x : Option α) (fd k : ℕ) :
    (put x fd t).get k = if k = fd then x else t.get k := by
  induction fd generalizing t k with
  | zero =>
    cases t <;> cases k <;> rfl
  | succ fd ih =>
    cases t with
    | nil =>
      cases k with
      | zero => rfl
      | succ k =>
        have := ih [] k
        simpa [put, get] using this
    | cons y t =>
      cases k with
      | zero => rfl
      | succ k =>
        have := ih t k
        simpa [put, get] using this

@[simp] lemma get_close (t : Fds α) (fd k : ℕ) : (t.close fd).get k = if k = fd then none else t.get k :=
  get_put ..

@[simp] lemma get_dup2 (t : Fds α) (old new k : ℕ) :
    (t.dup2 old new).get k = if k = new then t.get old else t.get k := get_put ..

@[simp] lemma get_place (t : Fds α) (x : α) (k : ℕ) :
    (t.place x).get k = if k = t.lowest then some x else t.get k := get_put ..

/-- What a descriptor refers to is in the table. -/
lemma mem_of_get {t : Fds α} {fd : ℕ} {x : α} (h : t.get fd = some x) : some x ∈ t := by
  rw [get, List.getD_eq_getElem?_getD] at h
  cases hk : t[fd]? with
  | none => simp [hk] at h
  | some y =>
    rw [hk] at h
    obtain rfl : y = some x := h
    exact List.mem_of_getElem? hk

/-- Descriptors that refer to different things differ. -/
lemma ne_of_get {t : Fds α} {a b : ℕ} {x y : α} (ha : t.get a = some x) (hb : t.get b = some y)
    (h : x ≠ y) : a ≠ b := by
  rintro rfl
  exact h (Option.some.inj (ha.symm.trans hb))

lemma get_lowest (t : Fds α) : t.get t.lowest = none := by
  induction t with
  | nil => rfl
  | cons y t ih =>
    cases y with
    | none => rfl
    | some y => exact ih

lemma isSome_of_lt_lowest {t : Fds α} {k : ℕ} (h : k < t.lowest) : (t.get k).isSome := by
  induction t generalizing k with
  | nil => cases h
  | cons y t ih =>
    cases y with
    | none => cases h
    | some y =>
      cases k with
      | zero => rfl
      | succ k => exact ih (by simpa [lowest] using h)

/-- The lowest free descriptor is the one below which all are open. -/
lemma lowest_eq {t : Fds α} {k : ℕ} (hk : t.get k = none) (hlt : ∀ j < k, (t.get j).isSome) :
    t.lowest = k := by
  rcases lt_trichotomy t.lowest k with h | h | h
  · have := hlt _ h
    simp [get_lowest] at this
  · exact h
  · have := isSome_of_lt_lowest h
    simp [hk] at this

end Fds

end Col331
