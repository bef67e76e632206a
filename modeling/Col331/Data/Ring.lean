import Mathlib.Tactic

/-!
Doubly linked rings: nodes with `next` and `prev` pointers, one of them the head.

* `Seg next prev x l y`: following `next` from `x` one passes the nodes `l` and arrives at `y`,
  and `prev` leads back.
* `IsRing next prev h l`: the ring with head `h` and the other nodes `l`, in order.
* `IsRing.unlink`, `IsRing.push`: the assignments that take a node out, and that put one after
  the head.
* `findFrom`: the search loop over a ring, and `IsRing.findFrom_next`, `IsRing.findFrom_prev`:
  what it finds.
-/

namespace Col331

open Function

variable {α : Type} {next prev : α → α} {x y b h : α} {l l₁ l₂ : List α}

/-! ### Segments -/

/-- From `x` through the nodes `l` to `y`. -/
def Seg (next prev : α → α) (x : α) : List α → α → Prop
  | [], y => next x = y ∧ prev y = x
  | b :: l, y => (next x = b ∧ prev b = x) ∧ Seg next prev b l y

namespace Seg

lemma append_cons : Seg next prev x (l₁ ++ b :: l₂) y ↔
    Seg next prev x l₁ b ∧ Seg next prev b l₂ y := by
  induction l₁ generalizing x with
  | nil => exact Iff.rfl
  | cons c l₁ ih =>
    rw [List.cons_append, Seg, Seg, ih, and_assoc, and_assoc, and_assoc]

section

variable (hseg : Seg next prev x l y)

include hseg

/-- A segment depends on the pointers of its nodes only. -/
lemma congr {next' prev' : α → α}
    (hn : ∀ u ∈ x :: l, next' u = next u) (hp : ∀ v ∈ l ++ [y], prev' v = prev v) :
    Seg next' prev' x l y := by
  induction l generalizing x with
  | nil => exact ⟨(hn x (by simp)).trans hseg.1, (hp y (by simp)).trans hseg.2⟩
  | cons c l ih =>
    obtain ⟨⟨h1, h2⟩, hseg⟩ := hseg
    refine ⟨⟨(hn x (by simp)).trans h1, (hp c (by simp)).trans h2⟩, ih hseg ?_ ?_⟩
    · exact fun u hu => hn u (List.mem_cons_of_mem x hu)
    · exact fun v hv => hp v (List.mem_cons_of_mem c hv)

lemma reverse : Seg prev next y l.reverse x := by
  induction l generalizing x with
  | nil => exact ⟨hseg.2, hseg.1⟩
  | cons c l ih =>
    obtain ⟨⟨h1, h2⟩, hseg⟩ := hseg
    rw [List.reverse_cons]
    exact append_cons.2 ⟨ih hseg, h2, h1⟩

lemma prev_mem : prev y ∈ x :: l := by
  induction l generalizing x with
  | nil => simp [hseg.2]
  | cons c l ih => exact List.mem_cons_of_mem x (ih hseg.2)

lemma next_mem : next x ∈ l ++ [y] := by
  cases l with
  | nil => simp [hseg.1]
  | cons c l => simp [hseg.1.1]

lemma prev_next {u : α} (hu : u ∈ x :: l) : prev (next u) = u := by
  induction l generalizing x with
  | nil =>
    obtain rfl : u = x := by simpa using hu
    rw [hseg.1, hseg.2]
  | cons c l ih =>
    obtain ⟨⟨h1, h2⟩, hseg⟩ := hseg
    rcases List.mem_cons.1 hu with rfl | hu
    · rw [h1, h2]
    · exact ih hseg hu

/-- The nodes of a segment, one step after the other. -/
lemma iterate_next {i : ℕ} (hi : i < (l ++ [y]).length) :
    next^[i + 1] x = (l ++ [y])[i] := by
  induction l generalizing x i with
  | nil =>
    obtain rfl : i = 0 := by simpa using hi
    exact hseg.1
  | cons c l ih =>
    obtain ⟨⟨h1, -⟩, hseg⟩ := hseg
    cases i with
    | zero => exact h1
    | succ i =>
      rw [iterate_succ_apply, h1]
      exact ih hseg (by simpa using hi)

end

variable [DecidableEq α]

/-- The last link of a segment is turned to another node. -/
lemma retarget (hseg : Seg next prev x l b) (hnd : (x :: l).Nodup) (hy : y ∉ l) :
    Seg (update next (prev b) y) (update prev y (prev b)) x l y := by
  induction l generalizing x with
  | nil =>
    obtain ⟨-, h2⟩ := hseg
    rw [h2]
    exact ⟨update_self .., update_self ..⟩
  | cons c l ih =>
    obtain ⟨⟨h1, h2⟩, hseg⟩ := hseg
    rw [List.nodup_cons] at hnd
    have hx : x ≠ prev b := fun e => hnd.1 (e ▸ hseg.prev_mem)
    have hc : c ≠ y := fun e => hy (by simp [e])
    refine ⟨⟨?_, ?_⟩, ih hseg hnd.2 fun hl => hy (by simp [hl])⟩
    · rw [update_of_ne hx, h1]
    · rw [update_of_ne hc, h2]

end Seg

/-! ### Rings -/

/-- The ring with head `h` and the nodes `l` after it. -/
structure IsRing (next prev : α → α) (h : α) (l : List α) : Prop where
  nodup : (h :: l).Nodup
  seg : Seg next prev h l h

namespace IsRing

lemma reverse (hr : IsRing next prev h l) : IsRing prev next h l.reverse where
  nodup := by
    have := hr.nodup
    simpa using this
  seg := hr.seg.reverse

variable [DecidableEq α]

/-- The head alone: `h->next = h->prev = h`. -/
lemma singleton (next prev : α → α) (h : α) :
    IsRing (update next h h) (update prev h h) h [] where
  nodup := by simp
  seg := ⟨update_self .., update_self ..⟩

/-- **A node is taken out**: `b->next->prev = b->prev; b->prev->next = b->next`. -/
lemma unlink (hr : IsRing next prev h (l₁ ++ b :: l₂)) :
    IsRing (update next (prev b) (next b)) (update prev (next b) (prev b)) h
      (l₁ ++ l₂) := by
  have hnd := hr.nodup
  obtain ⟨hseg₁, hseg₂⟩ := Seg.append_cons.1 hr.seg
  have hb := hseg₁.prev_mem
  refine ⟨hnd.sublist (by simp), ?_⟩
  cases l₂ with
  | nil =>
    rw [List.append_nil, hseg₂.1]
    refine hseg₁.retarget (hnd.sublist (by simp)) ?_
    simp only [List.nodup_cons, List.mem_append, not_or] at hnd
    exact hnd.1.1
  | cons c l₂ =>
    obtain ⟨⟨h1, h2⟩, hseg₂⟩ := hseg₂
    simp only [List.nodup_cons, List.nodup_append, List.mem_append, List.mem_cons, not_or] at hnd
    obtain ⟨⟨hh₁, hhb, hhc, hh₂⟩, hnd₁, ⟨⟨hbc, hb₂⟩, hc₂, hnd₂⟩, hdisj⟩ := hnd
    rw [h1, Seg.append_cons]
    refine ⟨hseg₁.retarget (List.nodup_cons.2 ⟨hh₁, hnd₁⟩) fun hc => hdisj c hc c (by simp) rfl,
      hseg₂.congr ?_ ?_⟩
    · intro u hu
      refine update_of_ne ?_ ..
      rintro rfl
      rcases List.mem_cons.1 hb with e | hb
      · rw [e] at hu
        simp_all
      · exact hdisj _ hb _ (by simpa using Or.inr hu) rfl
    · intro v hv
      refine update_of_ne ?_ ..
      rintro rfl
      simp_all

/-- **A node is put after the head**: `b->next = h->next; b->prev = h; h->next->prev = b;
h->next = b`. -/
lemma push (hr : IsRing next prev h l) (hb : b ∉ h :: l) :
    IsRing (update (update next b (next h)) h b)
      (update (update prev b h) (next h) b) h (b :: l) := by
  have hnd := hr.nodup
  have hne : b ≠ h := fun e => hb (by simp [e])
  have hnext : b ≠ next h := by
    intro e
    have hmem := hr.seg.next_mem
    rw [← e] at hmem
    exact hb (by simpa [or_comm] using hmem)
  refine ⟨?_, ⟨update_self .., ?_⟩, ?_⟩
  · simp_all [Ne.symm hne]
  · rw [update_of_ne hnext, update_self]
  · have hseg := hr.seg
    cases l with
    | nil =>
      refine ⟨?_, ?_⟩
      · rw [update_of_ne hne, update_self, hseg.1]
      · rw [hseg.1, update_self]
    | cons c l =>
      obtain ⟨⟨h1, h2⟩, hseg⟩ := hseg
      simp only [List.nodup_cons, List.mem_cons, not_or] at hnd hb
      refine ⟨⟨?_, by rw [h1, update_self]⟩, hseg.congr (fun u hu => ?_) fun v hv => ?_⟩
      · rw [update_of_ne hne, update_self, h1]
      · have huh : u ≠ h := by
          rintro rfl
          simp_all
        have hub : u ≠ b := by
          rintro rfl
          simp_all
        rw [update_of_ne huh, update_of_ne hub]
      · have hvn : v ≠ next h := by
          rw [h1]
          rintro rfl
          simp_all
        have hvb : v ≠ b := by
          rintro rfl
          simp_all
        rw [update_of_ne hvn, update_of_ne hvb]

end IsRing

/-! ### Searching a ring -/

section Find

variable [DecidableEq α]

/-- `for(b = x; b != h; b = b->next) if(f(b)) return b`, for at most `n` rounds.  The outer
`none` stands for a loop that does not end within these. -/
def findFrom (next : α → α) (h : α) (f : α → Bool) : ℕ → α → Option (Option α)
  | 0, x => if x = h then some none else none
  | n + 1, x =>
    if x = h then some none
    else if f x then some (some x)
    else findFrom next h f n (next x)

lemma Seg.findFrom_eq (hseg : Seg next prev x l h) (hh : h ∉ l) (f : α → Bool) {n : ℕ}
    (hn : l.length ≤ n) : findFrom next h f n (next x) = some (l.find? f) := by
  induction l generalizing x n with
  | nil =>
    rw [hseg.1]
    cases n <;> simp [findFrom]
  | cons c l ih =>
    obtain ⟨⟨h1, -⟩, hseg⟩ := hseg
    rw [List.mem_cons, not_or] at hh
    obtain ⟨n, rfl⟩ : ∃ m, n = m + 1 := ⟨n - 1, by simp at hn; omega⟩
    rw [h1, findFrom, if_neg (Ne.symm hh.1), List.find?_cons]
    cases f c with
    | true => rfl
    | false => simpa using ih hseg hh.2 (by simpa using hn)

namespace IsRing

/-- The loop forwards finds the first node of the ring. -/
lemma findFrom_next (hr : IsRing next prev h l) (f : α → Bool) {n : ℕ} (hn : l.length ≤ n) :
    findFrom next h f n (next h) = some (l.find? f) :=
  hr.seg.findFrom_eq (List.nodup_cons.1 hr.nodup).1 f hn

/-- The loop backwards finds the last one. -/
lemma findFrom_prev (hr : IsRing next prev h l) (f : α → Bool) {n : ℕ} (hn : l.length ≤ n) :
    findFrom prev h f n (prev h) = some (l.reverse.find? f) :=
  hr.reverse.findFrom_next f (by simpa using hn)

end IsRing

end Find

end Col331
