import Mathlib.Data.Set.Card
import Mathlib.Tactic

/-!
Directory trees, over any nodes and names.

* `Dirs ι N`: nodes in use, the directories among them, and the entries of each directory, by slot.
* `Dirs.Plain`, `Dirs.Linked`, `Dirs.counted`: the entries other than `.` and `..`, the nodes that
  they and the root name, and the entries that count as links to a node.
* `Dirs.Tree`: the directories form a tree below the root, up to directories that nothing names,
  which are empty; `Tree.acyclic`, `Tree.reachable`.
* `Tree.addEntry`, `Tree.addDir`, `Tree.remove`, `Tree.forget`: the changes that keep it, with what
  each does to the links (`ncard_addEntry` and so on).  A new directory is made by `fresh` first and
  gets its entry then.
-/

namespace Col331

open Function

/-- Nodes and their directory entries: slot `j` of directory `d` holds a node and a name. -/
@[ext]
structure Dirs (ι N : Type) where
  root : ι
  dot : N
  dotdot : N
  alloc : Set ι
  dir : Set ι
  ent : ι → ℕ → Option (ι × N)

namespace Dirs

variable {ι N : Type} (G : Dirs ι N)

/-- Slot `j` of `d` names `i`, by a name other than `.` and `..`. -/
def Plain (d : ι) (j : ℕ) (i : ι) : Prop := ∃ x, G.ent d j = some (i, x) ∧ x ≠ G.dot ∧ x ≠ G.dotdot

/-- The root, and what a plain entry names. -/
def Linked (i : ι) : Prop := i = G.root ∨ ∃ d j, G.Plain d j i

/-- The entries that are links to `i`: those other than `.`, and `..` only in a directory that is
linked itself. -/
def counted (i : ι) : Set (ι × ℕ) :=
  {p | ∃ x, G.ent p.1 p.2 = some (i, x) ∧ x ≠ G.dot ∧ (x = G.dotdot → G.Linked p.1)}

/-- **A directory tree.** -/
structure Tree : Prop where
  dots : G.dot ≠ G.dotdot
  finite : {p : ι × ℕ | G.ent p.1 p.2 ≠ none}.Finite
  sub : ∀ d ∈ G.dir, d ∈ G.alloc
  owner : ∀ d j, G.ent d j ≠ none → d ∈ G.dir
  self : ∀ d ∈ G.dir, G.ent d 0 = some (d, G.dot)
  up : ∀ d ∈ G.dir, ∃ p, G.ent d 1 = some (p, G.dotdot)
  names : ∀ d j j' i i' x, G.ent d j = some (i, x) → G.ent d j' = some (i', x) → j = j'
  target : ∀ d j i, G.Plain d j i → i ∈ G.alloc
  single : ∀ d j d' j' i, G.Plain d j i → G.Plain d' j' i → i ∈ G.dir → d = d' ∧ j = j'
  parent : ∀ d j i, G.Plain d j i → i ∈ G.dir → G.ent i 1 = some (d, G.dotdot)
  rootDir : G.root ∈ G.dir
  rootUp : G.ent G.root 1 = some (G.root, G.dotdot)
  orphan : ∀ d j i, G.Plain d j i → G.Linked d
  rank : ∃ rk : ι → ℕ, ∀ d j i, G.Plain d j i → i ∈ G.dir → rk d < rk i

variable {G}

namespace Tree

variable {d d' i i' p : ι} {j j' : ℕ} {x : N} (h : G.Tree)

include h

lemma dir_of_plain (hp : G.Plain d j i) : d ∈ G.dir := by
  obtain ⟨x, hx, -⟩ := hp
  exact h.owner d j (by rw [hx]; simp)

/-- What is not in use has no entries. -/
lemma ent_of_notMem (hi : i ∉ G.alloc) (j : ℕ) : G.ent i j = none := by
  by_contra hne
  exact hi (h.sub i (h.owner i j hne))

/-- The name `.` stands in slot 0 only. -/
lemma slot_dot (hx : G.ent d j = some (i, G.dot)) : j = 0 ∧ i = d := by
  have hd : d ∈ G.dir := h.owner d j (by rw [hx]; simp)
  have hj := h.names d j 0 i d _ hx (h.self d hd)
  subst hj
  rw [h.self d hd] at hx
  exact ⟨rfl, (Prod.mk.inj (Option.some.inj hx)).1.symm⟩

/-- The name `..` stands in slot 1 only. -/
lemma slot_dotdot (hx : G.ent d j = some (i, G.dotdot)) : j = 1 := by
  have hd : d ∈ G.dir := h.owner d j (by rw [hx]; simp)
  obtain ⟨p, hp⟩ := h.up d hd
  exact h.names d j 1 i p _ hx hp

/-- The first two slots hold no plain entry. -/
lemma plain_slot (hp : G.Plain d j i) : j ≠ 0 ∧ j ≠ 1 := by
  have hd := h.dir_of_plain hp
  obtain ⟨x, hx, h1, h2⟩ := hp
  constructor
  · rintro rfl
    rw [h.self d hd] at hx
    exact h1 (Prod.mk.inj (Option.some.inj hx)).2.symm
  · rintro rfl
    obtain ⟨p, hp⟩ := h.up d hd
    rw [hp] at hx
    exact h2 (Prod.mk.inj (Option.some.inj hx)).2.symm

/-- A directory with nothing but the first two slots has no plain entry. -/
lemma not_plain_of_empty (hempty : ∀ j, 2 ≤ j → G.ent d j = none) : ¬ G.Plain d j i := by
  intro hp
  have hj := h.plain_slot hp
  obtain ⟨y, hy, -⟩ := hp
  rw [hempty j (by omega)] at hy
  nomatch hy

lemma ne_of_plain (hp : G.Plain d j i) (hi : i ∈ G.dir) : d ≠ i := by
  rintro rfl
  obtain ⟨rk, hrk⟩ := h.rank
  exact lt_irrefl _ (hrk d j d hp hi)

/-- Nothing names the root. -/
lemma not_plain_root : ¬ G.Plain d j G.root := by
  intro hp
  have hup := h.parent d j _ hp h.rootDir
  rw [h.rootUp] at hup
  exact h.ne_of_plain hp h.rootDir (Prod.mk.inj (Option.some.inj hup)).1.symm

lemma alloc_of_linked (hi : G.Linked i) : i ∈ G.alloc := by
  rcases hi with rfl | ⟨d, j, hp⟩
  · exact h.sub _ h.rootDir
  · exact h.target d j i hp

/-- **Every entry of a linked directory leads to a linked node.** -/
lemma linked_of_ent (hd : G.Linked d) (hx : G.ent d j = some (i, x)) : G.Linked i := by
  have hdir : d ∈ G.dir := h.owner d j (by rw [hx]; simp)
  by_cases h1 : x = G.dot
  · subst h1
    rw [(h.slot_dot hx).2]
    exact hd
  by_cases h2 : x = G.dotdot
  · subst h2
    obtain rfl := h.slot_dotdot hx
    rcases hd with rfl | ⟨p, q, hp⟩
    · rw [h.rootUp] at hx
      rw [← (Prod.mk.inj (Option.some.inj hx)).1]
      exact .inl rfl
    · rw [h.parent p q d hp hdir] at hx
      rw [← (Prod.mk.inj (Option.some.inj hx)).1]
      exact h.orphan p q d hp
  · exact .inr ⟨d, j, x, hx, h1, h2⟩

lemma counted_finite (i : ι) : (G.counted i).Finite := by
  refine h.finite.subset ?_
  rintro p ⟨x, hx, -⟩
  change G.ent p.1 p.2 ≠ none
  rw [hx]
  simp

/-- A linked node has a link. -/
lemma counted_nonempty (hi : G.Linked i) : (G.counted i).Nonempty := by
  rcases hi with rfl | ⟨d, j, x, hx, h1, h2⟩
  · exact ⟨(G.root, 1), G.dotdot, h.rootUp, fun h0 => h.dots h0.symm, fun _ => .inl rfl⟩
  · exact ⟨(d, j), x, hx, h1, fun h0 => absurd h0 h2⟩

/-- A node that is not linked has none. -/
lemma counted_of_not_linked (hi : ¬ G.Linked i) : G.counted i = ∅ := by
  rw [Set.eq_empty_iff_forall_notMem]
  rintro ⟨d, j⟩ ⟨x, hx, h1, h2⟩
  by_cases hx2 : x = G.dotdot
  · subst hx2
    exact hi (h.linked_of_ent (h2 rfl) hx)
  · exact hi (.inr ⟨d, j, x, hx, h1, hx2⟩)

/-- Plain entries never lead back. -/
lemma acyclic (d : ι) : ¬ Relation.TransGen (fun d i => ∃ j, G.Plain d j i) d d := by
  obtain ⟨rk, hrk⟩ := h.rank
  have hlt : ∀ i, Relation.TransGen (fun d i => ∃ j, G.Plain d j i) d i → i ∈ G.dir → rk d < rk i := by
    intro i hdi
    induction hdi with
    | single hs =>
      obtain ⟨j, hp⟩ := hs
      exact hrk _ j _ hp
    | tail _ hs ih =>
      obtain ⟨j, hp⟩ := hs
      exact fun hi => (ih (h.dir_of_plain hp)).trans (hrk _ j _ hp hi)
  intro hdd
  obtain ⟨i, ⟨j, hp⟩, -⟩ := Relation.TransGen.head'_iff.mp hdd
  exact lt_irrefl _ (hlt d hdd (h.dir_of_plain hp))

/-- **Every linked node is reached from the root.** -/
lemma reachable (hi : G.Linked i) :
    Relation.ReflTransGen (fun d i => ∃ j x, G.ent d j = some (i, x)) G.root i := by
  obtain ⟨rk, hrk⟩ := h.rank
  -- by induction on the rank for directories, each of which is named by one of lower rank
  have hdirs : ∀ r, ∀ d ∈ G.dir, rk d = r → G.Linked d →
      Relation.ReflTransGen (fun d i => ∃ j x, G.ent d j = some (i, x)) G.root d := by
    intro r
    induction r using Nat.strong_induction_on with
    | _ r ih =>
      intro d hd hr hl
      rcases hl with rfl | ⟨d', j, hp⟩
      · exact .refl
      · obtain ⟨x, hx, -⟩ := id hp
        exact (ih (rk d') (hr ▸ hrk d' j d hp hd) d' (h.dir_of_plain hp) rfl (h.orphan d' j d hp)).tail
          ⟨j, x, hx⟩
  rcases hi with rfl | ⟨d, j, hp⟩
  · exact .refl
  · obtain ⟨x, hx, -⟩ := id hp
    exact (hdirs _ d (h.dir_of_plain hp) rfl (h.orphan d j i hp)).tail ⟨j, x, hx⟩

end Tree

/-! ### The smallest tree -/

/-- A root directory with nothing in it. -/
def bare [DecidableEq ι] (root : ι) (dot dotdot : N) : Dirs ι N where
  root := root
  dot := dot
  dotdot := dotdot
  alloc := {root}
  dir := {root}
  ent d j :=
    if d = root then
      if j = 0 then some (root, dot) else if j = 1 then some (root, dotdot) else none
    else none

section Bare

variable [DecidableEq ι] {root i : ι} {dot dotdot : N}

lemma ent_bare {d : ι} {j : ℕ} {x : N} : (bare root dot dotdot).ent d j = some (i, x) ↔
    d = root ∧ i = root ∧ ((j = 0 ∧ x = dot) ∨ (j = 1 ∧ x = dotdot)) := by
  simp only [bare]
  by_cases hd : d = root
  · by_cases h0 : j = 0
    · simp [hd, h0, eq_comm]
    · by_cases h1 : j = 1
      · simp [hd, h1, eq_comm]
      · simp [hd, h0, h1]
  · simp [hd]

lemma not_plain_bare {d : ι} {j : ℕ} : ¬ (bare root dot dotdot).Plain d j i := by
  rintro ⟨x, hx, h1, h2⟩
  rcases (ent_bare.mp hx).2.2 with ⟨-, h0⟩ | ⟨-, h0⟩
  · exact h1 h0
  · exact h2 h0

lemma linked_bare : (bare root dot dotdot).Linked i ↔ i = root :=
  or_iff_left fun ⟨_, _, hp⟩ => not_plain_bare hp

lemma tree_bare (hdots : dot ≠ dotdot) : (bare root dot dotdot).Tree := by
  have hnone : ∀ d j i, ¬ (bare root dot dotdot).Plain d j i := fun _ _ _ => not_plain_bare
  refine ⟨hdots, ?_, fun _ hd => hd, fun d j hne => ?_, fun d hd => ?_, fun d hd => ⟨root, ?_⟩,
    fun d j j' i i' x h h' => ?_, fun d j i hp => absurd hp (hnone d j i),
    fun d j d' j' i hp => absurd hp (hnone d j i), fun d j i hp => absurd hp (hnone d j i), rfl, ?_,
    fun d j i hp => absurd hp (hnone d j i), ⟨fun _ => 0, fun d j i hp => absurd hp (hnone d j i)⟩⟩
  · refine (Set.toFinite {(root, 0), (root, 1)}).subset ?_
    rintro ⟨d, j⟩ hne
    obtain ⟨⟨i, x⟩, hx⟩ := Option.ne_none_iff_exists'.mp hne
    obtain ⟨rfl, -, ⟨rfl, -⟩ | ⟨rfl, -⟩⟩ := ent_bare.mp hx
    · exact .inl rfl
    · exact .inr rfl
  · obtain ⟨⟨i, x⟩, hx⟩ := Option.ne_none_iff_exists'.mp hne
    exact (ent_bare.mp hx).1
  · exact ent_bare.mpr ⟨hd, hd, .inl ⟨rfl, rfl⟩⟩
  · exact ent_bare.mpr ⟨hd, rfl, .inr ⟨rfl, rfl⟩⟩
  · obtain ⟨-, -, ⟨hj, hx⟩ | ⟨hj, hx⟩⟩ := ent_bare.mp h
    · obtain ⟨-, -, ⟨hj', -⟩ | ⟨-, hx'⟩⟩ := ent_bare.mp h'
      · rw [hj, hj']
      · exact absurd (hx.symm.trans hx') hdots
    · obtain ⟨-, -, ⟨-, hx'⟩ | ⟨hj', -⟩⟩ := ent_bare.mp h'
      · exact absurd (hx'.symm.trans hx) hdots
      · rw [hj, hj']
  · exact ent_bare.mpr ⟨rfl, rfl, .inr ⟨rfl, rfl⟩⟩

lemma counted_bare (hdots : dot ≠ dotdot) : (bare root dot dotdot).counted root = {(root, 1)} := by
  ext ⟨d, j⟩
  constructor
  · rintro ⟨x, hx, h1, -⟩
    obtain ⟨rfl, -, ⟨-, h0⟩ | ⟨rfl, -⟩⟩ := ent_bare.mp hx
    · exact absurd h0 h1
    · rfl
  · intro h0
    obtain ⟨rfl, rfl⟩ := Prod.mk.inj h0
    exact ⟨dotdot, ent_bare.mpr ⟨rfl, rfl, .inr ⟨rfl, rfl⟩⟩, hdots.symm, fun _ => .inl rfl⟩

end Bare

/-! ### Changes -/

/-- There is room for the name `x` in slot `j` of `d`. -/
structure Room (G : Dirs ι N) (d : ι) (j : ℕ) (x : N) : Prop where
  linked : G.Linked d
  dir : d ∈ G.dir
  free : G.ent d j = none
  fresh : ∀ j' i', G.ent d j' ≠ some (i', x)

namespace Room

variable {d i : ι} {j : ℕ} {x : N} (h : G.Tree) (r : G.Room d j x)

include h r

lemma ne_dot : x ≠ G.dot := fun hx => r.fresh 0 d (by rw [hx]; exact h.self d r.dir)

lemma ne_dotdot : x ≠ G.dotdot := fun hx => by
  obtain ⟨p, hp⟩ := h.up d r.dir
  exact r.fresh 1 p (by rw [hx]; exact hp)

lemma slot : j ≠ 0 ∧ j ≠ 1 := by
  constructor
  · rintro rfl
    have := r.free
    rw [h.self d r.dir] at this
    exact nomatch this
  · rintro rfl
    obtain ⟨p, hp⟩ := h.up d r.dir
    have := r.free
    rw [hp] at this
    exact nomatch this

/-- A node that is not in use is another one. -/
lemma ne_new (hi : i ∉ G.alloc) : i ≠ d := fun h0 => hi (h0 ▸ h.sub d r.dir)

omit h in
/-- The slot is no link to anything. -/
lemma notMem_counted (i : ι) : (d, j) ∉ G.counted i := by
  rintro ⟨y, hy, -⟩
  rw [r.free] at hy
  nomatch hy

end Room

section Changes

variable [DecidableEq ι]

/-- Slot `j` of `d` names `i`, which is no directory. -/
def addEntry (G : Dirs ι N) (d : ι) (j : ℕ) (i : ι) (x : N) : Dirs ι N where
  root := G.root
  dot := G.dot
  dotdot := G.dotdot
  alloc := insert i G.alloc
  dir := G.dir
  ent d' j' := if d' = d ∧ j' = j then some (i, x) else G.ent d' j'

/-- Slot `j` of `d` names `i`, a new directory. -/
def addDir (G : Dirs ι N) (d : ι) (j : ℕ) (i : ι) (x : N) : Dirs ι N where
  root := G.root
  dot := G.dot
  dotdot := G.dotdot
  alloc := insert i G.alloc
  dir := insert i G.dir
  ent d' j' :=
    if d' = d ∧ j' = j then some (i, x)
    else if d' = i then
      if j' = 0 then some (i, G.dot) else if j' = 1 then some (d, G.dotdot) else none
    else G.ent d' j'

/-- Slot `j` of `d` is emptied. -/
def remove (G : Dirs ι N) (d : ι) (j : ℕ) : Dirs ι N where
  root := G.root
  dot := G.dot
  dotdot := G.dotdot
  alloc := G.alloc
  dir := G.dir
  ent d' j' := if d' = d ∧ j' = j then none else G.ent d' j'

/-- The node `i` is no longer in use. -/
def forget (G : Dirs ι N) (i : ι) : Dirs ι N where
  root := G.root
  dot := G.dot
  dotdot := G.dotdot
  alloc := G.alloc \ {i}
  dir := G.dir \ {i}
  ent d' j' := if d' = i then none else G.ent d' j'

variable {d d' i i' : ι} {j j' : ℕ} {x : N}

/-! ### A new entry -/

section AddEntry

variable (h : G.Tree) (r : G.Room d j x)
  (hi : i ∈ G.dir → ¬ G.Linked i ∧ G.ent i 1 = some (d, G.dotdot))

include h r

lemma plain_addEntry : (G.addEntry d j i x).Plain d' j' i' ↔
    (d' = d ∧ j' = j ∧ i' = i) ∨ G.Plain d' j' i' := by
  rw [Plain, Plain]
  simp only [addEntry]
  by_cases hdj : d' = d ∧ j' = j
  · obtain ⟨rfl, rfl⟩ := hdj
    have hfree := r.free
    have hd := r.ne_dot h
    have hdd := r.ne_dotdot h
    simp only [and_self, if_true, true_and, hfree]
    constructor
    · rintro ⟨y, hy, -⟩
      exact .inl (Prod.mk.inj (Option.some.inj hy)).1.symm
    · rintro (rfl | ⟨y, hy, -⟩)
      · exact ⟨x, rfl, hd, hdd⟩
      · nomatch hy
  · rw [if_neg hdj]
    constructor
    · exact .inr
    · rintro (⟨h1, h2, -⟩ | hp)
      · exact absurd ⟨h1, h2⟩ hdj
      · exact hp

lemma linked_addEntry : (G.addEntry d j i x).Linked i' ↔ G.Linked i' ∨ i' = i := by
  simp only [Linked, plain_addEntry h r]
  constructor
  · rintro (hroot | ⟨d', j', ⟨-, -, rfl⟩ | hp⟩)
    · exact .inl (.inl hroot)
    · exact .inr rfl
    · exact .inl (.inr ⟨d', j', hp⟩)
  · rintro ((hroot | ⟨d', j', hp⟩) | rfl)
    · exact .inl hroot
    · exact .inr ⟨d', j', .inr hp⟩
    · exact .inr ⟨d, j, .inl ⟨rfl, rfl, rfl⟩⟩

/-- The first two slots are as they were. -/
lemma ent_addEntry_dots {q : ℕ} (hq : q = 0 ∨ q = 1) :
    (G.addEntry d j i x).ent d' q = G.ent d' q := by
  have hj := r.slot h
  simp only [addEntry]
  rw [if_neg]
  rintro ⟨-, rfl⟩
  rcases hq with hq | hq
  · exact hj.1 hq
  · exact hj.2 hq

include hi

omit [DecidableEq ι] in
/-- The node is another one than the directory, and has no plain entries. -/
lemma new_of_addEntry : d ≠ i ∧ ∀ j' i', ¬ G.Plain i j' i' := by
  refine ⟨?_, fun j' i' hp => (hi (h.dir_of_plain hp)).1 (h.orphan i j' i' hp)⟩
  rintro rfl
  exact (hi r.dir).1 r.linked

/-- **A new entry** for a node that is no directory, or a directory in `d` that is not linked, keeps the
tree. -/
lemma Tree.addEntry : (G.addEntry d j i x).Tree := by
  obtain ⟨hdi, hnone⟩ := new_of_addEntry h r hi
  have hplain : ∀ {d' j' i'}, (G.addEntry d j i x).Plain d' j' i' ↔
      (d' = d ∧ j' = j ∧ i' = i) ∨ G.Plain d' j' i' := plain_addEntry h r
  have hold : ∀ {d' j'}, i ∈ G.dir → (G.addEntry d j i x).Plain d' j' i → d' = d ∧ j' = j := by
    intro d' j' hid hp
    rcases hplain.mp hp with ⟨h1, h2, -⟩ | hp
    · exact ⟨h1, h2⟩
    · exact absurd (.inr ⟨d', j', hp⟩) (hi hid).1
  have hother : ∀ {d' j' i'}, i' ≠ i → (G.addEntry d j i x).Plain d' j' i' → G.Plain d' j' i' :=
    fun hne hp => (hplain.mp hp).resolve_left fun h0 => hne h0.2.2
  refine ⟨h.dots, ?_, fun d' hd' => .inr (h.sub d' hd'), fun d' j' hne => ?_, fun d' hd' => ?_,
    fun d' hd' => ?_, fun d' j₁ j₂ i₁ i₂ y h1 h2 => ?_, fun d' j' i' hp => ?_,
    fun d₁ j₁ d₂ j₂ i' h1 h2 hi' => ?_, fun d' j' i' hp hi' => ?_, h.rootDir, ?_,
    fun d' j' i' hp => ?_, ?_⟩
  · refine (h.finite.insert (d, j)).subset ?_
    rintro ⟨d', j'⟩ hne
    by_cases hdj : d' = d ∧ j' = j
    · exact .inl (Prod.ext hdj.1 hdj.2)
    · refine .inr ?_
      simpa [Dirs.addEntry, hdj] using hne
  · simp only [Dirs.addEntry] at hne
    split_ifs at hne with hdj
    · exact hdj.1 ▸ r.dir
    · exact h.owner d' j' hne
  · rw [ent_addEntry_dots h r (.inl rfl)]
    exact h.self d' hd'
  · rw [ent_addEntry_dots h r (.inr rfl)]
    exact h.up d' hd'
  · simp only [Dirs.addEntry] at h1 h2
    split_ifs at h1 h2 with hdj₁ hdj₂ hdj₂
    · exact hdj₁.2.trans hdj₂.2.symm
    · rw [← (Prod.mk.inj (Option.some.inj h1)).2, hdj₁.1] at h2
      exact absurd h2 (r.fresh _ _)
    · rw [← (Prod.mk.inj (Option.some.inj h2)).2, hdj₂.1] at h1
      exact absurd h1 (r.fresh _ _)
    · exact h.names d' j₁ j₂ i₁ i₂ y h1 h2
  · rcases hplain.mp hp with ⟨-, -, rfl⟩ | hp
    · exact .inl rfl
    · exact .inr (h.target d' j' i' hp)
  · by_cases hii : i' = i
    · subst hii
      obtain ⟨rfl, rfl⟩ := hold hi' h1
      obtain ⟨rfl, rfl⟩ := hold hi' h2
      exact ⟨rfl, rfl⟩
    · exact h.single d₁ j₁ d₂ j₂ i' (hother hii h1) (hother hii h2) hi'
  · rw [ent_addEntry_dots h r (.inr rfl)]
    by_cases hii : i' = i
    · subst hii
      rw [(hold hi' hp).1]
      exact (hi hi').2
    · exact h.parent d' j' i' (hother hii hp) hi'
  · exact (ent_addEntry_dots h r (.inr rfl)).trans h.rootUp
  · rw [linked_addEntry h r]
    rcases hplain.mp hp with ⟨rfl, -, -⟩ | hp
    · exact .inl r.linked
    · exact .inl (h.orphan d' j' i' hp)
  · obtain ⟨rk, hrk⟩ := h.rank
    refine ⟨update rk i (rk d + 1), fun d' j' i' hp hi' => ?_⟩
    by_cases hii : i' = i
    · subst hii
      rw [(hold hi' hp).1, update_self, update_of_ne hdi]
      exact Nat.lt_succ_self _
    · have hp := hother hii hp
      have hd' : d' ≠ i := fun h0 => hnone j' i' (h0 ▸ hp)
      rw [update_of_ne hii, update_of_ne hd']
      exact hrk d' j' i' hp hi'

/-- It is one link more to the node and, if that is a directory, one more to the one above it. -/
lemma mem_counted_addEntry {p : ι × ℕ} : p ∈ (G.addEntry d j i x).counted i' ↔
    p ∈ G.counted i' ∨ (p = (d, j) ∧ i' = i) ∨ (i ∈ G.dir ∧ p = (i, 1) ∧ i' = d) := by
  obtain ⟨d', j'⟩ := p
  change (∃ y, (G.addEntry d j i x).ent d' j' = some (i', y) ∧ y ≠ G.dot ∧
    (y = G.dotdot → (G.addEntry d j i x).Linked d')) ↔ _
  by_cases hdj : d' = d ∧ j' = j
  · obtain ⟨rfl, rfl⟩ := hdj
    have hent : (G.addEntry d' j' i x).ent d' j' = some (i, x) := if_pos ⟨rfl, rfl⟩
    rw [hent]
    constructor
    · rintro ⟨y, hy, -⟩
      exact .inr (.inl ⟨rfl, (Prod.mk.inj (Option.some.inj hy)).1.symm⟩)
    · rintro (hc | ⟨-, rfl⟩ | ⟨-, h0, -⟩)
      · exact absurd hc (r.notMem_counted i')
      · exact ⟨x, rfl, r.ne_dot h, fun h0 => absurd h0 (r.ne_dotdot h)⟩
      · exact absurd (Prod.mk.inj h0).2 (r.slot h).2
  · have hent : (G.addEntry d j i x).ent d' j' = G.ent d' j' := if_neg hdj
    rw [hent]
    simp only [linked_addEntry h r]
    constructor
    · rintro ⟨y, hy, h1, h2⟩
      by_cases hl : y = G.dotdot → G.Linked d'
      · exact .inl ⟨y, hy, h1, hl⟩
      · -- the entry `..` of the node that is linked now
        rw [Classical.not_imp] at hl
        obtain ⟨rfl, hl⟩ := hl
        obtain rfl := (h2 rfl).resolve_left hl
        have hid : d' ∈ G.dir := h.owner d' j' (by rw [hy]; simp)
        obtain rfl := h.slot_dotdot hy
        rw [(hi hid).2] at hy
        exact .inr (.inr ⟨hid, rfl, (Prod.mk.inj (Option.some.inj hy)).1.symm⟩)
    · rintro (⟨y, hy, h1, h2⟩ | ⟨h0, -⟩ | ⟨hid, h0, rfl⟩)
      · exact ⟨y, hy, h1, fun hdd => .inl (h2 hdd)⟩
      · exact absurd (Prod.mk.inj h0) hdj
      · obtain ⟨rfl, rfl⟩ := Prod.mk.inj h0
        exact ⟨G.dotdot, (hi hid).2, h.dots.symm, fun _ => .inr rfl⟩

open Classical in
/-- The number of links. -/
lemma ncard_addEntry (i' : ι) : ((G.addEntry d j i x).counted i').ncard =
    (G.counted i').ncard + (if i' = i then 1 else 0) + if i ∈ G.dir ∧ i' = d then 1 else 0 := by
  have hmem : ∀ p, p ∈ (G.addEntry d j i x).counted i' ↔ _ := fun p => mem_counted_addEntry h r hi
  have hdi := (new_of_addEntry h r hi).1
  by_cases h1 : i' = i
  · subst h1
    have hset : (G.addEntry d j i' x).counted i' = insert (d, j) (G.counted i') := by
      ext p
      rw [hmem p, Set.mem_insert_iff]
      simp [hdi.symm, or_comm]
    rw [hset, Set.ncard_insert_of_notMem (r.notMem_counted i') (h.counted_finite i'), if_pos rfl,
      if_neg fun h0 => hdi h0.2.symm]
  · by_cases h2 : i ∈ G.dir ∧ i' = d
    · have hset : (G.addEntry d j i x).counted i' = insert (i, 1) (G.counted i') := by
        ext p
        rw [hmem p, Set.mem_insert_iff]
        simp [h2, hdi, or_comm]
      have hout : (i, 1) ∉ G.counted i' := by
        rintro ⟨y, hy, -, hl⟩
        rw [(hi h2.1).2] at hy
        exact (hi h2.1).1 (hl (Prod.mk.inj (Option.some.inj hy)).2.symm)
      rw [hset, Set.ncard_insert_of_notMem hout (h.counted_finite i'), if_neg h1, if_pos h2]
    · have hset : (G.addEntry d j i x).counted i' = G.counted i' := by
        ext p
        rw [hmem p]
        simp only [h1, and_false, false_or, or_iff_left_iff_imp]
        exact fun h0 => absurd ⟨h0.1, h0.2.2⟩ h2
      rw [hset, if_neg h1, if_neg h2]
      rfl

end AddEntry

/-! ### A new directory -/

section AddDir

/-- A new directory `i` in `d` that nothing names. -/
def fresh (G : Dirs ι N) (d i : ι) : Dirs ι N where
  root := G.root
  dot := G.dot
  dotdot := G.dotdot
  alloc := insert i G.alloc
  dir := insert i G.dir
  ent d' j' :=
    if d' = i then
      if j' = 0 then some (i, G.dot) else if j' = 1 then some (d, G.dotdot) else none
    else G.ent d' j'

/-- A directory is made first and named then. -/
lemma addDir_eq : G.addDir d j i x = (G.fresh d i).addEntry d j i x :=
  Dirs.ext rfl rfl rfl (Set.insert_idem i G.alloc).symm rfl rfl

variable (h : G.Tree) (r : G.Room d j x) (hi : i ∉ G.alloc)

lemma ent_fresh_self : (G.fresh d i).ent i j' =
    if j' = 0 then some (i, G.dot) else if j' = 1 then some (d, G.dotdot) else none := if_pos rfl

lemma ent_fresh_of_ne (hd : d' ≠ i) : (G.fresh d i).ent d' j' = G.ent d' j' := if_neg hd

include h hi

lemma plain_fresh : (G.fresh d i).Plain d' j' i' ↔ G.Plain d' j' i' := by
  by_cases hd : d' = i
  · subst hd
    refine iff_of_false ?_ ?_
    · rintro ⟨y, hy, h1, h2⟩
      rw [ent_fresh_self] at hy
      split_ifs at hy
      · exact h1 (Prod.mk.inj (Option.some.inj hy)).2.symm
      · exact h2 (Prod.mk.inj (Option.some.inj hy)).2.symm
    · rintro ⟨y, hy, -⟩
      rw [h.ent_of_notMem hi] at hy
      nomatch hy
  · rw [Plain, Plain, ent_fresh_of_ne hd]
    exact Iff.rfl

lemma linked_fresh : (G.fresh d i).Linked i' ↔ G.Linked i' := by
  simp only [Linked, plain_fresh h hi]
  exact Iff.rfl

lemma counted_fresh : (G.fresh d i).counted i' = G.counted i' := by
  ext ⟨d', j'⟩
  change (∃ y, (G.fresh d i).ent d' j' = some (i', y) ∧ y ≠ G.dot ∧
    (y = G.dotdot → (G.fresh d i).Linked d')) ↔ ∃ y, _
  simp only [linked_fresh h hi]
  by_cases hd : d' = i
  · subst hd
    rw [ent_fresh_self, h.ent_of_notMem hi]
    refine iff_of_false ?_ (by simp)
    rintro ⟨y, hy, h1, h2⟩
    split_ifs at hy
    · exact h1 (Prod.mk.inj (Option.some.inj hy)).2.symm
    · exact hi (h.alloc_of_linked (h2 (Prod.mk.inj (Option.some.inj hy)).2.symm))
  · rw [ent_fresh_of_ne hd]

lemma Tree.fresh : (G.fresh d i).Tree := by
  have hplain : ∀ {d' j' i'}, (G.fresh d i).Plain d' j' i' ↔ G.Plain d' j' i' := plain_fresh h hi
  have hne : ∀ {d'}, d' ∈ G.dir → d' ≠ i := fun hd' h0 => hi (h0 ▸ h.sub _ hd')
  have hdir : ∀ {d' j' i'}, G.Plain d' j' i' → i' ∈ insert i G.dir → i' ∈ G.dir := fun hp hi' =>
    hi'.resolve_left fun h0 => hi (h0 ▸ h.target _ _ _ hp)
  refine ⟨h.dots, ?_, fun d' hd' => ?_, fun d' j' hne' => ?_, fun d' hd' => ?_, fun d' hd' => ?_,
    fun d' j₁ j₂ i₁ i₂ y h1 h2 => ?_, fun d' j' i' hp => .inr (h.target d' j' i' (hplain.mp hp)),
    fun d₁ j₁ d₂ j₂ i' h1 h2 hi' => ?_, fun d' j' i' hp hi' => ?_, .inr h.rootDir, ?_,
    fun d' j' i' hp => ?_, ?_⟩
  · refine ((h.finite.insert (i, 1)).insert (i, 0)).subset ?_
    rintro ⟨d', j'⟩ hne'
    by_cases hd : d' = i
    · subst hd
      have hslot : j' = 0 ∨ j' = 1 := by
        by_contra hj
        rw [not_or] at hj
        exact hne' (ent_fresh_self.trans (by rw [if_neg hj.1, if_neg hj.2]))
      rcases hslot with rfl | rfl
      · exact .inl rfl
      · exact .inr (.inl rfl)
    · refine .inr (.inr ?_)
      rwa [Set.mem_ofPred, ent_fresh_of_ne hd] at hne'
  · rcases hd' with rfl | hd'
    · exact .inl rfl
    · exact .inr (h.sub d' hd')
  · by_cases hd : d' = i
    · exact .inl hd
    · exact .inr (h.owner d' j' (ent_fresh_of_ne hd ▸ hne'))
  · rcases hd' with rfl | hd'
    · exact ent_fresh_self
    · rw [ent_fresh_of_ne (hne hd')]
      exact h.self d' hd'
  · rcases hd' with rfl | hd'
    · exact ⟨d, ent_fresh_self⟩
    · rw [ent_fresh_of_ne (hne hd')]
      exact h.up d' hd'
  · by_cases hd : d' = i
    · subst hd
      have hdots := h.dots
      rw [ent_fresh_self] at h1 h2
      split_ifs at h1 h2 <;> simp_all
    · rw [ent_fresh_of_ne hd] at h1 h2
      exact h.names d' j₁ j₂ i₁ i₂ y h1 h2
  · rw [hplain] at h1 h2
    exact h.single d₁ j₁ d₂ j₂ i' h1 h2 (hdir h1 hi')
  · rw [hplain] at hp
    rw [ent_fresh_of_ne (hne (hdir hp hi'))]
    exact h.parent d' j' i' hp (hdir hp hi')
  · exact (ent_fresh_of_ne (hne h.rootDir)).trans h.rootUp
  · rw [linked_fresh h hi]
    exact h.orphan d' j' i' (hplain.mp hp)
  · obtain ⟨rk, hrk⟩ := h.rank
    refine ⟨rk, fun d' j' i' hp hi' => ?_⟩
    rw [hplain] at hp
    exact hrk d' j' i' hp (hdir hp hi')

lemma fresh_new : i ∈ (G.fresh d i).dir →
    ¬ (G.fresh d i).Linked i ∧ (G.fresh d i).ent i 1 = some (d, G.dotdot) := fun _ =>
  ⟨fun hl => hi (h.alloc_of_linked ((linked_fresh h hi).mp hl)), ent_fresh_self⟩

include r

lemma room_fresh : (G.fresh d i).Room d j x := by
  have hd : d ≠ i := (r.ne_new h hi).symm
  refine ⟨(linked_fresh h hi).mpr r.linked, .inr r.dir, ?_, fun j' i' => ?_⟩
  · rw [ent_fresh_of_ne hd]
    exact r.free
  · rw [ent_fresh_of_ne hd]
    exact r.fresh j' i'

lemma linked_addDir : (G.addDir d j i x).Linked i' ↔ G.Linked i' ∨ i' = i := by
  rw [addDir_eq, linked_addEntry (h.fresh hi) (room_fresh h r hi), linked_fresh h hi]

/-- **A new directory** keeps the tree. -/
lemma Tree.addDir : (G.addDir d j i x).Tree := by
  rw [addDir_eq]
  exact (h.fresh hi).addEntry (room_fresh h r hi) (fresh_new h hi)

/-- It is one link to the new directory, and one more to the one above it. -/
lemma ncard_addDir (i' : ι) : ((G.addDir d j i x).counted i').ncard =
    (G.counted i').ncard + (if i' = i then 1 else 0) + if i' = d then 1 else 0 := by
  rw [addDir_eq, ncard_addEntry (h.fresh hi) (room_fresh h r hi) (fresh_new h hi), counted_fresh h hi]
  simp only [show i ∈ (G.fresh d i).dir from Set.mem_insert i G.dir, true_and]

end AddDir

/-! ### An entry less -/

section Remove

variable (h : G.Tree) (hp : G.Plain d j i) (hempty : i ∈ G.dir → ∀ j', 2 ≤ j' → G.ent i j' = none)

lemma plain_remove : (G.remove d j).Plain d' j' i' ↔ G.Plain d' j' i' ∧ ¬ (d' = d ∧ j' = j) := by
  rw [Plain, Plain]
  simp only [remove]
  by_cases hdj : d' = d ∧ j' = j
  · simp [hdj]
  · simp [hdj]

include h hp

lemma ent_remove_dots {q : ℕ} (hq : q = 0 ∨ q = 1) : (G.remove d j).ent d' q = G.ent d' q := by
  have hj := h.plain_slot hp
  simp only [remove]
  rw [if_neg]
  rintro ⟨-, rfl⟩
  rcases hq with hq | hq
  · exact hj.1 hq
  · exact hj.2 hq

omit h in
/-- The other nodes are linked as before. -/
lemma linked_remove (hi' : i' ≠ i) : (G.remove d j).Linked i' ↔ G.Linked i' := by
  simp only [Linked, plain_remove]
  refine or_congr_right ⟨fun ⟨d', j', hp', _⟩ => ⟨d', j', hp'⟩, fun ⟨d', j', hp'⟩ => ⟨d', j', hp', ?_⟩⟩
  rintro ⟨rfl, rfl⟩
  obtain ⟨y, hy, -⟩ := hp
  obtain ⟨y', hy', -⟩ := hp'
  rw [hy] at hy'
  exact hi' (Prod.mk.inj (Option.some.inj hy')).1.symm

/-- A directory is linked no more. -/
lemma not_linked_remove (hi : i ∈ G.dir) : ¬ (G.remove d j).Linked i := by
  rintro (hroot | ⟨d', j', hp'⟩)
  · have hroot : i = G.root := hroot
    exact h.not_plain_root (hroot ▸ hp)
  · rw [plain_remove] at hp'
    obtain ⟨h1, h2⟩ := h.single d' j' d j i hp'.1 hp hi
    exact hp'.2 ⟨h1, h2⟩

include hempty

/-- **To remove an entry** that names no directory, or an empty one, keeps the tree. -/
lemma Tree.remove : (G.remove d j).Tree := by
  have hplain : ∀ {d' j' i'}, (G.remove d j).Plain d' j' i' → G.Plain d' j' i' :=
    fun hp' => (plain_remove.mp hp').1
  refine ⟨h.dots, h.finite.subset ?_, h.sub, fun d' j' hne => ?_, fun d' hd' => ?_, fun d' hd' => ?_,
    fun d' j₁ j₂ i₁ i₂ y h1 h2 => ?_, fun d' j' i' hp' => h.target d' j' i' (hplain hp'), ?_, ?_,
    h.rootDir, ?_, fun d' j' i' hp' => ?_, ?_⟩
  · rintro ⟨d', j'⟩ hne h0
    refine hne ?_
    simp only [Dirs.remove]
    split_ifs
    · rfl
    · exact h0
  · simp only [Dirs.remove] at hne
    split_ifs at hne
    · exact absurd rfl hne
    · exact h.owner d' j' hne
  · rw [ent_remove_dots h hp (.inl rfl)]
    exact h.self d' hd'
  · rw [ent_remove_dots h hp (.inr rfl)]
    exact h.up d' hd'
  · simp only [Dirs.remove] at h1 h2
    split_ifs at h1 h2
    exact h.names d' j₁ j₂ i₁ i₂ y h1 h2
  · exact fun d₁ j₁ d₂ j₂ i' h1 h2 hi' => h.single d₁ j₁ d₂ j₂ i' (hplain h1) (hplain h2) hi'
  · intro d' j' i' hp' hi'
    rw [ent_remove_dots h hp (.inr rfl)]
    exact h.parent d' j' i' (hplain hp') hi'
  · exact (ent_remove_dots h hp (.inr rfl)).trans h.rootUp
  · -- the directory that holds an entry is not the one removed
    have hne : d' ≠ i := by
      rintro rfl
      exact h.not_plain_of_empty (hempty (h.dir_of_plain (hplain hp'))) (hplain hp')
    rw [linked_remove hp hne]
    exact h.orphan d' j' i' (hplain hp')
  · obtain ⟨rk, hrk⟩ := h.rank
    exact ⟨rk, fun d' j' i' hp' hi' => hrk d' j' i' (hplain hp') hi'⟩

omit hempty in
/-- It is one link less to the node, and, for a directory, one less to the one above it. -/
lemma mem_counted_remove {p : ι × ℕ} : p ∈ (G.remove d j).counted i' ↔
    p ∈ G.counted i' ∧ p ≠ (d, j) ∧ ¬ (i ∈ G.dir ∧ p = (i, 1)) := by
  obtain ⟨d', j'⟩ := p
  change (∃ y, (G.remove d j).ent d' j' = some (i', y) ∧ y ≠ G.dot ∧
    (y = G.dotdot → (G.remove d j).Linked d')) ↔ (∃ y, _) ∧ _
  by_cases hdj : d' = d ∧ j' = j
  · have hent : (G.remove d j).ent d' j' = none := if_pos hdj
    rw [hent]
    constructor
    · rintro ⟨y, hy, -⟩
      nomatch hy
    · rintro ⟨-, hne, -⟩
      exact absurd (Prod.ext hdj.1 hdj.2) hne
  · have hent : (G.remove d j).ent d' j' = G.ent d' j' := if_neg hdj
    have hne : (d', j') ≠ (d, j) := fun h0 => hdj (Prod.mk.inj h0)
    rw [hent]
    constructor
    · rintro ⟨y, hy, h1, h2⟩
      refine ⟨⟨y, hy, h1, fun hdd => ?_⟩, hne, ?_⟩
      · by_cases hdi : d' = i
        · have hdir : i ∈ G.dir := hdi ▸ h.owner d' j' (by rw [hy]; simp)
          exact absurd (hdi ▸ h2 hdd) (not_linked_remove h hp hdir)
        · exact (linked_remove hp hdi).mp (h2 hdd)
      · -- the entry `..` of a directory that is linked no more
        rintro ⟨hi, h0⟩
        obtain ⟨rfl, rfl⟩ := Prod.mk.inj h0
        obtain ⟨q, hq⟩ := h.up d' hi
        rw [hq] at hy
        exact not_linked_remove h hp hi (h2 (Prod.mk.inj (Option.some.inj hy)).2.symm)
    · rintro ⟨⟨y, hy, h1, h2⟩, -, hi1⟩
      refine ⟨y, hy, h1, fun hdd => (linked_remove hp fun hdi => hi1 ?_).mpr (h2 hdd)⟩
      subst hdd
      have hdir : d' ∈ G.dir := h.owner d' j' (by rw [hy]; simp)
      exact ⟨hdi ▸ hdir, Prod.ext hdi (h.slot_dotdot hy)⟩

end Remove

/-! ### A node less -/

section Forget

variable (h : G.Tree) (hi : ¬ G.Linked i)

include h hi

lemma plain_forget : (G.forget i).Plain d' j' i' ↔ G.Plain d' j' i' := by
  rw [Plain, Plain]
  simp only [forget]
  by_cases hd : d' = i
  · subst hd
    rw [if_pos rfl]
    constructor
    · rintro ⟨y, hy, -⟩
      nomatch hy
    · exact fun hp => absurd (h.orphan d' j' i' hp) hi
  · rw [if_neg hd]

lemma linked_forget : (G.forget i).Linked i' ↔ G.Linked i' := by
  simp only [Linked, plain_forget h hi]
  exact Iff.rfl

/-- **To free a node** that is not linked keeps the tree. -/
lemma Tree.forget : (G.forget i).Tree := by
  have hplain : ∀ {d' j' i'}, (G.forget i).Plain d' j' i' ↔ G.Plain d' j' i' := plain_forget h hi
  have hent : ∀ {d'} (q : ℕ), d' ≠ i → (G.forget i).ent d' q = G.ent d' q := fun q hd' => if_neg hd'
  have hlinked : ∀ {i'}, G.Linked i' → i' ≠ i := fun hi' h0 => hi (h0 ▸ hi')
  refine ⟨h.dots, h.finite.subset ?_, fun d' hd' => ⟨h.sub d' hd'.1, hd'.2⟩, fun d' j' hne => ?_,
    fun d' hd' => ?_, fun d' hd' => ?_, fun d' j₁ j₂ i₁ i₂ y h1 h2 => ?_, fun d' j' i' hp => ?_, ?_, ?_,
    ⟨h.rootDir, hlinked (.inl rfl)⟩, ?_, fun d' j' i' hp => ?_, ?_⟩
  · rintro ⟨d', j'⟩ hne h0
    refine hne ?_
    simp only [Dirs.forget]
    split_ifs
    · rfl
    · exact h0
  · simp only [Dirs.forget] at hne
    split_ifs at hne with hd
    · exact absurd rfl hne
    · exact ⟨h.owner d' j' hne, hd⟩
  · rw [hent 0 hd'.2]
    exact h.self d' hd'.1
  · rw [hent 1 hd'.2]
    exact h.up d' hd'.1
  · simp only [Dirs.forget] at h1 h2
    split_ifs at h1 h2
    exact h.names d' j₁ j₂ i₁ i₂ y h1 h2
  · rw [hplain] at hp
    exact ⟨h.target d' j' i' hp, hlinked (.inr ⟨d', j', hp⟩)⟩
  · exact fun d₁ j₁ d₂ j₂ i' h1 h2 hi' =>
      h.single d₁ j₁ d₂ j₂ i' (hplain.mp h1) (hplain.mp h2) hi'.1
  · intro d' j' i' hp hi'
    rw [hent 1 hi'.2]
    exact h.parent d' j' i' (hplain.mp hp) hi'.1
  · exact (hent 1 (hlinked (.inl rfl))).trans h.rootUp
  · rw [linked_forget h hi]
    exact h.orphan d' j' i' (hplain.mp hp)
  · obtain ⟨rk, hrk⟩ := h.rank
    exact ⟨rk, fun d' j' i' hp hi' => hrk d' j' i' (hplain.mp hp) hi'.1⟩

/-- No link is lost. -/
lemma counted_forget : (G.forget i).counted i' = G.counted i' := by
  ext ⟨d', j'⟩
  change (∃ y, (G.forget i).ent d' j' = some (i', y) ∧ y ≠ G.dot ∧
    (y = G.dotdot → (G.forget i).Linked d')) ↔ ∃ y, _
  by_cases hd : d' = i
  · subst hd
    have hent : (G.forget d').ent d' j' = none := if_pos rfl
    rw [hent]
    constructor
    · rintro ⟨y, hy, -⟩
      nomatch hy
    · rintro ⟨y, hy, h1, h2⟩
      by_cases hdd : y = G.dotdot
      · exact absurd (h2 hdd) hi
      · exact absurd (h.orphan d' j' i' ⟨y, hy, h1, hdd⟩) hi
  · have hent : (G.forget i).ent d' j' = G.ent d' j' := if_neg hd
    rw [hent]
    simp only [linked_forget h hi]

end Forget

end Changes

end Dirs

end Col331
