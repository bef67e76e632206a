import Mathlib.Tactic

/-!
The pattern matcher of `grep.c`.

A string is the list of its characters before the NUL.

* `matchhere`, `matchstar`, `grepMatch`: the code, `grepMatch` for `match`.
* `Item`, `readPattern`, `Matches`: what a pattern means.
* `grepMatch_iff`: **the code implements the language**.
-/

namespace Col331.Grep

/-! ### The code -/

/-- The loop of `matchstar`; `here` is `matchhere` of the rest of the pattern. -/
def matchstar (c : UInt8) (here : List UInt8 → Bool) : List UInt8 → Bool
  | [] => here []
  | t :: text => here (t :: text) || ((t == c || c == '.'.toUInt8) && matchstar c here text)

/-- `*text != '\0' && (c == '.' || c == *text)`, and then the rest of the pattern. -/
def matchone (c : UInt8) (here : List UInt8 → Bool) : List UInt8 → Bool
  | [] => false
  | t :: text => (c == '.'.toUInt8 || c == t) && here text

/-- `matchhere`. -/
def matchhere : List UInt8 → List UInt8 → Bool
  | [], _ => true
  | [c], text => if c = '$'.toUInt8 then text.isEmpty else matchone c (fun _ => true) text
  | c :: d :: re, text =>
    if d = '*'.toUInt8 then matchstar c (matchhere re) text else matchone c (matchhere (d :: re)) text

/-- The loop of `match`. -/
def matchloop (re : List UInt8) : List UInt8 → Bool
  | [] => matchhere re []
  | t :: text => matchhere re (t :: text) || matchloop re text

/-- `match`. -/
def grepMatch (re text : List UInt8) : Bool :=
  match re with
  | [] => matchloop [] text
  | c :: re => if c = '^'.toUInt8 then matchhere re text else matchloop (c :: re) text

/-! ### The language -/

/-- What an item of a pattern is made of. -/
inductive Atom where
  | char (c : UInt8)
  | any

/-- The atom that a character stands for. -/
def atom (c : UInt8) : Atom := if c = '.'.toUInt8 then .any else .char c

/-- The characters an atom matches. -/
def Atom.Matches : Atom → UInt8 → Prop
  | .char c, t => t = c
  | .any, _ => True

/-- The items of a pattern. -/
inductive Item where
  | one (a : Atom)
  | star (a : Atom)

/-- The strings an item matches. -/
def Item.Matches : Item → List UInt8 → Prop
  | .one a, s => ∃ t, s = [t] ∧ a.Matches t
  | .star a, s => ∀ t ∈ s, a.Matches t

/-- The strings a sequence of items matches. -/
def Matches : List Item → List UInt8 → Prop
  | [], s => s = []
  | i :: items, s => ∃ u v, s = u ++ v ∧ i.Matches u ∧ Matches items v

/-- A pattern: does it begin with `^`, its items, and does it end with `$`. -/
structure Pattern where
  atStart : Bool
  items : List Item
  atEnd : Bool

/-- The items of a pattern without `^`, and whether a `$` ends it. -/
def readItems : List UInt8 → List Item × Bool
  | [] => ([], false)
  | [c] => if c = '$'.toUInt8 then ([], true) else ([.one (atom c)], false)
  | c :: d :: re =>
    if d = '*'.toUInt8 then (.star (atom c) :: (readItems re).1, (readItems re).2)
    else (.one (atom c) :: (readItems (d :: re)).1, (readItems (d :: re)).2)

/-- A pattern as it is read. -/
def readPattern (re : List UInt8) : Pattern :=
  if re.head? = some '^'.toUInt8 then ⟨true, (readItems re.tail).1, (readItems re.tail).2⟩
  else ⟨false, (readItems re).1, (readItems re).2⟩

/-- The text contains a string that the pattern matches, where the pattern allows it. -/
def Pattern.Occurs (p : Pattern) (text : List UInt8) : Prop :=
  ∃ u v w, text = u ++ v ++ w ∧ Matches p.items v ∧ (p.atStart → u = []) ∧ (p.atEnd → w = [])

/-! ### The code implements the language -/

variable {c : UInt8} {here : List UInt8 → Bool} {text : List UInt8}

lemma atom_matches (c t : UInt8) : (atom c).Matches t ↔ (t == c || c == '.'.toUInt8) = true := by
  rw [atom, Bool.or_eq_true, beq_iff_eq, beq_iff_eq]
  split_ifs with h
  · exact iff_of_true trivial (.inr h)
  · exact (or_iff_left h).symm

lemma matchone_iff : matchone c here text = true ↔
    ∃ u v, text = u ++ v ∧ (Item.one (atom c)).Matches u ∧ here v = true := by
  cases text with
  | nil =>
    refine iff_of_false Bool.false_ne_true ?_
    rintro ⟨u, v, huv, ⟨t, rfl, -⟩, -⟩
    exact List.cons_ne_nil t v huv.symm
  | cons t text =>
    have hone : (c == '.'.toUInt8 || c == t) = true ↔ (atom c).Matches t := by
      rw [atom_matches, Bool.or_comm, Bool.beq_comm]
    rw [matchone, Bool.and_eq_true, hone]
    constructor
    · rintro ⟨ht, hrest⟩
      exact ⟨[t], text, rfl, ⟨t, rfl, ht⟩, hrest⟩
    · rintro ⟨u, v, huv, ⟨t', rfl, ht⟩, hrest⟩
      obtain ⟨rfl, rfl⟩ := List.cons.inj huv
      exact ⟨ht, hrest⟩

/-- `matchstar` tries every number of repetitions. -/
lemma matchstar_iff : matchstar c here text = true ↔
    ∃ u v, text = u ++ v ∧ (Item.star (atom c)).Matches u ∧ here v = true := by
  induction text with
  | nil =>
    constructor
    · exact fun h => ⟨[], [], rfl, fun t ht => absurd ht List.not_mem_nil, h⟩
    · rintro ⟨u, v, huv, -, hv⟩
      obtain ⟨-, rfl⟩ := List.append_eq_nil_iff.mp huv.symm
      exact hv
  | cons t text ih =>
    rw [matchstar, Bool.or_eq_true, Bool.and_eq_true, ih, ← atom_matches]
    constructor
    · rintro (h | ⟨ht, u, v, rfl, hu, hv⟩)
      · exact ⟨[], t :: text, rfl, fun t ht => absurd ht List.not_mem_nil, h⟩
      · exact ⟨t :: u, v, rfl, List.forall_mem_cons.mpr ⟨ht, hu⟩, hv⟩
    · rintro ⟨u, v, huv, hu, hv⟩
      cases u with
      | nil => exact .inl (huv ▸ hv)
      | cons t' u =>
        obtain ⟨rfl, rfl⟩ := List.cons.inj huv
        obtain ⟨ht, hu⟩ := List.forall_mem_cons.mp hu
        exact .inr ⟨ht, u, v, rfl, hu, hv⟩

/-- The text begins with a string that the items match, which is the whole text if a `$` ends them. -/
def Begins (p : List Item × Bool) (text : List UInt8) : Prop :=
  ∃ v w, text = v ++ w ∧ Matches p.1 v ∧ (p.2 → w = [])

/-- One more item. -/
lemma begins_cons (i : Item) (p : List Item × Bool) (text : List UInt8) :
    Begins (i :: p.1, p.2) text ↔ ∃ u v, text = u ++ v ∧ i.Matches u ∧ Begins p v := by
  constructor
  · rintro ⟨v, w, rfl, ⟨u, v, rfl, hu, hv⟩, hw⟩
    exact ⟨u, v ++ w, List.append_assoc .., hu, v, w, rfl, hv, hw⟩
  · rintro ⟨u, _, rfl, hu, v, w, rfl, hv, hw⟩
    exact ⟨u ++ v, w, (List.append_assoc ..).symm, ⟨u, v, rfl, hu, hv⟩, hw⟩

/-- The induction is on the pattern, an item at a time. -/
lemma matchhere_iff : ∀ re text, matchhere re text = true ↔ Begins (readItems re) text
  | [], text => iff_of_true rfl ⟨[], text, rfl, rfl, nofun⟩
  | [c], text => by
    rw [matchhere, readItems]
    split_ifs with hc
    · rw [List.isEmpty_iff]
      constructor
      · exact fun h => ⟨[], [], h, rfl, fun _ => rfl⟩
      · rintro ⟨v, w, rfl, rfl, hw⟩
        exact hw rfl
    · have hnil : ∀ v, Begins ([], false) v := fun v =>
        ⟨[], v, rfl, rfl, nofun⟩
      rw [begins_cons (.one (atom c)) ([], false), matchone_iff]
      simp only [hnil, and_true]
  | c :: d :: re, text => by
    rw [matchhere, readItems]
    split_ifs with hd
    · rw [begins_cons, matchstar_iff]
      simp only [matchhere_iff re]
    · rw [begins_cons, matchone_iff]
      simp only [matchhere_iff (d :: re)]

/-- The loop of `match` tries every place. -/
lemma matchloop_iff (re text : List UInt8) :
    matchloop re text = true ↔ ∃ u v, text = u ++ v ∧ matchhere re v = true := by
  induction text with
  | nil =>
    constructor
    · exact fun h => ⟨[], [], rfl, h⟩
    · rintro ⟨u, v, huv, hv⟩
      obtain ⟨-, rfl⟩ := List.append_eq_nil_iff.mp huv.symm
      exact hv
  | cons t text ih =>
    rw [matchloop, Bool.or_eq_true, ih]
    constructor
    · rintro (h | ⟨u, v, rfl, hv⟩)
      · exact ⟨[], t :: text, rfl, h⟩
      · exact ⟨t :: u, v, rfl, hv⟩
    · rintro ⟨u, v, huv, hv⟩
      cases u with
      | nil => exact .inl (huv ▸ hv)
      | cons t' u =>
        obtain ⟨-, rfl⟩ := List.cons.inj huv
        exact .inr ⟨u, v, rfl, hv⟩

/-- **`match` returns 1 for the texts in which the pattern occurs.** -/
theorem grepMatch_iff (re text : List UInt8) :
    grepMatch re text = true ↔ (readPattern re).Occurs text := by
  have hloop : ∀ re, matchloop re text = true ↔
      Pattern.Occurs ⟨false, (readItems re).1, (readItems re).2⟩ text := by
    intro re
    simp only [matchloop_iff, matchhere_iff]
    constructor
    · rintro ⟨u, _, rfl, v, w, rfl, hv, hw⟩
      exact ⟨u, v, w, (List.append_assoc ..).symm, hv, nofun, hw⟩
    · rintro ⟨u, v, w, rfl, hv, -, hw⟩
      exact ⟨u, v ++ w, List.append_assoc .., v, w, rfl, hv, hw⟩
  cases re with
  | nil => exact hloop []
  | cons c re =>
    rw [grepMatch, readPattern]
    simp only [List.head?_cons, Option.some.injEq, List.tail_cons]
    split_ifs with hc
    · rw [matchhere_iff]
      constructor
      · rintro ⟨v, w, rfl, hv, hw⟩
        exact ⟨[], v, w, rfl, hv, fun _ => rfl, hw⟩
      · rintro ⟨u, v, w, rfl, hv, hu, hw⟩
        obtain rfl := hu rfl
        exact ⟨v, w, rfl, hv, hw⟩
    · exact hloop (c :: re)

end Col331.Grep
