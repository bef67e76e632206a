import Mathlib.Data.Fintype.Card
import Mathlib.Tactic

/-!
Lists in memory that end in a null pointer.

* `Linked next head l`: from `head` along `next` one meets the nodes `l`, and then the null pointer.
* `lastNode`: the loop that walks to the end; `Linked.lastNode_eq` says where it stops.
* `Linked.append`: a new node behind the last one.
-/

namespace Col331

open Function

variable {B : Type}

/-- The nodes that one meets from `head` along `next`. -/
def Linked (next : B → Option B) : Option B → List B → Prop
  | head, [] => head = none
  | head, b :: l => head = some b ∧ Linked next (next b) l

/-- The loop that walks along `next` up to the null pointer: the last node it met, or `last` if there
was none.  The result `none` is a loop that does not end within `fuel` rounds. -/
def lastNode (next : B → Option B) : ℕ → Option B → Option B → Option (Option B)
  | _, last, none => some last
  | 0, _, some _ => none
  | fuel + 1, _, some b => lastNode next fuel (some b) (next b)

section Linked

variable {next next' : B → Option B} {head : Option B} {l : List B} {b : B}

lemma Linked.head_eq (h : Linked next head l) : head = l.head? := by
  cases l with
  | nil => exact h
  | cons b l => exact h.1

/-- The nodes are reached by the pointers of the nodes only. -/
lemma Linked.congr (h : Linked next head l) (hnext : ∀ b ∈ l, next' b = next b) :
    Linked next' head l := by
  induction l generalizing head with
  | nil => exact h
  | cons b l ih =>
    refine ⟨h.1, ?_⟩
    rw [hnext b (.head _)]
    exact ih h.2 fun x hx => hnext x (.tail _ hx)

lemma Linked.lastNode_eq (h : Linked next head l) {fuel : ℕ} (hfuel : l.length ≤ fuel)
    (last : Option B) : lastNode next fuel last head = some (l.getLast?.or last) := by
  induction l generalizing head fuel last with
  | nil =>
    rw [show head = none from h]
    cases fuel <;> rfl
  | cons b l ih =>
    obtain ⟨rfl, hl⟩ := h
    cases fuel with
    | zero => nomatch hfuel
    | succ fuel =>
      rw [lastNode, ih hl (Nat.le_of_succ_le_succ hfuel)]
      cases l with
      | nil => rfl
      | cons c l => simp [List.getLast?_cons]

variable [DecidableEq B]

/-- A node behind the last one. -/
lemma Linked.concat {x : B} (h : Linked next head (l ++ [x])) (hx : x ∉ l) (hxb : x ≠ b) (hb : b ∉ l)
    (hnext : next b = none) : Linked (update next x (some b)) head (l ++ [x] ++ [b]) := by
  induction l generalizing head with
  | nil =>
    refine ⟨h.1, update_self .., ?_⟩
    rw [update_of_ne hxb.symm]
    exact hnext
  | cons c l ih =>
    rw [List.mem_cons, not_or] at hx hb
    refine ⟨h.1, ?_⟩
    rw [update_of_ne (Ne.symm hx.1)]
    exact ih h.2 hx.2 hb.2

/-- **A new node at the end of the list**, whose pointer is null. -/
lemma Linked.append (h : Linked next head l) (hnd : l.Nodup) (hb : b ∉ l) (hnext : next b = none) :
    match l.getLast? with
    | none => Linked next (some b) [b]
    | some x => Linked (update next x (some b)) head (l ++ [b]) := by
  cases l using List.reverseRecOn with
  | nil => exact ⟨rfl, hnext⟩
  | append_singleton l x =>
    rw [List.getLast?_append_of_ne_nil _ (List.cons_ne_nil x [])]
    have hnd' := List.nodup_append.mp hnd
    rw [List.mem_append, List.mem_singleton, not_or] at hb
    refine h.concat (fun hx => ?_) (Ne.symm hb.2) hb.1 hnext
    exact hnd'.2.2 x hx x (List.mem_singleton_self x) rfl

end Linked

end Col331
