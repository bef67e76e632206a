import Col331.Grep.Match

/-!
The loop of `grep`: the input is read into `buf` a piece at a time, the lines in it are matched, and
the unfinished line is moved to the front.

A buffer without a newline is thrown away (`if(p == buf) m = 0`), although a line may have begun in it.

* `grep`: the code, for the pieces that `read` returns.
* `scan_spec`: the inner loop handles the finished lines of the buffer, and leaves the unfinished one.
* `grep_iff`: **when the output is the matching lines**, whatever the pattern.
-/

namespace Col331.Grep

/-- `'\n'`. -/
abbrev newline : UInt8 := '\n'.toUInt8

/-! ### The code -/

/-- `strchr`: how far away the character is; the string ends before the first NUL. -/
def strchr (c : UInt8) : List UInt8 → Option ℕ
  | [] => none
  | b :: s => if b = 0 then none else if b = c then some 0 else (strchr c s).map (· + 1)

/-- What `strchr` finds. -/
lemma strchr_some {c : UInt8} {s : List UInt8} {q : ℕ} (h : strchr c s = some q) :
    s = s.take q ++ c :: s.drop (q + 1) ∧ c ∉ s.take q := by
  induction s generalizing q with
  | nil => exact absurd h (by simp [strchr])
  | cons b s ih =>
    rw [strchr] at h
    split_ifs at h with h0 hc
    · cases h
      exact ⟨by rw [hc]; rfl, List.not_mem_nil⟩
    · obtain ⟨q, hq, rfl⟩ := Option.map_eq_some_iff.mp h
      obtain ⟨hs, hno⟩ := ih hq
      rw [List.take_succ_cons, List.drop_succ_cons]
      exact ⟨congrArg (b :: ·) hs, fun hmem => (List.mem_cons.mp hmem).elim (fun h => hc h.symm) hno⟩

lemma strchr_lt {c : UInt8} {s : List UInt8} {q : ℕ} (h : strchr c s = some q) : q < s.length := by
  have hlen := congrArg List.length (strchr_some h).1
  simp only [List.length_append, List.length_take, List.length_cons, List.length_drop] at hlen
  omega

lemma strchr_none {c : UInt8} {s : List UInt8} (h0 : 0 ∉ s) (h : strchr c s = none) : c ∉ s := by
  induction s with
  | nil => exact List.not_mem_nil
  | cons b s ih =>
    rw [List.mem_cons, not_or] at h0
    rw [strchr, if_neg (Ne.symm h0.1)] at h
    split_ifs at h with hc
    rw [Option.map_eq_none_iff] at h
    rw [List.mem_cons, not_or]
    exact ⟨fun h => hc h.symm, ih h0.2 h⟩

/-- The inner loop, from the pointer `p` into the buffer on: what is written, and `p` at the end. -/
def scan (pattern b : List UInt8) (p : ℕ) : List UInt8 × ℕ :=
  match _h : strchr newline (b.drop p) with
  | none => ([], p)
  | some q =>
    let line := (b.drop p).take q
    let rest := scan pattern b (p + q + 1)
    ((if grepMatch pattern line then line ++ [newline] else []) ++ rest.1, rest.2)
termination_by b.length - p
decreasing_by
  have hlt := strchr_lt _h
  rw [List.length_drop] at hlt
  omega

/-- What is left in the buffer for the next read. -/
def keep (b : List UInt8) (p : ℕ) : List UInt8 := if p = 0 then [] else b.drop p

/-- `grep`: what it writes, with `buf` in the buffer and these pieces still to be read. -/
def grep (pattern : List UInt8) : List UInt8 → List (List UInt8) → List UInt8
  | _, [] => []
  | buf, piece :: pieces =>
    let r := scan pattern (buf ++ piece) 0
    r.1 ++ grep pattern (keep (buf ++ piece) r.2) pieces

/-- `sizeof(buf)`. -/
abbrev bufSize : ℕ := 1024

/-- `read` may return these pieces: each has a byte, and no more than were asked for. -/
def Served (pattern : List UInt8) : List UInt8 → List (List UInt8) → Prop
  | _, [] => True
  | buf, piece :: pieces => piece ≠ [] ∧ piece.length ≤ bufSize - buf.length - 1 ∧
      Served pattern (keep (buf ++ piece) (scan pattern (buf ++ piece) 0).2) pieces

/-! ### Lines -/

/-- The lines of a text that a newline ends, without it. -/
def lines (s : List UInt8) : List (List UInt8) := (s.splitOn newline).dropLast

/-- The lines that match, each with its newline. -/
def matching (pattern : List UInt8) (ls : List (List UInt8)) : List UInt8 :=
  (ls.filter fun l => grepMatch pattern l).flatMap (· ++ [newline])

variable {pattern s t buf l : List UInt8} {pieces : List (List UInt8)}

lemma lines_of_not_mem (h : newline ∉ s) : lines s = [] := by
  rw [lines, List.splitOn_eq_singleton h]
  rfl

lemma lines_cons (h : newline ∉ l) : lines (l ++ newline :: s) = l :: lines s := by
  rw [lines, List.splitOn_append_cons_self_of_not_mem h, lines,
    List.dropLast_cons_of_ne_nil (List.splitOn_ne_nil _ _)]

lemma matching_append (ls ls' : List (List UInt8)) :
    matching pattern (ls ++ ls') = matching pattern ls ++ matching pattern ls' := by
  rw [matching, List.filter_append, List.flatMap_append, matching, matching]

lemma matching_cons (l : List UInt8) (ls : List (List UInt8)) : matching pattern (l :: ls) =
    (if grepMatch pattern l then l ++ [newline] else []) ++ matching pattern ls := by
  rw [matching, List.filter_cons]
  split_ifs
  · rw [List.flatMap_cons, matching]
  · rw [List.nil_append, matching]

/-- **The inner loop** matches the finished lines and leaves the pointer at the unfinished one. -/
lemma scan_spec (pattern b : List UInt8) (p : ℕ) (h0 : 0 ∉ b) :
    (scan pattern b p).1 = matching pattern (lines (b.drop p)) ∧
    newline ∉ b.drop (scan pattern b p).2 ∧ p ≤ (scan pattern b p).2 ∧
    ((scan pattern b p).2 = p ↔ newline ∉ b.drop p) ∧
    ∀ t, lines (b.drop p ++ t) = lines (b.drop p) ++ lines (b.drop (scan pattern b p).2 ++ t) := by
  induction p using scan.induct pattern b with
  | case1 p hq =>
    have hno := strchr_none (fun h => h0 (List.mem_of_mem_drop h)) hq
    have hrun : scan pattern b p = ([], p) := by
      rw [scan]
      split
      · rfl
      · rename_i q hq'
        exact nomatch hq.symm.trans hq'
    rw [hrun, lines_of_not_mem hno]
    exact ⟨rfl, hno, le_rfl, iff_of_true rfl hno, fun t => rfl⟩
  | case2 p q hq ih =>
    obtain ⟨hline, hno⟩ := strchr_some hq
    have hrun : scan pattern b p = ((if grepMatch pattern ((b.drop p).take q) then
        (b.drop p).take q ++ [newline] else []) ++ (scan pattern b (p + q + 1)).1,
        (scan pattern b (p + q + 1)).2) := by
      rw [scan]
      split
      · rename_i hq'
        exact nomatch hq.symm.trans hq'
      · rename_i q' hq'
        obtain rfl := Option.some.inj (hq.symm.trans hq')
        rfl
    obtain ⟨hout, hrest, hle, -, happ⟩ := ih
    rw [List.drop_drop, ← Nat.add_assoc] at hline
    have hlines : ∀ t, lines (b.drop p ++ t) =
        (b.drop p).take q :: lines (b.drop (p + q + 1) ++ t) := by
      intro t
      rw [← lines_cons hno, ← List.cons_append, ← List.append_assoc, ← hline]
    have hlines' := hlines []
    rw [List.append_nil, List.append_nil] at hlines'
    rw [hrun]
    refine ⟨?_, hrest, by dsimp only; omega, iff_of_false (by dsimp only; omega) ?_, fun t => ?_⟩
    · rw [hlines', matching_cons, hout]
    · rw [hline]
      exact fun h => h (List.mem_append_right _ List.mem_cons_self)
    · rw [hlines, happ, hlines', List.cons_append]

/-! ### Whole inputs -/

/-- Every piece has a newline, up to the last newline of the input. -/
def NewlineInEach (pieces : List (List UInt8)) : Prop :=
  ∀ pre piece post, pieces = pre ++ piece :: post → newline ∈ post.flatten → newline ∈ piece

lemma newlineInEach_cons {piece : List UInt8} : NewlineInEach (piece :: pieces) ↔
    (newline ∈ pieces.flatten → newline ∈ piece) ∧ NewlineInEach pieces := by
  constructor
  · intro h
    refine ⟨h [] piece pieces rfl, fun pre piece' post heq => ?_⟩
    exact h (piece :: pre) piece' post (by rw [heq]; rfl)
  · rintro ⟨hfirst, hrest⟩ pre piece' post heq
    cases pre with
    | nil =>
      obtain ⟨rfl, rfl⟩ := List.cons.inj heq
      exact hfirst
    | cons _ pre => exact hrest pre piece' post (List.cons.inj heq).2

lemma newlineInEach_of_not_mem (h : newline ∉ pieces.flatten) : NewlineInEach pieces := by
  rintro pre piece post rfl hmem
  refine absurd ?_ h
  rw [List.flatten_append, List.flatten_cons]
  exact List.mem_append_right _ (List.mem_append_right _ hmem)

/-- A round whose piece has a newline handles the lines that are finished. -/
lemma scan_of_mem {b : List UInt8} (pattern : List UInt8) (h0 : 0 ∉ b) (h : newline ∈ b) :
    (scan pattern b 0).1 = matching pattern (lines b) ∧
    newline ∉ keep b (scan pattern b 0).2 ∧ 0 ∉ keep b (scan pattern b 0).2 ∧
    ∀ t, lines (b ++ t) = lines b ++ lines (keep b (scan pattern b 0).2 ++ t) := by
  obtain ⟨hout, hno, -, hp, happ⟩ := scan_spec pattern b 0 h0
  rw [List.drop_zero] at hout hp happ
  rw [keep, if_neg fun heq => hp.mp heq h]
  exact ⟨hout, hno, fun hmem => h0 (List.mem_of_mem_drop hmem), happ⟩

/-- A round whose buffer has no newline throws it away. -/
lemma scan_of_not_mem {b : List UInt8} (pattern : List UInt8) (h0 : 0 ∉ b) (h : newline ∉ b) :
    (scan pattern b 0).1 = [] ∧ keep b (scan pattern b 0).2 = [] := by
  obtain ⟨hout, -, -, hp, -⟩ := scan_spec pattern b 0 h0
  rw [List.drop_zero] at hout hp
  rw [keep, if_pos (hp.mpr h), hout, lines_of_not_mem h]
  exact ⟨rfl, rfl⟩

/-- With a newline in each piece nothing is lost. -/
lemma grep_of_newlineInEach (pattern : List UInt8) (hbuf : newline ∉ buf)
    (h0 : 0 ∉ buf ++ pieces.flatten) (h : NewlineInEach pieces) :
    grep pattern buf pieces = matching pattern (lines (buf ++ pieces.flatten)) := by
  induction pieces generalizing buf with
  | nil =>
    rw [List.flatten_nil, List.append_nil, lines_of_not_mem hbuf]
    rfl
  | cons piece pieces ih =>
    rw [newlineInEach_cons] at h
    rw [List.flatten_cons, ← List.append_assoc, List.mem_append, not_or] at h0
    rw [grep, List.flatten_cons, ← List.append_assoc]
    by_cases hnl : newline ∈ piece
    · obtain ⟨hout, hno, h0', happ⟩ := scan_of_mem pattern h0.1 (List.mem_append_right buf hnl)
      rw [happ, matching_append, hout, ih hno (by simp [h0', h0.2]) h.2]
    · have hrest : newline ∉ pieces.flatten := fun hmem => hnl (h.1 hmem)
      have hb : newline ∉ buf ++ piece := by simp [hbuf, hnl]
      obtain ⟨hout, hkeep⟩ := scan_of_not_mem pattern h0.1 hb
      rw [hout, hkeep, ih List.not_mem_nil h0.2 h.2, List.nil_append, List.nil_append,
        lines_of_not_mem hrest, lines_of_not_mem (List.not_mem_append hb hrest)]

/-- The empty pattern matches every line. -/
lemma grepMatch_nil (l : List UInt8) : grepMatch [] l = true := by cases l <;> rfl

/-- The number of bytes in the finished lines. -/
def finished (s : List UInt8) : ℕ := (matching [] (lines s)).length

/-- The beginning of a line counts once the line is finished. -/
lemma finished_append (h : newline ∉ s) (ht : newline ∈ t) : finished (s ++ t) = s.length + finished t := by
  obtain ⟨l, t, rfl, hl⟩ := List.eq_append_cons_of_mem ht
  rw [finished, ← List.append_assoc, lines_cons (List.not_mem_append h hl), finished, lines_cons hl,
    matching_cons, matching_cons]
  simp only [grepMatch_nil, if_true, List.length_append]
  omega

lemma finished_of_not_mem (h : newline ∉ s) : finished s = 0 := by
  rw [finished, lines_of_not_mem h]
  rfl

/-- No more is written than there is. -/
lemma length_grep_le (hbuf : newline ∉ buf) (h0 : 0 ∉ buf ++ pieces.flatten) :
    (grep [] buf pieces).length ≤ finished (buf ++ pieces.flatten) := by
  induction pieces generalizing buf with
  | nil => exact Nat.zero_le _
  | cons piece pieces ih =>
    rw [List.flatten_cons, ← List.append_assoc, List.mem_append, not_or] at h0
    rw [grep, List.flatten_cons, ← List.append_assoc]
    by_cases hnl : newline ∈ piece
    · obtain ⟨hout, hno, h0', happ⟩ := scan_of_mem [] h0.1 (List.mem_append_right buf hnl)
      rw [finished, happ, matching_append, hout, List.length_append, List.length_append]
      exact Nat.add_le_add_left (ih hno (by simp [h0', h0.2])) _
    · have hb : newline ∉ buf ++ piece := by simp [hbuf, hnl]
      obtain ⟨hout, hkeep⟩ := scan_of_not_mem [] h0.1 hb
      rw [hout, hkeep, List.nil_append]
      refine (ih List.not_mem_nil h0.2).trans ?_
      rw [List.nil_append]
      by_cases hrest : newline ∈ pieces.flatten
      · rw [finished_append hb hrest]
        exact Nat.le_add_left _ _
      · rw [finished_of_not_mem hrest]
        exact Nat.zero_le _

/-- What is thrown away is missing from the output. -/
lemma newlineInEach_of_grep (hbuf : newline ∉ buf) (h0 : 0 ∉ buf ++ pieces.flatten)
    (hne : ∀ piece ∈ pieces, piece ≠ [])
    (h : grep [] buf pieces = matching [] (lines (buf ++ pieces.flatten))) : NewlineInEach pieces := by
  induction pieces generalizing buf with
  | nil => exact newlineInEach_of_not_mem List.not_mem_nil
  | cons piece pieces ih =>
    rw [List.flatten_cons, ← List.append_assoc, List.mem_append, not_or] at h0
    rw [grep, List.flatten_cons, ← List.append_assoc] at h
    rw [List.forall_mem_cons] at hne
    by_cases hnl : newline ∈ piece
    · obtain ⟨hout, hno, h0', happ⟩ := scan_of_mem [] h0.1 (List.mem_append_right buf hnl)
      rw [happ, matching_append, hout] at h
      exact newlineInEach_cons.mpr ⟨fun _ => hnl,
        ih hno (by simp [h0', h0.2]) hne.2 (List.append_cancel_left h)⟩
    · have hb : newline ∉ buf ++ piece := by simp [hbuf, hnl]
      obtain ⟨hout, hkeep⟩ := scan_of_not_mem [] h0.1 hb
      rw [hout, hkeep, List.nil_append] at h
      have hrest : newline ∉ pieces.flatten := by
        intro hrest
        have hle := length_grep_le List.not_mem_nil h0.2
        rw [h, List.nil_append] at hle
        change finished (buf ++ piece ++ pieces.flatten) ≤ _ at hle
        rw [finished_append hb hrest, List.length_append] at hle
        have hpos := List.length_pos_iff.mpr hne.1
        omega
      exact newlineInEach_of_not_mem (by simp [hnl, hrest])

lemma Served.ne_nil (h : Served pattern buf pieces) : ∀ piece ∈ pieces, piece ≠ [] := by
  induction pieces generalizing buf with
  | nil => exact fun _ hmem => absurd hmem List.not_mem_nil
  | cons piece pieces ih => exact List.forall_mem_cons.mpr ⟨h.1, ih h.2.2⟩

/-- **When `grep` writes the matching lines**, for every pattern: each piece that `read` returns has a
newline, up to the last newline of the input.  The lines may be of any length that the reads allow. -/
theorem grep_iff (pieces : List (List UInt8)) (hread : ∀ pattern, Served pattern [] pieces)
    (h0 : 0 ∉ pieces.flatten) :
    (∀ pattern, grep pattern [] pieces = matching pattern (lines pieces.flatten)) ↔
      NewlineInEach pieces := by
  constructor
  · exact fun h => newlineInEach_of_grep List.not_mem_nil h0 (hread []).ne_nil (h [])
  · exact fun h pattern => grep_of_newlineInEach pattern List.not_mem_nil h0 h

/-- A line that arrives in one piece. -/
theorem grep_iff_onePiece : (∀ pattern, Served pattern [] [[97, newline]]) ∧
    ∀ pattern, grep pattern [] [[97, newline]] = matching pattern (lines [97, newline]) := by
  have hread : ∀ pattern, Served pattern [] [[97, newline]] := fun pattern =>
    ⟨by decide, by decide, trivial⟩
  refine ⟨hread, (grep_iff [[97, newline]] hread (by decide)).mpr ?_⟩
  exact newlineInEach_cons.mpr ⟨fun _ => by decide, newlineInEach_of_not_mem List.not_mem_nil⟩

/-- A line that arrives in two pieces: `grep` does not find the `a` in `ab`. -/
theorem grep_two_pieces : Served [97] [] [[97], [98, newline]] ∧
    grep [97] [] [[97], [98, newline]] ≠ matching [97] (lines [97, 98, newline]) := by
  have hfirst := scan_of_not_mem [97] (b := [97]) (by decide) (by decide)
  obtain ⟨hout, -⟩ := scan_of_mem [97] (b := [98, newline]) (by decide) (by decide)
  constructor
  · refine ⟨by decide, by decide, by decide, ?_, trivial⟩
    rw [List.nil_append, hfirst.2]
    decide
  · rw [grep, grep, List.nil_append, hfirst.1, hfirst.2, List.nil_append, List.nil_append, hout]
    decide

end Col331.Grep
