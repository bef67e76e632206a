import Col331.Logic.Prog
import Mathlib.Data.List.GetD
import Mathlib.Data.List.TakeWhile
import Mathlib.Tactic

/-!
The tokens of the two shells, `gettoken` and `peek` of `sh.c`.

A pointer into the line is the index of a byte; the byte at the end is 0.

* `Lexer`: what differs between the shells, `symbols[]` and whether `>>` is a token.
* `Parser`, `gettoken`, `peek`: the code, with the cursor as the state.
* `tokens`: the tokens from a cursor on, as `gettoken` produces them.
* `gettoken_cases`, `peek_run`: what the two do, in terms of the tokens that are left.
-/

namespace Col331

namespace Sh

/-! ### The line -/

/-- `*s` at the index `i`. -/
def charAt (s : List UInt8) (i : ℕ) : UInt8 := s.getD i 0

/-- `while(s < es && p(*s)) s++`. -/
def skip (s : List UInt8) (p : UInt8 → Bool) (i : ℕ) : ℕ := i + ((s.drop i).takeWhile p).length

section Skip

variable {s : List UInt8} {p : UInt8 → Bool} {i k : ℕ}

lemma le_skip : i ≤ skip s p i := Nat.le_add_right ..

lemma skip_le (h : i ≤ s.length) : skip s p i ≤ s.length := by
  have := (List.takeWhile_prefix p (l := s.drop i)).length_le
  rw [List.length_drop] at this
  rw [skip]
  omega

lemma drop_skip : s.drop (skip s p i) = (s.drop i).dropWhile p := by
  rw [skip, ← List.drop_drop]
  generalize s.drop i = l
  have h := List.takeWhile_append_dropWhile (p := p) (l := l)
  calc l.drop (l.takeWhile p).length = (l.takeWhile p ++ l.dropWhile p).drop (l.takeWhile p).length := by
        rw [h]
    _ = l.dropWhile p := List.drop_left

lemma charAt_eq : charAt s i = (s.drop i).headD 0 := by
  rw [charAt, List.getD_eq_getElem?_getD, List.headD_eq_head?_getD, List.head?_drop]

lemma lt_of_charAt_ne (h : charAt s i ≠ 0) : i < s.length := by
  by_contra hge
  rw [charAt, List.getD_eq_default _ _ (by omega)] at h
  exact h rfl

lemma charAt_mem (h : charAt s i ≠ 0) : charAt s i ∈ s := by
  rw [charAt, List.getD_eq_getElem _ _ (lt_of_charAt_ne h)]
  exact List.getElem_mem _

lemma charAt_ne_zero (hs : ∀ b ∈ s, b ≠ 0) (h : i < s.length) : charAt s i ≠ 0 := by
  rw [charAt, List.getD_eq_getElem _ _ h]
  exact hs _ (List.getElem_mem h)

/-- What was skipped. -/
lemma of_lt_skip (hle : i ≤ k) (hlt : k < skip s p i) : p (charAt s k) = true := by
  have hk : k - i < ((s.drop i).takeWhile p).length := by
    rw [skip] at hlt
    omega
  have hget : charAt s k = ((s.drop i).takeWhile p)[k - i] := by
    have hlen := (List.takeWhile_prefix p (l := s.drop i)).length_le
    rw [List.length_drop] at hlen
    rw [(List.takeWhile_prefix p).getElem hk, List.getElem_drop, charAt,
      List.getD_eq_getElem _ _ (by omega)]
    congr
    omega
  rw [hget]
  exact List.mem_takeWhile_imp (List.getElem_mem hk)

/-- Where it stops. -/
lemma skip_stop (h : skip s p i < s.length) : p (charAt s (skip s p i)) = false := by
  have hne : (s.drop i).dropWhile p ≠ [] := by
    rw [← drop_skip]
    simpa using h
  have hhead := List.head_dropWhile_not p hne
  rw [charAt_eq, drop_skip, List.headD_eq_head?_getD, List.head?_eq_some_head hne]
  simpa using hhead

lemma skip_eq_self (h : p (charAt s i) = false ∨ s.length ≤ i) : skip s p i = i := by
  rw [skip, Nat.add_eq_left, List.length_eq_zero_iff, List.takeWhile_eq_nil_iff]
  intro hl
  rw [List.length_drop] at hl
  rcases h with h | h
  · rw [charAt, List.getD_eq_getElem _ _ (by omega)] at h
    simpa using h
  · omega

lemma lt_skip (h : i < s.length) (hp : p (charAt s i) = true) : i < skip s p i := by
  refine lt_of_le_of_ne le_skip fun heq => ?_
  have hstop := skip_stop (p := p) (heq ▸ h)
  rw [← heq, hp] at hstop
  exact Bool.noConfusion hstop

lemma skip_eq {e : ℕ} (hle : i ≤ e) (hlt : e < s.length) (hp : ∀ k, i ≤ k → k < e → p (charAt s k) = true)
    (he : p (charAt s e) = false) : skip s p i = e := by
  refine le_antisymm ?_ ?_
  · by_contra hgt
    have := of_lt_skip (s := s) (p := p) hle (by omega)
    rw [he] at this
    cases this
  · by_contra hgt
    have hstop := skip_stop (s := s) (p := p) (i := i) (by omega)
    rw [hp _ le_skip (by omega)] at hstop
    cases hstop

lemma skip_skip : skip s p (skip s p i) = skip s p i := by
  refine skip_eq_self ?_
  by_cases h : skip s p i < s.length
  · exact .inl (skip_stop h)
  · exact .inr (by omega)

lemma skip_congr {p' : UInt8 → Bool} (h : ∀ b ∈ s, p b = p' b) : skip s p i = skip s p' i := by
  have : ∀ l : List UInt8, (∀ b ∈ l, p b = p' b) → l.takeWhile p = l.takeWhile p' := by
    intro l hl
    induction l with
    | nil => rfl
    | cons b l ih =>
      rw [List.takeWhile_cons, List.takeWhile_cons, hl b List.mem_cons_self,
        ih fun c hc => hl c (.tail _ hc)]
  rw [skip, skip, this _ fun b hb => h b (List.mem_of_mem_drop hb)]

lemma takeWhile_eq_take : (s.drop i).takeWhile p = (s.drop i).take (skip s p i - i) := by
  rw [skip, Nat.add_sub_cancel_left]
  exact List.prefix_iff_eq_take.mp (List.takeWhile_prefix p)

lemma take_drop_congr {s' : List UInt8} {n : ℕ} (h : i + n ≤ s.length) (h' : i + n ≤ s'.length)
    (heq : ∀ k, i ≤ k → k < i + n → charAt s k = charAt s' k) :
    (s.drop i).take n = (s'.drop i).take n := by
  refine List.ext_getElem (by simp; omega) fun k hk hk' => ?_
  rw [List.length_take, List.length_drop] at hk
  have := heq (i + k) (by omega) (by omega)
  rw [charAt, charAt, List.getD_eq_getElem _ _ (by omega), List.getD_eq_getElem _ _ (by omega)] at this
  simpa using this

end Skip

/-! ### Tokens -/

/-- The symbols. -/
inductive Sym where
  | lt | pipe | gt | amp | semi | lparen | rparen
  /-- `>>`. -/
  | append
  deriving DecidableEq

/-- The byte that a symbol begins with. -/
def Sym.byte : Sym → UInt8
  | .lt => '<'.toUInt8
  | .pipe => '|'.toUInt8
  | .gt | .append => '>'.toUInt8
  | .amp => '&'.toUInt8
  | .semi => ';'.toUInt8
  | .lparen => '('.toUInt8
  | .rparen => ')'.toUInt8

/-- `strchr(whitespace, c)`. -/
def isSpace (c : UInt8) : Bool := c ∈ [' ', '\t', '\r', '\n', '\x0b'].map Char.toUInt8

/-- How a shell divides a line into tokens. -/
structure Lexer where
  /-- `symbols[]`. -/
  symbols : List Sym
  /-- `>>` is one token. -/
  appends : Bool
  single : .append ∉ symbols

namespace Lexer

variable (L : Lexer)

/-- `strchr(symbols, c)`, as the symbol that is found. -/
def sym (c : UInt8) : Option Sym := L.symbols.find? fun k => k.byte = c

/-- What a word is made of. -/
def wordChar (c : UInt8) : Bool := !isSpace c && (L.sym c).isNone

end Lexer

/-- The result of `gettoken`: 0, a symbol, or 'a'. -/
inductive Tok where
  | eof
  | sym (k : Sym)
  | word
  deriving DecidableEq

/-- The pointers `*q` and `*eq` to the beginning and the end of a token. -/
structure Span where
  q : ℕ
  eq : ℕ
  deriving DecidableEq

section Tokens

variable (L : Lexer) (s : List UInt8)

/-- The `switch` of `gettoken`, with the pointer to the end of the token. -/
def scan (q : ℕ) : Tok × ℕ :=
  if charAt s q = 0 then (.eof, q)
  else
    match L.sym (charAt s q) with
    | some k =>
      if k = .gt ∧ L.appends ∧ charAt s (q + 1) = '>'.toUInt8 then (.sym .append, q + 2)
      else (.sym k, q + 1)
    | none => (.word, skip s L.wordChar q)

/-- What `gettoken` makes of the line from `i` on: the token, where it is, and the cursor after it. -/
def nextToken (i : ℕ) : Tok × Span × ℕ :=
  let q := skip s isSpace i
  let r := scan L s q
  (r.1, ⟨q, r.2⟩, skip s isSpace r.2)

/-- A token with what the parser keeps of it. -/
inductive Lexeme (W : Type) where
  | sym (k : Sym)
  | word (w : W)
  deriving DecidableEq

/-- At most `n` tokens from `i` on. -/
def tokensUpTo : ℕ → ℕ → List (Lexeme Span)
  | 0, _ => []
  | n + 1, i =>
    match nextToken L s i with
    | (.eof, _, _) => []
    | (.sym k, _, j) => .sym k :: tokensUpTo n j
    | (.word, w, j) => .word w :: tokensUpTo n j

/-- The tokens from `i` on. -/
def tokens (i : ℕ) : List (Lexeme Span) := tokensUpTo L s (s.length + 1) i

end Tokens

section Lemmas

variable {L : Lexer} {s : List UInt8} {i : ℕ}

lemma charAt_eq_byte {k : Sym} (h : L.sym (charAt s i) = some k) : charAt s i = k.byte := by
  have := List.find?_some h
  simpa [eq_comm] using this

lemma Sym.byte_ne_zero (k : Sym) : k.byte ≠ 0 := by
  cases k <;> decide

/-- The cases of `scan`. -/
lemma scan_cases (q : ℕ) :
    charAt s q = 0 ∧ scan L s q = (.eof, q) ∨
    (∃ k, charAt s q = k.byte ∧ k ∈ L.symbols ∧ scan L s q = (.sym k, q + 1)) ∨
    (charAt s q = Sym.append.byte ∧ .gt ∈ L.symbols ∧ charAt s (q + 1) = '>'.toUInt8 ∧
      scan L s q = (.sym .append, q + 2)) ∨
    (charAt s q ≠ 0 ∧ L.sym (charAt s q) = none ∧ scan L s q = (.word, skip s L.wordChar q)) := by
  rw [scan]
  split_ifs with h0
  · exact .inl ⟨h0, rfl⟩
  · refine .inr ?_
    cases hk : L.sym (charAt s q) with
    | none => exact .inr (.inr ⟨h0, rfl, rfl⟩)
    | some k =>
      have hbyte := charAt_eq_byte hk
      have hmem : k ∈ L.symbols := List.mem_of_find?_eq_some hk
      dsimp only
      split_ifs with hif
      · obtain ⟨rfl, -, hnext⟩ := hif
        exact .inr (.inl ⟨hbyte, hmem, hnext, rfl⟩)
      · exact .inl ⟨k, hbyte, hmem, rfl⟩

/-- Where the token is that `gettoken` finds, if there is one. -/
lemma nextToken_bounds (hi : i ≤ s.length) :
    i ≤ (nextToken L s i).2.1.q ∧ (nextToken L s i).2.1.q ≤ (nextToken L s i).2.1.eq ∧
      (nextToken L s i).2.1.eq ≤ (nextToken L s i).2.2 ∧ (nextToken L s i).2.2 ≤ s.length ∧
      ((nextToken L s i).1 ≠ .eof → (nextToken L s i).2.1.q < (nextToken L s i).2.1.eq) := by
  have hq : skip s isSpace i ≤ s.length := skip_le hi
  have hscan : skip s isSpace i ≤ (scan L s (skip s isSpace i)).2 ∧
      (scan L s (skip s isSpace i)).2 ≤ s.length ∧
      ((scan L s (skip s isSpace i)).1 ≠ .eof →
        skip s isSpace i < (scan L s (skip s isSpace i)).2) := by
    rcases scan_cases (L := L) (s := s) (skip s isSpace i) with
      ⟨-, h⟩ | ⟨k, hbyte, -, h⟩ | ⟨-, -, hnext, h⟩ | ⟨h0, hsym, h⟩
    · simp [h, hq]
    · have := lt_of_charAt_ne (hbyte ▸ k.byte_ne_zero)
      simp only [h]
      omega
    · have := lt_of_charAt_ne (s := s) (i := skip s isSpace i + 1) (by rw [hnext]; decide)
      simp only [h]
      omega
    · have hlt := lt_of_charAt_ne h0
      have hspace := skip_stop hlt
      have hword := lt_skip (p := L.wordChar) hlt (by simp [Lexer.wordChar, hspace, hsym])
      simp only [h]
      exact ⟨hword.le, skip_le hq, fun _ => hword⟩
  exact ⟨le_skip, hscan.1, le_skip, skip_le hscan.2.1, hscan.2.2⟩

/-- A word of the line. -/
structure WordSpan (L : Lexer) (s : List UInt8) (w : Span) : Prop where
  lt : w.q < w.eq
  le : w.eq ≤ s.length
  chars : ∀ k, w.q ≤ k → k < w.eq → L.wordChar (charAt s k) = true
  stop : w.eq < s.length → L.wordChar (charAt s w.eq) = false

lemma nextToken_word (hi : i ≤ s.length) (h : (nextToken L s i).1 = .word) :
    WordSpan L s (nextToken L s i).2.1 := by
  have hb := nextToken_bounds (L := L) hi
  refine ⟨hb.2.2.2.2 (by simp [h]), hb.2.2.1.trans hb.2.2.2.1, ?_, ?_⟩ <;>
  · rw [nextToken] at h ⊢
    rcases scan_cases (L := L) (s := s) (skip s isSpace i) with
      ⟨-, h'⟩ | ⟨k, -, -, h'⟩ | ⟨-, -, -, h'⟩ | ⟨-, -, h'⟩ <;> rw [h'] at h ⊢
    · cases h
    · cases h
    · cases h
    · first | exact fun k => of_lt_skip | exact skip_stop

/-- At the end, the cursor stays. -/
lemma nextToken_eof (h : (nextToken L s i).1 = .eof) :
    (nextToken L s i).2.2 = skip s isSpace i ∧ charAt s (skip s isSpace i) = 0 := by
  rw [nextToken] at h ⊢
  rcases scan_cases (L := L) (s := s) (skip s isSpace i) with
    ⟨h0, h'⟩ | ⟨k, -, -, h'⟩ | ⟨-, -, -, h'⟩ | ⟨-, -, h'⟩ <;> rw [h'] at h ⊢
  · exact ⟨skip_skip, h0⟩
  · cases h
  · cases h
  · cases h

lemma tokensUpTo_eq {n m : ℕ} (hi : i ≤ s.length) (hn : s.length - i < n) (hm : s.length - i < m) :
    tokensUpTo L s n i = tokensUpTo L s m i := by
  induction n generalizing i m with
  | zero => omega
  | succ n ih =>
    obtain ⟨m, rfl⟩ : ∃ m', m = m' + 1 := ⟨m - 1, by omega⟩
    have hb := nextToken_bounds (L := L) hi
    rw [tokensUpTo, tokensUpTo]
    rcases hnext : nextToken L s i with ⟨tok, w, j⟩
    rw [hnext] at hb
    dsimp only at hb
    cases tok with
    | eof => rfl
    | sym k | word =>
      have hlt := hb.2.2.2.2 (by simp)
      dsimp only
      rw [ih (m := m) (by omega) (by omega) (by omega)]

lemma tokens_eq (hi : i ≤ s.length) : tokens L s i =
    match nextToken L s i with
    | (.eof, _, _) => []
    | (.sym k, _, j) => .sym k :: tokens L s j
    | (.word, w, j) => .word w :: tokens L s j := by
  have hb := nextToken_bounds (L := L) hi
  rw [tokens, tokensUpTo]
  rcases hnext : nextToken L s i with ⟨tok, w, j⟩
  rw [hnext] at hb
  dsimp only at hb
  cases tok with
  | eof => rfl
  | sym k | word =>
    have hlt := hb.2.2.2.2 (by simp)
    exact congrArg _ (tokensUpTo_eq (by omega) (by omega) (by omega))

lemma tokens_end : tokens L s s.length = [] := by
  have hend : charAt s s.length = 0 := by rw [charAt, List.getD_eq_default _ _ le_rfl]
  rw [tokens_eq le_rfl, nextToken, skip_eq_self (.inr le_rfl), scan, if_pos hend]

/-- There are no more tokens than bytes. -/
lemma length_tokens_le (hi : i ≤ s.length) : (tokens L s i).length ≤ s.length - i := by
  rw [tokens]
  generalize s.length + 1 = n
  induction n generalizing i with
  | zero => exact Nat.zero_le _
  | succ n ih =>
    have hb := nextToken_bounds (L := L) hi
    rw [tokensUpTo]
    rcases hnext : nextToken L s i with ⟨tok, w, j⟩
    rw [hnext] at hb
    dsimp only at hb
    cases tok with
    | eof => exact Nat.zero_le _
    | sym k | word =>
      have hlt := hb.2.2.2.2 (by simp)
      have := ih hb.2.2.2.1
      rw [List.length_cons]
      omega

/-- The words of a line. -/
lemma wordSpan_of_mem {w : Span} (hi : i ≤ s.length) (hw : .word w ∈ tokens L s i) : WordSpan L s w := by
  rw [tokens] at hw
  generalize s.length + 1 = n at hw
  induction n generalizing i with
  | zero => cases hw
  | succ n ih =>
    have hb := (nextToken_bounds (L := L) hi).2.2.2.1
    have hword := nextToken_word (L := L) hi
    rw [tokensUpTo] at hw
    rcases hnext : nextToken L s i with ⟨tok, w', j⟩
    rw [hnext] at hw hb hword
    cases tok with
    | eof => cases hw
    | sym k =>
      cases hw with
      | tail _ hw => exact ih hb hw
    | word =>
      cases hw with
      | head => exact hword rfl
      | tail _ hw => exact ih hb hw

lemma tokens_skip (hi : i ≤ s.length) : tokens L s (skip s isSpace i) = tokens L s i := by
  have hsame : nextToken L s (skip s isSpace i) = nextToken L s i := by
    rw [nextToken, nextToken, skip_skip]
  rw [tokens_eq (skip_le hi), tokens_eq hi, hsame]

end Lemmas

/-! ### `gettoken` and `peek` -/

/-- What the parser stops with. -/
inductive ShPanic where
  /-- `missing file for redirection`. -/
  | missingFile
  /-- `parseblock`. -/
  | parseblock
  /-- `syntax - missing )`. -/
  | missingParen
  /-- `syntax` of `parseexec`; `syntax error` in the other shell. -/
  | badToken
  /-- `too many args`. -/
  | tooManyArgs
  /-- `leftovers: %s`, and `syntax`. -/
  | leftovers
  /-- A loop has not come to its end.  This does not happen. -/
  | loops
  deriving DecidableEq

/-- Code of the parser, with the cursor `*ps` as the state.  It stops with the cursor where it is. -/
abbrev Parser (α : Type) := Prog ℕ (ShPanic × ℕ) α

/-- `panic`. -/
def halt {α : Type} (e : ShPanic) : Parser α := fun i => .error (e, i)

/-- `gettoken`. -/
def gettoken (L : Lexer) (s : List UInt8) : Parser (Tok × Span) := fun i =>
  let r := nextToken L s i
  .ok ((r.1, r.2.1), r.2.2)

/-- `peek`. -/
def peek (s : List UInt8) (toks : List UInt8) : Parser Bool := fun i =>
  let j := skip s isSpace i
  .ok (decide (charAt s j ≠ 0 ∧ charAt s j ∈ toks), j)

section Lemmas

variable {L : Lexer} {s : List UInt8} {i : ℕ}

/-- The token begins with one of the bytes. -/
def Lexeme.opens {W : Type} (toks : List UInt8) : Lexeme W → Bool
  | .sym k => k.byte ∈ toks
  | .word _ => false

/-- The cases of `gettoken`, by the tokens that are left. -/
lemma gettoken_cases (L : Lexer) (hi : i ≤ s.length) : ∃ tok w j, i ≤ j ∧ j ≤ s.length ∧
    gettoken L s i = .ok ((tok, w), j) ∧
    match tok with
    | .eof => tokens L s i = [] ∧ tokens L s j = []
    | .sym k => tokens L s i = .sym k :: tokens L s j
    | .word => tokens L s i = .word w :: tokens L s j ∧ WordSpan L s w := by
  have hb := nextToken_bounds (L := L) hi
  have hword := nextToken_word (L := L) hi
  have heof := nextToken_eof (L := L) (s := s) (i := i)
  have htok := tokens_eq (L := L) hi
  rcases hnext : nextToken L s i with ⟨tok, w, j⟩
  rw [hnext] at hb hword htok heof
  dsimp only at hb
  refine ⟨tok, w, j, by omega, hb.2.2.2.1, by rw [gettoken, hnext], ?_⟩
  cases tok with
  | eof =>
    refine ⟨htok, ?_⟩
    rw [show j = skip s isSpace i from (heof rfl).1, tokens_skip hi]
    exact htok
  | sym k => exact htok
  | word => exact ⟨htok, hword rfl⟩

/-- Without tokens, there is only white space left. -/
lemma skip_of_tokens_nil (hs : ∀ b ∈ s, b ≠ 0) (hi : i ≤ s.length) (h : tokens L s i = []) :
    skip s isSpace i = s.length := by
  rw [tokens_eq hi] at h
  rcases hnext : nextToken L s i with ⟨tok, w, j⟩
  rw [hnext] at h
  cases tok with
  | eof =>
    have heof := (nextToken_eof (L := L) (s := s) (i := i) (by rw [hnext])).2
    by_contra hne
    exact charAt_ne_zero hs (lt_of_le_of_ne (skip_le hi) hne) heof
  | sym k => cases h
  | word => cases h

/-- `peek` looks at the next token. -/
lemma peek_run (hi : i ≤ s.length) {toks : List UInt8} (ht : ∀ c ∈ toks, ∃ k ∈ L.symbols, k.byte = c) :
    peek s toks i =
      .ok ((tokens L s i).head?.any (Lexeme.opens toks), skip s isSpace i) := by
  rw [peek, tokens_eq hi, nextToken]
  congr 2
  rcases scan_cases (L := L) (s := s) (skip s isSpace i) with
    ⟨h0, h⟩ | ⟨k, hbyte, -, h⟩ | ⟨hbyte, -, -, h⟩ | ⟨h0, hsym, h⟩
  · simp [h, h0]
  · simp [h, hbyte, k.byte_ne_zero, Lexeme.opens]
  · simp [h, hbyte, Sym.byte_ne_zero, Lexeme.opens]
  · have hnot : charAt s (skip s isSpace i) ∉ toks := fun hmem => by
      obtain ⟨k, hk, hkc⟩ := ht _ hmem
      have := List.find?_eq_none.mp hsym k hk
      simp [hkc] at this
    simp [h, hnot, Lexeme.opens]

end Lemmas

end Sh

end Col331
