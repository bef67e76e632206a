import Col331.Sh.Parse

/-!
The grammar of the xv6 shell, and what the parser has to do with it.

    line ::= pipe '&'* [';' line]
    pipe ::= cmd ['|' pipe]
    cmd ::= '(' line ')' redir* | redir* (word redir*)*
    redir ::= ('<' | '>' | '>>') word

with fewer than `MAXARGS` words in a command.

* `Deriv`: the derivations, with `Deriv.yield`, the tokens, and `Deriv.tree`, the tree.
* `parse_sound`: what the parser accepts has a derivation.
* `parse_complete`: what has a derivation is accepted, with its tree.
* `parsecmd_grammar`: **`parsecmd` accepts exactly the lines with a derivation**.
-/

namespace Col331

open Prog

namespace Sh

/-! ### Derivations -/

/-- The nonterminals. -/
inductive Cat where
  | line | pipe | cmd

/-- `<`, `>` and `>>`. -/
inductive Dir where
  | input | output | append
  deriving DecidableEq

/-- The symbol. -/
def Dir.sym : Dir → Sym
  | .input => .lt
  | .output => .gt
  | .append => .append

/-- The mode and the descriptor. -/
def Dir.target : Dir → Mode × ℕ
  | .input => (.rdonly, 0)
  | .output | .append => (.wronlyCreate, 1)

/-- Derivations. -/
inductive Deriv (W : Type) : Cat → Type where
  | line (p : Deriv W .pipe) (amps : ℕ) : Deriv W .line
  | seq (p : Deriv W .pipe) (amps : ℕ) (l : Deriv W .line) : Deriv W .line
  | single (c : Deriv W .cmd) : Deriv W .pipe
  | pipe (c : Deriv W .cmd) (p : Deriv W .pipe) : Deriv W .pipe
  | block (l : Deriv W .line) (rs : List (Dir × W)) : Deriv W .cmd
  | exec (rs : List (Dir × W)) (ws : List (W × List (Dir × W))) (few : ws.length < maxargs) : Deriv W .cmd

section Yield

variable {W : Type}

/-- The tokens of redirections. -/
def redirTokens : List (Dir × W) → List (Lexeme W)
  | [] => []
  | r :: rs => .sym r.1.sym :: .word r.2 :: redirTokens rs

/-- The tokens of words with redirections after them. -/
def wordTokens : List (W × List (Dir × W)) → List (Lexeme W)
  | [] => []
  | w :: ws => .word w.1 :: (redirTokens w.2 ++ wordTokens ws)

/-- A command with redirections. -/
def wrap (c : Cmd W) (rs : List (Dir × W)) : Cmd W :=
  rs.foldl (fun c r => .redir c r.2 r.1.target.1 r.1.target.2) c

namespace Deriv

/-- What is derived. -/
def yield : {c : Cat} → Deriv W c → List (Lexeme W)
  | _, line p n => p.yield ++ List.replicate n (.sym .amp)
  | _, seq p n l => p.yield ++ (List.replicate n (.sym .amp) ++ .sym .semi :: l.yield)
  | _, single c => c.yield
  | _, pipe c p => c.yield ++ .sym .pipe :: p.yield
  | _, block l rs => .sym .lparen :: (l.yield ++ .sym .rparen :: redirTokens rs)
  | _, exec rs ws _ => redirTokens rs ++ wordTokens ws

/-- The tree. -/
def tree : {c : Cat} → Deriv W c → Cmd W
  | _, line p n => Cmd.back^[n] p.tree
  | _, seq p n l => .list (Cmd.back^[n] p.tree) l.tree
  | _, single c => c.tree
  | _, pipe c p => .pipe c.tree p.tree
  | _, block l rs => wrap l.tree rs
  | _, exec rs ws _ => wrap (.exec (ws.map Prod.fst)) (rs ++ ws.flatMap Prod.snd)

end Deriv

lemma wrap_append (c : Cmd W) (rs rs' : List (Dir × W)) : wrap c (rs ++ rs') = wrap (wrap c rs) rs' :=
  List.foldl_append ..

/-- A word goes to the command below the redirections. -/
lemma addArg_wrap (argv : List W) (rs : List (Dir × W)) (w : W) :
    (wrap (.exec argv) rs).addArg w = wrap (.exec (argv ++ [w])) rs := by
  induction rs using List.reverseRecOn with
  | nil => rfl
  | append_singleton rs r ih =>
    rw [wrap_append, wrap_append, ← ih]
    rfl

end Yield

/-! ### What is left of the line -/

/-- The symbols that can come after a nonterminal. -/
def followSyms : Cat → List Sym
  | .line => [.rparen]
  | .pipe => [.rparen, .amp, .semi]
  | .cmd => [.pipe, .rparen, .amp, .semi]

section Steps

variable {s : List UInt8} {i : ℕ} {E : ShPanic × ℕ → Prop}

/-- The tokens that are left. -/
abbrev left (s : List UInt8) (i : ℕ) : List (Lexeme Span) := tokens xv6.toLexer s i

/-- The first token begins like one of the symbols. -/
def begins (ks : List Sym) (ts : List (Lexeme Span)) : Bool :=
  ts.head?.any (Lexeme.opens (ks.map Sym.byte))

/-- `peek` looks at the next token. -/
lemma wp_peek (ks : List Sym) {Q : Bool → ℕ → Prop} (hi : i ≤ s.length)
    (hks : ∀ k ∈ ks, k ∈ xv6.symbols)
    (h : ∀ j ≤ s.length, left s j = left s i → Q (begins ks (left s i)) j) :
    wp (peek s (ks.map Sym.byte)) Q E i := by
  rw [wp_of_ok (peek_run (L := xv6.toLexer) hi fun c hc => ?_)]
  · exact h _ (skip_le hi) (tokens_skip hi)
  · obtain ⟨k, hk, rfl⟩ := List.mem_map.mp hc
    exact ⟨k, hks k hk, rfl⟩

variable {Q : Tok × Span → ℕ → Prop} {ts : List (Lexeme Span)}

/-- `gettoken` takes the next token. -/
lemma wp_gettoken (hi : i ≤ s.length)
    (heof : left s i = [] → ∀ w, ∀ j ≤ s.length, left s j = [] → Q (.eof, w) j)
    (hsym : ∀ k w, ∀ j ≤ s.length, left s i = .sym k :: left s j → Q (.sym k, w) j)
    (hword : ∀ w, ∀ j ≤ s.length, left s i = .word w :: left s j → Q (.word, w) j) :
    wp (gettoken xv6.toLexer s) Q E i := by
  obtain ⟨tok, w, j, -, hj, hrun, htok⟩ := gettoken_cases xv6.toLexer hi
  rw [wp_of_ok hrun]
  cases tok with
  | eof => exact heof htok.1 w j hj htok.2
  | sym k => exact hsym k w j hj htok
  | word => exact hword w j hj htok.1

/-- `gettoken` of a symbol that `peek` has found. -/
lemma wp_gettoken_sym {k : Sym} (hi : i ≤ s.length)
    (h : left s i = .sym k :: ts) (hQ : ∀ w, ∀ j ≤ s.length, left s j = ts → Q (.sym k, w) j) :
    wp (gettoken xv6.toLexer s) Q E i := by
  refine wp_gettoken hi (fun h' => ?_) (fun k' w j hj h' => ?_) fun w j hj h' => ?_
  · rw [h'] at h
    cases h
  · rw [h'] at h
    cases h
    exact hQ w j hj rfl
  · rw [h'] at h
    cases h

/-- `gettoken` of a word. -/
lemma wp_gettoken_word {w : Span}
    (hi : i ≤ s.length) (h : left s i = .word w :: ts)
    (hQ : ∀ j ≤ s.length, left s j = ts → Q (.word, w) j) :
    wp (gettoken xv6.toLexer s) Q E i := by
  refine wp_gettoken hi (fun h' => ?_) (fun k' w' j hj h' => ?_) fun w' j hj h' => ?_
  · rw [h'] at h
    cases h
  · rw [h'] at h
    cases h
  · rw [h'] at h
    cases h
    exact hQ j hj rfl

/-- What `peek` has found. -/
lemma exists_of_begins {ks : List Sym} (h : begins ks ts = true) :
    ∃ k ts', ts = .sym k :: ts' ∧ k.byte ∈ ks.map Sym.byte := by
  cases ts with
  | nil => cases h
  | cons t ts =>
    cases t with
    | word w => cases h
    | sym k => exact ⟨k, ts, rfl, of_decide_eq_true h⟩

lemma begins_cons {ks : List Sym} {k : Sym} (hk : k ∈ ks) (ts : List (Lexeme Span)) :
    begins ks (.sym k :: ts) = true :=
  decide_eq_true (List.mem_map_of_mem hk)

/-- The symbols that no other one begins like. -/
def plainSyms : List Sym := [.pipe, .amp, .semi, .lparen, .rparen]

/-- The next token is the symbol, or `peek` does not find it. -/
lemma next_cases {k : Sym} (hk : k ∈ plainSyms) (ts : List (Lexeme Span)) :
    (∃ ts', ts = .sym k :: ts') ∨ begins [k] ts = false := by
  cases hb : begins [k] ts with
  | false => exact .inr rfl
  | true =>
    obtain ⟨k', ts', hts, hbyte⟩ := exists_of_begins hb
    obtain rfl : k' = k := by revert hk hbyte; cases k <;> cases k' <;> decide
    exact .inl ⟨ts', hts⟩

section Accept

variable {α : Type} {rest other : Parser α} {R : α → ℕ → Prop} {k : Sym}

/-- `peek` does not find the symbol. -/
lemma wp_decline (hi : i ≤ s.length) (hk : k ∈ xv6.symbols) (h : begins [k] (left s i) = false)
    (hR : ∀ j ≤ s.length, left s j = left s i → wp other R E j) :
    wp (peek s [k.byte] >>= fun b => if b = true then rest else other) R E i := by
  rw [wp_bind]
  refine wp_peek [k] hi (by simpa using hk) fun j hj hsame => ?_
  rw [h, if_neg (by simp)]
  exact hR j hj hsame

/-- `peek` finds the symbol, and `gettoken` takes it. -/
lemma wp_accept (hi : i ≤ s.length) (hk : k ∈ xv6.symbols) (h : left s i = .sym k :: ts)
    (hR : ∀ j ≤ s.length, left s j = ts → wp rest R E j) :
    wp (peek s [k.byte] >>= fun b =>
      if b = true then gettoken xv6.toLexer s >>= fun _ => rest else other) R E i := by
  rw [wp_bind]
  refine wp_peek [k] hi (by simpa using hk) fun j hj hsame => ?_
  rw [h, if_pos (begins_cons (List.mem_singleton_self k) ts), wp_bind]
  exact wp_gettoken_sym hj (hsame.trans h) fun _ => hR

end Accept

end Steps

/-! ### Soundness -/

section Sound

variable {s : List UInt8} {i : ℕ}

/-- How the parser stops: with the cursor in the line, and not because there was too little fuel. -/
def Stops (s : List UInt8) (need fuel : ℕ) (e : ShPanic × ℕ) : Prop :=
  e.2 ≤ s.length ∧ (need ≤ fuel → e.1 ≠ .loops)

lemma Stops.mono {need need' fuel fuel' : ℕ} {e : ShPanic × ℕ} (h : Stops s need fuel e)
    (hle : need' ≤ fuel' → need ≤ fuel) : Stops s need' fuel' e :=
  ⟨h.1, fun h' => h.2 (hle h')⟩

lemma wp_halt {α : Type} {Q : α → ℕ → Prop} {need fuel : ℕ} {e : ShPanic} (hi : i ≤ s.length)
    (he : e ≠ .loops) : wp (halt e) Q (Stops s need fuel) i :=
  ⟨hi, fun _ => he⟩

lemma wp_loops {α : Type} {Q : α → ℕ → Prop} {need fuel : ℕ} (hi : i ≤ s.length) (hlt : fuel < need) :
    wp (halt .loops) Q (Stops s need fuel) i :=
  ⟨hi, fun h => absurd h (by omega)⟩

section Then

variable {α β : Type} {p : Parser α} {f : α → Parser β} {Q R : α → ℕ → Prop} {R' : β → ℕ → Prop}
  {n n' fuel fuel' : ℕ}

lemma wp_relax (h : wp p Q (Stops s n fuel) i) (hle : n' ≤ fuel' → n ≤ fuel)
    (hQ : ∀ a j, Q a j → R a j) : wp p R (Stops s n' fuel') i :=
  wp_mono h hQ fun _ he => he.mono hle

lemma wp_then (h : wp p Q (Stops s n fuel) i) (hle : n' ≤ fuel' → n ≤ fuel)
    (hf : ∀ a j, Q a j → wp (f a) R' (Stops s n' fuel') j) : wp (p >>= f) R' (Stops s n' fuel') i := by
  rw [wp_bind]
  exact wp_relax h hle hf

end Then

lemma dir_of_byte {k : Sym} (h : k.byte ∈ [Sym.lt, .gt].map Sym.byte) : ∃ d : Dir, d.sym = k := by
  cases k with
  | lt => exact ⟨.input, rfl⟩
  | gt => exact ⟨.output, rfl⟩
  | append => exact ⟨.append, rfl⟩
  | pipe | amp | semi | lparen | rparen => nomatch h

lemma redircmd_sym (c : Cmd Span) (d : Dir) (w : Span) :
    redircmd xv6 c (.sym d.sym) w = .redir c w d.target.1 d.target.2 := by
  cases d <;> rfl

variable {fuel : ℕ}

lemma parseredirs_sound {cmd : Cmd Span} (hi : i ≤ s.length) :
    wp (parseredirs xv6 s fuel cmd) (fun c j => j ≤ s.length ∧
      ∃ rs, left s i = redirTokens rs ++ left s j ∧ c = wrap cmd rs)
      (Stops s ((left s i).length + 1) fuel) i := by
  induction fuel generalizing cmd i with
  | zero => exact wp_loops hi (by omega)
  | succ fuel ih =>
    rw [parseredirs, wp_bind]
    refine wp_peek [.lt, .gt] hi (by decide) fun j hj hsame => ?_
    split_ifs with hpeek
    · obtain ⟨k, ts, hts, hk⟩ := exists_of_begins hpeek
      obtain ⟨d, rfl⟩ := dir_of_byte hk
      rw [wp_bind]
      refine wp_gettoken_sym hj (hsame.trans hts) fun _ j₁ hj₁ h₁ => ?_
      rw [wp_bind]
      refine wp_gettoken hj₁ (fun h₂ _ j₂ hj₂ _ => ?_) (fun k _ j₂ hj₂ h₂ => ?_)
        fun w j₂ hj₂ h₂ => ?_
      · exact wp_halt hj₂ (by decide)
      · exact wp_halt hj₂ (by decide)
      · dsimp only
        rw [if_pos rfl, redircmd_sym]
        have hleft : left s i = .sym d.sym :: .word w :: left s j₂ := by
          rw [hts, ← h₁, h₂]
        refine wp_relax (ih hj₂) (fun hfuel => ?_) ?_
        · rw [hleft] at hfuel
          simp only [List.length_cons] at hfuel
          omega
        rintro c j₃ ⟨hj₃, rs, h₃, rfl⟩
        refine ⟨hj₃, (d, w) :: rs, ?_, rfl⟩
        rw [hleft, h₃]
        rfl
    · exact ⟨hj, [], hsame.symm, rfl⟩

lemma parseargs_sound (argv : List Span) (rs : List (Dir × Span)) (hi : i ≤ s.length)
    (hargv : argv.length < maxargs) :
    wp (parseargs xv6 s fuel argv.length (wrap (.exec argv) rs)) (fun c j => j ≤ s.length ∧
      ∃ ws, left s i = wordTokens ws ++ left s j ∧ argv.length + ws.length < maxargs ∧
        c = wrap (.exec (argv ++ ws.map Prod.fst)) (rs ++ ws.flatMap Prod.snd))
      (Stops s ((left s i).length + 1) fuel) i := by
  induction fuel generalizing argv rs i with
  | zero => exact wp_loops hi (by omega)
  | succ fuel ih =>
    rw [parseargs, wp_bind]
    refine wp_peek (followSyms .cmd) hi (by decide) fun j hj hsame => ?_
    by_cases hpeek : begins (followSyms .cmd) (left s i) = true
    · rw [if_pos hpeek]
      exact ⟨hj, [], hsame.symm, hargv, by simp⟩
    · rw [if_neg hpeek, wp_bind]
      refine wp_gettoken hj (fun h₁ _ j₁ hj₁ h₁' => ?_) (fun k _ j₁ hj₁ h₁ => ?_)
        fun w j₁ hj₁ h₁ => ?_
      · refine ⟨hj₁, [], ?_, hargv, by simp⟩
        rw [← hsame, h₁, h₁']
        rfl
      · exact wp_halt hj₁ (by decide)
      · dsimp only
        split_ifs with hmany
        · exact wp_halt hj₁ (by decide)
        · have hleft : left s i = .word w :: left s j₁ := hsame.symm.trans h₁
          rw [show xv6.keep s w = w from rfl, addArg_wrap]
          refine wp_then (parseredirs_sound hj₁) (fun hfuel => ?_) ?_
          · rw [hleft] at hfuel
            simp only [List.length_cons] at hfuel
            omega
          rintro c j₂ ⟨hj₂, rs', h₂, rfl⟩
          rw [← wrap_append]
          have ih := ih (argv ++ [w]) (rs ++ rs') hj₂ (by simp; omega)
          rw [List.length_append, List.length_singleton] at ih
          refine wp_relax ih (fun hfuel => ?_) ?_
          · rw [hleft, h₂] at hfuel
            simp only [List.length_cons, List.length_append] at hfuel
            omega
          rintro c j₃ ⟨hj₃, ws, h₃, hlen, rfl⟩
          refine ⟨hj₃, (w, rs') :: ws, ?_, ?_, by simp⟩
          · rw [hleft, h₂, h₃, wordTokens]
            simp
          · simp only [List.length_cons]
            omega

lemma parsewords_sound (hi : i ≤ s.length) :
    wp (parsewords xv6 s fuel) (fun c j => j ≤ s.length ∧
      ∃ d : Deriv Span .cmd, left s i = d.yield ++ left s j ∧ c = d.tree)
      (Stops s ((left s i).length + 1) fuel) i := by
  rw [parsewords]
  refine wp_seq (parseredirs_sound hi) ?_
  rintro c j ⟨hj, rs, hrs, rfl⟩
  refine wp_relax (parseargs_sound [] rs hj (by decide)) (fun hfuel => ?_) ?_
  · rw [hrs, List.length_append] at hfuel
    omega
  rintro c j' ⟨hj', ws, hws, hlen, rfl⟩
  refine ⟨hj', .exec rs ws (by simpa using hlen), ?_, rfl⟩
  rw [hrs, hws, Deriv.yield, List.append_assoc]

lemma parseamps_sound {cmd : Cmd Span} (hi : i ≤ s.length) :
    wp (parseamps s fuel cmd) (fun c j => j ≤ s.length ∧
      ∃ n, left s i = List.replicate n (.sym .amp) ++ left s j ∧ c = Cmd.back^[n] cmd)
      (Stops s ((left s i).length + 1) fuel) i := by
  induction fuel generalizing cmd i with
  | zero => exact wp_loops hi (by omega)
  | succ fuel ih =>
    rw [parseamps]
    rcases next_cases (by decide : Sym.amp ∈ plainSyms) (left s i) with ⟨ts, hts⟩ | hno
    · refine wp_accept hi (by decide) hts fun j₁ hj₁ h₁ => ?_
      have hleft : left s i = .sym .amp :: left s j₁ := by rw [hts, ← h₁]
      refine wp_relax (ih hj₁) (fun hfuel => ?_) ?_
      · rw [hleft] at hfuel
        simp only [List.length_cons] at hfuel
        omega
      rintro c j₂ ⟨hj₂, n, h₂, rfl⟩
      refine ⟨hj₂, n + 1, ?_, rfl⟩
      rw [hleft, h₂]
      rfl
    · exact wp_decline hi (by decide) hno fun j hj hsame => ⟨hj, 0, hsame.symm, rfl⟩

/-- The functions of the parser, by the nonterminal. -/
def parse (s : List UInt8) : Cat → ℕ → Parser (Cmd Span)
  | .line => parseline s
  | .pipe => parsepipe s
  | .cmd => parseexec s

/-- The fuel that is enough for `n` tokens. -/
def need : Cat → ℕ → ℕ
  | .line, n => 3 * n + 4
  | .pipe, n => 3 * n + 3
  | .cmd, n => 3 * n + 2

/-- What the parser has found is derived. -/
def Parsed (s : List UInt8) (i : ℕ) (c : Cat) (t : Cmd Span) (j : ℕ) : Prop :=
  j ≤ s.length ∧ ∃ d : Deriv Span c, left s i = d.yield ++ left s j ∧ t = d.tree

lemma parseblock_sound {line : Parser (Cmd Span)} {ts : List (Lexeme Span)} (hi : i ≤ s.length)
    (hts : left s i = .sym .lparen :: ts)
    (hline : ∀ j ≤ s.length, left s j = ts →
      wp line (Parsed s j .line) (Stops s (need .line ts.length) fuel) j) :
    wp (parseblock s line fuel) (Parsed s i .cmd) (Stops s (3 * (left s i).length + 1) fuel) i := by
  rw [parseblock]
  refine wp_accept hi (by decide) hts fun j₁ hj₁ h₁ => ?_
  refine wp_then (hline j₁ hj₁ h₁) (fun hfuel => ?_) ?_
  · rw [hts] at hfuel
    simp only [List.length_cons, need] at hfuel ⊢
    omega
  rintro c j₂ ⟨hj₂, d, h₂, rfl⟩
  rcases next_cases (by decide : Sym.rparen ∈ plainSyms) (left s j₂) with ⟨ts', hts'⟩ | hno
  · refine wp_accept hj₂ (by decide) hts' fun j₄ hj₄ h₄ => ?_
    have hleft : left s i = .sym .lparen :: (d.yield ++ .sym .rparen :: left s j₄) := by
      rw [hts, h₁.symm.trans h₂, hts', ← h₄]
    refine wp_relax (parseredirs_sound hj₄) (fun hfuel => ?_) ?_
    · rw [hleft] at hfuel
      simp only [List.length_cons, List.length_append] at hfuel
      omega
    rintro c j₅ ⟨hj₅, rs, h₅, rfl⟩
    refine ⟨hj₅, .block d rs, ?_, rfl⟩
    rw [hleft, h₅, Deriv.yield]
    simp
  · exact wp_decline hj₂ (by decide) hno fun j₃ hj₃ _ => wp_halt hj₃ (by decide)

/-- **What the parser accepts has a derivation.** -/
lemma parse_sound {c : Cat} (hi : i ≤ s.length) :
    wp (parse s c fuel) (Parsed s i c) (Stops s (need c (left s i).length) fuel) i := by
  induction fuel generalizing c i with
  | zero =>
    cases c <;> rw [parse] <;> [rw [parseline]; rw [parsepipe]; rw [parseexec]] <;>
      exact wp_loops hi (by simp [need])
  | succ fuel ih =>
    cases c with
    | line =>
      rw [parse, parseline]
      refine wp_then (ih (c := .pipe) hi) (fun hfuel => by simp only [need] at hfuel ⊢; omega) ?_
      rintro _ j₁ ⟨hj₁, p, h₁, rfl⟩
      refine wp_then (parseamps_sound hj₁) (fun hfuel => ?_) ?_
      · rw [h₁] at hfuel
        simp only [List.length_append, need] at hfuel
        omega
      rintro _ j₂ ⟨hj₂, n, h₂, rfl⟩
      rcases next_cases (by decide : Sym.semi ∈ plainSyms) (left s j₂) with ⟨ts, hts⟩ | hno
      · refine wp_accept hj₂ (by decide) hts fun j₄ hj₄ h₄ => ?_
        have hleft : left s i =
            p.yield ++ (List.replicate n (.sym .amp) ++ .sym .semi :: left s j₄) := by
          rw [h₁, h₂, hts, ← h₄]
        refine wp_then (ih (c := .line) hj₄) (fun hfuel => ?_) ?_
        · rw [hleft] at hfuel
          simp only [List.length_cons, List.length_append, need] at hfuel ⊢
          omega
        rintro _ j₅ ⟨hj₅, l, h₅, rfl⟩
        refine ⟨hj₅, .seq p n l, ?_, rfl⟩
        rw [hleft, h₅, Deriv.yield]
        simp
      · refine wp_decline hj₂ (by decide) hno fun j₃ hj₃ h₃ => ⟨hj₃, .line p n, ?_, rfl⟩
        rw [h₁, h₂, Deriv.yield, List.append_assoc, h₃]
    | pipe =>
      rw [parse, parsepipe]
      refine wp_then (ih (c := .cmd) hi) (fun hfuel => by simp only [need] at hfuel ⊢; omega) ?_
      rintro _ j₁ ⟨hj₁, d, h₁, rfl⟩
      rcases next_cases (by decide : Sym.pipe ∈ plainSyms) (left s j₁) with ⟨ts, hts⟩ | hno
      · refine wp_accept hj₁ (by decide) hts fun j₃ hj₃ h₃ => ?_
        have hleft : left s i = d.yield ++ .sym .pipe :: left s j₃ := by
          rw [h₁, hts, ← h₃]
        refine wp_then (ih (c := .pipe) hj₃) (fun hfuel => ?_) ?_
        · rw [hleft] at hfuel
          simp only [List.length_cons, List.length_append, need] at hfuel ⊢
          omega
        rintro _ j₄ ⟨hj₄, p, h₄, rfl⟩
        refine ⟨hj₄, .pipe d p, ?_, rfl⟩
        rw [hleft, h₄, Deriv.yield]
        simp
      · refine wp_decline hj₁ (by decide) hno fun j₂ hj₂ h₂ => ⟨hj₂, .single d, ?_, rfl⟩
        rw [h₁, Deriv.yield, h₂]
    | cmd =>
      rw [parse, parseexec, wp_bind]
      refine wp_peek [.lparen] hi (by decide) fun j hj hsame => ?_
      unfold Parsed
      rw [← hsame]
      rcases next_cases (by decide : Sym.lparen ∈ plainSyms) (left s j) with ⟨ts, hts⟩ | hno
      · rw [if_pos (hts ▸ begins_cons (List.mem_singleton_self _) ts)]
        refine wp_relax (parseblock_sound hj hts fun j₁ hj₁ h₁ => ?_)
          (fun hfuel => by simp only [need] at hfuel; omega) fun _ _ => id
        rw [← h₁]
        exact ih (c := .line) hj₁
      · rw [hno, if_neg (by simp)]
        exact wp_relax (parsewords_sound hj) (fun hfuel => by simp only [need] at hfuel; omega)
          fun _ _ => id

end Sound

/-! ### Completeness -/

/-- What comes after a nonterminal: nothing, or one of its symbols. -/
def Follow (c : Cat) (ts : List (Lexeme Span)) : Prop :=
  ts = [] ∨ ∃ k ∈ followSyms c, ∃ ts', ts = .sym k :: ts'

section Complete

variable {s : List UInt8} {i : ℕ} {ts : List (Lexeme Span)}

lemma Follow.mono {c c' : Cat} (h : Follow c ts) (hsub : ∀ k ∈ followSyms c, k ∈ followSyms c') :
    Follow c' ts :=
  h.imp_right fun ⟨k, hk, h⟩ => ⟨k, hsub k hk, h⟩

lemma Follow.cons {c : Cat} {k : Sym} (hk : k ∈ followSyms c) (ts : List (Lexeme Span)) :
    Follow c (.sym k :: ts) :=
  .inr ⟨k, hk, ts, rfl⟩

/-- What `peek` does not find. -/
lemma Follow.not_begins {c : Cat} {ks : List Sym} (h : Follow c ts)
    (hne : ∀ k ∈ followSyms c, k.byte ∉ ks.map Sym.byte) : begins ks ts = false := by
  rcases h with rfl | ⟨k, hk, ts', rfl⟩
  · rfl
  · exact decide_eq_false (hne k hk)

/-- The parser returns `t`, with `ts` left. -/
abbrev Returns (s : List UInt8) (p : Parser (Cmd Span)) (i : ℕ) (t : Cmd Span)
    (ts : List (Lexeme Span)) : Prop :=
  wp p (fun t' j => t' = t ∧ j ≤ s.length ∧ left s j = ts) (fun _ => False) i

lemma parseredirs_complete {fuel : ℕ} {cmd : Cmd Span} {rs : List (Dir × Span)} (hi : i ≤ s.length)
    (h : left s i = redirTokens rs ++ ts)
    (hts : begins [.lt, .gt] ts = false) (hfuel : rs.length < fuel) :
    Returns s (parseredirs xv6 s fuel cmd) i (wrap cmd rs) ts := by
  induction rs generalizing cmd i fuel with
  | nil =>
    obtain ⟨fuel, rfl⟩ := Nat.exists_eq_add_one.mpr (Nat.zero_lt_of_lt hfuel)
    have h : left s i = ts := h
    rw [Returns, parseredirs, wp_bind]
    refine wp_peek [.lt, .gt] hi (by decide) fun j hj hsame => ?_
    rw [h, hts, if_neg (by simp)]
    exact ⟨rfl, hj, hsame.trans h⟩
  | cons r rs ih =>
    obtain ⟨fuel, rfl⟩ := Nat.exists_eq_add_one.mpr (Nat.zero_lt_of_lt hfuel)
    obtain ⟨d, w⟩ := r
    have h : left s i = .sym d.sym :: .word w :: (redirTokens rs ++ ts) := h
    have hpeek : begins [.lt, .gt] (left s i) = true := by
      rw [h]
      cases d <;> rfl
    rw [Returns, parseredirs, wp_bind]
    refine wp_peek [.lt, .gt] hi (by decide) fun j hj hsame => ?_
    rw [if_pos hpeek, wp_bind]
    refine wp_gettoken_sym hj (hsame.trans h) fun _ j₁ hj₁ h₁ => ?_
    rw [wp_bind]
    refine wp_gettoken_word hj₁ h₁ fun j₂ hj₂ h₂ => ?_
    dsimp only
    rw [if_pos rfl, redircmd_sym]
    exact ih hj₂ h₂ (by simpa using hfuel)

/-- After a word and its redirections there is no redirection. -/
lemma opens_wordTokens (hts : Follow .cmd ts) (ws : List (Span × List (Dir × Span))) :
    begins [.lt, .gt] (wordTokens ws ++ ts) = false := by
  cases ws with
  | nil => exact hts.not_begins (by decide)
  | cons w ws => rfl

lemma length_redirTokens (rs : List (Dir × Span)) : (redirTokens rs).length = 2 * rs.length := by
  induction rs with
  | nil => rfl
  | cons r rs ih =>
    simp only [redirTokens, List.length_cons, ih]
    ring

lemma parseargs_complete {fuel : ℕ} (argv : List Span) (rs : List (Dir × Span))
    {ws : List (Span × List (Dir × Span))} (hi : i ≤ s.length) (h : left s i = wordTokens ws ++ ts)
    (hts : Follow .cmd ts) (hws : argv.length + ws.length < maxargs)
    (hfuel : (wordTokens ws).length < fuel) :
    Returns s (parseargs xv6 s fuel argv.length (wrap (.exec argv) rs)) i
      (wrap (.exec (argv ++ ws.map Prod.fst)) (rs ++ ws.flatMap Prod.snd)) ts := by
  induction ws generalizing argv rs i fuel with
  | nil =>
    obtain ⟨fuel, rfl⟩ := Nat.exists_eq_add_one.mpr (Nat.zero_lt_of_lt hfuel)
    have h : left s i = ts := h
    rw [Returns, parseargs, wp_bind]
    refine wp_peek (followSyms .cmd) hi (by decide) fun j hj hsame => ?_
    rcases hts with rfl | ⟨k, hk, ts', rfl⟩
    · rw [h, if_neg (by simp [begins]), wp_bind]
      refine wp_gettoken hj (fun _ w j₁ hj₁ h₁ => ?_) (fun k w j₁ hj₁ h₁ => ?_)
        fun w j₁ hj₁ h₁ => ?_
      · exact ⟨by simp, hj₁, h₁⟩
      · rw [hsame.trans h] at h₁
        cases h₁
      · rw [hsame.trans h] at h₁
        cases h₁
    · have hpeek : begins (followSyms .cmd) (left s i) = true := by
        rw [h]
        exact begins_cons hk _
      rw [if_pos hpeek]
      exact ⟨by simp, hj, hsame.trans h⟩
  | cons w ws ih =>
    obtain ⟨fuel, rfl⟩ := Nat.exists_eq_add_one.mpr (Nat.zero_lt_of_lt hfuel)
    obtain ⟨w, rs'⟩ := w
    have h : left s i = .word w :: (redirTokens rs' ++ (wordTokens ws ++ ts)) := by
      rw [h, wordTokens]
      simp
    have hlen : (wordTokens ((w, rs') :: ws)).length = 1 + 2 * rs'.length + (wordTokens ws).length := by
      simp only [wordTokens, List.length_cons, List.length_append, length_redirTokens]
      ring
    rw [List.length_cons] at hws
    have hpeek : begins (followSyms .cmd) (left s i) = false := by
      rw [h]
      rfl
    rw [Returns, parseargs, wp_bind]
    refine wp_peek (followSyms .cmd) hi (by decide) fun j hj hsame => ?_
    rw [hpeek, if_neg (by simp), wp_bind]
    refine wp_gettoken_word hj (hsame.trans h) fun j₁ hj₁ h₁ => ?_
    dsimp only
    rw [if_neg (by omega), show xv6.keep s w = w from rfl, addArg_wrap]
    refine wp_seq (parseredirs_complete hj₁ h₁ (opens_wordTokens hts ws) (by omega)) ?_
    rintro c j₂ ⟨rfl, hj₂, h₂⟩
    have ih := ih (argv ++ [w]) (rs ++ rs') hj₂ h₂ (by simp; omega) (by omega : _ < fuel)
    rw [List.length_append, List.length_singleton] at ih
    rw [← wrap_append]
    simpa using ih

lemma parseamps_complete {fuel n : ℕ} {cmd : Cmd Span} (hi : i ≤ s.length)
    (h : left s i = List.replicate n (.sym .amp) ++ ts)
    (hts : begins [.amp] ts = false) (hfuel : n < fuel) :
    Returns s (parseamps s fuel cmd) i (Cmd.back^[n] cmd) ts := by
  induction n generalizing cmd i fuel with
  | zero =>
    obtain ⟨fuel, rfl⟩ := Nat.exists_eq_add_one.mpr (Nat.zero_lt_of_lt hfuel)
    have h : left s i = ts := h
    rw [Returns, parseamps]
    exact wp_decline hi (by decide) (h ▸ hts) fun j hj hsame => ⟨rfl, hj, hsame.trans h⟩
  | succ n ih =>
    obtain ⟨fuel, rfl⟩ := Nat.exists_eq_add_one.mpr (Nat.zero_lt_of_lt hfuel)
    rw [Returns, parseamps]
    exact wp_accept hi (by decide) h fun j₁ hj₁ h₁ => ih hj₁ h₁ (by omega)

/-- Nothing that begins a block comes first in a command that is not one. -/
lemma opens_exec (hts : Follow .cmd ts) (rs : List (Dir × Span)) (ws : List (Span × List (Dir × Span))) :
    begins [.lparen] (redirTokens rs ++ (wordTokens ws ++ ts)) = false := by
  cases rs with
  | nil =>
    cases ws with
    | nil => exact hts.not_begins (by decide)
    | cons w ws => rfl
  | cons r rs =>
    obtain ⟨d, w⟩ := r
    cases d <;> rfl

lemma follow_amps {n : ℕ} (hts : Follow .pipe ts) : Follow .pipe (List.replicate n (.sym .amp) ++ ts) := by
  cases n with
  | zero => exact hts
  | succ n => exact .cons (by decide) _

lemma exists_succ {c : Cat} {n fuel : ℕ} (h : need c n ≤ fuel) : ∃ m, fuel = m + 1 :=
  Nat.exists_eq_add_one.mpr (by cases c <;> simp only [need] at h <;> omega)

/-- **What has a derivation is accepted, with its tree.** -/
lemma parse_complete {c : Cat} (d : Deriv Span c) {fuel : ℕ} (hi : i ≤ s.length)
    (h : left s i = d.yield ++ ts) (hts : Follow c ts) (hfuel : need c (left s i).length ≤ fuel) :
    Returns s (parse s c fuel) i d.tree ts := by
  induction d generalizing i fuel ts with
  | line p n ih =>
    obtain ⟨fuel, rfl⟩ := exists_succ hfuel
    rw [Deriv.yield, List.append_assoc] at h
    have hlen := congrArg List.length h
    simp only [List.length_append, List.length_replicate, need] at hlen hfuel
    rw [Returns, parse, parseline]
    refine wp_seq (ih hi h (follow_amps (hts.mono (by decide))) (by simp only [need]; omega)) ?_
    rintro _ j₁ ⟨rfl, hj₁, h₁⟩
    refine wp_seq (parseamps_complete hj₁ h₁ (hts.not_begins (by decide)) (by omega)) ?_
    rintro _ j₂ ⟨rfl, hj₂, h₂⟩
    refine wp_decline hj₂ (by decide) ?_ fun j₃ hj₃ h₃ => ⟨rfl, hj₃, h₃.trans h₂⟩
    rw [h₂, hts.not_begins (by decide)]
  | seq p n l ihp ihl =>
    obtain ⟨fuel, rfl⟩ := exists_succ hfuel
    rw [Deriv.yield, List.append_assoc, List.append_assoc, List.cons_append] at h
    have hlen := congrArg List.length h
    simp only [List.length_append, List.length_replicate, List.length_cons, need] at hlen hfuel
    rw [Returns, parse, parseline]
    refine wp_seq (ihp hi h (follow_amps (.cons (by decide) _)) (by simp only [need]; omega)) ?_
    rintro _ j₁ ⟨rfl, hj₁, h₁⟩
    refine wp_seq (parseamps_complete hj₁ h₁ rfl (by omega)) ?_
    rintro _ j₂ ⟨rfl, hj₂, h₂⟩
    refine wp_accept hj₂ (by decide) h₂ fun j₄ hj₄ h₄ => ?_
    have hlen₄ := congrArg List.length h₄
    rw [List.length_append] at hlen₄
    simp only [bind_pure_comp, wp_map]
    refine wp_post (ihl hj₄ h₄ hts (by simp only [need]; omega)) ?_
    rintro _ j₅ ⟨rfl, hj₅, h₅⟩
    exact ⟨rfl, hj₅, h₅⟩
  | single c ih =>
    obtain ⟨fuel, rfl⟩ := exists_succ hfuel
    rw [Deriv.yield] at h
    simp only [need] at hfuel
    rw [Returns, parse, parsepipe]
    refine wp_seq (ih hi h (hts.mono (by decide)) (by simp only [need]; omega)) ?_
    rintro _ j₁ ⟨rfl, hj₁, h₁⟩
    refine wp_decline hj₁ (by decide) ?_ fun j₂ hj₂ h₂ => ⟨rfl, hj₂, h₂.trans h₁⟩
    rw [h₁, hts.not_begins (by decide)]
  | pipe c p ihc ihp =>
    obtain ⟨fuel, rfl⟩ := exists_succ hfuel
    rw [Deriv.yield, List.append_assoc, List.cons_append] at h
    have hlen := congrArg List.length h
    simp only [List.length_append, List.length_cons, need] at hlen hfuel
    rw [Returns, parse, parsepipe]
    refine wp_seq (ihc hi h (.cons (by decide) _) (by simp only [need]; omega)) ?_
    rintro _ j₁ ⟨rfl, hj₁, h₁⟩
    refine wp_accept hj₁ (by decide) h₁ fun j₃ hj₃ h₃ => ?_
    have hlen₃ := congrArg List.length h₃
    rw [List.length_append] at hlen₃
    simp only [bind_pure_comp, wp_map]
    refine wp_post (ihp hj₃ h₃ hts (by simp only [need]; omega)) ?_
    rintro _ j₄ ⟨rfl, hj₄, h₄⟩
    exact ⟨rfl, hj₄, h₄⟩
  | block l rs ih =>
    obtain ⟨fuel, rfl⟩ := exists_succ hfuel
    rw [Deriv.yield, List.cons_append, List.append_assoc, List.cons_append] at h
    have hlen := congrArg List.length h
    simp only [List.length_append, List.length_cons, length_redirTokens, need] at hlen hfuel
    have hpeek : begins [.lparen] (left s i) = true := by
      rw [h]
      rfl
    rw [Returns, parse, parseexec, wp_bind]
    refine wp_peek [.lparen] hi (by decide) fun j hj hsame => ?_
    rw [if_pos hpeek, parseblock]
    refine wp_accept hj (by decide) (hsame.trans h) fun j₁ hj₁ h₁ => ?_
    have hlen₁ := congrArg List.length h₁
    simp only [List.length_append, List.length_cons, length_redirTokens] at hlen₁
    refine wp_seq (ih hj₁ h₁ (.cons (by decide) _) (by simp only [need]; omega)) ?_
    rintro _ j₂ ⟨rfl, hj₂, h₂⟩
    exact wp_accept hj₂ (by decide) h₂ fun j₄ hj₄ h₄ =>
      parseredirs_complete hj₄ h₄ (hts.not_begins (by decide)) (by omega)
  | exec rs ws few =>
    obtain ⟨fuel, rfl⟩ := exists_succ hfuel
    rw [Deriv.yield, List.append_assoc] at h
    have hlen := congrArg List.length h
    simp only [List.length_append, length_redirTokens, need] at hlen hfuel
    have hpeek := opens_exec hts rs ws
    rw [← h] at hpeek
    rw [Returns, parse, parseexec, wp_bind]
    refine wp_peek [.lparen] hi (by decide) fun j hj hsame => ?_
    rw [hpeek, if_neg (by simp), parsewords,
      wp_bind]
    refine wp_post (parseredirs_complete hj (hsame.trans h) (opens_wordTokens hts ws) (by omega)) ?_
    rintro _ j₁ ⟨rfl, hj₁, h₁⟩
    exact parseargs_complete [] rs hj₁ h₁ hts (by simpa using few) (by omega)

end Complete

/-! ### `nulterminate` -/

section Nul

variable {s : List UInt8}

lemma charAt_set (buf : List UInt8) (e k : ℕ) :
    charAt (buf.set e 0) k = if k = e then 0 else charAt buf k := by
  rw [charAt, charAt, List.getD_eq_getElem?_getD, List.getD_eq_getElem?_getD, List.getElem?_set]
  by_cases hk : e = k
  · subst hk
    by_cases hlt : e < buf.length <;> simp [hlt]
  · simp [hk, eq_comm]

lemma charAt_foldl_set (ws : List Span) (buf : List UInt8) (k : ℕ) :
    charAt (ws.foldl (fun buf w => buf.set w.eq 0) buf) k =
      if k ∈ ws.map Span.eq then 0 else charAt buf k := by
  induction ws generalizing buf with
  | nil => simp
  | cons w ws ih =>
    rw [List.foldl_cons, ih, charAt_set]
    by_cases hk : k ∈ ws.map Span.eq
    · simp [hk]
    · simp [hk]

/-- `nulterminate` puts a 0 at the end of each string. -/
lemma charAt_nulterminate (t : Cmd Span) (buf : List UInt8) (k : ℕ) :
    charAt (nulterminate t buf) k = if k ∈ t.strings.map Span.eq then 0 else charAt buf k := by
  induction t generalizing buf with
  | exec argv => exact charAt_foldl_set ..
  | redir c file mode fd ih =>
    rw [nulterminate, charAt_set, ih, Cmd.strings, List.map_cons]
    by_cases hk : k = file.eq <;> simp [hk]
  | pipe l r ihl ihr | list l r ihl ihr =>
    rw [nulterminate, ihr, ihl, Cmd.strings, List.map_append]
    by_cases hk : k ∈ r.strings.map Span.eq <;> simp [hk]
  | back c ih => exact ih buf

lemma length_nulterminate (t : Cmd Span) (buf : List UInt8) : (nulterminate t buf).length = buf.length := by
  induction t generalizing buf with
  | exec argv =>
    rw [nulterminate]
    induction argv generalizing buf with
    | nil => rfl
    | cons w argv ih => rw [List.foldl_cons, ih, List.length_set]
  | redir c file mode fd ih => rw [nulterminate, List.length_set, ih]
  | pipe l r ihl ihr | list l r ihl ihr => rw [nulterminate, ihr, ihl]
  | back c ih => exact ih buf

lemma charAt_append_zero (k : ℕ) : charAt (s ++ [0]) k = charAt s k := by
  rw [charAt, charAt]
  by_cases hk : k < s.length
  · rw [List.getD_append _ _ _ _ hk]
  · rw [List.getD_append_right _ _ _ _ (by omega), List.getD_eq_default s _ (by omega)]
    cases k - s.length <;> rfl

/-- The strings of a tree are what the line says: no end of one is in another. -/
lemma cstring_nulterminate {L : Lexer} {t : Cmd Span} (hs : ∀ b ∈ s, b ≠ 0)
    (ht : ∀ w ∈ t.strings, WordSpan L s w) {w : Span} (hw : w ∈ t.strings) :
    cstring (nulterminate t (s ++ [0])) w.q = text s w := by
  have hword := ht w hw
  have hlt := hword.lt
  have hle := hword.le
  have hlen : (nulterminate t (s ++ [0])).length = s.length + 1 := by
    rw [length_nulterminate, List.length_append, List.length_singleton]
  have hin : ∀ k, w.q ≤ k → k < w.eq → charAt (nulterminate t (s ++ [0])) k = charAt s k := by
    intro k hk hk'
    rw [charAt_nulterminate, charAt_append_zero, if_neg]
    intro hmem
    obtain ⟨w', hw', rfl⟩ := List.mem_map.mp hmem
    have hstop := (ht w' hw').stop (by omega)
    rw [hword.chars _ hk hk'] at hstop
    cases hstop
  have hend : charAt (nulterminate t (s ++ [0])) w.eq = 0 := by
    rw [charAt_nulterminate, if_pos (List.mem_map_of_mem hw)]
  have hskip : skip (nulterminate t (s ++ [0])) (fun b => decide (b ≠ 0)) w.q = w.eq := by
    refine skip_eq hlt.le (by omega) (fun k hk hk' => ?_) (by simp [hend])
    rw [hin k hk hk']
    exact decide_eq_true (charAt_ne_zero hs (by omega))
  rw [cstring, takeWhile_eq_take, hskip, text]
  exact take_drop_congr (by omega) (by omega) fun k hk hk' => hin k hk (by omega)

end Nul

/-! ### The grammar -/

section Grammar

variable {s : List UInt8}

variable {W : Type}

lemma strings_wrap (c : Cmd W) (rs : List (Dir × W)) (w : W) :
    w ∈ (wrap c rs).strings ↔ w ∈ c.strings ∨ .word w ∈ redirTokens rs := by
  induction rs generalizing c with
  | nil => simp [wrap, redirTokens]
  | cons r rs ih =>
    have hwrap : wrap c (r :: rs) = wrap (.redir c r.2 r.1.target.1 r.1.target.2) rs := rfl
    rw [hwrap, ih, Cmd.strings, redirTokens]
    simp only [List.mem_cons, reduceCtorEq, Lexeme.word.injEq, false_or]
    tauto

lemma strings_back (c : Cmd W) (n : ℕ) : (Cmd.back^[n] c).strings = c.strings := by
  induction n generalizing c with
  | zero => rfl
  | succ n ih => exact ih (.back c)

lemma redirTokens_append (rs rs' : List (Dir × W)) :
    redirTokens (rs ++ rs') = redirTokens rs ++ redirTokens rs' := by
  induction rs with
  | nil => rfl
  | cons r rs ih => simp [redirTokens, ih]

lemma mem_wordTokens (ws : List (W × List (Dir × W))) (w : W)
    (h : w ∈ ws.map Prod.fst ∨ .word w ∈ redirTokens (ws.flatMap Prod.snd)) : .word w ∈ wordTokens ws := by
  induction ws with
  | nil => simp [redirTokens] at h
  | cons v ws ih =>
    rw [List.map_cons, List.flatMap_cons, redirTokens_append, List.mem_cons, List.mem_append] at h
    rw [wordTokens, List.mem_cons, List.mem_append]
    rcases h with (rfl | h) | (h | h)
    · exact .inl rfl
    · exact .inr (.inr (ih (.inl h)))
    · exact .inr (.inl h)
    · exact .inr (.inr (ih (.inr h)))

/-- The strings of the tree are words of the line. -/
lemma Deriv.word_mem_yield {c : Cat} (d : Deriv W c) {w : W} (hw : w ∈ d.tree.strings) :
    .word w ∈ d.yield := by
  induction d with
  | line p n ih =>
    rw [tree, strings_back] at hw
    exact List.mem_append_left _ (ih hw)
  | seq p n l ihp ihl =>
    rw [tree, Cmd.strings, strings_back, List.mem_append] at hw
    rw [yield]
    rcases hw with hw | hw
    · exact List.mem_append_left _ (ihp hw)
    · exact List.mem_append_right _ (List.mem_append_right _ (.tail _ (ihl hw)))
  | single c ih => exact ih hw
  | pipe c p ihc ihp =>
    rw [tree, Cmd.strings, List.mem_append] at hw
    rw [yield]
    rcases hw with hw | hw
    · exact List.mem_append_left _ (ihc hw)
    · exact List.mem_append_right _ (.tail _ (ihp hw))
  | block l rs ih =>
    rw [tree, strings_wrap] at hw
    rw [yield]
    rcases hw with hw | hw
    · exact .tail _ (List.mem_append_left _ (ih hw))
    · exact .tail _ (List.mem_append_right _ (.tail _ hw))
  | exec rs ws few =>
    rw [tree, strings_wrap, redirTokens_append, List.mem_append] at hw
    rw [yield, List.mem_append]
    rcases hw with hw | hw | hw
    · exact .inr (mem_wordTokens ws w (.inl hw))
    · exact .inl hw
    · exact .inr (mem_wordTokens ws w (.inr hw))

/-- The parser before `nulterminate`. -/
lemma parseall_wp (s : List UInt8) : wp (parseall s)
    (fun t j => j = s.length ∧ ∃ l : Deriv Span .line, l.yield = left s 0 ∧ t = l.tree)
    (fun e => e.2 ≤ s.length ∧ e.1 ≠ .loops) 0 := by
  have hlen : (left s 0).length ≤ s.length := length_tokens_le (Nat.zero_le _)
  have hline : wp (parse s .line (3 * s.length + 4)) (Parsed s 0 .line)
      (Stops s (need .line (left s 0).length) (3 * s.length + 4)) 0 := parse_sound (Nat.zero_le _)
  rw [parseall, wp_bind]
  refine wp_mono hline ?_ fun e he => ⟨he.1, he.2 ?_⟩
  · rintro _ j ⟨hj, l, hl, rfl⟩
    rw [wp_bind]
    refine wp_peek [] hj (by simp) fun j₁ hj₁ h₁ => ?_
    rw [wp_bind, wp_get]
    split_ifs with hend
    · exact ⟨hj₁, nofun⟩
    · obtain rfl : j₁ = s.length := by omega
      refine ⟨rfl, l, ?_, rfl⟩
      rw [hl, ← h₁, left, tokens_end, List.append_nil]
  · simp only [need]
    omega

lemma parseall_of_deriv (hs : ∀ b ∈ s, b ≠ 0) (l : Deriv Span .line) (hl : l.yield = left s 0) :
    parseall s 0 = .ok (l.tree, s.length) := by
  have hlen : (left s 0).length ≤ s.length := length_tokens_le (Nat.zero_le _)
  have hline : Returns s (parse s .line (3 * s.length + 4)) 0 l.tree [] :=
    parse_complete l (Nat.zero_le _) (by rw [hl, List.append_nil]) (.inl rfl) (by simp only [need]; omega)
  have hwp : wp (parseall s) (fun t j => t = l.tree ∧ j = s.length) (fun _ => False) 0 := by
    rw [parseall]
    refine wp_seq hline ?_
    rintro _ j ⟨rfl, hj, hnil⟩
    rw [wp_bind, wp_of_ok (peek_run (L := xv6.toLexer) hj (by simp)), wp_bind, wp_get,
      skip_of_tokens_nil hs hj hnil, if_neg (by simp)]
    exact ⟨rfl, rfl⟩
  cases hrun : parseall s 0 with
  | error e => exact ((wp_of_error hrun).mp hwp).elim
  | ok r =>
    obtain ⟨h₁, h₂⟩ := (wp_of_ok hrun).mp hwp
    rw [← h₁, ← h₂]

/-- A derivation tells the tree. -/
lemma parsecmd_of_parseall (hs : ∀ b ∈ s, b ≠ 0) {l : Deriv Span .line} (hl : l.yield = left s 0)
    (h : parseall s 0 = .ok (l.tree, s.length)) : parsecmd s = .ok (l.tree.map (text s)) := by
  have hwords : ∀ w ∈ l.tree.strings, WordSpan xv6.toLexer s w := fun w hw =>
    wordSpan_of_mem (Nat.zero_le _) (show _ ∈ left s 0 from hl ▸ l.word_mem_yield hw)
  rw [parsecmd, h]
  refine congrArg Except.ok (Cmd.map_congr fun w hw => ?_)
  exact cstring_nulterminate hs hwords hw

/-- **`parsecmd` accepts exactly the lines with a derivation**, and returns its tree.  It does not loop,
and the cursor stays in the line. -/
theorem parsecmd_grammar (s : List UInt8) (hs : ∀ b ∈ s, b ≠ 0) :
    (∀ t, parsecmd s = .ok t ↔
      ∃ l : Deriv Span .line, l.yield = tokens xv6.toLexer s 0 ∧ t = l.tree.map (text s)) ∧
    (∀ l l' : Deriv Span .line, l.yield = tokens xv6.toLexer s 0 →
      l'.yield = tokens xv6.toLexer s 0 → l.tree = l'.tree) ∧
    (∀ e, parsecmd s = .error e → e.1 ≠ .loops ∧ e.2 ≤ s.length) ∧
    ∀ t j, parseall s 0 = .ok (t, j) → j = s.length := by
  have hwp := parseall_wp s
  refine ⟨fun t => ⟨fun h => ?_, ?_⟩, fun l l' hl hl' => ?_, fun e h => ?_, fun t j h => ?_⟩
  · cases hrun : parseall s 0 with
    | error e =>
      rw [parsecmd, hrun] at h
      cases h
    | ok r =>
      rw [wp_of_ok hrun] at hwp
      obtain ⟨tree, j⟩ := r
      obtain ⟨rfl, l, hl, rfl⟩ := hwp
      rw [parsecmd_of_parseall hs hl hrun] at h
      exact ⟨l, hl, (Except.ok.inj h).symm⟩
  · rintro ⟨l, hl, rfl⟩
    exact parsecmd_of_parseall hs hl (parseall_of_deriv hs l hl)
  · have := (parseall_of_deriv hs l hl).symm.trans (parseall_of_deriv hs l' hl')
    exact congrArg Prod.fst (Except.ok.inj this)
  · cases hrun : parseall s 0 with
    | error e' =>
      rw [parsecmd, hrun] at h
      rw [wp_of_error hrun] at hwp
      obtain rfl := Except.error.inj h
      exact hwp.symm
    | ok r =>
      rw [parsecmd, hrun] at h
      cases h
  · rw [wp_of_ok h] at hwp
    exact hwp.1

theorem parsecmd_grammar_output : parsecmd (['a', '>', 'b'].map Char.toUInt8) =
    .ok (.redir (.exec [['a'].map Char.toUInt8]) (['b'].map Char.toUInt8) .wronlyCreate 1) :=
  ((parsecmd_grammar _ (by decide +kernel)).1 _).mpr
    ⟨.line (.single (.exec [] [(⟨0, 1⟩, [(.output, ⟨2, 3⟩)])] (by decide))) 0, by decide +kernel, by decide +kernel⟩

end Grammar

end Sh

end Col331
