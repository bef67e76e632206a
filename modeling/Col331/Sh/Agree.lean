import Col331.Sh.Grammar

/-!
The parser of `HW1/sh.c`, and what it has in common with the one of the xv6 shell.

The shell of the homework knows neither `&`, `;` and blocks nor `>>`, and it copies the strings where the
other keeps pointers and writes zeros into the line in the end.

* `hw1`, `Hw1.parseline`, `Hw1.parsepipe`, `Hw1.parseexec`, `Hw1.parsecmd`: the parser.
* `Agree`: two pieces of the parsers do the same, from cursors with the same token ahead.
* `parsecmd_agree`: **the two agree on their common language**.
-/

namespace Col331

open Prog

namespace Sh

/-! ### The other shell -/

/-- The shell of the homework. -/
def hw1 : Dialect (List UInt8) where
  symbols := [.lt, .pipe, .gt]
  appends := false
  single := by decide
  stop := [Sym.pipe].map Sym.byte
  redir
    | .lt => some (.rdonly, 0)
    | .gt => some (.wronlyCreateTrunc, 1)
    | _ => none
  keep := text

namespace Hw1

variable (s : List UInt8)

/-- `parseexec`. -/
def parseexec : ℕ → Parser (Cmd (List UInt8))
  | 0 => halt .loops
  | fuel + 1 => parsewords hw1 s fuel

/-- `parsepipe`. -/
def parsepipe : ℕ → Parser (Cmd (List UInt8))
  | 0 => halt .loops
  | fuel + 1 => do
    let cmd ← parseexec s fuel
    if ← peek s [Sym.pipe.byte] then
      let _ ← gettoken hw1.toLexer s
      let right ← parsepipe fuel
      return .pipe cmd right
    else return cmd

/-- `parseline`. -/
def parseline : ℕ → Parser (Cmd (List UInt8))
  | 0 => halt .loops
  | fuel + 1 => parsepipe s fuel

/-- The code of `parsecmd`. -/
def parseall : Parser (Cmd (List UInt8)) := do
  let cmd ← parseline s (3 * s.length + 4)
  let _ ← peek s []
  if (← get) ≠ s.length then halt .leftovers else return cmd

/-- `parsecmd`. -/
def parsecmd : Except (ShPanic × ℕ) (Cmd (List UInt8)) := Prod.fst <$> parseall s 0

end Hw1

/-! ### Agreement -/

section Agree

variable {s : List UInt8} {α α' β β' : Type}

/-- The same happens, with values in the relation `R` and cursors before the same token. -/
def Same (s : List UInt8) (R : α' → α → Prop) :
    Except (ShPanic × ℕ) (α' × ℕ) → Except (ShPanic × ℕ) (α × ℕ) → Prop
  | .ok (a', j'), .ok (a, j) => R a' a ∧ skip s isSpace j' = skip s isSpace j
  | .error e', .error e => e'.1 = e.1
  | _, _ => False

/-- Two parsers do the same. -/
def Agree (s : List UInt8) (R : α' → α → Prop) (p' : Parser α') (p : Parser α) : Prop :=
  ∀ i' i, skip s isSpace i' = skip s isSpace i → Same s R (p' i') (p i)

namespace Agree

variable {R : α' → α → Prop} {S : β' → β → Prop}

lemma pure {a' : α'} {a : α} (h : R a' a) : Agree s R (Pure.pure a') (Pure.pure a) := fun _ _ hi => ⟨h, hi⟩

lemma halt (e : ShPanic) : Agree s R (Sh.halt e) (Sh.halt e) := fun _ _ _ => rfl

lemma bind {p' : Parser α'} {p : Parser α} {f' : α' → Parser β'} {f : α → Parser β} (h : Agree s R p' p)
    (hf : ∀ a' a, R a' a → Agree s S (f' a') (f a)) : Agree s S (p' >>= f') (p >>= f) := by
  intro i' i hi
  have hp := h i' i hi
  rw [bind_run, bind_run]
  cases hr' : p' i' with
  | error e' =>
    cases hr : p i with
    | error e =>
      rw [hr', hr] at hp
      exact hp
    | ok r =>
      rw [hr', hr] at hp
      exact hp.elim
  | ok r' =>
    cases hr : p i with
    | error e =>
      rw [hr', hr] at hp
      exact hp.elim
    | ok r =>
      rw [hr', hr] at hp
      exact hf _ _ hp.1 _ _ hp.2

lemma ite {c : Prop} [Decidable c] {p' q' : Parser α'} {p q : Parser α} (hp : Agree s R p' p)
    (hq : Agree s R q' q) : Agree s R (if c then p' else q') (if c then p else q) := by
  split_ifs
  · exact hp
  · exact hq

/-- `peek` for bytes that are the same in the line. -/
lemma peek {toks toks' : List UInt8} (h : ∀ b ∈ s, b ∈ toks' ↔ b ∈ toks) :
    Agree s (· = ·) (Sh.peek s toks') (Sh.peek s toks) := by
  intro i' i hi
  refine ⟨?_, ?_⟩
  · rw [hi]
    exact decide_eq_decide.mpr (and_congr_right fun hne => h _ (charAt_mem hne))
  · rw [skip_skip, skip_skip, hi]

/-- A `peek` on one side only, for bytes that are not in the line. -/
lemma peek_right {toks : List UInt8} {p' : Parser α'} {f : Bool → Parser α} (h : ∀ b ∈ s, b ∉ toks)
    (hf : Agree s R p' (f false)) : Agree s R p' (Sh.peek s toks >>= f) := by
  intro i' i hi
  have hrun : Sh.peek s toks i = .ok (false, skip s isSpace i) := by
    have hnot : ¬ (charAt s (skip s isSpace i) ≠ 0 ∧ charAt s (skip s isSpace i) ∈ toks) := by
      rintro ⟨hne, hmem⟩
      exact h _ (charAt_mem hne) hmem
    rw [Sh.peek, decide_eq_false hnot]
  rw [bind_ok hrun]
  exact hf _ _ (by rw [skip_skip, hi])

/-- The end of `parsecmd`. -/
lemma finish {a' : α'} {a : α} (h : R a' a) :
    Agree s R (do
      let _ ← Sh.peek s []
      if (← get) ≠ s.length then Sh.halt .leftovers else return a') (do
      let _ ← Sh.peek s []
      if (← get) ≠ s.length then Sh.halt .leftovers else return a) := by
  intro i' i hi
  have hrun : ∀ k, Sh.peek s [] k = .ok (false, skip s isSpace k) := fun k => by simp [Sh.peek]
  rw [bind_ok (hrun i'), bind_ok (hrun i), hi]
  change Same s R ((if skip s isSpace i ≠ s.length then Sh.halt .leftovers else Pure.pure a') _)
    ((if skip s isSpace i ≠ s.length then Sh.halt .leftovers else Pure.pure a) _)
  exact (Agree.ite (.halt _) (.pure h) : Agree s R _ _) _ _ rfl

end Agree

end Agree

/-! ### The common language -/

/-- What both shells know: no `&`, `;`, `(`, `)`, and no `>>`. -/
structure Common (s : List UInt8) : Prop where
  nul : ∀ b ∈ s, b ≠ 0
  plain : ∀ b ∈ s, b ∉ [Sym.amp, .semi, .lparen, .rparen].map Sym.byte
  single : ∀ i < s.length, ¬ (charAt s i = '>'.toUInt8 ∧ charAt s (i + 1) = '>'.toUInt8)

/-- The tree of the xv6 shell, as the other shell has it: files are truncated. -/
def Cmd.truncated {W : Type} : Cmd W → Cmd W
  | .exec argv => .exec argv
  | .redir c file .wronlyCreate fd => .redir c.truncated file .wronlyCreateTrunc fd
  | .redir c file mode fd => .redir c.truncated file mode fd
  | .pipe l r => .pipe l.truncated r.truncated
  | .list l r => .list l.truncated r.truncated
  | .back c => .back c.truncated

section Common

variable {s : List UInt8}

/-- The tree with copies of the strings. -/
def copied (s : List UInt8) (t : Cmd Span) : Cmd (List UInt8) := (t.map (text s)).truncated

lemma copied_addArg (t : Cmd Span) (w : Span) : copied s (t.addArg w) = (copied s t).addArg (text s w) := by
  induction t with
  | exec argv => simp [Cmd.addArg, copied, Cmd.map, Cmd.truncated]
  | redir c file mode fd ih =>
    cases mode <;> exact congrArg (fun c => Cmd.redir c _ _ _) ih
  | pipe | list | back => rfl

lemma sym_eq {b : UInt8} (hb : b ∉ [Sym.amp, .semi, .lparen, .rparen].map Sym.byte) :
    hw1.sym b = xv6.sym b := by
  have hsyms : xv6.symbols = hw1.symbols ++ [.amp, .semi, .lparen, .rparen] := rfl
  have hnone : [Sym.amp, .semi, .lparen, .rparen].find? (fun k => k.byte = b) = none := by
    refine List.find?_eq_none.mpr fun k hk heq => hb ?_
    exact List.mem_map.mpr ⟨k, hk, of_decide_eq_true heq⟩
  rw [Lexer.sym, Lexer.sym, hsyms, List.find?_append, hnone, Option.or_none]

variable (h : Common s)

include h

lemma Common.scan_eq (q : ℕ) : scan hw1.toLexer s q = scan xv6.toLexer s q := by
  rw [scan, scan]
  split_ifs with h0
  · rfl
  · have hsym := sym_eq (h.plain _ (charAt_mem h0))
    rw [hsym]
    cases hk : xv6.sym (charAt s q) with
    | none =>
      rw [skip_congr fun b hb => ?_]
      rw [Lexer.wordChar, Lexer.wordChar, sym_eq (h.plain b hb)]
    | some k =>
      have happ : ¬ (k = .gt ∧ xv6.appends = true ∧ charAt s (q + 1) = '>'.toUInt8) := by
        rintro ⟨rfl, -, hnext⟩
        exact h.single q (lt_of_charAt_ne h0) ⟨charAt_eq_byte hk, hnext⟩
      dsimp only
      rw [if_neg happ, if_neg (by simp [hw1])]

lemma Common.nextToken_eq (i : ℕ) : nextToken hw1.toLexer s i = nextToken xv6.toLexer s i := by
  rw [nextToken, nextToken, h.scan_eq]

lemma Common.not_append (q : ℕ) : (scan xv6.toLexer s q).1 ≠ .sym .append := by
  rcases scan_cases (L := xv6.toLexer) (s := s) q with ⟨-, h'⟩ | ⟨k, -, hk, h'⟩ | ⟨h₁, -, h₂, -⟩ | ⟨-, -, h'⟩
  · simp [h']
  · rw [h']
    rintro ⟨⟩
    exact xv6.single hk
  · exact absurd ⟨h₁, h₂⟩ (h.single q (lt_of_charAt_ne (h₁ ▸ Sym.byte_ne_zero _)))
  · simp [h']

/-- `gettoken` does the same, and finds no `>>`. -/
lemma Common.gettoken : Agree s (fun x' x => x' = x ∧ x.1 ≠ .sym .append) (gettoken hw1.toLexer s)
    (gettoken xv6.toLexer s) := by
  intro i' i hi
  have hnext : nextToken xv6.toLexer s i' = nextToken xv6.toLexer s i := by
    rw [nextToken, nextToken, hi]
  refine ⟨⟨?_, h.not_append _⟩, ?_⟩
  · rw [h.nextToken_eq, hnext]
  · rw [h.nextToken_eq, hnext]

/-- The trees are the same. -/
abbrev Alike (s : List UInt8) (t' : Cmd (List UInt8)) (t : Cmd Span) : Prop := t' = copied s t

variable {fuel : ℕ} {t' : Cmd (List UInt8)}

lemma Common.parseredirs {t : Cmd Span} (ht : Alike s t' t) :
    Agree s (Alike s) (parseredirs hw1 s fuel t') (parseredirs xv6 s fuel t) := by
  induction fuel generalizing t t' with
  | zero => exact .halt _
  | succ fuel ih =>
    rw [Sh.parseredirs, Sh.parseredirs]
    refine .bind (.peek fun _ _ => Iff.rfl) ?_
    rintro b _ rfl
    refine .ite (.bind h.gettoken ?_) (.pure ht)
    rintro ⟨tok, _⟩ _ ⟨rfl, htok⟩
    refine .bind h.gettoken ?_
    rintro ⟨tok', w⟩ _ ⟨rfl, -⟩
    refine .ite (ih ?_) (.halt _)
    rw [Alike, ht]
    cases tok with
    | eof | word => rfl
    | sym k => cases k <;> first | rfl | exact absurd rfl htok

lemma Common.parseargs {fuel argc : ℕ} {t : Cmd Span} (ht : Alike s t' t) :
    Agree s (Alike s) (parseargs hw1 s fuel argc t') (parseargs xv6 s fuel argc t) := by
  induction fuel generalizing argc t t' with
  | zero => exact .halt _
  | succ fuel ih =>
    rw [Sh.parseargs, Sh.parseargs]
    refine .bind (.peek fun b hb => ?_) ?_
    · have := h.plain b hb
      simp only [List.map_cons, List.map_nil, List.mem_cons, List.not_mem_nil, or_false, not_or] at this
      simp [hw1, xv6, this]
    rintro b _ rfl
    refine .ite (.pure ht) (.bind h.gettoken ?_)
    rintro ⟨tok, w⟩ _ ⟨rfl, -⟩
    cases tok with
    | eof => exact .pure ht
    | sym k => exact .halt _
    | word =>
      refine .ite (.halt _) (.bind (h.parseredirs ?_) fun _ _ ht₁ => ih ht₁)
      rw [Alike, copied_addArg, ht]
      rfl

lemma Common.parsewords : Agree s (Alike s) (parsewords hw1 s fuel) (parsewords xv6 s fuel) :=
  .bind (h.parseredirs rfl) fun _ _ ht => h.parseargs ht

/-- A symbol that only the xv6 shell knows. -/
lemma Common.not_mem {k : Sym} (hk : k ∈ [Sym.amp, .semi, .lparen, .rparen]) : ∀ b ∈ s, b ∉ [k.byte] := by
  intro b hb hmem
  rw [List.mem_singleton] at hmem
  exact h.plain b hb (hmem ▸ List.mem_map_of_mem hk)

lemma Common.parseexec : Agree s (Alike s) (Hw1.parseexec s fuel) (parseexec s fuel) := by
  cases fuel with
  | zero => exact .halt _
  | succ fuel =>
    rw [Hw1.parseexec, Sh.parseexec]
    exact .peek_right (h.not_mem (by decide)) h.parsewords

lemma Common.parsepipe : Agree s (Alike s) (Hw1.parsepipe s fuel) (parsepipe s fuel) := by
  induction fuel with
  | zero => exact .halt _
  | succ fuel ih =>
    rw [Hw1.parsepipe, Sh.parsepipe]
    refine .bind h.parseexec fun t₁' t₁ ht₁ => ?_
    refine .bind (.peek fun _ _ => Iff.rfl) ?_
    rintro b _ rfl
    refine .ite (.bind h.gettoken fun _ _ _ => .bind ih fun t₂' t₂ ht₂ => .pure ?_) (.pure ht₁)
    rw [Alike, ht₁, ht₂]
    rfl

/-- There is no `&`. -/
lemma Common.parseamps {t : Cmd Span} (ht : Alike s t' t) :
    Agree s (Alike s) (pure t') (parseamps s (fuel + 1) t) := by
  rw [Sh.parseamps]
  exact .peek_right (h.not_mem (by decide)) (.pure ht)

lemma Common.parseline : Agree s (Alike s) (Hw1.parseline s fuel) (parseline s fuel) := by
  cases fuel with
  | zero => exact .halt _
  | succ fuel =>
    rw [Hw1.parseline, Sh.parseline]
    cases fuel with
    | zero =>
      intro i' i _
      rw [Hw1.parsepipe, Sh.parsepipe]
      rfl
    | succ fuel =>
      -- the calls that only the xv6 shell makes find nothing
      rw [← bind_pure (Hw1.parsepipe s (fuel + 1))]
      refine .bind h.parsepipe fun t₁' t₁ ht₁ => ?_
      rw [← bind_pure (pure t₁' : Parser (Cmd (List UInt8)))]
      refine .bind (h.parseamps ht₁) fun t₂' t₂ ht₂ => ?_
      exact .peek_right (h.not_mem (by decide)) (.pure ht₂)

lemma Common.parseall : Agree s (Alike s) (Hw1.parseall s) (parseall s) :=
  .bind h.parseline fun _ _ ht => .finish ht

omit h

/-- **The two shells agree on their common language**: they report the same error, or have the same tree
with the same strings. -/
theorem parsecmd_agree (s : List UInt8) (h : Common s) :
    match Hw1.parsecmd s, parsecmd s with
    | .ok t', .ok t => t' = t.truncated
    | .error e', .error e => e'.1 = e.1 ∧ e.1 ≠ .loops
    | _, _ => False := by
  have hsame := h.parseall 0 0 rfl
  have hwp := parseall_wp s
  rw [Hw1.parsecmd]
  cases hr : parseall s 0 with
  | error e =>
    rw [wp_of_error hr] at hwp
    cases hr' : Hw1.parseall s 0 with
    | error e' =>
      rw [hr, hr'] at hsame
      rw [parsecmd, hr]
      exact ⟨hsame, hwp.2⟩
    | ok r' =>
      rw [hr, hr'] at hsame
      exact hsame.elim
  | ok r =>
    rw [wp_of_ok hr] at hwp
    obtain ⟨t, j⟩ := r
    obtain ⟨rfl, l, hl, rfl⟩ := hwp
    rw [parsecmd_of_parseall h.nul hl hr]
    cases hr' : Hw1.parseall s 0 with
    | error e' =>
      rw [hr, hr'] at hsame
      exact hsame.elim
    | ok r' =>
      rw [hr, hr'] at hsame
      exact hsame.1

theorem parsecmd_agree_output : Hw1.parsecmd (['a', '>', 'b'].map Char.toUInt8) =
    .ok (.redir (.exec [['a'].map Char.toUInt8]) (['b'].map Char.toUInt8) .wronlyCreateTrunc 1) := by
  have h := parsecmd_agree (['a', '>', 'b'].map Char.toUInt8) 
    ⟨by decide +kernel, by decide +kernel, by decide +kernel⟩
  have hxv6 : parsecmd (['a', '>', 'b'].map Char.toUInt8) =
    .ok (.redir (.exec [['a'].map Char.toUInt8]) (['b'].map Char.toUInt8) .wronlyCreate 1) := rfl
  rw [hxv6] at h
  cases hr : Hw1.parsecmd (['a', '>', 'b'].map Char.toUInt8) with
  | error e =>
    rw [hr] at h
    exact h.elim
  | ok t =>
    rw [hr] at h
    exact congrArg Except.ok h

end Common

end Sh

end Col331
