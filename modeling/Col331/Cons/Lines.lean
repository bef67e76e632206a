import Col331.Cons.Steps

/-!
The line discipline of the console.

The bytes that were committed are those that the read index has passed, and those that are still in the
buffer up to the write index.

* `Pending`: what this says of the buffer, with what each assignment to `input` does to it.
* `Records`, `Calls`: what readers have stored, at their end and on the way.
* `console_lines`: **the line discipline**.
-/

namespace Col331

open Function

/-! ### The buffer -/

/-- The bytes `committed` are `passed` and those from the index `r` to the write index. -/
structure Pending (i : Input) (r : UInt32) (committed passed : List UInt8) : Prop where
  write_le : (i.w - r).toNat ≤ (i.e - r).toNat
  edit_le : (i.e - r).toNat ≤ inputBuf
  eq : committed = passed ++ window i.buf r i.w

namespace Pending

variable {i : Input} {r : UInt32} {committed passed : List UInt8}

section

variable (h : Pending i r committed passed)

include h

lemma erase (he : i.e ≠ i.w) : Pending i.erase r committed passed := by
  have hne : i.e.toNat ≠ i.w.toNat := fun h => he (UInt32.toNat_inj.mp h)
  have hw := h.write_le
  have hcap := h.edit_le
  have hlt : (i.e - 1 - r).toNat + 1 = (i.e - r).toNat ∧ (i.w - r).toNat ≠ (i.e - r).toNat := by
    simp only [UInt32.toNat_sub, UInt32.toNat_one] at hw ⊢
    have hw := i.w.toNat_lt
    have he := i.e.toNat_lt
    omega
  exact ⟨by change (i.w - r).toNat ≤ (i.e - 1 - r).toNat; omega,
    by change (i.e - 1 - r).toNat ≤ _; omega, h.eq⟩

lemma type (hroom : (i.e - r).toNat < inputBuf) (c : UInt8) :
    Pending (i.type c) r committed passed := by
  have hsucc : (i.e + 1 - r).toNat = (i.e - r).toNat + 1 := toNat_succ_sub (by
    change _ < 128 at hroom
    omega)
  refine ⟨?_, ?_, ?_⟩
  · change (i.w - r).toNat ≤ (i.e + 1 - r).toNat
    have := h.write_le
    omega
  · change (i.e + 1 - r).toNat ≤ inputBuf
    omega
  · change committed = passed ++ window (update i.buf (cell inputBuf i.e) c) r i.w
    rw [window_update (by norm_num) (by norm_num) i.buf c h.write_le hroom]
    exact h.eq

lemma commit :
    Pending i.commit r (committed ++ i.edited) passed := by
  refine ⟨le_refl _, h.edit_le, ?_⟩
  change _ = passed ++ window i.buf r i.e
  rw [window_append i.buf h.write_le, h.eq, List.append_assoc, Input.edited]

/-- The read index passes a byte. -/
lemma pass (hne : r ≠ i.w) :
    Pending i (r + 1) committed (passed ++ [i.buf (cell inputBuf r)]) := by
  have hw := toNat_sub_succ hne
  have hle := h.write_le
  have hne' : r ≠ i.e := by
    rintro rfl
    rw [UInt32.sub_self, UInt32.toNat_zero] at hle
    omega
  have he := toNat_sub_succ hne'
  have hcap := h.edit_le
  refine ⟨by omega, by omega, ?_⟩
  rw [h.eq, window_pop i.buf hne, List.append_assoc, List.singleton_append]

end

end Pending

namespace ConsSys

variable {P : Type}

/-- The index of the first byte that is not passed: a reader that has taken a byte may put it back. -/
def unread (s : ConsSys P) : UInt32 :=
  match s.sec with
  | .taken .. => s.input.r - 1
  | _ => s.input.r

/-- What is in the buffer. -/
structure Buffer (s : ConsSys P) (passed : List UInt8) : Prop where
  pending : Pending s.input s.unread s.committed passed
  taken : ∀ p o c, s.sec = .taken p o c →
    s.unread ≠ s.input.w ∧ c = s.input.buf (cell inputBuf s.unread)

/-! ### What readers get -/

/-- A call that has come to its end. -/
structure Done (q : ConsDone) : Prop where
  eof : q.eof = true → q.call.got = []
  pos : 1 ≤ q.call.n → q.call.got = [] → q.eof = true
  line : ∀ pre post, q.call.got = pre ++ newline :: post → post = []

/-- The call is on its way. -/
def InCall (s : ConsSys P) (o : ConsRead) : Prop :=
  (∃ p, s.reader p = .acquire o ∨ s.reader p = .asleep o) ∨ (∃ p, s.sec = .top p o) ∨
    ∃ p c, s.sec = .taken p o c

/-- The calls. -/
structure Calls (s : ConsSys P) : Prop where
  done : ∀ q ∈ s.reads, Done q
  inCall : ∀ o, s.InCall o → newline ∉ o.got

/-! ### Steps -/

section Steps

variable {s : ConsSys P} {passed : List UInt8}

/-- No byte is taken. -/
def Rest (s : ConsSys P) : Prop := ∀ p o c, s.sec ≠ .taken p o c

lemma Rest.unread (hs : s.Rest) : s.unread = s.input.r := by
  cases hsec : s.sec with
  | taken p o c => exact (hs p o c hsec).elim
  | free | intr | kill | top => rw [ConsSys.unread, hsec]

lemma Buffer.of_rest (hs : s.Rest) (h : Pending s.input s.input.r s.committed passed) :
    s.Buffer passed :=
  ⟨by rwa [hs.unread], fun p o c hsec => (hs p o c hsec).elim⟩

lemma Buffer.rest (h : s.Buffer passed) (hs : s.Rest) :
    Pending s.input s.input.r s.committed passed := hs.unread ▸ h.pending

/-- The indices are in order. -/
lemma Buffer.indices (h : s.Buffer passed) :
    (s.input.w - s.input.r).toNat ≤ (s.input.e - s.input.r).toNat ∧
      (s.input.e - s.input.r).toNat ≤ inputBuf := by
  by_cases hs : s.Rest
  · exact ⟨(h.rest hs).write_le, (h.rest hs).edit_le⟩
  · obtain ⟨p, o, c, hsec⟩ : ∃ p o c, s.sec = .taken p o c := by simpa [Rest] using hs
    have hpass := h.pending.pass (h.taken p o c hsec).1
    rw [show s.unread + 1 = s.input.r by rw [unread, hsec]; exact UInt32.sub_add_cancel ..] at hpass
    exact ⟨hpass.write_le, hpass.edit_le⟩

/-- What can become of a byte that is typed: it is dropped, it is put into the buffer, or it is put there
and committed. -/
lemma typed_cases (s : ConsSys P) (c : UInt8) : s.typed c = s ∨
    (s.input.e - s.input.r).toNat < inputBuf ∧ ∃ c', s.typed c = { s with input := s.input.type c' } ∨
      s.typed c = { s with
        input := (s.input.type c').commit
        committed := s.committed ++ (s.input.type c').edited }.wakeup := by
  rw [typed]
  by_cases hc : c ≠ 0 ∧ s.input.e - s.input.r < 128
  · rw [if_pos hc]
    refine .inr ⟨by simpa [UInt32.lt_iff_toNat_lt] using hc.2, if c = 13 then newline else c, ?_⟩
    generalize (if c = 13 then newline else c) = c'
    dsimp only
    split_ifs
    · exact .inr rfl
    · exact .inl rfl
  · exact .inl (if_neg hc)

lemma committed_intrStep (s : ConsSys P) (todo : List UInt8) :
    s.committed <+: (s.intrStep todo).committed := by
  cases todo with
  | nil => exact List.prefix_rfl
  | cons c todo =>
    rw [intrStep]
    split_ifs
    all_goals try exact List.prefix_rfl
    obtain htyped | ⟨-, c', htyped | htyped⟩ := s.typed_cases c
    · rw [htyped]
    · rw [htyped]
    · rw [htyped]
      exact List.prefix_append ..

/-- What the buffer and the records say of the bytes that are passed. -/
structure Book (s : ConsSys P) (passed : List UInt8) : Prop where
  buffer : s.Buffer passed
  handed : s.handed = passed.filter (· ≠ ctrlD)
  eofs : s.reads.countP ConsDone.eof = passed.count ctrlD

variable {s' : ConsSys P} {o : ConsRead}

/-- A step after which no byte is taken, and that has nothing to do with readers. -/
lemma Book.of_pending (h : s.Book passed) (hs : s'.Rest)
    (hp : Pending s'.input s'.input.r s'.committed passed) (hh : s'.handed = s.handed)
    (hr : s'.reads = s.reads) : s'.Book passed :=
  ⟨.of_rest hs hp, hh ▸ h.handed, hr ▸ h.eofs⟩

lemma Book.intrStep (h : s.Book passed) (hs : s.Rest) (todo : List UInt8) :
    (s.intrStep todo).Book passed := by
  have hp := h.buffer.rest hs
  cases todo with
  | nil => exact h.of_pending nofun hp rfl rfl
  | cons c todo =>
    rw [ConsSys.intrStep]
    split_ifs with h1 h2 h3 h4
    all_goals try exact h.of_pending nofun hp rfl rfl
    · exact h.of_pending nofun (hp.erase h4) rfl rfl
    · obtain htyped | ⟨hroom, c', htyped | htyped⟩ := s.typed_cases c <;> rw [htyped]
      · exact h.of_pending nofun hp rfl rfl
      · exact h.of_pending nofun (hp.type hroom c') rfl rfl
      · exact h.of_pending nofun (hp.type hroom c').commit rfl rfl

lemma Book.killStep (h : s.Book passed) (hs : s.Rest) (todo : List UInt8) :
    (s.killStep todo).Book passed := by
  have hp := h.buffer.rest hs
  rw [ConsSys.killStep]
  split_ifs with hkill
  · rw [Input.killing, decide_eq_true_eq] at hkill
    exact h.of_pending hs (hp.erase hkill.1) rfl rfl
  · exact h.of_pending nofun hp rfl rfl

lemma Calls.of_inCall (h : s.Calls) (hr : s'.reads = s.reads)
    (hc : ∀ o, s'.InCall o → s.InCall o ∨ newline ∉ o.got) : s'.Calls :=
  ⟨hr ▸ h.done, fun o ho => (hc o ho).elim (h.inCall o) id⟩

/-- Only who holds the lock has changed, and nobody reads any more. -/
lemma Calls.of_sec (h : s.Calls) (hr : s'.reads = s.reads)
    (hreader : s'.reader = s.reader) (hs : s'.Rest) (htop : ∀ p o, s'.sec ≠ .top p o) : s'.Calls := by
  refine h.of_inCall hr fun o ho => ?_
  rcases ho with ⟨p, hp⟩ | ⟨p, hp⟩ | ⟨p, c, hp⟩
  · exact .inl (.inl ⟨p, hreader ▸ hp⟩)
  · exact (htop p o hp).elim
  · exact (hs p o c hp).elim

lemma Calls.wakeup (h : s.Calls) : s.wakeup.Calls := by
  refine h.of_inCall rfl fun o ho => .inl ?_
  rcases ho with ⟨p, hp⟩ | ho
  · refine .inl ⟨p, ?_⟩
    cases hr : s.reader p with
    | idle | inside => simp [ConsSys.wakeup, hr] at hp
    | acquire | asleep => simpa [ConsSys.wakeup, hr] using hp
  · exact .inr ho

lemma Calls.intrStep (h : s.Calls) (todo : List UInt8) : (s.intrStep todo).Calls := by
  cases todo with
  | nil => exact h.of_sec rfl rfl nofun nofun
  | cons c todo =>
    rw [ConsSys.intrStep]
    split_ifs
    all_goals try exact h.of_sec rfl rfl nofun nofun
    obtain htyped | ⟨-, c', htyped | htyped⟩ := s.typed_cases c <;> rw [htyped]
    · exact h.of_sec rfl rfl nofun nofun
    · exact h.of_sec rfl rfl nofun nofun
    · exact h.wakeup.of_sec rfl rfl nofun nofun

variable [DecidableEq P]

lemma Book.topStep (h : s.Book passed) (hs : s.Rest) (p : P) (o : ConsRead) :
    (s.topStep p o).Book passed := by
  have hp := h.buffer.rest hs
  rw [ConsSys.topStep]
  split_ifs with hn hrw hkilled
  · exact h.of_pending nofun hp rfl rfl
  · exact h.of_pending nofun hp rfl rfl
  · have hunread : s.input.r + 1 - 1 = s.input.r := UInt32.add_sub_cancel ..
    refine ⟨⟨?_, fun p' o' c hsec => ?_⟩, h.handed, h.eofs⟩
    · change Pending _ (s.input.r + 1 - 1) _ _
      rw [hunread]
      exact ⟨hp.write_le, hp.edit_le, hp.eq⟩
    · cases hsec
      change s.input.r + 1 - 1 ≠ _ ∧ s.input.front = s.input.buf (cell inputBuf (s.input.r + 1 - 1))
      rw [hunread]
      exact ⟨hrw, rfl⟩
  · exact ⟨.of_rest nofun hp, h.handed, by simpa [finish, leave] using h.eofs⟩

lemma Book.takenStep {p : P} {c : UInt8} (h : s.Book passed)
    (hs : s.sec = .taken p o c) : ∃ passed', (s.takenStep p o c).Book passed' := by
  have hunread : s.unread = s.input.r - 1 := by rw [unread, hs]
  obtain ⟨hne, hc⟩ := h.buffer.taken p o c hs
  have hp := h.buffer.pending
  have hpass := hp.pass hne
  rw [← hc] at hpass
  rw [hunread, UInt32.sub_add_cancel] at hpass
  rw [hunread] at hp
  rw [ConsSys.takenStep]
  split_ifs with heof hgot hline
  · exact ⟨passed, .of_rest nofun ⟨hp.write_le, hp.edit_le, hp.eq⟩, h.handed,
      by simpa [finish, leave] using h.eofs⟩
  · refine ⟨passed ++ [c], .of_rest nofun hpass, ?_, ?_⟩
    · simpa [finish, leave, heof] using h.handed
    · simpa [finish, leave, heof] using h.eofs
  · refine ⟨passed ++ [c], .of_rest nofun hpass, ?_, ?_⟩
    · simp [finish, leave, heof, h.handed]
    · simpa [finish, leave, heof] using h.eofs
  · refine ⟨passed ++ [c], .of_rest nofun hpass, ?_, ?_⟩
    · simp [heof, h.handed]
    · simpa [heof] using h.eofs

/-- **The buffer and the records go together** after every step. -/
lemma Book.step {a : ConsAct P} (h : s.Book passed) (hstep : s.step a = .ok s') :
    ∃ passed', s'.Book passed' := by
  cases a with
  | read p n =>
    rw [ConsSys.step] at hstep
    split at hstep <;> cases hstep
    · exact ⟨passed, ⟨h.buffer.pending, h.buffer.taken⟩, h.handed, h.eofs⟩
    · exact ⟨passed, h⟩
  | enter p =>
    rw [ConsSys.step] at hstep
    split at hstep <;> cases hstep
    · rename_i hsec _
      have hs : s.Rest := by simp [Rest, hsec]
      exact ⟨passed, h.of_pending nofun (h.buffer.rest hs) rfl rfl⟩
    · exact ⟨passed, h⟩
  | intr todo =>
    rw [ConsSys.step] at hstep
    split at hstep <;> cases hstep
    · rename_i hsec
      have hs : s.Rest := by simp [Rest, hsec]
      exact ⟨passed, h.of_pending nofun (h.buffer.rest hs) rfl rfl⟩
    · exact ⟨passed, h⟩
  | next =>
    rw [ConsSys.step] at hstep
    split at hstep <;> cases hstep <;> rename_i hsec
    · exact ⟨passed, h⟩
    · exact ⟨passed, h.intrStep (by simp [Rest, hsec]) _⟩
    · exact ⟨passed, h.killStep (by simp [Rest, hsec]) _⟩
    · exact ⟨passed, h.topStep (by simp [Rest, hsec]) _ _⟩
    · exact h.takenStep hsec
  | kill p =>
    rw [ConsSys.step] at hstep
    split at hstep <;> cases hstep
    all_goals exact ⟨passed, ⟨h.buffer.pending, h.buffer.taken⟩, h.handed, h.eofs⟩

/-! ### Calls -/

/-- A call that is on its way after `p` has gone to `x`. -/
lemma inCall_update {p : P} {x : ConsReader}
    (hr : s'.reader = update s.reader p x) (ho : s'.InCall o) :
    s.InCall o ∨ x = .acquire o ∨ x = .asleep o ∨ (∃ p, s'.sec = .top p o) ∨
      ∃ p c, s'.sec = .taken p o c := by
  rcases ho with ⟨p', hp'⟩ | ho | ho
  · rw [hr] at hp'
    by_cases hpp : p' = p
    · subst hpp
      rw [update_self] at hp'
      tauto
    · rw [update_of_ne hpp] at hp'
      exact .inl (.inl ⟨p', hp'⟩)
  · tauto
  · tauto

/-- The end of a call. -/
lemma Calls.finish {p : P} {eof : Bool} (h : s.Calls)
    (hreads : s'.reads = s.reads) (hreader : s'.reader = s.reader) (hdone : Done ⟨o, eof⟩) :
    (s'.finish p o eof).Calls := by
  refine ⟨fun q hq => ?_, fun o' ho' => ?_⟩
  · rcases List.mem_append.mp hq with hq | hq
    · exact h.done q (hreads ▸ hq)
    · rw [List.mem_singleton.mp hq]
      exact hdone
  · obtain ho' | ho' | ho' | ⟨_, ho'⟩ | ⟨_, _, ho'⟩ :=
      inCall_update (s := s) (p := p) (x := .idle) (by rw [← hreader]; rfl) ho'
    · exact h.inCall o' ho'
    all_goals cases ho'

lemma Calls.topStep {p : P} (h : s.Calls) (hs : s.sec = .top p o) :
    (s.topStep p o).Calls := by
  have ho : s.InCall o := .inr (.inl ⟨p, hs⟩)
  have hline := h.inCall o ho
  rw [ConsSys.topStep]
  split_ifs with hn hrw hkilled
  · refine h.of_inCall rfl fun o' ho' => .inl ?_
    obtain ho' | ho' | ho' | ⟨_, ho'⟩ | ⟨_, _, ho'⟩ := inCall_update (s := s) rfl ho'
    · exact ho'
    all_goals cases ho'
  · refine h.of_inCall rfl fun o' ho' => .inl ?_
    obtain ho' | ho' | ho' | ⟨_, ho'⟩ | ⟨_, _, ho'⟩ := inCall_update (s := s) rfl ho'
    · exact ho'
    · cases ho'
    · cases ho'
      exact ho
    all_goals cases ho'
  · refine h.of_inCall rfl fun o' ho' => .inl ?_
    rcases ho' with ho' | ⟨_, ho'⟩ | ⟨_, _, ho'⟩
    · exact .inl ho'
    · cases ho'
    · cases ho'
      exact ho
  · refine h.finish rfl rfl ⟨nofun, fun hpos hgot => ?_, fun pre post hgot => ?_⟩
    · rw [hgot, List.length_nil] at hn
      exact (hn hpos).elim
    · exact (hline (hgot ▸ by simp)).elim

lemma Calls.takenStep {p : P} {c : UInt8} (h : s.Calls) (hs : s.sec = .taken p o c) :
    (s.takenStep p o c).Calls := by
  have hline := h.inCall o (.inr (.inr ⟨p, c, hs⟩))
  have hlast : ∀ pre post, o.got = pre ++ newline :: post → post = [] := fun pre post hgot =>
    (hline (hgot ▸ by simp)).elim
  rw [ConsSys.takenStep]
  split_ifs with heof hgot hc
  · exact h.finish rfl rfl ⟨nofun, fun _ h => (hgot h).elim, hlast⟩
  · exact h.finish rfl rfl ⟨fun _ => not_not.mp hgot, fun _ _ => rfl, hlast⟩
  · refine h.finish rfl rfl ⟨nofun, fun _ h => by simp at h, fun pre post hgot => ?_⟩
    -- the newline is the last byte, there being none before it
    rcases List.eq_nil_or_concat post with hpost | ⟨post', x, rfl⟩
    · exact hpost
    · rw [List.concat_eq_append, ← List.cons_append, ← List.append_assoc] at hgot
      have hgot' := (List.append_inj' hgot rfl).1
      exact (hline (hgot' ▸ by simp)).elim
  · refine h.of_inCall rfl fun o' ho' => ?_
    rcases ho' with ho' | ⟨_, ho'⟩ | ⟨_, _, ho'⟩
    · exact .inl (.inl ho')
    · cases ho'
      exact .inr (by simpa [Ne.symm hc] using hline)
    · cases ho'

lemma Calls.step {a : ConsAct P} (h : s.Calls) (hstep : s.step a = .ok s') :
    s'.Calls := by
  cases a with
  | read p n =>
    rw [ConsSys.step] at hstep
    split at hstep <;> cases hstep
    · refine h.of_inCall rfl fun o ho => ?_
      obtain ho | ho | ho | ho | ho := inCall_update (s := s) rfl ho
      · exact .inl ho
      · cases ho
        exact .inr (by simp)
      · cases ho
      · exact .inl (.inr (.inl ho))
      · exact .inl (.inr (.inr ho))
    · exact h
  | enter p =>
    rw [ConsSys.step] at hstep
    split at hstep <;> cases hstep
    · rename_i hr
      refine h.of_inCall rfl fun o ho => .inl ?_
      obtain ho | ho | ho | ⟨_, ho⟩ | ⟨_, _, ho⟩ := inCall_update (s := s) rfl ho
      · exact ho
      · cases ho
      · cases ho
      · cases ho
        exact .inl ⟨p, .inl hr⟩
      · cases ho
    · exact h
  | intr todo =>
    rw [ConsSys.step] at hstep
    split at hstep <;> cases hstep
    · exact h.of_sec rfl rfl nofun nofun
    · exact h
  | next =>
    rw [ConsSys.step] at hstep
    split at hstep <;> cases hstep <;> rename_i hsec
    · exact h
    · exact h.intrStep _
    · rw [killStep]
      split_ifs
      · exact h.of_sec rfl rfl (by simp [Rest, hsec]) (by simp [hsec])
      · exact h.of_sec rfl rfl nofun nofun
    · exact h.topStep hsec
    · exact h.takenStep hsec
  | kill p =>
    rw [ConsSys.step] at hstep
    split at hstep <;> cases hstep
    · rename_i hr
      refine h.of_inCall rfl fun o ho => .inl ?_
      obtain ho | ho | ho | ho | ho := inCall_update (s := s) rfl ho
      · exact ho
      · cases ho
        exact .inl ⟨p, .inr hr⟩
      · cases ho
      · exact .inr (.inl ho)
      · exact .inr (.inr ho)
    · exact h.of_inCall rfl fun o ho => .inl ho

/-- What was committed stays. -/
lemma committed_step {a : ConsAct P} (hstep : s.step a = .ok s') :
    s.committed <+: s'.committed := by
  cases a with
  | read p n | enter p | intr todo | kill p =>
    rw [ConsSys.step] at hstep
    split at hstep <;> cases hstep <;> exact List.prefix_rfl
  | next =>
    rw [ConsSys.step] at hstep
    split at hstep <;> cases hstep
    · exact List.prefix_rfl
    · exact committed_intrStep s _
    · rw [killStep]
      split_ifs <;> exact List.prefix_rfl
    · rw [topStep]
      split_ifs <;> exact List.prefix_rfl
    · rw [takenStep]
      split_ifs <;> exact List.prefix_rfl

end Steps

/-! ### Runs -/

lemma book_boot : (boot : ConsSys P).Book [] :=
  ⟨.of_rest nofun ⟨le_refl _, by simp [boot], (window_self _ _).symm⟩, rfl, rfl⟩

lemma calls_boot : (boot : ConsSys P).Calls := by
  refine ⟨nofun, fun o ho => ?_⟩
  rcases ho with ⟨p, hp | hp⟩ | ⟨p, hp⟩ | ⟨p, c, hp⟩ <;> cases hp

variable [DecidableEq P]

/-- **The line discipline.**  The indices are in order.  The committed bytes are those that the read index
has passed and those in the buffer before the write index, editing or not, and readers have got the passed
ones without the `C('D')`, each of which was the end of one call that got nothing.  No other call gets
nothing, and none goes on after a newline. -/
theorem console_lines {s : ConsSys P} (h : Reach ConsSys.step (fun _ _ => True) .boot s) :
    (s.input.w - s.input.r).toNat ≤ (s.input.e - s.input.r).toNat ∧
    (s.input.e - s.input.r).toNat ≤ inputBuf ∧
    (∃ passed, s.committed = passed ++ window s.input.buf s.unread s.input.w ∧
      s.handed = passed.filter (· ≠ ctrlD) ∧ s.reads.countP ConsDone.eof = passed.count ctrlD) ∧
    (∀ q ∈ s.reads, Done q) ∧ ∀ a s', s.step a = .ok s' → s.committed <+: s'.committed := by
  obtain ⟨passed, hbook⟩ : ∃ passed, s.Book passed := by
    refine Reach.invariant (I := fun s => ∃ passed, s.Book passed) ⟨[], book_boot⟩ ?_ h
    rintro s a s' ⟨passed, hs⟩ - hstep
    exact hs.step hstep
  have hcalls : s.Calls := Reach.invariant (I := Calls) calls_boot (fun _ _ _ hs _ => hs.step) h
  obtain ⟨hw, he⟩ := hbook.buffer.indices
  exact ⟨hw, he, ⟨passed, hbook.buffer.pending.eq, hbook.handed, hbook.eofs⟩, hcalls.done,
    fun a s' hstep => committed_step hstep⟩

/-- A line, and the end of the file. -/
theorem console_lines_eof :
    ∃ s : ConsSys Unit, Reach ConsSys.step (fun _ _ => True) .boot s ∧ s.handed = [97, newline] ∧
      s.reads = [⟨⟨5, [97, newline]⟩, false⟩, ⟨⟨5, []⟩, true⟩] ∧
      (s.input.w - s.input.r).toNat ≤ (s.input.e - s.input.r).toNat ∧
      (s.input.e - s.input.r).toNat ≤ inputBuf ∧
      (∃ passed, s.committed = passed ++ window s.input.buf s.unread s.input.w ∧
        s.handed = passed.filter (· ≠ ctrlD) ∧ s.reads.countP ConsDone.eof = passed.count ctrlD) ∧
      (∀ q ∈ s.reads, Done q) ∧ ∀ a s', s.step a = .ok s' → s.committed <+: s'.committed := by
  obtain ⟨s, hreach, hhand, hreads⟩ : ∃ s : ConsSys Unit,
      Reach ConsSys.step (fun _ _ => True) .boot s ∧ s.handed = [97, newline] ∧
      s.reads = [⟨⟨5, [97, newline]⟩, false⟩, ⟨⟨5, []⟩, true⟩] :=
    Reach.of_test (.intr [97, 13, ctrlD] :: List.replicate 4 .next ++ .read () 5 :: .enter () ::
      List.replicate 4 .next ++ .read () 5 :: .enter () :: List.replicate 2 .next) (by decide +kernel)
  exact ⟨s, hreach, hhand, hreads, console_lines hreach⟩

end ConsSys

end Col331
