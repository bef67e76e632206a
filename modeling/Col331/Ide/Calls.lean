import Col331.Ide.Refine

/-!
The calls of the interrupt-driven disk driver and its requests.

* `Ide.CallsOk`: every request belongs to one call, which has returned or is under way.
* `Ide.CallsOk.step`: every step keeps this; `Ide.CallsOk.returned`: when no call is under way, every
  request has been returned once.
-/

namespace Col331

open Function

/-- The call has put its buffer into the queue. -/
def IdePc.called : IdePc → Bool
  | .idle | .acquire | .queue => false
  | _ => true

namespace Ide

variable {B : Type} {d₀ : Disk} {s s' : Ide B} {q : List B} {b : B}

/-- Every request belongs to one call, which has returned or is under way. -/
structure CallsOk (s : Ide B) : Prop where
  nodup : (s.returned.map Prod.fst).Nodup
  lt : ∀ b, (s.pc b).called = true → s.ticket b < s.queued.length
  fresh : ∀ b, (s.pc b).called = true → s.ticket b ∉ s.returned.map Prod.fst
  inj : ∀ b b', (s.pc b).called = true → (s.pc b').called = true → s.ticket b = s.ticket b' → b = b'
  all : ∀ n < s.queued.length, n ∈ s.returned.map Prod.fst ∨ ∃ b, (s.pc b).called = true ∧ s.ticket b = n
  below : ∀ n ∈ s.returned.map Prod.fst, n < s.queued.length

lemma CallsOk.congr (h : CallsOk s) (hcalled : ∀ b, (s'.pc b).called = (s.pc b).called)
    (hticket : s'.ticket = s.ticket) (hqueued : s'.queued = s.queued) (hret : s'.returned = s.returned) :
    CallsOk s' := by
  constructor <;> simp only [hcalled, hticket, hqueued, hret]
  exacts [h.nodup, h.lt, h.fresh, h.inj, h.all, h.below]

variable [DecidableEq B]

section

variable (h : CallsOk s)

include h

/-- A call goes on without becoming a request or returning. -/
lemma CallsOk.move {c : IdePc} (hpc : s'.pc = update s.pc b c)
    (hc : c.called = (s.pc b).called) (hticket : s'.ticket = s.ticket) (hqueued : s'.queued = s.queued)
    (hret : s'.returned = s.returned) : CallsOk s' := by
  refine h.congr (fun x => ?_) hticket hqueued hret
  rw [hpc]
  by_cases hx : x = b
  · rw [hx, update_self, hc]
  · rw [update_of_ne hx]

/-- A call becomes a request. -/
lemma CallsOk.push {qnext : B → Option B} {head : Option B} (hp : (s.pc b).called = false) :
    CallsOk (s.push b qnext head) := by
  have hlt : ∀ n, n < (s.queued ++ [s.buf b]).length ↔ n < s.queued.length ∨ n = s.queued.length := fun n => by
    rw [List.length_append, List.length_singleton]
    omega
  have hpc : ∀ x, x ≠ b → (s.push b qnext head).pc x = s.pc x := fun x hx => update_of_ne hx _ _
  have hti : ∀ x, x ≠ b → (s.push b qnext head).ticket x = s.ticket x := fun x hx => update_of_ne hx _ _
  have hpb : (s.push b qnext head).pc b = .start := update_self ..
  have htb : (s.push b qnext head).ticket b = s.queued.length := update_self ..
  refine ⟨h.nodup, fun x hx => (hlt _).mpr ?_, fun x hx => ?_, fun x y hx hy heq => ?_, fun n hn => ?_,
    fun n hn => (hlt n).mpr (.inl (h.below n hn))⟩
  · by_cases hxb : x = b
    · exact .inr (hxb ▸ htb)
    · rw [hti x hxb]
      exact .inl (h.lt x (hpc x hxb ▸ hx))
  · by_cases hxb : x = b
    · rw [hxb, htb]
      exact fun hm => absurd (h.below _ hm) (lt_irrefl _)
    · rw [hti x hxb]
      exact h.fresh x (hpc x hxb ▸ hx)
  · by_cases hxb : x = b <;> by_cases hyb : y = b
    · rw [hxb, hyb]
    · rw [hxb, htb, hti y hyb] at heq
      exact absurd (h.lt y (hpc y hyb ▸ hy)) (heq ▸ lt_irrefl _)
    · rw [hyb, htb, hti x hxb] at heq
      exact absurd (h.lt x (hpc x hxb ▸ hx)) (heq ▸ lt_irrefl _)
    · rw [hti x hxb, hti y hyb] at heq
      exact h.inj x y (hpc x hxb ▸ hx) (hpc y hyb ▸ hy) heq
  · rcases (hlt n).mp hn with hn | rfl
    · refine (h.all n hn).imp id fun ⟨x, hx, ht⟩ => ?_
      have hxb : x ≠ b := fun heq => absurd (hp.symm.trans (heq ▸ hx)) Bool.false_ne_true
      exact ⟨x, by rwa [hpc x hxb], by rwa [hti x hxb]⟩
    · exact .inr ⟨b, by rw [hpb]; rfl, htb⟩

/-- A call returns. -/
lemma CallsOk.ret (hp : (s.pc b).called = true) (hpc : s'.pc = update s.pc b .idle)
    (hticket : s'.ticket = s.ticket) (hqueued : s'.queued = s.queued)
    (hret : s'.returned = s.returned ++ [(s.ticket b, s.buf b)]) : CallsOk s' := by
  have hmem : ∀ n, n ∈ s'.returned.map Prod.fst ↔ n ∈ s.returned.map Prod.fst ∨ n = s.ticket b := fun n => by
    rw [hret, List.map_append, List.mem_append]
    simp
  have hcalled : ∀ x, (s'.pc x).called = true → x ≠ b ∧ (s.pc x).called = true := by
    intro x hx
    rw [hpc] at hx
    by_cases hxb : x = b
    · rw [hxb, update_self] at hx
      exact nomatch hx
    · exact ⟨hxb, by rwa [update_of_ne hxb] at hx⟩
  refine ⟨?_, fun x hx => ?_, fun x hx => ?_, fun x y hx hy heq => ?_, fun n hn => ?_, fun n hn => ?_⟩
  · rw [hret, List.map_append, List.map_singleton, List.nodup_append]
    refine ⟨h.nodup, List.nodup_singleton _, ?_⟩
    rintro n hn m hm rfl
    have heq : n = s.ticket b := List.mem_singleton.mp hm
    exact h.fresh b hp (heq ▸ hn)
  · rw [hticket, hqueued]
    exact h.lt x (hcalled x hx).2
  · rw [hticket, hmem]
    rintro (hm | heq)
    · exact h.fresh x (hcalled x hx).2 hm
    · exact (hcalled x hx).1 (h.inj x b (hcalled x hx).2 hp heq)
  · rw [hticket] at heq
    exact h.inj x y (hcalled x hx).2 (hcalled y hy).2 heq
  · rw [hqueued] at hn
    rw [hmem]
    rcases h.all n hn with hm | ⟨x, hx, rfl⟩
    · exact .inl (.inl hm)
    · by_cases hxb : x = b
      · exact .inl (.inr (by rw [hxb]))
      · exact .inr ⟨x, by rwa [hpc, update_of_ne hxb], by rw [hticket]⟩
  · rw [hqueued]
    rcases (hmem n).mp hn with hn | rfl
    · exact h.below n hn
    · exact h.lt b hp

/-- The steps of `iderw`. -/
lemma CallsOk.run [Fintype B] (hinv : Inv d₀ s q) (hrun : s.run b = .ok s') : CallsOk s' := by
  have hlive : s.pc b = .queue → b ∉ q := fun hp => by
    have hproc := hinv.procs b
    rw [hp] at hproc
    exact hproc.1
  rw [Ide.run] at hrun
  cases hp : s.pc b <;> rw [hp] at hrun <;> dsimp only at hrun
  case idle => exact Except.ok.inj hrun ▸ h
  case queue =>
      obtain ⟨qnext, head, happ, -⟩ := append_ok hinv.queue.link hinv.queue.nodup (hlive hp)
      rw [happ] at hrun
      exact Except.ok.inj hrun ▸ h.push (by rw [hp]; rfl)
  case start =>
      split_ifs at hrun
      · exact Except.ok.inj hrun ▸ h
      · rw [idestart] at hrun
        split_ifs at hrun
        exact Except.ok.inj hrun ▸ h.move (b := b) rfl (by rw [hp]; rfl) rfl rfl rfl
      · exact Except.ok.inj hrun ▸ h.move (b := b) rfl (by rw [hp]; rfl) rfl rfl rfl
  case test =>
      refine Except.ok.inj hrun ▸ h.move (b := b) rfl ?_ rfl rfl rfl
      rw [hp]
      split_ifs <;> rfl
  case sleepRelease | sleepSet => exact Except.ok.inj hrun ▸ h.move (b := b) rfl (by rw [hp]; rfl) rfl rfl rfl
  case release => exact Except.ok.inj hrun ▸ h.ret (b := b) (by rw [hp]; rfl) rfl rfl rfl rfl
  all_goals
    split_ifs at hrun
    · exact Except.ok.inj hrun ▸ h.move (b := b) rfl (by rw [hp]; rfl) rfl rfl rfl
    · exact Except.ok.inj hrun ▸ h

lemma CallsOk.runIntr (hrun : s.runIntr = .ok s') : CallsOk s' := by
  rw [Ide.runIntr] at hrun
  cases hi : s.intr <;> rw [hi] at hrun <;> dsimp only at hrun
  case idle => exact Except.ok.inj hrun ▸ h
  case release => exact Except.ok.inj hrun ▸ h.congr (fun _ => rfl) rfl rfl rfl
  case serve =>
      rw [serve] at hrun
      split at hrun <;> exact Except.ok.inj hrun ▸ h.congr (fun _ => rfl) rfl rfl rfl
  case start =>
      split at hrun
      · exact Except.ok.inj hrun ▸ h.congr (fun _ => rfl) rfl rfl rfl
      · split_ifs at hrun
        · exact Except.ok.inj hrun ▸ h
        · rw [idestart] at hrun
          split_ifs at hrun
          exact Except.ok.inj hrun ▸ h.congr (fun _ => rfl) rfl rfl rfl
  all_goals
    split_ifs at hrun
    · exact Except.ok.inj hrun ▸ h.congr (fun _ => rfl) rfl rfl rfl
    · exact Except.ok.inj hrun ▸ h

/-- **Every step keeps the requests with their calls.** -/
lemma CallsOk.step [Fintype B] (hinv : Inv d₀ s q) {a : IdeAct B} (ha : Promised s a)
    (hstep : s.step a = .ok s') : CallsOk s' := by
  cases a with
  | next b => exact h.run hinv hstep
  | handler => exact h.runIntr hstep
  | iderw b v =>
    rw [Ide.step] at hstep
    split_ifs at hstep
    exact Except.ok.inj hstep ▸ h.move (b := b) rfl (by rw [ha.1]; rfl) rfl rfl rfl
  | complete =>
    rw [Ide.step] at hstep
    split at hstep
    · exact Except.ok.inj hstep ▸ h
    · rw [finish] at hstep
      split at hstep <;> exact Except.ok.inj hstep ▸ h.congr (fun _ => rfl) rfl rfl rfl
  | interrupt =>
    rw [Ide.step] at hstep
    split at hstep
    · exact Except.ok.inj hstep ▸ h.congr (fun _ => rfl) rfl rfl rfl
    · exact Except.ok.inj hstep ▸ h
  | kill b =>
    rw [Ide.step] at hstep
    split_ifs at hstep
    · exact Except.ok.inj hstep ▸ h.congr (fun _ => rfl) rfl rfl rfl
    · exact Except.ok.inj hstep ▸ h

end

omit [DecidableEq B] in
lemma callsOk_boot (disk : Bool → Disk) (buf : B → IdeBuf) : CallsOk (boot disk buf) :=
  ⟨List.nodup_nil, nofun, nofun,
    nofun, fun n h => absurd h (Nat.not_lt_zero n),
    fun _ h => absurd h List.not_mem_nil⟩

omit [DecidableEq B] in
/-- When no call is under way, every request has been returned, once. -/
lemma CallsOk.returned (h : CallsOk s) (hidle : ∀ b, s.pc b = .idle) :
    (s.returned.map Prod.fst).Perm (List.range s.queued.length) := by
  refine (List.perm_ext_iff_of_nodup h.nodup List.nodup_range).mpr fun n => ?_
  rw [List.mem_range]
  refine ⟨h.below n, fun hn => (h.all n hn).resolve_right ?_⟩
  rintro ⟨b, hb, -⟩
  rw [hidle b] at hb
  exact nomatch hb

end Ide

end Col331
