import Col331.Uthread.Switch

/-!
What `thread_create` does to the table of threads.

The search for a slot leaves `t` at the last slot when no slot is `FREE`, and nothing records that the
search has failed.

* `CreatesOne`: the new thread is in a slot that was `FREE`, and no other byte is changed.
* `threadCreate_createsOne_iff`: **when that is so**.
-/

namespace Col331.Uthread

variable {I : Image} {m m' : Memory} {n : Fin maxThread} {func priority : UInt32}

/-- Slot `n` is `FREE`. -/
def Free (I : Image) (m : Memory) (n : Fin maxThread) : Prop := m.load (I.state n) = 0

/-- Slot `n` holds a thread that has not run yet: it is `RUNNABLE` and has the priority, and the frame
on its stack resumes it at `func`. -/
structure Fresh (I : Image) (m : Memory) (func priority : UInt32) (n : Fin maxThread) : Prop where
  state : m.load (I.state n) = 2
  priority : m.load (I.priority n) = priority
  frame : Framed I m n (I.stack n, I.state n) (.start func)

/-- No byte outside slot `n` is changed. -/
def OnlySlot (I : Image) (m m' : Memory) (n : Fin maxThread) : Prop :=
  ∀ a, a < I.slot n ∨ I.slot n + threadSize ≤ a → Bytes.byte m' a = Bytes.byte m a

/-- No byte of slot `n` is changed. -/
def SameSlot (I : Image) (m m' : Memory) (n : Fin maxThread) : Prop :=
  m.Agree m' (I.slot n) (I.slot n + threadSize)

/-- One slot is changed: it was `FREE` and has the new thread.  Without a `FREE` slot none is. -/
def CreatesOne (I : Image) (m : Memory) (func priority : UInt32) (m' : Memory) : Prop :=
  ((∃ n, Free I m n) → ∃ n, Free I m n ∧ Fresh I m' func priority n ∧ OnlySlot I m m' n) ∧
    ((∀ n, ¬ Free I m n) → ∀ n, SameSlot I m m' n)

lemma threadCreate_fresh (func priority : UInt32) :
    Fresh I (threadCreate I m func priority) func priority (freeSlot I m) := by
  refine ⟨?_, ?_, threadCreate_framed func priority⟩
  all_goals
    rw [threadCreate_eq]
    generalize freeSlot I m = t
    have hlt := I.slot_lt t
    have hstate := I.state_eq t
    have hprio := I.priority_eq t
  · exact Memory.load_store (by omega)
  · rw [Memory.load_store_of_disjoint (by omega), Memory.load_store (by omega)]

lemma threadCreate_onlySlot (func priority : UInt32) :
    OnlySlot I m (threadCreate I m func priority) (freeSlot I m) := by
  intro a ha
  simp only [threadSize, stackSize] at ha
  have hkeep := @threadCreate_agree I m func priority a (a + 1) (by omega) (by omega)
  exact hkeep a le_rfl (Nat.lt_succ_self a)

/-- Without a `FREE` slot the last one is taken. -/
lemma freeSlot_of_full (h : ∀ n, ¬ Free I m n) : freeSlot I m = Fin.last 7 := by
  have hnone : ((List.finRange maxThread).find? fun n => m.load (I.state n) = 0) = none :=
    List.find?_eq_none.mpr fun n _ hn => absurd (of_decide_eq_true hn) (h n)
  rw [freeSlot, hnone]
  rfl

/-- The frame of a thread that has not run yet is at the top of its stack. -/
lemma Fresh.words (h : Fresh I m func priority n) :
    m.load (I.slot n) = UInt32.ofNat (I.slot n + 4064) ∧ m.load (I.slot n + 4096) = func := by
  obtain ⟨sp, hsp, -, -, htop, hfunc⟩ := h.frame
  have hst := I.state_eq n
  obtain rfl : sp = I.slot n + 4064 := by omega
  exact ⟨hsp, hfunc⟩

/-- The thread is there already: its slot is not changed. -/
lemma Fresh.sameSlot (h : Fresh I m func priority (freeSlot I m)) :
    SameSlot I m (threadCreate I m func priority) (freeSlot I m) := by
  have h' : Fresh I (threadCreate I m func priority) func priority (freeSlot I m) :=
    threadCreate_fresh func priority
  have hkeep := @threadCreate_agree I m func priority (I.slot (freeSlot I m) + 4)
    (I.slot (freeSlot I m) + 4096) (by omega) (by omega)
  generalize freeSlot I m = t at *
  generalize threadCreate I m func priority = m' at *
  have hst := I.state_eq t
  have hpr := I.priority_eq t
  have hsp := Memory.agree_of_load (h'.words.1.trans h.words.1.symm)
  have hfunc := Memory.agree_of_load (h'.words.2.trans h.words.2.symm)
  have hstate := Memory.agree_of_load (h'.state.trans h.state.symm)
  have hprio := Memory.agree_of_load (h'.priority.trans h.priority.symm)
  intro a h1 h2
  simp only [threadSize, stackSize] at h2
  by_cases hin : a < I.slot t + 4 ∨ I.slot t + 4096 ≤ a
  · rcases hin with ha | ha
    · exact hsp a h1 ha
    · rcases lt_or_ge a (I.slot t + 4100) with hlt | hge
      · exact hfunc a ha hlt
      · rcases lt_or_ge a (I.slot t + 4104) with hlt | hge'
        · exact hstate a (by omega) (by omega)
        · exact hprio a (by omega) (by omega)
  · -- the rest of the stack is not written
    exact hkeep a (by omega) (by omega)

/-- **When `thread_create` disturbs no thread**: some slot is `FREE`, or the last slot holds just the
thread that is to be created. -/
theorem threadCreate_createsOne_iff (I : Image) (m : Memory) (func priority : UInt32) :
    CreatesOne I m func priority (threadCreate I m func priority) ↔
      (∃ n, Free I m n) ∨ Fresh I m func priority (Fin.last 7) := by
  constructor
  · intro h
    by_cases hfree : ∃ n, Free I m n
    · exact .inl hfree
    · right
      have hfull : ∀ n, ¬ Free I m n := fun n hn => hfree ⟨n, hn⟩
      have hsame := h.2 hfull (Fin.last 7)
      have hfresh := @threadCreate_fresh I m func priority
      rw [freeSlot_of_full hfull] at hfresh
      generalize threadCreate I m func priority = m' at *
      have hst := I.state_eq (Fin.last 7)
      have hpr := I.priority_eq (Fin.last 7)
      have hback : ∀ lo hi, I.slot (Fin.last 7) ≤ lo → hi ≤ I.slot (Fin.last 7) + 4108 →
          m'.Agree m lo hi := fun lo hi h1 h2 a h3 h4 => (hsame a (by omega) (by
        simp only [threadSize, stackSize]
        omega)).symm
      refine ⟨?_, ?_, hfresh.frame.agree (hback _ _ le_rfl (by omega)) (hback _ _ ?_ (by omega))⟩
      · rw [(hback _ _ (by omega) (by omega)).load le_rfl le_rfl]
        exact hfresh.state
      · rw [(hback _ _ (by omega) (by omega)).load le_rfl le_rfl]
        exact hfresh.priority
      · exact Nat.le_add_right _ 4
  · intro h
    refine ⟨fun hfree => ⟨freeSlot I m, freeSlot_free hfree, threadCreate_fresh func priority,
      threadCreate_onlySlot func priority⟩, fun hfull n => ?_⟩
    have hlast := freeSlot_of_full hfull
    have hfresh : Fresh I m func priority (freeSlot I m) := by
      rw [hlast]
      exact h.resolve_left fun ⟨n, hn⟩ => hfull n hn
    by_cases hn : n = freeSlot I m
    · rw [hn]
      exact hfresh.sameSlot
    · intro a h1 h2
      refine threadCreate_onlySlot func priority a ?_
      have hap := I.slot_apart hn
      simp only [threadSize, stackSize] at h2 ⊢
      omega

/-- Eight threads wait for the processor. -/
def fullTable : Memory :=
  (List.finRange maxThread).foldl (fun m n => m.store (Threads.demoImage.state n) 2) (Bytes.zero _)

/-- A ninth thread takes the slot of the last one. -/
theorem threadCreate_fullTable : ¬ CreatesOne Threads.demoImage fullTable 7 1
    (threadCreate Threads.demoImage fullTable 7 1) := by
  intro h
  have hfull : ∀ n, ¬ Free Threads.demoImage fullTable n := by
    unfold Free
    decide +kernel
  have hsame := (h.2 hfull (Fin.last 7)).load (show _ ≤ Threads.demoImage.priority (Fin.last 7) by
    decide) (by decide)
  revert hsame
  decide +kernel

end Col331.Uthread
