import Col331.Data.X86
import Col331.Logic.Reach
import Col331.Uthread.Schedule

/-!
Context switches of the user-level thread package: `thread_switch` of `uthread_switch.S` and
`thread_create` of `uthread_student.c`, on the bytes of memory.

* `Image`: where the program keeps `all_thread`, `current_thread`, `next_thread` and the stack that
  `main` runs on.
* `threadSwitch`, `threadCreate`: the instructions of the one and the assignments of the other.
* `Threads.step`: what the running thread does next.
* `Framed`: the saved context of a thread is on its stack, where `thread_switch` will pop it from.
* `switch_restores`: **a thread is resumed with the context it had**.
-/

namespace Col331.Uthread

open Function

/-- `STACK_SIZE`. -/
abbrev stackSize : ℕ := 4096

/-- `sizeof(struct thread)`: `sp`, `stack`, `state` and `priority`. -/
abbrev threadSize : ℕ := 4 + stackSize + 4 + 4

/-- Where things are in memory; nothing overlaps. -/
structure Image where
  allThread : ℕ
  currentThread : ℕ
  nextThread : ℕ
  /-- The stack that `main` was started on. -/
  stackLo : ℕ
  stackHi : ℕ
  tableEnd : allThread + maxThread * threadSize < 2 ^ 32
  curEnd : currentThread + 4 < 2 ^ 32
  nextEnd : nextThread + 4 < 2 ^ 32
  stackEnd : stackHi < 2 ^ 32
  cur_next : currentThread + 4 ≤ nextThread ∨ nextThread + 4 ≤ currentThread
  cur_table : currentThread + 4 ≤ allThread ∨ allThread + maxThread * threadSize ≤ currentThread
  next_table : nextThread + 4 ≤ allThread ∨ allThread + maxThread * threadSize ≤ nextThread
  stack_cur : stackHi ≤ currentThread ∨ currentThread + 4 ≤ stackLo
  stack_next : stackHi ≤ nextThread ∨ nextThread + 4 ≤ stackLo
  stack_table : stackHi ≤ allThread ∨ allThread + maxThread * threadSize ≤ stackLo

namespace Image

variable (I : Image)

/-- `&all_thread[n]`, which is also the address of `sp`. -/
def slot (n : Fin maxThread) : ℕ := I.allThread + threadSize * n

/-- `all_thread[n].stack`. -/
def stack (n : Fin maxThread) : ℕ := I.slot n + 4

/-- `&all_thread[n].state`, just behind the stack. -/
def state (n : Fin maxThread) : ℕ := I.stack n + stackSize

/-- `&all_thread[n].priority`. -/
def priority (n : Fin maxThread) : ℕ := I.state n + 4

end Image

/-! ### The code -/

/-- `thread_switch`. -/
def threadSwitch (I : Image) : List Instr :=
  [.loadAbs I.currentThread .eax,
   .pushal,
   .storeInd .esp .eax,
   .loadAbs I.nextThread .ebx,
   .storeAbs .ebx I.currentThread,
   .loadInd .ebx .esp,
   .storeImm 0 I.nextThread,
   .popal,
   .ret]

/-- `call thread_switch`, which is to return to `r`. -/
def callSwitch (I : Image) (m : X86) (r : UInt32) : X86 :=
  (threadSwitch I).foldl Instr.exec (m.push r)

/-- The slot that `thread_create` takes: the first that is `FREE`, and the last one if there is none. -/
def freeSlot (I : Image) (m : Memory) : Fin maxThread :=
  ((List.finRange maxThread).find? fun n => m.load (I.state n) = 0).getD (Fin.last 7)

/-- `thread_create`. -/
def threadCreate (I : Image) (m : Memory) (func priority : UInt32) : Memory :=
  let t := freeSlot I m
  let m := m.store (I.slot t) (UInt32.ofNat (I.stack t + stackSize) - 4)
  let m := m.store (m.load (I.slot t)).toNat func
  let m := m.store (I.slot t) (m.load (I.slot t) - 32)
  let m := m.store (I.priority t) priority
  m.store (I.state t) 2

/-! ### The system -/

/-- What is to be restored when a thread runs again. -/
inductive Context where
  /-- It has not run yet, and starts at `func`. -/
  | start (func : UInt32)
  /-- It called `thread_switch` with these registers, to return to `r`. -/
  | saved (reg : Reg → UInt32) (r : UInt32)

/-- The machine, with the thread that runs, the contexts of the others, and the stack that each thread
uses. -/
structure Threads where
  machine : X86
  cur : Fin maxThread
  ctx : Fin maxThread → Option Context
  home : Fin maxThread → ℕ × ℕ

/-- What the running thread does. -/
inductive ThreadAct where
  /-- It computes, which leaves the machine in the state `m`. -/
  | work (m : X86)
  /-- `all_thread[n].state = v`. -/
  | setState (n : Fin maxThread) (v : UInt32)
  /-- `next_thread = &all_thread[n]`. -/
  | setNext (n : Fin maxThread)
  /-- `thread_create(func, priority)`. -/
  | create (func priority : UInt32)
  /-- `thread_switch()`, called from before `r`. -/
  | switch (r : UInt32)

namespace Threads

variable (I : Image)

/-- After `thread_init`: `main` is thread 0. -/
def init (m : X86) : Threads where
  machine := { m with mem := (m.mem.store I.currentThread (UInt32.ofNat (I.slot 0))).store (I.state 0) 1 }
  cur := 0
  ctx _ := none
  home n := if n = 0 then (I.stackLo, I.stackHi) else (I.stack n, I.state n)

/-- The thread that `next_thread` points to. -/
def next? (s : Threads) : Option (Fin maxThread) :=
  (List.finRange maxThread).find? fun n =>
    UInt32.ofNat (I.slot n) = s.machine.mem.load I.nextThread

/-- The contexts once the running thread has called `thread_switch`. -/
def saving (s : Threads) (r : UInt32) : Fin maxThread → Option Context :=
  update s.ctx s.cur (some (.saved s.machine.reg r))

/-- One step; `thread_switch` to something that is not a thread is an error. -/
def step (s : Threads) : ThreadAct → Except Unit Threads
  | .work m => .ok { s with machine := m }
  | .setState n v => .ok { s with machine.mem := s.machine.mem.store (I.state n) v }
  | .setNext n => .ok { s with machine.mem := s.machine.mem.store I.nextThread (UInt32.ofNat (I.slot n)) }
  | .create func priority =>
    let t := freeSlot I s.machine.mem
    .ok { s with
      machine.mem := threadCreate I s.machine.mem func priority
      ctx := update s.ctx t (some (.start func))
      home := update s.home t (I.stack t, I.state t) }
  | .switch r =>
    match s.next? I with
    | none => .error ()
    | some n =>
      .ok { s with
        machine := callSwitch I s.machine r
        cur := n
        ctx := update (s.saving r) n none }

/-- An address that is none of the running thread's business: the `sp` of a thread, `current_thread`,
`next_thread`, or a byte of another thread's stack. -/
def Foreign (s : Threads) (a : ℕ) : Prop :=
  (∃ n, I.slot n ≤ a ∧ a < I.slot n + 4) ∨ (I.currentThread ≤ a ∧ a < I.currentThread + 4) ∨
    (I.nextThread ≤ a ∧ a < I.nextThread + 4) ∨ ∃ n, n ≠ s.cur ∧ (s.home n).1 ≤ a ∧ a < (s.home n).2

/-- What the threads promise: each uses only its own stack, which has room for the frame of
`thread_switch`; a thread is created in a slot that is `FREE`, by one that is not; and
`thread_switch` is called for a thread that was created or has run. -/
def Promised (s : Threads) : ThreadAct → Prop
  | .work m => ∀ a, s.Foreign I a → Bytes.byte m.mem a = Bytes.byte s.machine.mem a
  | .setState _ _ | .setNext _ => True
  | .create _ _ => (∃ n, s.machine.mem.load (I.state n) = 0) ∧ s.machine.mem.load (I.state s.cur) ≠ 0
  | .switch r => (∃ n, s.next? I = some n ∧ (s.saving r n).isSome) ∧
      (s.home s.cur).1 + 36 ≤ (s.machine.reg .esp).toNat ∧
      (s.machine.reg .esp).toNat ≤ (s.home s.cur).2

end Threads

/-! ### Saved contexts -/

/-- The context stands on the stack at `sp`, for a thread whose stack ends at `top`. -/
def Context.Frame (m : Memory) (sp top : ℕ) : Context → Prop
  | .start func => sp + 36 = top ∧ m.load (sp + 32) = func
  | .saved reg r => sp + 36 = (reg .esp).toNat ∧ m.load sp = reg .edi ∧ m.load (sp + 4) = reg .esi ∧
      m.load (sp + 8) = reg .ebp ∧ m.load (sp + 16) = reg .ebx ∧ m.load (sp + 20) = reg .edx ∧
      m.load (sp + 24) = reg .ecx ∧ m.load (sp + 32) = r

/-- The machine as the thread with this context is to find it; its stack ends at `top`. -/
def Context.Resumed (m : X86) (top : ℕ) : Context → Prop
  | .start func => m.eip = func ∧ (m.reg .esp).toNat = top
  | .saved reg r => m.eip = r ∧ ∀ x, x ≠ .eax → m.reg x = reg x

/-- The context of thread `n` is on its stack, and `sp` points to it. -/
def Framed (I : Image) (m : Memory) (n : Fin maxThread) (home : ℕ × ℕ) (c : Context) : Prop :=
  ∃ sp, m.load (I.slot n) = UInt32.ofNat sp ∧ home.1 ≤ sp ∧ sp + 36 ≤ home.2 ∧ c.Frame m sp (I.state n)

section Frames

variable {I : Image} {m m' : Memory} {n : Fin maxThread} {home : ℕ × ℕ} {c : Context}

/-- A saved context is kept by whatever leaves `sp` and the stack alone. -/
lemma Framed.agree (h : Framed I m n home c) (hslot : m.Agree m' (I.slot n) (I.slot n + 4))
    (hhome : m.Agree m' home.1 home.2) : Framed I m' n home c := by
  obtain ⟨sp, hsp, hlo, hhi, hframe⟩ := h
  have hload : ∀ i, i ≤ 32 → m'.load (sp + i) = m.load (sp + i) := fun i hi =>
    hhome.load (by omega) (by omega)
  refine ⟨sp, (hslot.load le_rfl le_rfl).trans hsp, hlo, hhi, ?_⟩
  cases c with
  | start func => exact ⟨hframe.1, (hload 32 le_rfl).trans hframe.2⟩
  | saved reg r =>
    obtain ⟨h0, h1, h2, h3, h4, h5, h6, h7⟩ := hframe
    exact ⟨h0, (hload 0 (by omega)).trans h1, (hload 4 (by omega)).trans h2,
      (hload 8 (by omega)).trans h3, (hload 16 (by omega)).trans h4, (hload 20 (by omega)).trans h5,
      (hload 24 (by omega)).trans h6, (hload 32 (by omega)).trans h7⟩

end Frames

/-! ### The two halves of `thread_switch` -/

/-- The instructions that save the context. -/
def saveCode (I : Image) : List Instr := [.loadAbs I.currentThread .eax, .pushal, .storeInd .esp .eax]

/-- The instructions that restore one. -/
def resumeCode (I : Image) : List Instr :=
  [.loadAbs I.nextThread .ebx, .storeAbs .ebx I.currentThread, .loadInd .ebx .esp,
   .storeImm 0 I.nextThread, .popal, .ret]

lemma callSwitch_eq (I : Image) (m : X86) (r : UInt32) : callSwitch I m r =
    (resumeCode I).foldl Instr.exec ((saveCode I).foldl Instr.exec (m.push r)) := by
  rw [← List.foldl_append]
  rfl

section Code

variable {I : Image} {m : X86} {n : Fin maxThread} {home : ℕ × ℕ}

lemma toNat_ofNat {a : ℕ} (h : a < 2 ^ 32) : (UInt32.ofNat a).toNat = a :=
  UInt32.toNat_ofNat_of_lt' h

lemma Image.slot_lt (I : Image) (n : Fin maxThread) : I.slot n + 4108 < 2 ^ 32 := by
  have h := I.tableEnd
  have hn := n.isLt
  simp only [Image.slot, maxThread, threadSize, stackSize] at *
  omega

/-- **The context is saved** on the stack of the thread that calls, and nothing else changes but
its `sp`. -/
lemma save_spec {r : UInt32} (hcur : m.mem.load I.currentThread = UInt32.ofNat (I.slot n))
    (hlo : home.1 + 36 ≤ (m.reg .esp).toNat) (hhi : (m.reg .esp).toNat ≤ home.2)
    (hhome : home.2 ≤ I.slot n ∨ I.slot n + 4 ≤ home.1)
    (hglobal : home.2 ≤ I.currentThread ∨ I.currentThread + 4 ≤ home.1) :
    Framed I ((saveCode I).foldl Instr.exec (m.push r)).mem n home (.saved m.reg r) ∧
    ∀ lo hi, (hi ≤ home.1 ∨ home.2 ≤ lo) → (hi ≤ I.slot n ∨ I.slot n + 4 ≤ lo) →
      m.mem.Agree ((saveCode I).foldl Instr.exec (m.push r)).mem lo hi := by
  have hslot := I.slot_lt n
  have hlt := (m.reg .esp).toNat_lt
  -- the return address
  obtain ⟨hesp₁, hreg₁, hret₁, hagree₁⟩ := X86.pushAll_spec [r] m (by simp; omega)
  have hpush : m.pushAll [r] = m.push r := rfl
  rw [hpush] at hesp₁ hreg₁ hret₁ hagree₁
  simp only [List.length_singleton] at hesp₁
  set m₁ := m.push r with hm₁
  have hcur₁ : m₁.mem.load I.currentThread = UInt32.ofNat (I.slot n) := by
    rw [(hagree₁ I.currentThread (I.currentThread + 4) (by omega)).load le_rfl le_rfl]
    exact hcur
  -- the registers
  set m₂ := m₁.setReg .eax (m₁.mem.load I.currentThread) with hm₂
  have hreg₂ : ∀ x, x ≠ .eax → m₂.reg x = m₁.reg x := fun x hx => update_of_ne hx _ _
  have hesp₂ := hreg₂ .esp (by decide)
  obtain ⟨hesp₃, hreg₃, hword, hagree₃⟩ := X86.pushAll_spec (Reg.pushed.map m₂.reg) m₂
    (by simp [hesp₂, Reg.pushed]; omega)
  set m₃ := m₂.pushAll (Reg.pushed.map m₂.reg) with hm₃
  have hrun : (saveCode I).foldl Instr.exec m₁ =
      { m₃ with mem := m₃.mem.store (m₃.reg .eax).toNat (m₃.reg .esp) } := rfl
  have heax : (m₃.reg .eax).toNat = I.slot n := by
    have h2 : m₂.reg .eax = m₁.mem.load I.currentThread := by simp [hm₂, X86.setReg]
    rw [hreg₃ .eax (by decide), h2, hcur₁, toNat_ofNat (by omega)]
  rw [hesp₂, show (Reg.pushed.map m₂.reg).length = 8 from rfl] at hesp₃
  rw [hesp₂] at hword hagree₃
  set sp := (m₃.reg .esp).toNat with hsp
  have hspace : sp + 36 = (m.reg .esp).toNat := by omega
  rw [hrun, heax]
  have hstore : m₃.mem.Agree (m₃.mem.store (I.slot n) (m₃.reg .esp)) home.1 home.2 :=
    Memory.agree_store (by omega)
  -- the words that `pushal` pushed, from the top of the stack on
  have hat : ∀ i (hi : i < 8) x, Reg.pushed.get ⟨i, hi⟩ = x → x ≠ .eax → x ≠ .esp →
      (m₃.mem.store (I.slot n) (m₃.reg .esp)).load (sp + 4 * (7 - i)) = m.reg x := by
    rintro i hi x rfl h1 h2
    have hw := hword i hi
    rw [show (m₁.reg .esp).toNat - 4 * (i + 1) = sp + 4 * (7 - i) by omega] at hw
    rw [hstore.load (by omega) (by omega), hw, ← hreg₁ _ h2, ← hreg₂ _ h1]
    exact List.getElem_map ..
  refine ⟨⟨sp, ?_, by omega, by omega, hspace, ?_, ?_, ?_, ?_, ?_, ?_, ?_⟩, fun lo hi h1 h2 => ?_⟩
  · rw [Memory.load_store (by omega), hsp]
    exact (UInt32.ofNat_toNat).symm
  · exact hat 7 (by omega) .edi rfl nofun nofun
  · exact hat 6 (by omega) .esi rfl nofun nofun
  · exact hat 5 (by omega) .ebp rfl nofun nofun
  · exact hat 3 (by omega) .ebx rfl nofun nofun
  · exact hat 2 (by omega) .edx rfl nofun nofun
  · exact hat 1 (by omega) .ecx rfl nofun nofun
  · rw [hstore.load (by omega) (by omega), (hagree₃ (sp + 32) (sp + 36) (by omega)).load le_rfl le_rfl]
    have hr := hret₁ 0 (by simp)
    rwa [show (m.reg .esp).toNat - 4 * (0 + 1) = sp + 32 by omega] at hr
  · refine ((hagree₁ lo hi (by omega)).trans (hagree₃ lo hi (by omega))).trans (Memory.agree_store ?_)
    omega

/-- **A context is restored** from the stack of the thread that `next_thread` points to. -/
lemma resume_spec {c : Context} (hnext : m.mem.load I.nextThread = UInt32.ofNat (I.slot n))
    (hframed : Framed I m.mem n home c) (hend : home.2 < 2 ^ 32)
    (hhome : ∀ a, a = I.currentThread ∨ a = I.nextThread → home.2 ≤ a ∨ a + 4 ≤ home.1)
    (hslot : ∀ a, a = I.currentThread ∨ a = I.nextThread → I.slot n + 4 ≤ a ∨ a + 4 ≤ I.slot n) :
    ((resumeCode I).foldl Instr.exec m).mem =
      (m.mem.store I.currentThread (UInt32.ofNat (I.slot n))).store I.nextThread 0 ∧
    (∀ lo hi, (∀ a, a = I.currentThread ∨ a = I.nextThread → hi ≤ a ∨ a + 4 ≤ lo) →
      m.mem.Agree ((resumeCode I).foldl Instr.exec m).mem lo hi) ∧
    c.Resumed ((resumeCode I).foldl Instr.exec m) (I.state n) := by
  have hlt := I.slot_lt n
  set mem := (m.mem.store I.currentThread (UInt32.ofNat (I.slot n))).store I.nextThread 0 with hmem
  have hkeep : ∀ lo hi, (∀ a, a = I.currentThread ∨ a = I.nextThread → hi ≤ a ∨ a + 4 ≤ lo) →
      m.mem.Agree mem lo hi := fun lo hi h =>
    (Memory.agree_store (h _ (.inl rfl))).trans (Memory.agree_store (h _ (.inr rfl)))
  have hslotKeep : (m.mem.store I.currentThread (UInt32.ofNat (I.slot n))).load (I.slot n) =
      m.mem.load (I.slot n) := Memory.load_store_of_disjoint (hslot _ (.inl rfl))
  obtain ⟨sp, hsp, hlo, hhi, hframe⟩ := hframed
  -- the registers before `popal`
  set m₁ : X86 := { (m.setReg .ebx (UInt32.ofNat (I.slot n))).setReg .esp (UInt32.ofNat sp) with mem }
    with hm₁
  have hrun : (resumeCode I).foldl Instr.exec m = Instr.exec (Instr.exec m₁ .popal) .ret := by
    simp only [resumeCode, List.foldl_cons, List.foldl_nil, Instr.exec, X86.setReg, hnext,
      update_self, toNat_ofNat (show I.slot n < 2 ^ 32 by omega), hslotKeep, hsp, hm₁, hmem]
  have hesp : m₁.reg .esp = UInt32.ofNat sp := by simp [hm₁, X86.setReg]
  have hword : ∀ i : ℕ, i ≤ 8 → m₁.mem.load (UInt32.ofNat sp + UInt32.ofNat (4 * i)).toNat =
      m.mem.load (sp + 4 * i) := by
    intro i hi
    rw [UInt32.toNat_add, toNat_ofNat (by omega), toNat_ofNat (by omega), Nat.mod_eq_of_lt (by omega)]
    exact (hkeep home.1 home.2 hhome).load (by omega) (by omega)
  have heip : (Instr.exec (Instr.exec m₁ .popal) .ret).eip = m.mem.load (sp + 32) := by
    change m₁.mem.load (m₁.reg .esp + 32).toNat = _
    rw [hesp]
    exact hword 8 le_rfl
  have hout : (Instr.exec (Instr.exec m₁ .popal) .ret).reg .esp = UInt32.ofNat (sp + 36) := by
    change m₁.reg .esp + 32 + 4 = _
    rw [hesp, UInt32.ofNat_add, UInt32.add_assoc]
    rfl
  rw [hrun]
  refine ⟨rfl, hkeep, ?_⟩
  cases c with
  | start func =>
    refine ⟨heip.trans hframe.2, ?_⟩
    rw [hout, toNat_ofNat (by omega)]
    exact hframe.1
  | saved reg r =>
    obtain ⟨h0, h1, h2, h3, h4, h5, h6, h7⟩ := hframe
    -- a register that `popal` loads from the word `i` of the frame
    have hpop : ∀ (x : Reg) (i : ℕ), i ≤ 8 → m.mem.load (sp + 4 * i) = reg x →
        m₁.mem.load (m₁.reg .esp + UInt32.ofNat (4 * i)).toNat = reg x := by
      intro x i hi hx
      rw [hesp, hword i hi, hx]
    refine ⟨heip.trans h7, fun x hx => ?_⟩
    cases x with
    | eax => exact absurd rfl hx
    | edi => exact hpop .edi 0 (by omega) h1
    | esi => exact hpop .esi 1 (by omega) h2
    | ebp => exact hpop .ebp 2 (by omega) h3
    | ebx => exact hpop .ebx 4 (by omega) h4
    | edx => exact hpop .edx 5 (by omega) h5
    | ecx => exact hpop .ecx 6 (by omega) h6
    | esp => rw [hout, h0, UInt32.ofNat_toNat]

end Code

/-! ### Nothing overlaps -/

section Apart

variable {I : Image} {n j : Fin maxThread} {home home' : ℕ × ℕ} {a : ℕ}

/-- A thread uses the stack of its slot, or is `main`. -/
def HomeOk (I : Image) (n : Fin maxThread) (home : ℕ × ℕ) : Prop :=
  home = (I.stack n, I.state n) ∨ (n = 0 ∧ home = (I.stackLo, I.stackHi))

lemma Image.state_eq (I : Image) (n : Fin maxThread) : I.state n = I.slot n + 4100 := by
  simp only [Image.state, Image.stack, stackSize, Nat.add_assoc, Nat.reduceAdd]

lemma Image.priority_eq (I : Image) (n : Fin maxThread) : I.priority n = I.slot n + 4104 := by
  rw [Image.priority, I.state_eq]

/-- Where slot `n` is in the table. -/
lemma Image.slot_mem (I : Image) (n : Fin maxThread) :
    I.allThread ≤ I.slot n ∧ I.slot n + 4108 ≤ I.allThread + 32864 := by
  have hn := n.isLt
  simp only [Image.slot, maxThread, threadSize, stackSize] at *
  omega

/-- Different slots do not overlap. -/
lemma Image.slot_apart (I : Image) (h : n ≠ j) : I.slot n + 4108 ≤ I.slot j ∨ I.slot j + 4108 ≤ I.slot n := by
  have hne : n.val ≠ j.val := fun hv => h (Fin.ext hv)
  simp only [Image.slot, threadSize, stackSize] at *
  omega

lemma Image.global_apart (I : Image) (n : Fin maxThread) (ha : a = I.currentThread ∨ a = I.nextThread) :
    I.slot n + 4108 ≤ a ∨ a + 4 ≤ I.slot n := by
  have hn := I.slot_mem n
  have h1 : I.currentThread + 4 ≤ I.allThread ∨ I.allThread + 32864 ≤ I.currentThread := I.cur_table
  have h2 : I.nextThread + 4 ≤ I.allThread ∨ I.allThread + 32864 ≤ I.nextThread := I.next_table
  rcases ha with rfl | rfl <;> omega

section

variable (h : HomeOk I n home)

include h

/-- What is known of the two ends of a stack. -/
lemma HomeOk.bounds :
    (home.1 = I.slot n + 4 ∧ home.2 = I.slot n + 4100) ∨ (home.1 = I.stackLo ∧ home.2 = I.stackHi) := by
  rcases h with rfl | ⟨-, rfl⟩
  · exact .inl ⟨rfl, I.state_eq n⟩
  · exact .inr ⟨rfl, rfl⟩

lemma HomeOk.lt : home.2 < 2 ^ 32 := by
  have h1 := I.slot_lt n
  have h2 := I.stackEnd
  rcases h.bounds with h | h <;> omega

/-- A stack holds no part of another slot. -/
lemma HomeOk.apart_slot (hn : n ≠ j) :
    home.2 ≤ I.slot j ∨ I.slot j + 4108 ≤ home.1 := by
  have h1 := I.slot_apart hn
  have h2 := I.slot_mem j
  have h3 : I.stackHi ≤ I.allThread ∨ I.allThread + 32864 ≤ I.stackLo := I.stack_table
  rcases h.bounds with h | h <;> omega

/-- Nor does it hold anything of its own slot but the stack. -/
lemma HomeOk.apart_self :
    (home.2 ≤ I.slot n ∨ I.slot n + 4 ≤ home.1) ∧ (home.2 ≤ I.state n ∨ I.state n + 4 ≤ home.1) := by
  have h2 := I.slot_mem n
  have h3 : I.stackHi ≤ I.allThread ∨ I.allThread + 32864 ≤ I.stackLo := I.stack_table
  have h4 := I.state_eq n
  rcases h.bounds with h | h <;> omega

lemma HomeOk.apart_global (ha : a = I.currentThread ∨ a = I.nextThread) :
    home.2 ≤ a ∨ a + 4 ≤ home.1 := by
  have h1 := I.global_apart n ha
  have h2 := I.stack_cur
  have h3 := I.stack_next
  rcases h.bounds with h | h <;> rcases ha with rfl | rfl <;> omega

/-- The stacks of two threads do not overlap. -/
lemma HomeOk.apart (h' : HomeOk I j home') (hn : n ≠ j) :
    home.2 ≤ home'.1 ∨ home'.2 ≤ home.1 := by
  have h1 := h.apart_slot hn
  have h2 := h'.apart_slot hn.symm
  rcases h with h | ⟨rfl, h⟩
  · have h3 : home.1 = I.slot n + 4 ∧ home.2 = I.slot n + 4100 := by
      rw [h]
      exact ⟨rfl, I.state_eq n⟩
    omega
  · rcases h' with h' | ⟨rfl, -⟩
    · have h3 : home'.1 = I.slot j + 4 ∧ home'.2 = I.slot j + 4100 := by
        rw [h']
        exact ⟨rfl, I.state_eq j⟩
      omega
    · exact absurd rfl hn

end

end Apart

/-! ### `thread_create` -/

section Create

variable {I : Image} {m : Memory}

lemma freeSlot_free (h : ∃ n, m.load (I.state n) = 0) : m.load (I.state (freeSlot I m)) = 0 := by
  rw [freeSlot]
  cases hf : (List.finRange maxThread).find? fun n => decide (m.load (I.state n) = 0) with
  | none =>
    obtain ⟨n, hn⟩ := h
    rw [List.find?_eq_none] at hf
    exact absurd (decide_eq_true hn) (hf n (List.mem_finRange n))
  | some n => simpa using List.find?_some hf

/-- The stores of `thread_create`, at the slot it takes. -/
lemma threadCreate_eq (func priority : UInt32) : threadCreate I m func priority =
    ((((m.store (I.slot (freeSlot I m)) (UInt32.ofNat (I.slot (freeSlot I m) + 4096))).store
      (I.slot (freeSlot I m) + 4096) func).store (I.slot (freeSlot I m))
      (UInt32.ofNat (I.slot (freeSlot I m) + 4064))).store
      (I.priority (freeSlot I m)) priority).store (I.state (freeSlot I m)) 2 := by
  set t := freeSlot I m with ht
  have hlt := I.slot_lt t
  have htop : UInt32.ofNat (I.stack t + stackSize) - 4 = UInt32.ofNat (I.slot t + 4096) := by
    have hstack : I.stack t + stackSize = I.slot t + 4100 := I.state_eq t
    have hnat : (UInt32.ofNat (I.slot t + 4100)).toNat = I.slot t + 4100 := toNat_ofNat (by omega)
    apply UInt32.toNat_inj.mp
    rw [hstack, X86.toNat_sub_four (by omega), hnat, toNat_ofNat (by omega)]
    omega
  have hsp : UInt32.ofNat (I.slot t + 4096) - 32 = UInt32.ofNat (I.slot t + 4064) := by
    apply UInt32.toNat_inj.mp
    rw [UInt32.toNat_sub_of_le, toNat_ofNat (by omega), toNat_ofNat (by omega)]
    · rfl
    · rw [UInt32.le_iff_toNat_le, toNat_ofNat (by omega)]
      exact (show 32 ≤ 4096 by decide).trans (Nat.le_add_left _ _)
  rw [threadCreate, ← ht, Memory.load_store (by omega), htop, toNat_ofNat (by omega),
    Memory.load_store_of_disjoint (by omega), Memory.load_store (by omega), hsp]

/-- Nothing is changed but the first word and the last three of the slot. -/
lemma threadCreate_agree (func priority : UInt32) {lo hi : ℕ}
    (h : hi ≤ I.slot (freeSlot I m) ∨ I.slot (freeSlot I m) + 4 ≤ lo)
    (h' : hi ≤ I.slot (freeSlot I m) + 4096 ∨ I.slot (freeSlot I m) + 4108 ≤ lo) :
    m.Agree (threadCreate I m func priority) lo hi := by
  rw [threadCreate_eq]
  generalize freeSlot I m = t at *
  have hstate := I.state_eq t
  have hprio := I.priority_eq t
  exact ((((Memory.agree_store (by omega)).trans (Memory.agree_store (by omega))).trans
    (Memory.agree_store (by omega))).trans (Memory.agree_store (by omega))).trans
    (Memory.agree_store (by omega))

/-- **A new thread's context is its first frame.** -/
lemma threadCreate_framed (func priority : UInt32) :
    Framed I (threadCreate I m func priority) (freeSlot I m)
      (I.stack (freeSlot I m), I.state (freeSlot I m)) (.start func) := by
  rw [threadCreate_eq]
  generalize freeSlot I m = t
  have hlt := I.slot_lt t
  have hstate := I.state_eq t
  have hprio := I.priority_eq t
  have hstack : I.stack t = I.slot t + 4 := rfl
  refine ⟨I.slot t + 4064, ?_, by simp only [hstack]; omega, by simp only [hstate]; omega, ?_, ?_⟩
  · rw [Memory.load_store_of_disjoint (by omega), Memory.load_store_of_disjoint (by omega),
      Memory.load_store (by omega)]
  · rw [hstate]
  · rw [Memory.load_store_of_disjoint (by omega), Memory.load_store_of_disjoint (by omega),
      Memory.load_store_of_disjoint (by omega), Memory.load_store (by omega)]

end Create

/-! ### Whole runs -/

namespace Threads

variable {I : Image} {s s' : Threads}

/-- `current_thread` points to the thread that runs, and the contexts of the others are on their
stacks. -/
structure Inv (I : Image) (s : Threads) : Prop where
  current : s.machine.mem.load I.currentThread = UInt32.ofNat (I.slot s.cur)
  home : ∀ n, HomeOk I n (s.home n)
  running : s.ctx s.cur = none
  framed : ∀ n c, s.ctx n = some c → Framed I s.machine.mem n (s.home n) c

lemma Inv.init (m : X86) : Inv I (init I m) := by
  refine ⟨?_, fun n => ?_, rfl, fun _ _ h => absurd h (by simp [Threads.init])⟩
  · change ((m.mem.store I.currentThread (UInt32.ofNat (I.slot 0))).store (I.state 0) 1).load _ = _
    have h1 := I.global_apart 0 (a := I.currentThread) (.inl rfl)
    have h2 := I.state_eq 0
    rw [Memory.load_store_of_disjoint (by omega), Memory.load_store (by have := I.curEnd; omega)]
    rfl
  · change HomeOk I n (if n = 0 then _ else _)
    split_ifs with hn
    · exact .inr ⟨hn, rfl⟩
    · exact .inl rfl

/-- The invariant is kept by whatever leaves `current_thread`, every `sp` and the stacks of the other
threads alone. -/
lemma Inv.agree (h : Inv I s) {m : X86}
    (hcur : s.machine.mem.Agree m.mem I.currentThread (I.currentThread + 4))
    (hslot : ∀ n, s.machine.mem.Agree m.mem (I.slot n) (I.slot n + 4))
    (hhome : ∀ n, n ≠ s.cur → s.machine.mem.Agree m.mem (s.home n).1 (s.home n).2) :
    Inv I { s with machine := m } := by
  refine ⟨(hcur.load le_rfl le_rfl).trans h.current, h.home, h.running, fun n c hc => ?_⟩
  have hn : n ≠ s.cur := by
    rintro rfl
    rw [h.running] at hc
    nomatch hc
  exact (h.framed n c hc).agree (hslot n) (hhome n hn)

/-- A new thread. -/
lemma Inv.create (h : Inv I s) {func priority : UInt32}
    (hfree : ∃ n, s.machine.mem.load (I.state n) = 0) (hcur : s.machine.mem.load (I.state s.cur) ≠ 0) :
    Inv I { s with
      machine.mem := threadCreate I s.machine.mem func priority
      ctx := update s.ctx (freeSlot I s.machine.mem) (some (.start func))
      home := update s.home (freeSlot I s.machine.mem)
        (I.stack (freeSlot I s.machine.mem), I.state (freeSlot I s.machine.mem)) } := by
  have hframe := @threadCreate_framed I s.machine.mem func priority
  have hagree := fun lo hi => @threadCreate_agree I s.machine.mem func priority lo hi
  have hfound := freeSlot_free hfree
  generalize freeSlot I s.machine.mem = t at *
  have ht : s.cur ≠ t := by
    rintro heq
    rw [heq] at hcur
    exact hcur hfound
  refine ⟨?_, fun n => ?_, ?_, fun n c hc => ?_⟩
  · have hg := I.global_apart t (a := I.currentThread) (.inl rfl)
    exact ((hagree _ _ (by omega) (by omega)).load le_rfl le_rfl).trans h.current
  · exact (forall_update_iff _ fun n h => HomeOk I n h).mpr ⟨.inl rfl, fun n _ => h.home n⟩ n
  · dsimp only
    rw [update_of_ne ht]
    exact h.running
  · dsimp only at hc ⊢
    by_cases hn : n = t
    · subst hn
      rw [update_self, Option.some.injEq] at hc
      subst hc
      rw [update_self]
      exact hframe
    · rw [update_of_ne hn] at hc ⊢
      have h1 := I.slot_apart hn
      have h2 := (h.home n).apart_slot hn
      exact (h.framed n c hc).agree (hagree _ _ (by omega) (by omega)) (hagree _ _ (by omega) (by omega))

/-- **A switch**: every context is on its stack once that of the caller is saved, and the thread that
runs next gets its own. -/
lemma Inv.switch (h : Inv I s) {r : UInt32} {n : Fin maxThread} {c : Context}
    (hnext : s.next? I = some n) (hc : s.saving r n = some c)
    (hlo : (s.home s.cur).1 + 36 ≤ (s.machine.reg .esp).toNat)
    (hhi : (s.machine.reg .esp).toNat ≤ (s.home s.cur).2) :
    Inv I { s with
      machine := callSwitch I s.machine r
      cur := n
      ctx := update (s.saving r) n none } ∧
    (callSwitch I s.machine r).mem.load I.currentThread = UInt32.ofNat (I.slot n) ∧
    (callSwitch I s.machine r).mem.load I.nextThread = 0 ∧
    c.Resumed (callSwitch I s.machine r) (I.state n) := by
  have hself := (h.home s.cur).apart_self
  obtain ⟨hframe, hagree⟩ := @save_spec I s.machine s.cur (s.home s.cur) r h.current hlo hhi hself.1
    ((h.home s.cur).apart_global (.inl rfl))
  have hrun := callSwitch_eq I s.machine r
  generalize (saveCode I).foldl Instr.exec (s.machine.push r) = m at *
  have hglobal : ∀ a, a = I.currentThread ∨ a = I.nextThread →
      s.machine.mem.Agree m.mem a (a + 4) := by
    intro a ha
    have h1 := (h.home s.cur).apart_global ha
    have h2 := I.global_apart s.cur ha
    exact hagree a (a + 4) (by omega) (by omega)
  -- every context is on its stack
  have hframed : ∀ j d, s.saving r j = some d → Framed I m.mem j (s.home j) d := by
    intro j d hd
    by_cases hj : j = s.cur
    · subst hj
      rw [saving, update_self, Option.some.injEq] at hd
      exact hd ▸ hframe
    · rw [saving, update_of_ne hj] at hd
      have h1 := I.slot_apart hj
      have h2 := (h.home s.cur).apart_slot (Ne.symm hj)
      have h3 := (h.home j).apart (h.home s.cur) hj
      have h4 := (h.home j).apart_slot hj
      exact (h.framed j d hd).agree (hagree _ _ (by omega) (by omega)) (hagree _ _ (by omega) (by omega))
  have hslot : m.mem.load I.nextThread = UInt32.ofNat (I.slot n) := by
    rw [(hglobal I.nextThread (.inr rfl)).load le_rfl le_rfl]
    have := List.find?_some hnext
    exact (of_decide_eq_true this).symm
  obtain ⟨hmem, hkeep, hregs⟩ := resume_spec hslot (hframed n c hc) (h.home n).lt
    (fun a ha => (h.home n).apart_global ha) (fun a ha => by have := I.global_apart n ha; omega)
  rw [← hrun] at hmem hkeep hregs
  generalize callSwitch I s.machine r = m' at *
  have hcn := I.cur_next
  have hcurEnd := I.curEnd
  have hnextEnd := I.nextEnd
  have hcurrent : m'.mem.load I.currentThread = UInt32.ofNat (I.slot n) := by
    rw [hmem, Memory.load_store_of_disjoint (by omega), Memory.load_store (by omega)]
  refine ⟨⟨hcurrent, h.home, ?_, fun j d hd => ?_⟩, hcurrent, ?_, hregs⟩
  · dsimp only
    rw [update_self]
  · dsimp only at hd ⊢
    have hj : j ≠ n := by
      rintro rfl
      rw [update_self] at hd
      nomatch hd
    rw [update_of_ne hj] at hd
    exact (hframed j d hd).agree
      (hkeep _ _ fun a ha => by have := I.global_apart j ha; omega)
      (hkeep _ _ fun a ha => (h.home j).apart_global ha)
  · rw [hmem, Memory.load_store (by omega)]

lemma step_switch {r : UInt32} {n : Fin maxThread} (hnext : s.next? I = some n) :
    step I s (.switch r) = .ok { s with
      machine := callSwitch I s.machine r
      cur := n
      ctx := update (s.saving r) n none } := by
  rw [step, hnext]

/-- **Every promised step keeps the invariant.** -/
lemma Inv.step (h : Inv I s) {a : ThreadAct} (hok : s.Promised I a) (hrun : step I s a = .ok s') :
    Inv I s' := by
  cases a with
  | work m =>
    cases hrun
    exact h.agree (fun b h1 h2 => hok b (.inr (.inl ⟨h1, h2⟩)))
      (fun n b h1 h2 => hok b (.inl ⟨n, h1, h2⟩))
      fun n hn b h1 h2 => hok b (.inr (.inr (.inr ⟨n, hn, h1, h2⟩)))
  | setState n v =>
    cases hrun
    have hst := I.state_eq n
    refine h.agree (Memory.agree_store ?_) (fun j => Memory.agree_store ?_)
      fun j _ => Memory.agree_store ?_
    · have := I.global_apart n (a := I.currentThread) (.inl rfl)
      omega
    · by_cases hj : j = n
      · subst hj
        omega
      · have := I.slot_apart hj
        omega
    · by_cases hj : j = n
      · subst hj
        exact (h.home j).apart_self.2
      · have := (h.home j).apart_slot hj
        omega
  | setNext n =>
    cases hrun
    refine h.agree (Memory.agree_store ?_) (fun j => Memory.agree_store ?_)
      fun j _ => Memory.agree_store ((h.home j).apart_global (.inr rfl))
    · have := I.cur_next
      omega
    · have := I.global_apart j (a := I.nextThread) (.inr rfl)
      omega
  | create func priority =>
    cases hrun
    exact h.create hok.1 hok.2
  | switch r =>
    obtain ⟨⟨n, hnext, hc⟩, hlo, hhi⟩ := hok
    obtain ⟨c, hc⟩ := Option.isSome_iff_exists.mp hc
    rw [step_switch hnext] at hrun
    cases hrun
    exact (h.switch hnext hc hlo hhi).1

/-- **A thread is resumed with the context it had.**  In every run in which the threads keep their
promises, `thread_switch` resumes the thread `n` that `next_thread` points to with the registers and at
the return address of its own last call of `thread_switch`, or, the first time, at its `func` with an
empty stack; `current_thread` is then `n`, and `next_thread` is 0. -/
theorem switch_restores {m : X86} {r : UInt32}
    (hreach : Reach (step I) (Promised I) (init I m) s) (hok : s.Promised I (.switch r)) :
    ∃ n s', s.next? I = some n ∧ step I s (.switch r) = .ok s' ∧ s'.cur = n ∧
      s'.machine.mem.load I.currentThread = UInt32.ofNat (I.slot n) ∧
      s'.machine.mem.load I.nextThread = 0 ∧
      ((∃ reg r', s.saving r n = some (.saved reg r') ∧ s'.machine.eip = r' ∧
          ∀ x, x ≠ .eax → s'.machine.reg x = reg x) ∨
        ∃ func, s.saving r n = some (.start func) ∧ s'.machine.eip = func ∧
          (s'.machine.reg .esp).toNat = I.stack n + stackSize) := by
  have h : Inv I s := hreach.invariant (Inv.init m) fun _ _ _ h hok hrun => h.step hok hrun
  obtain ⟨⟨n, hnext, hc⟩, hlo, hhi⟩ := hok
  obtain ⟨c, hc⟩ := Option.isSome_iff_exists.mp hc
  obtain ⟨-, hcur, hzero, hregs⟩ := h.switch hnext hc hlo hhi
  refine ⟨n, _, hnext, step_switch hnext, rfl, hcur, hzero, ?_⟩
  cases c with
  | start func => exact .inr ⟨func, hc, hregs⟩
  | saved reg r' => exact .inl ⟨reg, r', hc, hregs⟩

/-- An image with `main`'s stack behind the globals. -/
def demoImage : Image where
  allThread := 4096
  currentThread := 40000
  nextThread := 40004
  stackLo := 50000
  stackHi := 60000
  tableEnd := by decide
  curEnd := by decide
  nextEnd := by decide
  stackEnd := by decide
  cur_next := by decide
  cur_table := by decide
  next_table := by decide
  stack_cur := by decide
  stack_next := by decide
  stack_table := by decide

/-- `main` creates a thread that starts at 7 and switches to it, and the thread is about to switch
back. -/
def demoThreads : Threads :=
  [.create 7 1, .setNext 1, .switch 8, .setNext 0].foldl (advance (step demoImage))
    (init demoImage ⟨fun _ => 59000, 0, Bytes.zero _⟩)

/-- The context of `main` is restored. -/
theorem switch_restores_main : Reach (step demoImage) (Promised demoImage)
      (init demoImage ⟨fun _ => 59000, 0, Bytes.zero _⟩) demoThreads ∧
    demoThreads.Promised demoImage (.switch 9) ∧
    ∃ n s', demoThreads.next? demoImage = some n ∧ step demoImage demoThreads (.switch 9) = .ok s' ∧
      s'.cur = n ∧ s'.machine.mem.load demoImage.currentThread = UInt32.ofNat (demoImage.slot n) ∧
      s'.machine.mem.load demoImage.nextThread = 0 ∧
      ((∃ reg r', demoThreads.saving 9 n = some (.saved reg r') ∧ s'.machine.eip = r' ∧
          ∀ x, x ≠ .eax → s'.machine.reg x = reg x) ∨
        ∃ func, demoThreads.saving 9 n = some (.start func) ∧ s'.machine.eip = func ∧
          (s'.machine.reg .esp).toNat = demoImage.stack n + stackSize) := by
  have hreach : Reach (step demoImage) (Promised demoImage)
      (init demoImage ⟨fun _ => 59000, 0, Bytes.zero _⟩) demoThreads := by
    simp only [demoThreads, List.foldl_cons, List.foldl_nil]
    refine Reach.advance (Reach.advance (Reach.advance (Reach.advance .init ?_ ?_) ?_ ?_) ?_ ?_) ?_ ?_
    · exact ⟨⟨1, by decide +kernel⟩, by decide +kernel⟩
    · decide +kernel
    · trivial
    · decide +kernel
    · exact ⟨⟨1, by decide +kernel, by decide +kernel⟩, by decide +kernel, by decide +kernel⟩
    · decide +kernel
    · trivial
    · decide +kernel
  have hok : demoThreads.Promised demoImage (.switch 9) :=
    ⟨⟨0, by decide +kernel, by decide +kernel⟩, by decide +kernel, by decide +kernel⟩
  exact ⟨hreach, hok, switch_restores hreach hok⟩

end Threads

end Col331.Uthread
