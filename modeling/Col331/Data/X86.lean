import Col331.Data.Bytes

/-!
A small part of the 32-bit x86: the general registers, a memory of `2 ^ 32` bytes, and the moves and
stack instructions that a context switch needs.

* `Memory`: the memory, with the lemmas on what a store does to a load.
* `X86.pushAll`: pushes in a row, with `pushAll_spec`.
* `Instr`, `Instr.exec`: the instructions.
-/

namespace Col331

open Function

/-! ### Memory -/

/-- The memory, byte by byte. -/
abbrev Memory := Bytes (2 ^ 32)

namespace Memory

/-- The 32-bit word at address `a`. -/
def load (m : Memory) (a : ℕ) : UInt32 := Bytes.u32 m a

/-- A 32-bit word is stored at address `a`. -/
def store (m : Memory) (a : ℕ) (v : UInt32) : Memory := Bytes.splice m a (Bytes.le32 v)

/-- Two memories have the same bytes in `[lo, hi)`. -/
def Agree (m m' : Memory) (lo hi : ℕ) : Prop := ∀ a, lo ≤ a → a < hi → Bytes.byte m' a = Bytes.byte m a

variable {m m' m'' : Memory} {lo hi a b : ℕ} {v : UInt32}

lemma Agree.refl (m : Memory) (lo hi : ℕ) : m.Agree m lo hi := fun _ _ _ => rfl

lemma Agree.trans (h : m.Agree m' lo hi) (h' : m'.Agree m'' lo hi) : m.Agree m'' lo hi :=
  fun a h1 h2 => (h' a h1 h2).trans (h a h1 h2)

lemma Agree.load (h : m.Agree m' lo hi) (hlo : lo ≤ a) (hhi : a + 4 ≤ hi) : m'.load a = m.load a :=
  Bytes.u32_congr fun j hj => h (a + j) (by omega) (by omega)

/-- The same word has the same bytes. -/
lemma agree_of_load (h : m'.load a = m.load a) : m.Agree m' a (a + 4) := by
  intro b h1 h2
  obtain ⟨j, rfl⟩ := Nat.exists_eq_add_of_le h1
  exact Bytes.byte_eq_of_u32 h (by omega)

lemma load_store (ha : a + 4 ≤ 2 ^ 32) : (m.store a v).load a = v := Bytes.u32_splice_le32 m ha v

/-- A store changes nothing elsewhere. -/
lemma agree_store (h : hi ≤ a ∨ a + 4 ≤ lo) : m.Agree (m.store a v) lo hi := fun b h1 h2 =>
  Bytes.byte_splice_of_disjoint m (by rw [Bytes.le32_length]; omega)

lemma load_store_of_disjoint (h : b + 4 ≤ a ∨ a + 4 ≤ b) : (m.store a v).load b = m.load b := by
  have hkeep : m.Agree (m.store a v) b (b + 4) := agree_store h
  exact hkeep.load le_rfl le_rfl

end Memory

/-! ### The machine -/

/-- The general registers. -/
inductive Reg where
  | eax | ecx | edx | ebx | esp | ebp | esi | edi
  deriving DecidableEq

/-- The registers in the order in which `pushal` pushes them. -/
def Reg.pushed : List Reg := [.eax, .ecx, .edx, .ebx, .esp, .ebp, .esi, .edi]

/-- The registers and the memory. -/
structure X86 where
  reg : Reg → UInt32
  eip : UInt32
  mem : Memory

namespace X86

/-- A register is set. -/
def setReg (m : X86) (r : Reg) (v : UInt32) : X86 := { m with reg := update m.reg r v }

/-- `push`: the stack pointer is decremented, and the word is stored there. -/
def push (m : X86) (v : UInt32) : X86 :=
  { m.setReg .esp (m.reg .esp - 4) with mem := m.mem.store (m.reg .esp - 4).toNat v }

/-- Pushes in a row. -/
def pushAll (vs : List UInt32) (m : X86) : X86 := vs.foldl push m

end X86

/-- The instructions. -/
inductive Instr where
  /-- `movl a, %r`. -/
  | loadAbs (a : ℕ) (r : Reg)
  /-- `movl %r, a`. -/
  | storeAbs (r : Reg) (a : ℕ)
  /-- `movl $v, a`. -/
  | storeImm (v : UInt32) (a : ℕ)
  /-- `movl (%r), %r'`. -/
  | loadInd (r r' : Reg)
  /-- `movl %r, (%r')`. -/
  | storeInd (r r' : Reg)
  /-- `pushal`: all registers, with the stack pointer as it was before. -/
  | pushal
  /-- `popal`: all registers but the stack pointer, whose word is skipped. -/
  | popal
  /-- `ret`. -/
  | ret

/-- What an instruction does. -/
def Instr.exec (m : X86) : Instr → X86
  | .loadAbs a r => m.setReg r (m.mem.load a)
  | .storeAbs r a => { m with mem := m.mem.store a (m.reg r) }
  | .storeImm v a => { m with mem := m.mem.store a v }
  | .loadInd r r' => m.setReg r' (m.mem.load (m.reg r).toNat)
  | .storeInd r r' => { m with mem := m.mem.store (m.reg r').toNat (m.reg r) }
  | .pushal =>
    m.pushAll [m.reg .eax, m.reg .ecx, m.reg .edx, m.reg .ebx, m.reg .esp, m.reg .ebp, m.reg .esi,
      m.reg .edi]
  | .popal =>
    let word (i : UInt32) : UInt32 := m.mem.load (m.reg .esp + 4 * i).toNat
    { m with
      reg := fun
        | .edi => word 0
        | .esi => word 1
        | .ebp => word 2
        | .esp => m.reg .esp + 32
        | .ebx => word 4
        | .edx => word 5
        | .ecx => word 6
        | .eax => word 7 }
  | .ret => { m.setReg .esp (m.reg .esp + 4) with eip := m.mem.load (m.reg .esp).toNat }

namespace X86

variable {m : X86}

lemma toNat_sub_four {x : UInt32} (h : 4 ≤ x.toNat) : (x - 4).toNat = x.toNat - 4 := by
  rw [UInt32.toNat_sub_of_le _ _ (UInt32.le_iff_toNat_le.mpr (by simpa using h))]
  rfl

/-- **What pushes in a row do**: the words are on the stack, the last one on top, and no other byte
is changed. -/
lemma pushAll_spec (vs : List UInt32) (m : X86) (h : 4 * vs.length ≤ (m.reg .esp).toNat) :
    ((m.pushAll vs).reg .esp).toNat + 4 * vs.length = (m.reg .esp).toNat ∧
    (∀ r, r ≠ .esp → (m.pushAll vs).reg r = m.reg r) ∧
    (∀ i (hi : i < vs.length), (m.pushAll vs).mem.load ((m.reg .esp).toNat - 4 * (i + 1)) = vs[i]) ∧
    ∀ lo hi, hi ≤ ((m.pushAll vs).reg .esp).toNat ∨ (m.reg .esp).toNat ≤ lo →
      m.mem.Agree (m.pushAll vs).mem lo hi := by
  induction vs generalizing m with
  | nil => exact ⟨rfl, fun _ _ => rfl, fun i hi => absurd hi (Nat.not_lt_zero i), fun _ _ _ => .refl _ _ _⟩
  | cons v vs ih =>
    rw [List.length_cons] at h
    have hlt := (m.reg .esp).toNat_lt
    have hesp : ((m.push v).reg .esp).toNat = (m.reg .esp).toNat - 4 := by
      change (update m.reg .esp (m.reg .esp - 4) .esp).toNat = _
      rw [update_self, toNat_sub_four (by omega)]
    obtain ⟨h1, h2, h3, h4⟩ := ih (m.push v) (by omega)
    have hmem : (m.push v).mem = m.mem.store ((m.reg .esp).toNat - 4) v := by
      rw [push, toNat_sub_four (by omega)]
    have hcons : m.pushAll (v :: vs) = (m.push v).pushAll vs := rfl
    rw [hcons]
    refine ⟨by rw [List.length_cons]; omega, fun r hr => ?_, fun i hi => ?_, fun lo hi hd => ?_⟩
    · rw [h2 r hr]
      exact update_of_ne hr _ _
    · rw [hesp] at h3 h4
      cases i with
      | zero =>
        have hkeep := h4 ((m.reg .esp).toNat - 4) ((m.reg .esp).toNat) (.inr le_rfl)
        rw [Nat.zero_add, Nat.mul_one, hkeep.load le_rfl (by omega), hmem, Memory.load_store (by omega)]
        rfl
      | succ i =>
        have hi' : i < vs.length := by simpa using hi
        have := h3 i hi'
        rw [show (m.reg .esp).toNat - 4 * (i + 1 + 1) = (m.reg .esp).toNat - 4 - 4 * (i + 1) by omega,
          this, List.getElem_cons_succ]
    · refine Memory.Agree.trans ?_ (h4 lo hi (by omega))
      rw [hmem]
      exact Memory.agree_store (by omega)

end X86

end Col331
