import Mathlib.Data.List.Basic
import ToyKernel.Library.ByteMemory

namespace Library.StackMachine

open ByteMemory

-- The flags register, whose bit 1 is reserved and reads as one.
structure Eflags where
  bits : BitVec 32
  reserved : bits.getLsbD 1 = true

namespace Eflags

-- The flags after a `popfd` of `value` by privileged code
def load (value : BitVec 32) : Eflags where
  bits := value ||| 2
  reserved := by simp

def sti (e : Eflags) : Eflags where
  bits := e.bits ||| 0x200
  reserved := by simp [e.reserved]

-- The interrupt flag
def interrupts (e : Eflags) : Bool := e.bits.getLsbD 9

@[simp] theorem load_bits (e : Eflags) : load e.bits = e := by
  obtain ⟨bits, reserved⟩ := e
  unfold load
  congr 1
  apply BitVec.eq_of_getLsbD_eq
  intro i hi
  by_cases h : i = 1
  · subst h
    simp [reserved]
  · have hbit : (2 : BitVec 32).getLsbD i = false := by
      have : ∀ j : Fin 32, j.val ≠ 1 → (2 : BitVec 32).getLsbD j.val = false := by decide
      exact this ⟨i, hi⟩ h
    rw [BitVec.getLsbD_or, hbit, Bool.or_false]

@[simp] theorem interrupts_sti (e : Eflags) : e.sti.interrupts = true := by
  unfold interrupts sti
  simp

end Eflags

-- The registers that the code below names, and memory at linear addresses.
structure Machine where
  eax : BitVec 32
  edx : BitVec 32
  ebx : BitVec 32
  ebp : BitVec 32
  esi : BitVec 32
  edi : BitVec 32
  esp : BitVec 32
  eflags : Eflags
  eip : BitVec 32
  memory : Memory

inductive Register where
  | eax
  | edx
  | ebx
  | ebp
  | esi
  | edi
  | esp

namespace Machine

def get (m : Machine) : Register → BitVec 32
  | .eax => m.eax
  | .edx => m.edx
  | .ebx => m.ebx
  | .ebp => m.ebp
  | .esi => m.esi
  | .edi => m.edi
  | .esp => m.esp

def set (m : Machine) (value : BitVec 32) : Register → Machine
  | .eax => { m with eax := value }
  | .edx => { m with edx := value }
  | .ebx => { m with ebx := value }
  | .ebp => { m with ebp := value }
  | .esi => { m with esi := value }
  | .edi => { m with edi := value }
  | .esp => { m with esp := value }

def push (m : Machine) (value : BitVec 32) : Machine :=
  { m with esp := m.esp - 4, memory := store32 m.memory (m.esp - 4).toNat value }

-- The word on top of the stack
def top (m : Machine) : BitVec 32 := load32 m.memory m.esp.toNat

def drop (m : Machine) : Machine := { m with esp := m.esp + 4 }

-- Pushing the words one after the other
def pushes (m : Machine) (words : List (BitVec 32)) : Machine := words.foldl push m

end Machine

-- `load` and `store` are `mov dst, [base + offset]` and `mov [base + offset], src`.
inductive Instruction where
  | load (dst base : Register) (offset : BitVec 32)
  | store (base : Register) (offset : BitVec 32) (src : Register)
  | push (src : Register)
  | pop (dst : Register)
  | pushfd
  | popfd
  | sti
  | ret

namespace Instruction

def exec (m : Machine) : Instruction → Machine
  | load dst base offset => m.set (load32 m.memory (m.get base + offset).toNat) dst
  | store base offset src =>
      { m with memory := store32 m.memory (m.get base + offset).toNat (m.get src) }
  | push src => m.push (m.get src)
  | pop dst => m.drop.set m.top dst
  | pushfd => m.push m.eflags.bits
  | popfd => { m.drop with eflags := Eflags.load m.top }
  | sti => { m with eflags := m.eflags.sti }
  | ret => { m.drop with eip := m.top }

-- Code without jumps, up to its last instruction
def execAll (code : List Instruction) (m : Machine) : Machine := code.foldl exec m

theorem execAll_append (first second : List Instruction) (m : Machine) :
    execAll (first ++ second) m = execAll second (execAll first m) := List.foldl_append

end Instruction

section Words

variable {m m' : Memory} {a sp : Nat} {ws vs : List (BitVec 32)}

-- The words `ws` lie one after the other from `a` on.
def Words (m : Memory) : Nat → List (BitVec 32) → Prop
  | _, [] => True
  | a, w :: ws => load32 m a = w ∧ Words m (a + 4) ws

theorem Words.congr (h : Words m a ws) (hsame : ∀ b, a ≤ b → b < a + 4 * ws.length → m b = m' b) :
    Words m' a ws := by
  induction ws generalizing a with
  | nil => trivial
  | cons w ws ih =>
      obtain ⟨hw, hws⟩ := h
      rw [List.length_cons] at hsame
      refine ⟨?_, ih hws fun b hlo hhi => hsame b (by omega) (by omega)⟩
      rw [← hw]
      exact (load32_congr fun b hlo hhi => hsame b hlo (by omega)).symm

theorem Words.append (h : Words m a (ws ++ vs)) : Words m a ws ∧ Words m (a + 4 * ws.length) vs := by
  induction ws generalizing a with
  | nil => exact ⟨trivial, h⟩
  | cons w ws ih =>
      obtain ⟨hws, hvs⟩ := ih h.2
      refine ⟨⟨h.1, hws⟩, ?_⟩
      rwa [List.length_cons, show a + 4 * (ws.length + 1) = a + 4 + 4 * ws.length by omega]

-- Pushing the words one by one onto the stack whose top is at `sp`
def pushAll (m : Memory) : (sp : Nat) → List (BitVec 32) → Memory
  | _, [] => m
  | sp, w :: ws => pushAll (store32 m (sp - 4) w) (sp - 4) ws

theorem pushAll_of_apart (hroom : 4 * ws.length ≤ sp) {b : Nat}
    (h : b < sp - 4 * ws.length ∨ sp ≤ b) : pushAll m sp ws b = m b := by
  induction ws generalizing m sp with
  | nil => rfl
  | cons w ws ih =>
      rw [List.length_cons] at hroom h
      rw [pushAll, ih (by omega) (by omega), store32_of_ne (by omega)]

-- The last word pushed is the lowest.
theorem words_pushAll (h : Words m sp vs) (ws : List (BitVec 32)) (hroom : 4 * ws.length ≤ sp) :
    Words (pushAll m sp ws) (sp - 4 * ws.length) (ws.reverse ++ vs) := by
  induction ws generalizing m sp vs with
  | nil => exact h
  | cons w ws ih =>
      rw [List.length_cons] at hroom ⊢
      have hpush : Words (store32 m (sp - 4) w) (sp - 4) (w :: vs) := by
        refine ⟨load32_store32_self m _ w, ?_⟩
        rw [show sp - 4 + 4 = sp by omega]
        exact h.congr fun b hlo _ => (store32_of_ne (by omega) w).symm
      have := ih hpush (by omega)
      rw [pushAll, List.reverse_cons, List.append_assoc, List.singleton_append]
      rwa [show sp - 4 * (ws.length + 1) = sp - 4 - 4 * ws.length by omega]

end Words

theorem toNat_sub_word {a : BitVec 32} {n : Nat} (h : n ≤ a.toNat) :
    (a - BitVec.ofNat 32 n).toNat = a.toNat - n := by
  have := a.isLt
  rw [BitVec.toNat_sub, BitVec.toNat_ofNat, Nat.mod_eq_of_lt (show n < 2 ^ 32 by omega)]
  omega

theorem toNat_add_word {a : BitVec 32} {n : Nat} (h : a.toNat + n < 4294967296) :
    (a + BitVec.ofNat 32 n).toNat = a.toNat + n := by
  rw [BitVec.toNat_add, BitVec.toNat_ofNat]
  omega

theorem toNat_sub_four {a : BitVec 32} (h : 4 ≤ a.toNat) : (a - 4).toNat = a.toNat - 4 :=
  toNat_sub_word h

theorem toNat_add_four {a : BitVec 32} (h : a.toNat + 4 < 4294967296) :
    (a + 4).toNat = a.toNat + 4 := toNat_add_word h

theorem Machine.pushes_eq (m : Machine) (words : List (BitVec 32))
    (hroom : 4 * words.length ≤ m.esp.toNat) :
    m.pushes words =
      { m with
        esp := m.esp - BitVec.ofNat 32 (4 * words.length)
        memory := pushAll m.memory m.esp.toNat words } := by
  induction words generalizing m with
  | nil => simp [pushes, pushAll]
  | cons w words ih =>
      rw [List.length_cons] at hroom ⊢
      have hesp : (m.esp - 4).toNat = m.esp.toNat - 4 := toNat_sub_four (by omega)
      have hrest := ih (m.push w) (by
        change _ ≤ (m.esp - 4).toNat
        omega)
      change (m.push w).pushes words = _
      rw [hrest]
      simp only [push, hesp, pushAll]
      congr 1
      rw [Nat.mul_add, BitVec.ofNat_add, BitVec.sub_sub, BitVec.add_comm]
      rfl

end Library.StackMachine
