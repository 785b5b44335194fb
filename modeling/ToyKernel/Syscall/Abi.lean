import ToyKernel.Library.StackMachine
import ToyKernel.Syscall

namespace ToyKernel.Syscall

open Library ByteMemory StackMachine

-- The C convention: the call leaves the stack pointer above its return address.
def Handler.ReturnsCleanly (h : Handler) : Prop := ∀ m m', h m m' → m'.esp = m.esp + 4

-- Of its saved-register block the handler changes the `eax` field alone.
def Handler.KeepsBlock (h : Handler) : Prop :=
  ∀ m m', h m m' → ∀ b, regsArgument m ≤ b → b < regsArgument m + 4 * SAVED_REGS.idxOf .eax →
    m'.memory b = m.memory b

theorem pops_eq : pops = SAVED_REGS := rfl

theorem pushes_reverse : pushes.reverse = SAVED_REGS := rfl

section Registers

variable {m : Cpu} {upper : SavedReg → BitVec 16} {r r' : SavedReg} {value : BitVec 32}

@[simp] theorem pushWord_get : (m.pushWord value).get r = m.get r := by cases r <;> rfl

theorem pushWord_pushed (u : BitVec 16) : (m.pushWord value).pushed u r = m.pushed u r := by
  cases r <;> rfl

-- What has been pushed of a register is what a pop needs to bring it back.
theorem set_pushed (m' : Cpu) (u : BitVec 16) : (m'.set (m.pushed u r) r).get r = m.get r := by
  have hlow : ∀ selector : BitVec 16, (u ++ selector).setWidth 16 = selector := by
    intro selector
    apply BitVec.eq_of_getLsbD_eq
    intro i hi
    rw [BitVec.getLsbD_setWidth, BitVec.getLsbD_append]
    simp [hi]
  cases r <;> simp only [Cpu.set, Cpu.pushed, Cpu.get, hlow]

theorem set_get_of_ne (h : r' ≠ r) : (m.set value r).get r' = m.get r' := by
  cases r <;> cases r' <;> first | rfl | exact absurd rfl h

theorem set_get_same (m m' : Cpu) (value : BitVec 32) :
    (m.set value r).get r = (m'.set value r).get r := by cases r <;> rfl

@[simp] theorem set_esp : (m.set value r).esp = m.esp := by cases r <;> rfl

@[simp] theorem set_memory : (m.set value r).memory = m.memory := by cases r <;> rfl

theorem set_esp_get (sp : BitVec 32) : ({ m with esp := sp } : Cpu).get r = m.get r := by
  cases r <;> rfl

end Registers

section Stack

variable {m : Cpu} {ws : List (BitVec 32)}

theorem pushWord_words (h : Words m.memory m.esp.toNat ws) (hroom : 4 ≤ m.esp.toNat) (value : BitVec 32) :
    Words (m.pushWord value).memory (m.pushWord value).esp.toNat (value :: ws) := by
  have hesp : (m.esp - 4).toNat = m.esp.toNat - 4 := toNat_sub_four hroom
  change Words (store32 m.memory (m.esp - 4).toNat value) (m.esp - 4).toNat (value :: ws)
  rw [hesp]
  refine ⟨load32_store32_self m.memory _ value, ?_⟩
  rw [show m.esp.toNat - 4 + 4 = m.esp.toNat by omega]
  exact h.congr fun b hlo _ => (store32_of_ne (by omega) value).symm

-- Pushing registers one after the other leaves their words on the stack, the last on top, and
-- the registers as they are.
theorem push_all (upper : SavedReg → BitVec 16) (rs : List SavedReg) (hroom : 4 * rs.length ≤ m.esp.toNat)
    (h : Words m.memory m.esp.toNat ws) :
    Words (rs.foldl (Cpu.push upper) m).memory (rs.foldl (Cpu.push upper) m).esp.toNat
        ((rs.map fun r => m.pushed (upper r) r).reverse ++ ws) ∧
      (rs.foldl (Cpu.push upper) m).esp.toNat = m.esp.toNat - 4 * rs.length ∧
      ∀ r, (rs.foldl (Cpu.push upper) m).get r = m.get r := by
  induction rs generalizing m ws with
  | nil => exact ⟨h, rfl, fun _ => rfl⟩
  | cons r rs ih =>
      rw [List.length_cons] at hroom ⊢
      have hesp : (m.push upper r).esp.toNat = m.esp.toNat - 4 := toNat_sub_four (by omega)
      obtain ⟨hwords, hesp', hget⟩ := ih (m := m.push upper r) (by omega)
        (pushWord_words h (by omega) (m.pushed (upper r) r))
      refine ⟨?_, by rw [List.foldl_cons, hesp', hesp]; omega, fun r' => ?_⟩
      · rw [List.map_cons, List.reverse_cons, List.append_assoc, List.singleton_append]
        simp only [Cpu.push, pushWord_pushed] at hwords
        exact hwords
      · exact (hget r').trans pushWord_get

-- Popping registers takes their words from the stack, each register once.
theorem pop_all (rs : List SavedReg) (hnodup : rs.Nodup) (word : SavedReg → BitVec 32)
    (h : Words m.memory m.esp.toNat (rs.map word)) (hroom : m.esp.toNat + 4 * rs.length < 4294967296) :
    (rs.foldl Cpu.pop m).esp.toNat = m.esp.toNat + 4 * rs.length ∧
      (∀ r ∈ rs, (rs.foldl Cpu.pop m).get r = (m.set (word r) r).get r) ∧
      ∀ r, r ∉ rs → (rs.foldl Cpu.pop m).get r = m.get r := by
  induction rs generalizing m with
  | nil => exact ⟨rfl, nofun, fun _ _ => rfl⟩
  | cons r rs ih =>
      obtain ⟨hnew, hnodup⟩ := List.nodup_cons.mp hnodup
      obtain ⟨htop, hwords⟩ := h
      rw [List.length_cons] at hroom ⊢
      have hesp : (m.pop r).esp.toNat = m.esp.toNat + 4 := toNat_add_four (by omega)
      have hmemory : (m.pop r).memory = m.memory := set_memory
      obtain ⟨hesp', hin, hout⟩ := ih (m := m.pop r) hnodup (by rw [hmemory, hesp]; exact hwords)
        (by omega)
      refine ⟨by rw [List.foldl_cons, hesp', hesp]; omega, fun r' hr' => ?_, fun r' hr' => ?_⟩
      · rcases List.mem_cons.mp hr' with rfl | hr'
        · rw [List.foldl_cons, hout _ hnew, Cpu.pop, set_esp_get, htop]
        · exact (hin r' hr').trans (set_get_same _ _ _)
      · obtain ⟨hne, hr'⟩ := List.ne_and_not_mem_of_not_mem_cons hr'
        rw [List.foldl_cons, hout r' hr', Cpu.pop, set_esp_get, set_get_of_ne hne]

-- A block in memory is given by its fields.
theorem words_field {memory : Memory} {regs : Nat} {word : SavedReg → BitVec 32} :
    Words memory regs (SAVED_REGS.map word) ↔ ∀ r, field memory regs r = word r := by
  constructor
  · rintro ⟨hebx, hecx, hedx, hesi, hedi, hebp, hds, hes, hfs, hgs, heax, -⟩ r
    cases r with
    | ebx => exact hebx
    | ecx => exact hecx
    | edx => exact hedx
    | esi => exact hesi
    | edi => exact hedi
    | ebp => exact hebp
    | ds => exact hds
    | es => exact hes
    | fs => exact hfs
    | gs => exact hgs
    | eax => exact heax
  · intro h
    exact ⟨h .ebx, h .ecx, h .edx, h .esi, h .edi, h .ebp, h .ds, h .es, h .fs, h .gs, h .eax, trivial⟩

end Stack

section Dispatch

variable {syscalls : Fin MAX_SYSCALLS → Handler} {upper : SavedReg → BitVec 16} {ret : BitVec 32}
  {m m' : Cpu} {calls : List (Nat × Cpu × Cpu)}

-- What a handler finds: its argument points at the block, whose fields are the registers at
-- the start.
theorem entered_spec (upper : SavedReg → BitVec 16) (ret : BitVec 32) (hroom : 52 ≤ m.esp.toNat) :
    (entered upper ret m).esp.toNat = m.esp.toNat - 52 ∧
      regsArgument (entered upper ret m) = m.esp.toNat - 44 ∧
      ∀ r, field (entered upper ret m).memory (m.esp.toNat - 44) r = m.pushed (upper r) r := by
  have hempty : Words m.memory m.esp.toNat [] := trivial
  obtain ⟨hwords, hesp, -⟩ := push_all upper pushes (by change 44 ≤ _; omega) hempty
  change _ = m.esp.toNat - 44 at hesp
  rw [← List.map_reverse, pushes_reverse, List.append_nil] at hwords
  have hargument := pushWord_words hwords (by omega) (pushes.foldl (Cpu.push upper) m).esp
  have hespArgument : ((pushes.foldl (Cpu.push upper) m).pushWord
      (pushes.foldl (Cpu.push upper) m).esp).esp.toNat = m.esp.toNat - 48 := by
    rw [← Nat.sub_sub m.esp.toNat 44 4, ← hesp]
    exact toNat_sub_four (by omega)
  have hcall := pushWord_words hargument (by omega) ret
  have hespCall : (entered upper ret m).esp.toNat = m.esp.toNat - 52 := by
    rw [← Nat.sub_sub m.esp.toNat 48 4, ← hespArgument]
    exact toNat_sub_four (by omega)
  obtain ⟨-, hregs, hblock⟩ := hcall
  change load32 (entered upper ret m).memory ((entered upper ret m).esp.toNat + 4) = _ at hregs
  change Words (entered upper ret m).memory ((entered upper ret m).esp.toNat + 4 + 4) _ at hblock
  rw [hespCall, show m.esp.toNat - 52 + 4 + 4 = m.esp.toNat - 44 by omega] at hblock
  refine ⟨hespCall, ?_, words_field.mp hblock⟩
  rw [regsArgument, hregs, hesp]

-- The way back, from a block of which the handler has changed the `eax` field alone
theorem restored_spec (hroom : 52 ≤ m.esp.toNat) {returned : Cpu}
    (hesp : returned.esp = (entered upper ret m).esp + 4)
    (hblock : ∀ b, m.esp.toNat - 44 ≤ b → b < m.esp.toNat - 44 + 4 * SAVED_REGS.idxOf .eax →
      returned.memory b = (entered upper ret m).memory b) :
    (restored returned).esp = m.esp ∧
      (∀ r, r ≠ .eax → (restored returned).get r = m.get r) ∧
      (restored returned).eax = field returned.memory (m.esp.toNat - 44) .eax := by
  obtain ⟨hespCall, -, hfields⟩ := entered_spec upper ret hroom
  have hlt := m.esp.isLt
  let word : SavedReg → BitVec 32 := fun r =>
    if r = .eax then field returned.memory (m.esp.toNat - 44) .eax else m.pushed (upper r) r
  have hword : ∀ r, field returned.memory (m.esp.toNat - 44) r = word r := by
    intro r
    by_cases heax : r = .eax
    · rw [heax]
      exact (if_pos rfl).symm
    · have hbefore : 4 * SAVED_REGS.idxOf r + 4 ≤ 4 * SAVED_REGS.idxOf .eax := by
        cases r <;> first | decide | exact absurd rfl heax
      change _ = if r = .eax then _ else _
      rw [if_neg heax, ← hfields r]
      exact load32_congr fun b hlo hhi => hblock b (by omega) (by omega)
  have hreturned : returned.esp.toNat = m.esp.toNat - 48 := by
    rw [hesp, toNat_add_four (by omega), hespCall]
    omega
  have hblockEsp : (returned.esp + 4).toNat = m.esp.toNat - 44 := by
    rw [toNat_add_four (by omega), hreturned]
    omega
  obtain ⟨hend, hin, -⟩ := pop_all (m := { returned with esp := returned.esp + 4 }) pops (by decide) word
    (by
      change Words returned.memory (returned.esp + 4).toNat _
      rw [hblockEsp, pops_eq]
      exact words_field.mpr hword)
    (by
      change (returned.esp + 4).toNat + 44 < _
      omega)
  refine ⟨?_, fun r hr => ?_, ?_⟩
  · apply BitVec.eq_of_toNat_eq
    change (restored returned).esp.toNat = (returned.esp + 4).toNat + 44 at hend
    omega
  · refine (hin r (by cases r <;> decide)).trans ?_
    change (Cpu.set _ (if r = .eax then _ else _) r).get r = _
    rw [if_neg hr]
    exact set_pushed _ (upper r)
  · exact hin .eax (by decide)

theorem syscallDispatcher_abi (hroom : 52 ≤ m.esp.toNat)
    (hreturns : ∀ i, (syscalls i).ReturnsCleanly) (hkeeps : ∀ i, (syscalls i).KeepsBlock)
    (h : SyscallDispatcher syscalls upper ret m calls m') :
    m'.esp = m.esp ∧ (∀ r, r ≠ .eax → m'.get r = m.get r) ∧
      (m.eax.toNat < MAX_SYSCALLS → ∃ called returned,
        calls = [(m.eax.toNat, called, returned)] ∧
        field called.memory (regsArgument called) .ebx = m.ebx ∧
        m'.eax = field returned.memory (regsArgument called) .eax) ∧
      (MAX_SYSCALLS ≤ m.eax.toNat → calls = [] ∧ m' = { m with eax := -1 }) := by
  have hmax : MAX_SYSCALLS = 8 := rfl
  cases h with
  | invalidSyscall hinvalid =>
      refine ⟨rfl, fun r hr => set_get_of_ne hr, fun hlt => by omega, fun _ => ⟨rfl, rfl⟩⟩
  | call hlt returned hcall =>
      obtain ⟨-, hregs, hfields⟩ := entered_spec upper ret hroom
      obtain ⟨hesp, hget, heax⟩ := restored_spec hroom (hreturns _ _ _ hcall)
        (by
          rw [← hregs]
          exact hkeeps _ _ _ hcall)
      refine ⟨hesp, hget, fun _ => ⟨_, _, rfl, ?_, ?_⟩, fun hge => by omega⟩
      · rw [hregs]
        exact hfields .ebx
      · rw [hregs]
        exact heax

end Dispatch

section Sample

-- A task at the top of its kernel stack, with the number in `eax` and the argument in `ebx`
def sampleCpu : Cpu where
  eax := 3
  ecx := 2
  edx := 4
  ebx := 100
  esp := 0x105000
  ebp := 5
  esi := 6
  edi := 7
  ds := 0x23
  es := 0x23
  fs := 0x23
  gs := 0x23
  memory := fun _ => 0

-- Handlers that return with a pointer in the `eax` field
def sampleSyscalls : Fin MAX_SYSCALLS → Handler := fun _ m m' =>
  m' = { m with
    esp := m.esp + 4
    memory := store32 m.memory (regsArgument m + 4 * SAVED_REGS.idxOf .eax) 0xD1000010 }

theorem sampleSyscalls_keepsBlock (i : Fin MAX_SYSCALLS) : (sampleSyscalls i).KeepsBlock := by
  rintro m m' rfl b _ hhi
  exact store32_of_ne (.inl hhi) _

end Sample

theorem syscallDispatcher_abi_sample :
    ∃ calls m', SyscallDispatcher sampleSyscalls (fun _ => 0) 0x100123 sampleCpu calls m' ∧
      m'.esp = sampleCpu.esp ∧ ∀ r, r ≠ .eax → m'.get r = sampleCpu.get r := by
  have hrun : SyscallDispatcher sampleSyscalls (fun _ => 0) 0x100123 sampleCpu _ _ :=
    .call (by decide) _ rfl
  obtain ⟨hesp, hget, -⟩ := syscallDispatcher_abi (by decide) (fun _ _ _ h => by rw [h])
    sampleSyscalls_keepsBlock hrun
  exact ⟨_, _, hrun, hesp, hget⟩

end ToyKernel.Syscall
