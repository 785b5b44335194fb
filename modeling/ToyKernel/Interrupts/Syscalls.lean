import ToyKernel.Interrupts.Handlers
import ToyKernel.Syscall.Abi

namespace ToyKernel.Interrupts

open Library ByteMemory StackMachine Protection Gdt Idt Syscall

-- The registers that `syscall_dispatcher` works on, and the processor with them as it left them
def saved (k : Protection.Cpu) : Syscall.Cpu where
  eax := k.general.eax
  ecx := k.general.ecx
  edx := k.general.edx
  ebx := k.general.ebx
  esp := k.esp
  ebp := k.general.ebp
  esi := k.general.esi
  edi := k.general.edi
  ds := k.data.ds
  es := k.data.es
  fs := k.data.fs
  gs := k.data.gs
  memory := k.memory

def afterDispatcher (k : Protection.Cpu) (s : Syscall.Cpu) : Protection.Cpu :=
  { k with
    esp := s.esp
    general :=
      { eax := s.eax, ecx := s.ecx, edx := s.edx, ebx := s.ebx, ebp := s.ebp, esi := s.esi, edi := s.edi }
    data := { ds := s.ds, es := s.es, fs := s.fs, gs := s.gs }
    memory := s.memory }

-- What a handler leaves alone besides its block: the stack above it, up to `top`
def KeepsAbove (top : Nat) (h : Syscall.Handler) : Prop :=
  ∀ m m', h m m' → ∀ b, regsArgument m + 4 * SAVED_REGS.length ≤ b → b < top →
    m'.memory b = m.memory b

section Dispatcher

variable {syscalls : Fin MAX_SYSCALLS → Syscall.Handler} {upper : SavedReg → BitVec 16} {ret : BitVec 32}
  {m s : Syscall.Cpu} {calls : List (Nat × Syscall.Cpu × Syscall.Cpu)} {top b : Nat}

theorem pushWord_above (hroom : 4 ≤ m.esp.toNat) (hb : m.esp.toNat ≤ b) (value : BitVec 32) :
    (m.pushWord value).esp.toNat = m.esp.toNat - 4 ∧ (m.pushWord value).memory b = m.memory b := by
  have hesp : (m.esp - 4).toNat = m.esp.toNat - 4 := toNat_sub_four hroom
  refine ⟨hesp, ?_⟩
  change store32 m.memory (m.esp - 4).toNat value b = _
  rw [hesp]
  exact store32_of_ne (by omega) value

theorem pushes_above (upper : SavedReg → BitVec 16) (rs : List SavedReg)
    (hroom : 4 * rs.length ≤ m.esp.toNat) (hb : m.esp.toNat ≤ b) :
    (rs.foldl (Syscall.Cpu.push upper) m).esp.toNat = m.esp.toNat - 4 * rs.length ∧
      (rs.foldl (Syscall.Cpu.push upper) m).memory b = m.memory b := by
  induction rs generalizing m with
  | nil => exact ⟨rfl, rfl⟩
  | cons r rs ih =>
      rw [List.length_cons] at hroom ⊢
      obtain ⟨hesp, hmemory⟩ := pushWord_above (by omega) hb (m.pushed (upper r) r)
      obtain ⟨hesp', hmemory'⟩ := ih (m := m.push upper r)
        (by
          change _ ≤ (m.pushWord _).esp.toNat
          omega)
        (by
          change (m.pushWord _).esp.toNat ≤ b
          omega)
      refine ⟨?_, hmemory'.trans hmemory⟩
      rw [List.foldl_cons, hesp']
      change (m.pushWord _).esp.toNat - _ = _
      omega

-- The pushes of the dispatcher leave the frame of the interrupt alone, and so do its pops.
theorem entered_above (hroom : 52 ≤ m.esp.toNat) (hb : m.esp.toNat ≤ b) :
    (entered upper ret m).memory b = m.memory b := by
  have hlength : pushes.length = 11 := rfl
  obtain ⟨hesp, hmemory⟩ := pushes_above upper pushes (by omega) hb
  obtain ⟨hesp', hmemory'⟩ := pushWord_above (b := b) (m := pushes.foldl (Syscall.Cpu.push upper) m)
    (by omega) (by omega) (pushes.foldl (Syscall.Cpu.push upper) m).esp
  obtain ⟨-, hmemory''⟩ := pushWord_above (b := b) (m := (pushes.foldl (Syscall.Cpu.push upper) m).pushWord
    (pushes.foldl (Syscall.Cpu.push upper) m).esp) (by omega) (by omega) ret
  exact hmemory''.trans (hmemory'.trans hmemory)

theorem pops_memory (rs : List SavedReg) : (rs.foldl Syscall.Cpu.pop m).memory = m.memory := by
  induction rs generalizing m with
  | nil => rfl
  | cons r rs ih => exact ih.trans set_memory

-- What `syscall_dispatcher` brings back, and what it hands over
structure Dispatched (calls : List (Nat × Syscall.Cpu × Syscall.Cpu)) (top : Nat) (m s : Syscall.Cpu) :
    Prop where
  esp : s.esp = m.esp
  registers : ∀ r, r ≠ .eax → s.get r = m.get r
  above : ∀ b, m.esp.toNat ≤ b → b < top → s.memory b = m.memory b
  called : m.eax.toNat < MAX_SYSCALLS → ∃ called returned, calls = [(m.eax.toNat, called, returned)] ∧
    field called.memory (regsArgument called) .ebx = m.ebx ∧
    s.eax = field returned.memory (regsArgument called) .eax
  refused : MAX_SYSCALLS ≤ m.eax.toNat → calls = [] ∧ s.eax = -1

theorem dispatched (hroom : 52 ≤ m.esp.toNat) (hreturns : ∀ i, (syscalls i).ReturnsCleanly)
    (hkeeps : ∀ i, (syscalls i).KeepsBlock) (habove : ∀ i, KeepsAbove top (syscalls i))
    (h : SyscallDispatcher syscalls upper ret m calls s) : Dispatched calls top m s := by
  have hmax : MAX_SYSCALLS = 8 := rfl
  cases h with
  | invalidSyscall hinvalid =>
      refine ⟨rfl, fun r hr => set_get_of_ne hr, fun _ _ _ => rfl, fun hlt => ?_, fun _ => ⟨rfl, rfl⟩⟩
      omega
  | call hlt returned hcall =>
      obtain ⟨-, hregs, hfields⟩ := entered_spec upper ret hroom
      have hblock := hkeeps _ _ _ hcall
      rw [hregs] at hblock
      obtain ⟨hesp, hget, heax⟩ := restored_spec hroom (hreturns _ _ _ hcall) hblock
      refine ⟨hesp, hget, fun b hlo hhi => ?_, fun _ => ⟨_, _, rfl, ?_, ?_⟩, fun hge => by omega⟩
      · have hmemory : (restored returned).memory = returned.memory := pops_memory pops
        rw [hmemory, habove _ _ _ hcall b ?_ hhi, entered_above hroom hlo]
        rw [hregs]
        change m.esp.toNat - 44 + 44 ≤ b
        omega
      · rw [hregs]
        exact hfields .ebx
      · rw [hregs]
        exact heax

theorem afterDispatcher_registers {k : Protection.Cpu} (h : Dispatched calls top (saved k) s) :
    (afterDispatcher k s).general = { k.general with eax := s.eax } ∧
      (afterDispatcher k s).data = k.data := by
  have hsegment : ∀ a b : BitVec 16, a.setWidth 32 = b.setWidth 32 → a = b := by
    intro a b hab
    have hlow := congrArg (BitVec.setWidth 16) hab
    simpa using hlow
  have hecx : s.ecx = k.general.ecx := h.registers .ecx (by decide)
  have hedx : s.edx = k.general.edx := h.registers .edx (by decide)
  have hebx : s.ebx = k.general.ebx := h.registers .ebx (by decide)
  have hebp : s.ebp = k.general.ebp := h.registers .ebp (by decide)
  have hesi : s.esi = k.general.esi := h.registers .esi (by decide)
  have hedi : s.edi = k.general.edi := h.registers .edi (by decide)
  have hds : s.ds = k.data.ds := hsegment _ _ (h.registers .ds (by decide))
  have hes : s.es = k.data.es := hsegment _ _ (h.registers .es (by decide))
  have hfs : s.fs = k.data.fs := hsegment _ _ (h.registers .fs (by decide))
  have hgs : s.gs = k.data.gs := hsegment _ _ (h.registers .gs (by decide))
  unfold afterDispatcher
  simp only [hecx, hedx, hebx, hebp, hesi, hedi, hds, hes, hfs, hgs, and_self]

end Dispatcher

section EndToEnd

variable {image : Image} {esp0 : BitVec 32} {m : Protection.Cpu}
  {syscalls : Fin MAX_SYSCALLS → Syscall.Handler} {upper : SavedReg → BitVec 16} {ret : BitVec 32}

-- The frame of a system call
theorem begun_syscall (h : User image esp0 m) (hroom : 24 ≤ esp0.toNat) :
    ∃ k, interrupt (tables image esp0) .software 0x80 m = .ok k ∧
      k.eip = image.address .syscallDispatcher ∧ k.eflags = throughGate m.eflags true ∧
      Begun .syscallDispatcher m k esp0.toNat
        [m.eip, m.cs.setWidth 32, m.eflags.bits, m.esp, m.ss.setWidth 32] := by
  have hpermitted : Permitted .software 3 0x80 := fun _ => .inr rfl
  have hcode : 4 * Source.software.errorCode.length = popped (handler 0x80) := rfl
  exact begun_user h (by decide) hpermitted hcode hroom

theorem returns_dispatcher {k : Protection.Cpu} {s : Syscall.Cpu}
    {calls : List (Nat × Syscall.Cpu × Syscall.Cpu)} (h : User image esp0 m) (hroom : 20 ≤ esp0.toNat)
    (hbegun : Begun .syscallDispatcher m k esp0.toNat
      [m.eip, m.cs.setWidth 32, m.eflags.bits, m.esp, m.ss.setWidth 32])
    (hd : Dispatched calls esp0.toNat (saved k) s) :
    iret (tables image esp0) (afterDispatcher k s) =
      .ok { m with
        data := m.data.map (keepSegment (tables image esp0) 3)
        general := { m.general with eax := s.eax }
        memory := s.memory } := by
  have hplace : k.esp.toNat = esp0.toNat - 20 := hbegun.place
  have hlt := esp0.isLt
  obtain ⟨hgeneral, hdata⟩ := afterDispatcher_registers hd
  rw [hbegun.general] at hgeneral
  rw [hbegun.data] at hdata
  have hframe : Words s.memory s.esp.toNat
      [m.eip, m.cs.setWidth 32, m.eflags.bits, m.esp, m.ss.setWidth 32] := by
    rw [hd.esp]
    refine Words.congr hbegun.words fun b hlo hhi => (hd.above b hlo ?_).symm
    change b < k.esp.toNat + 20 at hhi
    omega
  have hcpl : (afterDispatcher k s).cpl = 0 := (hbegun.kernel (Nat.le_refl esp0.toNat)).cpl
  have hback : (tables image esp0).back (afterDispatcher k s).cpl m.cs = .ok (flat 0xA 3) := by
    rw [hcpl, h.cs]
    exact back_user
  have hlevel : level m.cs = 3 := h.cpl
  have hesp : (afterDispatcher k s).esp.toNat = esp0.toNat - 20 := by
    change s.esp.toNat = _
    rw [hd.esp]
    exact hplace
  have hreturn := iret_outer (m := afterDispatcher k s) hframe (by omega) hbegun.nested h.virtual hback
    (by
      rw [hcpl, hlevel]
      decide)
    (by
      rw [hlevel, h.ss]
      exact isStack_user)
  refine hreturn.trans ?_
  rw [hlevel, hgeneral, hdata]
  rfl

-- `int 0x80` of a user task, from the instruction after it on, up to the `iretd` of the
-- dispatcher: the call is the one that `eax` names and is handed `ebx`, and the task goes on with
-- its registers, flags and stack, and in `eax` what the handler has put there or -1.
theorem system_call (h : User image esp0 m) (hroom : 72 ≤ esp0.toNat)
    (hreturns : ∀ i, (syscalls i).ReturnsCleanly) (hkeeps : ∀ i, (syscalls i).KeepsBlock)
    (habove : ∀ i, KeepsAbove esp0.toNat (syscalls i)) :
    ∃ k, interrupt (tables image esp0) .software 0x80 m = .ok k ∧
      k.eip = image.address .syscallDispatcher ∧ Kernel esp0 k ∧ k.eflags.interrupts = false ∧
      ∀ calls s, SyscallDispatcher syscalls upper ret (saved k) calls s →
        ∃ eax memory, iret (tables image esp0) (afterDispatcher k s) =
            .ok { m with
              data := m.data.map (keepSegment (tables image esp0) 3)
              general := { m.general with eax }
              memory } ∧
          (m.general.eax.toNat < MAX_SYSCALLS → ∃ called returned,
            calls = [(m.general.eax.toNat, called, returned)] ∧
            field called.memory (regsArgument called) .ebx = m.general.ebx ∧
            eax = field returned.memory (regsArgument called) .eax) ∧
          (MAX_SYSCALLS ≤ m.general.eax.toNat → calls = [] ∧ eax = -1) := by
  obtain ⟨k, htaken, heip, hflags, hbegun⟩ := begun_syscall h (by omega)
  have hplace : k.esp.toNat = esp0.toNat - 20 := hbegun.place
  refine ⟨k, htaken, heip, hbegun.kernel (Nat.le_refl _), ?_, fun calls s hcalls => ?_⟩
  · rw [hflags, interrupts_throughGate]
    simp
  have hd := dispatched (m := saved k)
    (by
      change 52 ≤ k.esp.toNat
      omega) hreturns hkeeps habove hcalls
  have heax : (saved k).eax = m.general.eax := congrArg General.eax hbegun.general
  have hebx : (saved k).ebx = m.general.ebx := congrArg General.ebx hbegun.general
  refine ⟨s.eax, s.memory, returns_dispatcher h (by omega) hbegun hd, fun hlt => ?_, fun hge => ?_⟩
  · rw [← heax, ← hebx]
    exact hd.called (heax ▸ hlt)
  · exact hd.refused (heax ▸ hge)

end EndToEnd

section Sample

theorem sampleSyscalls_keepsAbove (top : Nat) (i : Fin MAX_SYSCALLS) :
    KeepsAbove top (sampleSyscalls i) := by
  rintro m m' rfl b hlo _
  refine store32_of_ne (.inr ?_) _
  change regsArgument m + 40 + 4 ≤ b
  exact hlo

end Sample

theorem system_call_sample :
    ∃ k, interrupt (tables sampleImage sampleEsp0) .software 0x80 sampleUser = .ok k ∧
      ∀ calls s, SyscallDispatcher sampleSyscalls (fun _ => 0) 0xC0101130 (saved k) calls s →
        ∃ eax memory, iret (tables sampleImage sampleEsp0) (afterDispatcher k s) =
          .ok { sampleUser with
            data := sampleUser.data.map (keepSegment (tables sampleImage sampleEsp0) 3)
            general := { sampleUser.general with eax }
            memory } := by
  obtain ⟨k, htaken, -, -, -, hcalls⟩ := @system_call sampleImage sampleEsp0 sampleUser sampleSyscalls
    (fun _ => 0) 0xC0101130 sampleUser_user (by decide) (fun _ _ _ h => by rw [h]) sampleSyscalls_keepsBlock
    (sampleSyscalls_keepsAbove _)
  refine ⟨k, htaken, fun calls s h => ?_⟩
  obtain ⟨eax, memory, hreturn, -⟩ := hcalls calls s h
  exact ⟨eax, memory, hreturn⟩

end ToyKernel.Interrupts
