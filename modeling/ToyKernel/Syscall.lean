import ToyKernel.Library.ByteMemory

namespace ToyKernel.Syscall

open Library ByteMemory

def MAX_SYSCALLS : Nat := 8

-- The registers at `int 0x80` and in the kernel, less EFLAGS, EIP, CS and SS, which `iretd`
-- brings back from the frame above `esp`.
structure Cpu where
  eax : BitVec 32
  ecx : BitVec 32
  edx : BitVec 32
  ebx : BitVec 32
  esp : BitVec 32
  ebp : BitVec 32
  esi : BitVec 32
  edi : BitVec 32
  ds : BitVec 16
  es : BitVec 16
  fs : BitVec 16
  gs : BitVec 16
  memory : Memory

-- The fields of `syscall_saved_regs_t`, each a word, and the registers they are named after
inductive SavedReg where
  | ebx
  | ecx
  | edx
  | esi
  | edi
  | ebp
  | ds
  | es
  | fs
  | gs
  | eax
  deriving DecidableEq

-- The packed struct from its first field on
def SAVED_REGS : List SavedReg := [.ebx, .ecx, .edx, .esi, .edi, .ebp, .ds, .es, .fs, .gs, .eax]

-- `regs->r`
def field (m : Memory) (regs : Nat) (r : SavedReg) : BitVec 32 :=
  load32 m (regs + 4 * SAVED_REGS.idxOf r)

namespace Cpu

def get (m : Cpu) : SavedReg → BitVec 32
  | .ebx => m.ebx
  | .ecx => m.ecx
  | .edx => m.edx
  | .esi => m.esi
  | .edi => m.edi
  | .ebp => m.ebp
  | .ds => m.ds.setWidth 32
  | .es => m.es.setWidth 32
  | .fs => m.fs.setWidth 32
  | .gs => m.gs.setWidth 32
  | .eax => m.eax

-- A segment register takes the lower half of a word.
def set (m : Cpu) (value : BitVec 32) : SavedReg → Cpu
  | .ebx => { m with ebx := value }
  | .ecx => { m with ecx := value }
  | .edx => { m with edx := value }
  | .esi => { m with esi := value }
  | .edi => { m with edi := value }
  | .ebp => { m with ebp := value }
  | .ds => { m with ds := value.setWidth 16 }
  | .es => { m with es := value.setWidth 16 }
  | .fs => { m with fs := value.setWidth 16 }
  | .gs => { m with gs := value.setWidth 16 }
  | .eax => { m with eax := value }

def pushWord (m : Cpu) (value : BitVec 32) : Cpu :=
  { m with esp := m.esp - 4, memory := store32 m.memory (m.esp - 4).toNat value }

-- The word that `push r` stores. What stands above the selector of a segment register
-- depends on the processor.
def pushed (m : Cpu) (upper : BitVec 16) : SavedReg → BitVec 32
  | .ds => upper ++ m.ds
  | .es => upper ++ m.es
  | .fs => upper ++ m.fs
  | .gs => upper ++ m.gs
  | r => m.get r

def push (upper : SavedReg → BitVec 16) (m : Cpu) (r : SavedReg) : Cpu :=
  m.pushWord (m.pushed (upper r) r)

def pop (m : Cpu) (r : SavedReg) : Cpu :=
  { m.set (load32 m.memory m.esp.toNat) r with esp := m.esp + 4 }

end Cpu

-- The pushes of `syscall_dispatcher` before the one of the argument, and its pops
def pushes : List SavedReg := [.eax, .gs, .fs, .es, .ds, .ebp, .edi, .esi, .edx, .ecx, .ebx]

def pops : List SavedReg := [.ebx, .ecx, .edx, .esi, .edi, .ebp, .ds, .es, .fs, .gs, .eax]

-- What a handler may do from the state in which it is called to the one in which its `ret`
-- has been taken. In between other tasks may have run.
abbrev Handler := Cpu → Cpu → Prop

-- The argument of the call, a `syscall_saved_regs_t *`
def regsArgument (m : Cpu) : Nat := (load32 m.memory (m.esp.toNat + 4)).toNat

-- The state in which the handler is called, up to the `call`, which pushes `ret`
def entered (upper : SavedReg → BitVec 16) (ret : BitVec 32) (m : Cpu) : Cpu :=
  let saved := pushes.foldl (Cpu.push upper) m
  (saved.pushWord saved.esp).pushWord ret

-- `add esp, 4` and the pops
def restored (m : Cpu) : Cpu := pops.foldl Cpu.pop { m with esp := m.esp + 4 }

-- `syscall_dispatcher` up to its `iretd`, with the calls it has made: the number, and the
-- states at the start and the end of the handler.
inductive SyscallDispatcher (syscalls : Fin MAX_SYSCALLS → Handler) (upper : SavedReg → BitVec 16)
    (ret : BitVec 32) (m : Cpu) : List (Nat × Cpu × Cpu) → Cpu → Prop where
  | invalidSyscall (h : m.eax.toNat > MAX_SYSCALLS - 1) :
      SyscallDispatcher syscalls upper ret m [] { m with eax := -1 }
  | call (h : m.eax.toNat < MAX_SYSCALLS) (returned : Cpu)
      (hcall : syscalls ⟨m.eax.toNat, h⟩ (entered upper ret m) returned) :
      SyscallDispatcher syscalls upper ret m
        [(m.eax.toNat, entered upper ret m, returned)] (restored returned)

end ToyKernel.Syscall
