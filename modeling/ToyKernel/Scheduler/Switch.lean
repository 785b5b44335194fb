import Mathlib.Logic.Function.Basic
import ToyKernel.Library.Run
import ToyKernel.Library.StackMachine
import ToyKernel.Scheduler

namespace ToyKernel

namespace Switch

open Library ByteMemory StackMachine

-- `switch_task(prev, next)`, called with the two pointers above the return address
def switchTask : List Instruction :=
  [.load .eax .esp 4, .load .edx .esp 8,
    .pushfd, .push .ebp, .push .ebx, .push .esi, .push .edi,
    .store .eax 12 .esp, .load .esp .edx 12,
    .pop .edi, .pop .esi, .pop .ebx, .pop .ebp, .popfd, .ret]

def taskEntryTrampoline : List Instruction := [.sti, .ret]

-- Where the linker put the two functions that `setup_stack` names.
structure Symbols where
  taskExit : BitVec 32
  taskEntryTrampoline : BitVec 32

-- The words that `setup_stack` writes, the first at the top of the stack
def firstFrame (sym : Symbols) (entry : BitVec 32) : List (BitVec 32) :=
  [sym.taskExit, entry, sym.taskEntryTrampoline, 0x200, 0, 0, 0, 0]

def stackTop (mem : Nat) : Nat := mem + SIZEOF_TASK + STACK_SIZE

def setupStack (sym : Symbols) (memory : Memory) (mem : Nat) (entry : BitVec 32) : Memory × Nat :=
  (pushAll memory (stackTop mem) (firstFrame sym entry),
    stackTop mem - 4 * (firstFrame sym entry).length)

-- `t->esp`
def espField (mem : Nat) : Nat := mem + 12

-- `t->esp = (uint32_t)setup_stack(mem, entry)`
def fillTask (sym : Symbols) (memory : Memory) (mem : Nat) (entry : BitVec 32) : Memory :=
  let (memory, esp) := setupStack sym memory mem entry
  store32 memory (espField mem) (BitVec.ofNat 32 esp)

-- What a task that called `switch_task` is to find when the call returns.
structure Context where
  eip : BitVec 32
  esp : BitVec 32
  ebp : BitVec 32
  ebx : BitVec 32
  esi : BitVec 32
  edi : BitVec 32
  eflags : Eflags

def context (m : Machine) : Context where
  eip := m.eip
  esp := m.esp
  ebp := m.ebp
  ebx := m.ebx
  esi := m.esi
  edi := m.edi
  eflags := m.eflags

-- A task that is not running: it has yet to run, or it waits in a call.
inductive Waiting where
  | fresh (entry : BitVec 32)
  | called (context : Context)

variable {ι : Type} [DecidableEq ι]

-- The tasks, each with its `Task` record and the stack it runs on.
structure Tasks (ι : Type) where
  mem : ι → Nat
  low : ι → Nat
  high : ι → Nat

structure State (ι : Type) where
  machine : Machine
  running : ι
  waiting : ι → Option Waiting

-- What happens in a run: the running task computes, makes a new task, or calls
-- `switch_task` with itself as `prev`; the call is to return to `ret`.
inductive Event (ι : Type) where
  | compute (machine : Machine)
  | fillTask (i : ι) (entry : BitVec 32)
  | switchTask (next : ι) (ret : BitVec 32)

-- `call switch_task`, from the instruction before `ret`, and the function itself
def callSwitchTask (m : Machine) (ret : BitVec 32) : Machine :=
  Instruction.execAll switchTask (m.push ret)

def exec (sym : Symbols) (tasks : Tasks ι) (s : State ι) : Event ι → State ι
  | .compute machine => { s with machine }
  | .fillTask i entry =>
      { s with
        machine := { s.machine with memory := fillTask sym s.machine.memory (tasks.mem i) entry }
        waiting := Function.update s.waiting i (some (.fresh entry)) }
  | .switchTask next ret =>
      { machine := callSwitchTask s.machine ret
        running := next
        waiting := Function.update s.waiting s.running
          (some (.called (context { s.machine with eip := ret }))) }

-- The stacks are disjoint from each other and from the `esp` fields of all tasks.
structure Tasks.Apart (tasks : Tasks ι) : Prop where
  stack_bound : ∀ i, tasks.high i ≤ 4294967296
  mem_bound : ∀ i, tasks.mem i + SIZEOF_TASK ≤ 4294967296
  stacks_apart : ∀ i j, i ≠ j → tasks.high i ≤ tasks.low j ∨ tasks.high j ≤ tasks.low i
  fields_apart : ∀ i j, espField (tasks.mem i) + 4 ≤ tasks.low j ∨ tasks.high j ≤ espField (tasks.mem i)
  records_apart : ∀ i j, i ≠ j →
    espField (tasks.mem i) + 4 ≤ espField (tasks.mem j) ∨
      espField (tasks.mem j) + 4 ≤ espField (tasks.mem i)

-- The memory that belongs to the task `i` while it is not running: its stack, and the place
-- where `switch_task` has saved its stack pointer.
def Tasks.Owns (tasks : Tasks ι) (i : ι) (b : Nat) : Prop :=
  tasks.low i ≤ b ∧ b < tasks.high i ∨
    espField (tasks.mem i) ≤ b ∧ b < espField (tasks.mem i) + 4

-- The running task leaves what belongs to others alone. It calls by the C convention, on its
-- own stack with room for the words saved there, and switches to a task there is.
def Allowed (tasks : Tasks ι) (s : State ι) : Event ι → Prop
  | .compute machine => ∀ i, i ≠ s.running → ∀ b, tasks.Owns i b → machine.memory b = s.machine.memory b
  | .fillTask i _ =>
      i ≠ s.running ∧ tasks.low i = tasks.mem i + SIZEOF_TASK ∧ tasks.high i = stackTop (tasks.mem i)
  | .switchTask next _ =>
      tasks.low s.running + 24 ≤ s.machine.esp.toNat ∧
        s.machine.esp.toNat + 8 ≤ tasks.high s.running ∧
        load32 s.machine.memory s.machine.esp.toNat = BitVec.ofNat 32 (tasks.mem s.running) ∧
        load32 s.machine.memory (s.machine.esp.toNat + 4) = BitVec.ofNat 32 (tasks.mem next) ∧
        (next = s.running ∨ (s.waiting next).isSome)

end Switch

end ToyKernel
