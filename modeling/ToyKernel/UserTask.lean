import ToyKernel.Heap.Tasks
import ToyKernel.Malloc

namespace ToyKernel.UserTask

open Library ByteMemory
open Heap (fault USER_STACK_VIRT)

-- The memory managers with the scheduler
structure State where
  malloc : Malloc
  scheduler : Scheduler

-- What ends a run: what ends one of malloc.c, or a null `task`.
inductive Stuck where
  | memory (s : ToyKernel.Stuck)
  | scheduler (f : SchedulerFault)
  deriving DecidableEq

def memory {α : Type} (result : Except ToyKernel.Stuck α) : Except Stuck α := result.mapError .memory

-- Where the functions are that a new stack leads to
structure Code where
  usermodeTrampoline : BitVec 32
  taskEntryTrampoline : BitVec 32
  taskExit : BitVec 32

def storeWords (m : Memory) (address : Nat) : List (BitVec 32) → Memory
  | [] => m
  | w :: words => storeWords (store32 m address w) (address + 4) words

-- The words of setup_stack, from the stack pointer up: EDI, ESI, EBX, EBP, EFLAGS and the
-- functions to return to.
def setupStack (code : Code) (m : Memory) (esp : Nat) : Memory :=
  storeWords m esp [0, 0, 0, 0, 0x200, code.taskEntryTrampoline, code.usermodeTrampoline, code.taskExit]

-- The fields of the task at `mem`; two bytes behind `is_user` and one behind `priority` are
-- padding.
def storeTask (m : Memory) (mem pid : Nat) (entry : BitVec 32) : Memory :=
  let m := store32 m mem (BitVec.ofNat 32 pid)
  let m := store8 m (mem + 4) 1
  let m := store8 m (mem + 5) 1
  let m := storeWords m (mem + 8) [0, BitVec.ofNat 32 (mem + STACK_SIZE), entry, Scheduler.USER_ESP]
  let m := store8 m (mem + 24) (BitVec.ofNat 8 MEDIUM_TASK)
  let m := store8 m (mem + 26) (BitVec.ofNat 8 MEDIUM_TASK)
  let m := store8 m (mem + 27) 0
  store32 m (mem + 28) 0

-- Neither the frame of the user stack nor its mapping nor the block of the task is checked.
-- The list of the tasks is the scheduler's.
def createUserTaskFromElf (code : Code) (data : Nat) (s : State) : Except Stuck (Nat × State) := do
  let (result, kernel) ← memory (fault (s.malloc.kernel.run (Elf.elfLoad data)))
  match result with
  | .ok entry => do
      let (stackPhys, kernel) ← memory (fault (kernel.allocateBlock 1))
      let (_, kernel) ← memory (fault (kernel.mapPageUser stackPhys USER_STACK_VIRT))
      let (mem, malloc) ← memory ({ s.malloc with kernel }.syscallMalloc (SIZEOF_TASK + STACK_SIZE))
      let malloc ← memory (malloc.put mem SIZEOF_TASK fun m =>
        storeTask m mem s.scheduler.nextTaskId (BitVec.ofNat 32 entry))
      let esp := u32 (mem + STACK_SIZE)
      let malloc ← memory (malloc.put esp 32 fun m => setupStack code m esp)
      let scheduler ← (s.scheduler.createUserTask mem (BitVec.ofNat 32 entry)).mapError .scheduler
      return (mem, { malloc, scheduler })
  | _ => return (0, { s with malloc := { s.malloc with kernel } })

end ToyKernel.UserTask
