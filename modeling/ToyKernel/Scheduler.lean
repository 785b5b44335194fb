import ToyKernel.Library.Cyclic
import ToyKernel.Word

namespace ToyKernel

open Library

-- `TASK_STATE`, in the source's spelling.
inductive TaskState where
  | ready
  | runnig
  | paused
  | completed
  | terminated
  | blocked
  deriving DecidableEq

-- `TASK_PRIORITY`
def LOW_TASK : Nat := 5
def MEDIUM_TASK : Nat := 15
def CRITICAL_TASK : Nat := 60

def STACK_SIZE : Nat := 4096
def SIZEOF_TASK : Nat := 32

-- `mem` is the address that malloc gave for the task and its kernel stack. The `next` of a
-- task is its place in the list; `esp` belongs to the memory that `switch_task` works on.
structure Task where
  mem : Nat
  pid : Nat
  state : TaskState
  isUser : Bool
  userEip : BitVec 32
  userEsp : BitVec 32
  priority : Nat
  timeSlice : Nat
  wakeTick : BitVec 32
  deriving DecidableEq

-- The list at `task`, with its tasks named by their places; the statics beside it, `esp0`
-- of the TSS and the calls `switch_task(prev, next)` made so far.
structure Scheduler where
  task : List Task
  currentTask : Option Nat
  nextTaskId : Nat
  kernelTimerMs : BitVec 32
  esp0 : Nat
  switches : List (Nat × Nat)

-- What ends a run: `current_task` null or out of the list, or the wait of `schedule`.
inductive SchedulerFault where
  | nullTask
  | strayTask
  | halts
  deriving DecidableEq

-- The test of both loops of `schedule`.
def Task.passedOver (t : Task) : Bool := t.state == .completed || t.state == .blocked

-- One round of the timer's loop that unblocks the tasks whose sleep has expired
def Task.unblock (now : BitVec 32) (t : Task) : Task :=
  if t.state = .blocked ∧ t.wakeTick ≤ now then { t with state := .ready } else t

namespace Scheduler

-- `*current_task`, with the task's place
def current (s : Scheduler) : Except SchedulerFault (Nat × Task) :=
  match s.currentTask with
  | none => .error .nullTask
  | some i =>
      match s.task[i]? with
      | none => .error .strayTask
      | some t => .ok (i, t)

def update (s : Scheduler) (i : Nat) (f : Task → Task) : Scheduler :=
  { s with task := s.task.modify i f }

def setState (s : Scheduler) (i : Nat) (state : TaskState) : Scheduler :=
  s.update i fun t => { t with state }

-- What `init_task`, `create_task` and `create_user_task_from_elf` fill a new task with.
def newTask (mem pid priority : Nat) (isUser : Bool) (userEip userEsp : BitVec 32) : Task where
  mem
  pid
  state := .ready
  isUser
  userEip
  userEsp
  priority
  timeSlice := priority
  wakeTick := 0

-- `next_taskId` is a `uint16_t`.
def takeTaskId (s : Scheduler) : Scheduler := { s with nextTaskId := (s.nextTaskId + 1) % 65536 }

-- The walk to the end of the list starts at `task`. Malloc's null as the last `next` leaves
-- the list as it is.
def append (s : Scheduler) (t : Task) : Except SchedulerFault Scheduler :=
  if s.task.isEmpty then .error .nullTask
  else if t.mem = 0 then .ok s
  else .ok { s with task := s.task ++ [t] }

-- `task` and `current_task` are null when malloc gave null.
def initTask (s : Scheduler) (mem : Nat) : Scheduler :=
  { s.takeTaskId with
    task := if mem = 0 then [] else [newTask mem s.nextTaskId LOW_TASK false 0 0]
    currentTask := if mem = 0 then none else some 0 }

def createTask (s : Scheduler) (mem : Nat) : Except SchedulerFault Scheduler :=
  s.takeTaskId.append (newTask mem s.nextTaskId CRITICAL_TASK false 0 0)

-- `USER_STACK_VIRT + PAGE_SIZE`
def USER_ESP : BitVec 32 := 0x00601000

-- `create_user_task_from_elf` once `elf_load` has succeeded with `entry`
def createUserTask (s : Scheduler) (mem : Nat) (entry : BitVec 32) :
    Except SchedulerFault Scheduler :=
  s.takeTaskId.append (newTask mem s.nextTaskId MEDIUM_TASK true entry USER_ESP)

-- The `do … while` of `schedule`, from the task at `i` on. Back at `start` with nothing to
-- run, the code waits on `hlt` with the interrupts on. A walk ends within `fuel` tasks.
def select (tasks : List Task) (start : Nat) : (fuel i : Nat) → Except SchedulerFault (Nat × Task)
  | 0, _ => .error .halts
  | fuel + 1, i =>
      let j := Cyclic.next tasks.length i
      match tasks[j]? with
      | none => .error .strayTask
      | some t =>
          if t.passedOver then
            if j = start then .error .halts else select tasks start fuel j
          else .ok (j, t)

-- The state of the task that gives way
def demote (s : Scheduler) (prev : Nat) (t : Task) : Scheduler :=
  if t.passedOver then s else s.setState prev .paused

-- `current_task->state = TASK_RUNNIG`, `tss_set_kernel_stack` and `switch_task`
def dispatch (s : Scheduler) (prev next : Nat) (t : Task) : Scheduler :=
  { s.setState next .runnig with
    currentTask := some next
    esp0 := u32 (t.mem + SIZEOF_TASK + STACK_SIZE)
    switches := s.switches ++ [(prev, next)] }

def schedule (s : Scheduler) : Except SchedulerFault Scheduler := do
  let (prev, t) ← s.current
  let s := s.demote prev t
  let (next, t) ← select s.task prev s.task.length prev
  return s.dispatch prev next t

-- `kernel_timer_ms += 10` and the loop over the list
def tick (s : Scheduler) : Scheduler :=
  { s with
    kernelTimerMs := s.kernelTimerMs + 10
    task := s.task.map (Task.unblock (s.kernelTimerMs + 10)) }

-- The tick that uses up the slice of the current task gives it a new one and reschedules.
def timerIrq0Handler (s : Scheduler) : Except SchedulerFault Scheduler := do
  let s := s.tick
  let (i, t) ← s.current
  let slice := t.timeSlice - 1
  if slice = 0 then schedule (s.update i fun t => { t with timeSlice := t.priority })
  else return s.update i fun t => { t with timeSlice := slice }

def syscallSleep (s : Scheduler) (ms : BitVec 32) : Except SchedulerFault Scheduler := do
  if ms = 0 then return s
  let (i, _) ← s.current
  schedule (s.update i fun t => { t with wakeTick := s.kernelTimerMs + ms, state := .blocked })

def syscallExit (s : Scheduler) : Except SchedulerFault Scheduler := do
  let (i, _) ← s.current
  schedule (s.setState i .completed)

-- The task stays in `for (;;)` afterwards.
def taskExit (s : Scheduler) : Except SchedulerFault Scheduler := do
  let (i, _) ← s.current
  return s.setState i .completed

-- What the running task calls, and the interrupt that falls between any two of its steps.
inductive Event where
  | createTask (mem : Nat)
  | createUserTask (mem : Nat) (entry : BitVec 32)
  | schedule
  | timerIrq0Handler
  | syscallSleep (ms : BitVec 32)
  | syscallExit
  | taskExit

def exec (s : Scheduler) : Event → Except SchedulerFault Scheduler
  | .createTask mem => s.createTask mem
  | .createUserTask mem entry => s.createUserTask mem entry
  | .schedule => s.schedule
  | .timerIrq0Handler => s.timerIrq0Handler
  | .syscallSleep ms => s.syscallSleep ms
  | .syscallExit => s.syscallExit
  | .taskExit => s.taskExit

end Scheduler

end ToyKernel
