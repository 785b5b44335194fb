import ToyKernel.Scheduler.States

namespace ToyKernel

namespace Hal

open Library Scheduler

-- Where HAL_Initialize is, from the `sti` of init_idt_32 on. The points inside its call of
-- schedule() carry the locals `prev` and `start`; `advance` to `test` are its loop, and `wrap`
-- comes right after `current_task = current_task->next`, which was read in the task `past`.
inductive Point where
  | enabled
  | setPit
  | initTask
  | userTask
  | schedule
  | demote (prev : Nat)
  | start (prev : Nat)
  | advance (prev start : Nat)
  | wrap (prev start past : Nat)
  | compare (prev start : Nat)
  | halt (prev start : Nat)
  | test (prev start : Nat)
  | mark (prev : Nat)
  | switchTask (prev : Nat)
  | returned
  deriving DecidableEq

-- Malloc's answer to init_task, and what create_user_task_from_elf appends: nothing without
-- a module or when elf_load fails.
structure Params where
  mem : Nat
  userTask : Option (Nat × BitVec 32)

-- The boot code runs, with or without interrupts, or its context is kept in the `esp` of the
-- head task, as which it runs from init_task on.
structure Boot where
  sched : Scheduler
  point : Point
  interrupts : Bool
  running : Bool

inductive BootFault where
  | scheduler (fault : SchedulerFault)
  -- the boot code's context is kept in a task other than the head
  | strayContext
  deriving DecidableEq

def lift {α : Type} : Except SchedulerFault α → Except BootFault α
  | .ok a => .ok a
  | .error e => .error (.scheduler e)

-- `*prev`
def taskAt (s : Scheduler) (i : Nat) : Except SchedulerFault Task :=
  match s.task[i]? with
  | none => .error .strayTask
  | some t => .ok t

-- A call of switch_task made since the state `b` keeps the running context in `prev` and
-- goes on with that of `next`.
def Boot.settle (b : Boot) (sched : Scheduler) : Except BootFault Boot :=
  match sched.switches.drop b.sched.switches.length with
  | [] => .ok { b with sched }
  | (prev, next) :: _ =>
      if b.running && prev ≠ 0 then .error .strayContext
      else .ok { b with sched, running := next == 0 }

def next (tasks : List Task) (i : Nat) : Option Nat := if i + 1 < tasks.length then some (i + 1) else none

-- The head of the list
def head (tasks : List Task) : Option Nat := if tasks.isEmpty then none else some 0

-- The next statement of HAL_Initialize
def Boot.step (p : Params) (b : Boot) : Except BootFault Boot :=
  match b.point with
  | .enabled => .ok { b with interrupts := false, point := .setPit }
  | .setPit => .ok { b with interrupts := true, point := .initTask }
  | .initTask => .ok { b with sched := b.sched.initTask p.mem, point := .userTask }
  | .userTask =>
      match p.userTask with
      | none => .ok { b with point := .schedule }
      | some (mem, entry) => do
          let sched ← lift (b.sched.createUserTask mem entry)
          return { b with sched, point := .schedule }
  | .schedule => do
      let (prev, _) ← lift b.sched.current
      return { b with point := .demote prev }
  | .demote prev => do
      let t ← lift (taskAt b.sched prev)
      return { b with sched := b.sched.demote prev t, point := .start prev }
  | .start prev => do
      let (start, _) ← lift b.sched.current
      return { b with point := .advance prev start }
  | .advance prev start => do
      let (i, _) ← lift b.sched.current
      return { b with
        sched := { b.sched with currentTask := next b.sched.task i }
        point := .wrap prev start i }
  | .wrap prev start _ =>
      let currentTask := if b.sched.currentTask.isNone then head b.sched.task else b.sched.currentTask
      .ok { b with sched := { b.sched with currentTask }, point := .compare prev start }
  | .compare prev start =>
      if b.sched.currentTask = some start then
        .ok { b with interrupts := true, point := .halt prev start }
      else .ok { b with point := .test prev start }
  | .halt prev start => do
      let (_, t) ← lift b.sched.current
      if t.passedOver then return b
      else return { b with interrupts := false, point := .test prev start }
  | .test prev start => do
      let (_, t) ← lift b.sched.current
      if t.passedOver then return { b with point := .advance prev start }
      else return { b with point := .mark prev }
  | .mark prev => do
      let (i, _) ← lift b.sched.current
      return { b with sched := b.sched.setState i .runnig, point := .switchTask prev }
  | .switchTask prev => do
      let (i, t) ← lift b.sched.current
      { b with point := .returned }.settle
        { b.sched with
          esp0 := u32 (t.mem + SIZEOF_TASK + STACK_SIZE)
          switches := b.sched.switches ++ [(prev, i)] }
  | .returned => .ok b

-- The boot code goes on, the timer interrupts whatever runs, or another task calls the kernel.
inductive Event where
  | step
  | tick
  | call (e : Scheduler.Event)

def exec (p : Params) (b : Boot) : Event → Except BootFault Boot
  | .step => b.step p
  | .tick => do
      let sched ← lift b.sched.timerIrq0Handler
      b.settle sched
  | .call e => do
      let sched ← lift (Scheduler.exec b.sched e)
      b.settle sched

-- What can come next: the boot code while it runs; the timer unless the boot code has turned
-- interrupts off; calls, as in every run of the scheduler, while the boot code does not run.
def Possible (b : Boot) : Event → Prop
  | .step => b.running = true
  | .tick => b.running = true → b.interrupts = true
  | .call .timerIrq0Handler => False
  | .call e => b.running = false ∧ b.sched.Enabled e

instance (b : Boot) (e : Event) : Decidable (Possible b e) :=
  match e with
  | .step => inferInstanceAs (Decidable (b.running = true))
  | .tick => inferInstanceAs (Decidable (b.running = true → b.interrupts = true))
  | .call .timerIrq0Handler => inferInstanceAs (Decidable False)
  | .call (.createTask mem) =>
      inferInstanceAs (Decidable (b.running = false ∧ b.sched.Enabled (.createTask mem)))
  | .call (.createUserTask mem entry) =>
      inferInstanceAs (Decidable (b.running = false ∧ b.sched.Enabled (.createUserTask mem entry)))
  | .call .schedule => inferInstanceAs (Decidable (b.running = false ∧ b.sched.Enabled .schedule))
  | .call (.syscallSleep ms) =>
      inferInstanceAs (Decidable (b.running = false ∧ b.sched.Enabled (.syscallSleep ms)))
  | .call .syscallExit => inferInstanceAs (Decidable (b.running = false ∧ b.sched.Enabled .syscallExit))
  | .call .taskExit => inferInstanceAs (Decidable (b.running = false ∧ b.sched.Enabled .taskExit))

-- From the `sti` of init_idt_32 on, with the statics as the clearing of the bss left them
def start : Boot where
  sched := statics
  point := .enabled
  interrupts := true
  running := true

-- The timer handler finds a current task, and in the list.
def FindsTask (b : Boot) : Event → Prop
  | .tick => b.sched.CurrentListed
  | _ => True

end Hal

end ToyKernel
