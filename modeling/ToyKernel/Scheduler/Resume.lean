import ToyKernel.Scheduler.Switch

namespace ToyKernel.Switch

open Library ByteMemory StackMachine

-- The two halves of `switch_task`: on the stack of `prev`, and on that of `next`
def saving : List Instruction :=
  [.load .eax .esp 4, .load .edx .esp 8,
    .pushfd, .push .ebp, .push .ebx, .push .esi, .push .edi,
    .store .eax 12 .esp, .load .esp .edx 12]

def restoring : List Instruction := [.pop .edi, .pop .esi, .pop .ebx, .pop .ebp, .popfd, .ret]

theorem switchTask_eq : switchTask = saving ++ restoring := rfl

-- The words that a call leaves on the stack, in the order of the pushes
def savedWords (c : Context) : List (BitVec 32) :=
  [c.eip, c.eflags.bits, c.ebp, c.ebx, c.esi, c.edi]

-- The memory after the first half, with the stack pointer kept for `prev`
def savedMemory (m : Machine) (ret : BitVec 32) (prev : Nat) : Memory :=
  store32 (pushAll m.memory m.esp.toNat (savedWords (context { m with eip := ret })))
    (espField prev) (m.esp - 24)

section Halves

variable {m : Machine} {ret prev next : BitVec 32}

theorem execAll_saving (m : Machine) (ret : BitVec 32) (hroom : 24 ≤ m.esp.toNat)
    (hargs : m.esp.toNat + 8 ≤ 4294967296)
    (hprev : load32 m.memory m.esp.toNat = prev) (hnext : load32 m.memory (m.esp.toNat + 4) = next)
    (hprevBound : prev.toNat + SIZEOF_TASK ≤ 4294967296)
    (hnextBound : next.toNat + SIZEOF_TASK ≤ 4294967296) :
    Instruction.execAll saving (m.push ret) =
      { m with
        eax := prev
        edx := next
        esp := load32 (savedMemory m ret prev.toNat) (espField next.toNat)
        memory := savedMemory m ret prev.toNat } := by
  have hret := toNat_sub_four (a := m.esp) (by omega)
  have hback : m.esp - 4 + 4 = m.esp := BitVec.sub_add_cancel _ _
  have hback' : m.esp - 4 + 8 = m.esp + 4 := by
    rw [show (8 : BitVec 32) = 4 + 4 from rfl, ← BitVec.add_assoc, hback]
  have harg := toNat_add_four (a := m.esp) (by omega)
  have hprevField : (prev + 12).toNat = espField prev.toNat :=
    toNat_add_word (n := 12) (by unfold SIZEOF_TASK at hprevBound; omega)
  have hnextField : (next + 12).toNat = espField next.toNat :=
    toNat_add_word (n := 12) (by unfold SIZEOF_TASK at hnextBound; omega)
  -- the arguments lie above the return address
  have hloads : Instruction.execAll [.load .eax .esp 4, .load .edx .esp 8] (m.push ret) =
      { m.push ret with eax := prev, edx := next } := by
    simp only [Instruction.execAll, List.foldl_cons, List.foldl_nil, Instruction.exec, Machine.get,
      Machine.set, Machine.push, hback, hback', harg]
    rw [load32_store32_of_apart (by omega), load32_store32_of_apart (by omega), hprev, hnext]
  have hpushes := Machine.pushes_eq { m with eax := prev, edx := next }
    (savedWords (context { m with eip := ret })) (by simpa [savedWords] using hroom)
  change Instruction.execAll [.store .eax 12 .esp, .load .esp .edx 12]
    (Instruction.execAll [.pushfd, .push .ebp, .push .ebx, .push .esi, .push .edi]
      (Instruction.execAll [.load .eax .esp 4, .load .edx .esp 8] (m.push ret))) = _
  rw [hloads]
  change Instruction.execAll [.store .eax 12 .esp, .load .esp .edx 12]
    (Machine.pushes { m with eax := prev, edx := next } (savedWords (context { m with eip := ret }))) = _
  rw [hpushes]
  simp only [Instruction.execAll, List.foldl_cons, List.foldl_nil, Instruction.exec, Machine.get,
    Machine.set, hprevField, hnextField]
  rfl

-- The second half takes a task's words off its stack.
theorem execAll_restoring {edi esi ebx ebp flags : BitVec 32} (hroom : m.esp.toNat + 24 < 4294967296)
    (hwords : Words m.memory m.esp.toNat [edi, esi, ebx, ebp, flags, ret]) :
    Instruction.execAll restoring m =
      { m with edi, esi, ebx, ebp, eflags := Eflags.load flags, eip := ret, esp := m.esp + 24 } := by
  obtain ⟨hedi, hesi, hebx, hebp, hflags, hret, -⟩ := hwords
  have h1 := toNat_add_four (a := m.esp) (by omega)
  have h2 := toNat_add_four (a := m.esp + 4) (by omega)
  have h3 := toNat_add_four (a := m.esp + 4 + 4) (by omega)
  have h4 := toNat_add_four (a := m.esp + 4 + 4 + 4) (by omega)
  have h5 := toNat_add_four (a := m.esp + 4 + 4 + 4 + 4) (by omega)
  rw [h1] at h2
  rw [h2] at h3
  rw [h3] at h4
  rw [h4] at h5
  have hsum : m.esp + 4 + 4 + 4 + 4 + 4 + 4 = m.esp + 24 := by
    simp only [BitVec.add_assoc]
    rfl
  simp only [restoring, Instruction.execAll, List.foldl_cons, List.foldl_nil, Instruction.exec,
    Machine.drop, Machine.set, Machine.top, h1, h2, h3, h4, h5, hedi, hesi, hebx, hebp, hflags,
    hret, hsum]

end Halves

-- The words on the stack of a task that waits, from its kept stack pointer on
def Waiting.words (sym : Symbols) : Waiting → List (BitVec 32)
  | .fresh entry => (firstFrame sym entry).reverse
  | .called c => (savedWords c).reverse

section Parked

variable {ι : Type} {tasks : Tasks ι} {sym : Symbols} {m : Machine} {memory memory' : Memory}
variable {i prev next : ι} {w : Waiting} {ret entry : BitVec 32}

-- The memory holds all that the task `i` needs to go on.
def Parked (sym : Symbols) (tasks : Tasks ι) (memory : Memory) (i : ι) (w : Waiting) : Prop :=
  ∃ sp, load32 memory (espField (tasks.mem i)) = BitVec.ofNat 32 sp ∧
    tasks.low i ≤ sp ∧ sp + 32 ≤ tasks.high i ∧ Words memory sp (w.words sym) ∧
    ∀ c, w = .called c → c.esp = BitVec.ofNat 32 (sp + 24)

theorem Waiting.length_words (w : Waiting) (sym : Symbols) : (w.words sym).length ≤ 8 := by
  cases w <;> simp [words, firstFrame, savedWords]

theorem Parked.congr (h : Parked sym tasks memory i w)
    (hsame : ∀ b, tasks.Owns i b → memory' b = memory b) : Parked sym tasks memory' i w := by
  obtain ⟨sp, hesp, hlow, hhigh, hwords, hcontext⟩ := h
  have hlen := w.length_words sym
  refine ⟨sp, ?_, hlow, hhigh, ?_, hcontext⟩
  · rw [← hesp]
    exact load32_congr fun b hlo hhi => hsame b (.inr ⟨hlo, hhi⟩)
  · exact hwords.congr fun b hlo hhi => (hsame b (.inl ⟨by omega, by omega⟩)).symm

theorem parked_fillTask (htasks : tasks.Apart) (hlow : tasks.low i = tasks.mem i + SIZEOF_TASK)
    (hhigh : tasks.high i = stackTop (tasks.mem i)) (memory : Memory) (entry : BitVec 32) :
    Parked sym tasks (fillTask sym memory (tasks.mem i) entry) i (.fresh entry) := by
  have hlen : (firstFrame sym entry).length = 8 := rfl
  have hfield := htasks.fields_apart i i
  simp only [stackTop, SIZEOF_TASK, STACK_SIZE] at hlow hhigh
  have hwords := words_pushAll (show Words memory (stackTop (tasks.mem i)) [] from trivial)
    (firstFrame sym entry) (by rw [hlen]; unfold stackTop STACK_SIZE; omega)
  rw [hlen, List.append_nil] at hwords
  refine ⟨stackTop (tasks.mem i) - 32, load32_store32_self _ _ _, ?_, ?_, ?_, ?_⟩
  · simp only [stackTop, SIZEOF_TASK, STACK_SIZE]
    omega
  · simp only [stackTop, SIZEOF_TASK, STACK_SIZE]
    omega
  · refine hwords.congr fun b hlo hhi => (store32_of_ne ?_ _).symm
    simp only [stackTop, SIZEOF_TASK, STACK_SIZE] at hlo
    unfold espField at hfield ⊢
    omega
  · intro c hc
    cases hc

-- A new task is written into its own memory only.
theorem fillTask_of_apart (htasks : tasks.Apart) {j : ι} (hne : i ≠ j)
    (hlow : tasks.low i = tasks.mem i + SIZEOF_TASK) (hhigh : tasks.high i = stackTop (tasks.mem i))
    {b : Nat} (hb : tasks.Owns j b) : fillTask sym memory (tasks.mem i) entry b = memory b := by
  have hlen : (firstFrame sym entry).length = 8 := rfl
  have hstacks := htasks.stacks_apart i j hne
  have hfields := htasks.fields_apart i j
  have hfields' := htasks.fields_apart j i
  have hrecords := htasks.records_apart i j hne
  simp only [stackTop, SIZEOF_TASK, STACK_SIZE] at hlow hhigh
  unfold Tasks.Owns at hb
  change store32 (pushAll memory _ _) (espField (tasks.mem i)) _ b = _
  rw [store32_of_ne (by omega), pushAll_of_apart]
  · rw [hlen]
    unfold stackTop STACK_SIZE
    omega
  · rw [hlen]
    simp only [stackTop, SIZEOF_TASK, STACK_SIZE]
    omega

-- What `switch_task` asks of the place it is called at
structure CanCall (tasks : Tasks ι) (m : Machine) (prev next : ι) : Prop where
  room : tasks.low prev + 24 ≤ m.esp.toNat
  args : m.esp.toNat + 8 ≤ tasks.high prev
  prev : load32 m.memory m.esp.toNat = BitVec.ofNat 32 (tasks.mem prev)
  next : load32 m.memory (m.esp.toNat + 4) = BitVec.ofNat 32 (tasks.mem next)

theorem canCall_of_allowed {s : State ι} (h : Allowed tasks s (.switchTask next ret)) :
    CanCall tasks s.machine s.running next where
  room := h.1
  args := h.2.1
  prev := h.2.2.1
  next := h.2.2.2.1

theorem Tasks.Apart.mem_toNat (htasks : tasks.Apart) (i : ι) :
    (BitVec.ofNat 32 (tasks.mem i)).toNat = tasks.mem i := by
  have := htasks.mem_bound i
  unfold SIZEOF_TASK at this
  rw [BitVec.toNat_ofNat]
  omega

-- What the first half writes belongs to `prev`.
theorem savedMemory_of_apart (htasks : tasks.Apart) (hcall : CanCall tasks m prev next)
    (hne : prev ≠ i) {b : Nat} (hb : tasks.Owns i b) :
    savedMemory m ret (tasks.mem prev) b = m.memory b := by
  have hstacks := htasks.stacks_apart prev i hne
  have hfields := htasks.fields_apart prev i
  have hfields' := htasks.fields_apart i prev
  have hrecords := htasks.records_apart prev i hne
  have hroom := hcall.room
  have hargs := hcall.args
  have hlen : (savedWords (context { m with eip := ret })).length = 6 := rfl
  unfold Tasks.Owns at hb
  unfold savedMemory
  rw [store32_of_ne (by omega), pushAll_of_apart (by omega) (by omega)]

theorem parked_saved (htasks : tasks.Apart) (hcall : CanCall tasks m prev next) :
    Parked sym tasks (savedMemory m ret (tasks.mem prev)) prev
      (.called (context { m with eip := ret })) := by
  have hroom := hcall.room
  have hargs := hcall.args
  have hfields := htasks.fields_apart prev prev
  have hlen : (savedWords (context { m with eip := ret })).length = 6 := rfl
  have hrev : (savedWords (context { m with eip := ret })).reverse.length = 6 := rfl
  have hwords := words_pushAll (show Words m.memory m.esp.toNat [] from trivial)
    (savedWords (context { m with eip := ret })) (by omega)
  rw [hlen, List.append_nil] at hwords
  have hesp : m.esp - 24 = BitVec.ofNat 32 (m.esp.toNat - 24) := by
    apply BitVec.eq_of_toNat_eq
    have hlt := m.esp.isLt
    rw [BitVec.toNat_ofNat, Nat.mod_eq_of_lt (by omega)]
    exact toNat_sub_word (n := 24) (by omega)
  refine ⟨m.esp.toNat - 24, ?_, by omega, by omega, ?_, ?_⟩
  · rw [← hesp]
    exact load32_store32_self _ _ _
  · exact hwords.congr fun b hlo hhi => (store32_of_ne (by omega) _).symm
  · intro c hc
    obtain rfl := Waiting.called.inj hc
    rw [show m.esp.toNat - 24 + 24 = m.esp.toNat by omega]
    simp [context]

-- A machine at the start of a task whose entry function is `entry`
def Enters (sym : Symbols) (entry : BitVec 32) (m : Machine) : Prop :=
  m.eip = sym.taskEntryTrampoline ∧
    let m := Instruction.execAll taskEntryTrampoline m
    m.eip = entry ∧ m.eflags.interrupts = true ∧ m.edi = 0 ∧ m.esi = 0 ∧ m.ebx = 0 ∧ m.ebp = 0 ∧
      m.top = sym.taskExit

-- A task that waited goes on.
def Resumes (sym : Symbols) (m : Machine) : Waiting → Prop
  | .fresh entry => Enters sym entry m
  | .called c => context m = c

theorem resumes_restoring (htasks : tasks.Apart) (hpark : Parked sym tasks m.memory i w)
    (hesp : m.esp = load32 m.memory (espField (tasks.mem i))) :
    Resumes sym (Instruction.execAll restoring m) w ∧
      (Instruction.execAll restoring m).memory = m.memory := by
  obtain ⟨sp, hsp, hlow, hhigh, hwords, hcontext⟩ := hpark
  have hbound := htasks.stack_bound i
  rw [hsp] at hesp
  have hespNat : m.esp.toNat = sp := by
    rw [hesp, BitVec.toNat_ofNat]
    omega
  have hafter : m.esp + 24 = BitVec.ofNat 32 (sp + 24) := by
    rw [hesp, BitVec.ofNat_add]
    rfl
  rw [← hespNat] at hwords
  cases w with
  | called c =>
      have hrestore := execAll_restoring (m := m) (by omega)
        (show Words m.memory m.esp.toNat [c.edi, c.esi, c.ebx, c.ebp, c.eflags.bits, c.eip] from hwords)
      rw [hrestore]
      refine ⟨?_, rfl⟩
      have hc := hcontext c rfl
      change context _ = c
      obtain ⟨eip, esp, ebp, ebx, esi, edi, eflags⟩ := c
      simp only [context, Eflags.load_bits, hafter, ← hc]
  | fresh entry =>
      have hsplit : (firstFrame sym entry).reverse =
          [0, 0, 0, 0, 0x200, sym.taskEntryTrampoline] ++ [entry, sym.taskExit] := rfl
      rw [Waiting.words, hsplit] at hwords
      obtain ⟨hframe, hentry, hexit, -⟩ := hwords.append
      rw [execAll_restoring (m := m) (by omega) hframe]
      refine ⟨⟨rfl, ?_⟩, rfl⟩
      -- the trampoline's `ret` takes the entry function off the stack
      have h24 : (m.esp + 24).toNat = m.esp.toNat + 24 := toNat_add_word (n := 24) (by omega)
      have h28 : (m.esp + 24 + 4).toNat = m.esp.toNat + 24 + 4 := by
        rw [toNat_add_four (by omega), h24]
      change load32 m.memory (m.esp.toNat + 24) = entry at hentry
      change load32 m.memory (m.esp.toNat + 24 + 4) = sym.taskExit at hexit
      refine ⟨?_, Eflags.interrupts_sti _, rfl, rfl, rfl, rfl, ?_⟩
      · change load32 m.memory (m.esp + 24).toNat = entry
        rw [h24, hentry]
      · change load32 m.memory (m.esp + 24 + 4).toNat = sym.taskExit
        rw [h28, hexit]

theorem callSwitchTask_spec (htasks : tasks.Apart) (hcall : CanCall tasks m prev next)
    (hpark : Parked sym tasks (savedMemory m ret (tasks.mem prev)) next w) :
    Resumes sym (callSwitchTask m ret) w ∧
      (callSwitchTask m ret).memory = savedMemory m ret (tasks.mem prev) := by
  have hprev := htasks.mem_toNat prev
  have hnext := htasks.mem_toNat next
  have hbound := htasks.stack_bound prev
  have hsaving := execAll_saving m ret (by have := hcall.room; omega)
    (by have := hcall.args; omega) hcall.prev hcall.next
    (by rw [hprev]; exact htasks.mem_bound prev) (by rw [hnext]; exact htasks.mem_bound next)
  rw [hprev, hnext] at hsaving
  unfold callSwitchTask
  rw [switchTask_eq, Instruction.execAll_append, hsaving]
  exact resumes_restoring htasks hpark rfl

end Parked

section Run

variable {ι : Type} [DecidableEq ι] {tasks : Tasks ι} {sym : Symbols} {s : State ι} {e : Event ι}

-- Every task that waits has in memory all that it needs.
def Waits (sym : Symbols) (tasks : Tasks ι) (s : State ι) : Prop :=
  ∀ i w, i ≠ s.running → s.waiting i = some w → Parked sym tasks s.machine.memory i w

-- Before the second half of `switch_task`, the calling task waits like all others.
theorem parked_switchTask (htasks : tasks.Apart) {next : ι} {ret : BitVec 32}
    (hwaits : Waits sym tasks s) (hcall : CanCall tasks s.machine s.running next) {i : ι} {w : Waiting}
    (hw : (exec sym tasks s (.switchTask next ret)).waiting i = some w) :
    Parked sym tasks (savedMemory s.machine ret (tasks.mem s.running)) i w := by
  change Function.update s.waiting s.running _ i = some w at hw
  by_cases hi : i = s.running
  · subst hi
    rw [Function.update_self] at hw
    obtain rfl := Option.some.inj hw
    exact parked_saved htasks hcall
  · rw [Function.update_of_ne hi] at hw
    exact (hwaits i w hi hw).congr fun b hb =>
      savedMemory_of_apart htasks hcall (fun h => hi h.symm) hb

theorem isSome_waiting_next (sym : Symbols) {next : ι} {ret : BitVec 32}
    (h : Allowed tasks s (.switchTask next ret)) :
    ∃ w, (exec sym tasks s (.switchTask next ret)).waiting next = some w := by
  change ∃ w, Function.update s.waiting s.running _ next = some w
  by_cases hnext : next = s.running
  · rw [hnext, Function.update_self]
    exact ⟨_, rfl⟩
  · rw [Function.update_of_ne hnext]
    rcases h.2.2.2.2 with heq | hsome
    · exact absurd heq hnext
    · exact Option.isSome_iff_exists.mp hsome

theorem exec_switchTask (htasks : tasks.Apart) {next : ι} {ret : BitVec 32}
    (hwaits : Waits sym tasks s) (h : Allowed tasks s (.switchTask next ret)) :
    ∃ w, (exec sym tasks s (.switchTask next ret)).waiting next = some w ∧
      Resumes sym (exec sym tasks s (.switchTask next ret)).machine w ∧
      (exec sym tasks s (.switchTask next ret)).machine.memory =
        savedMemory s.machine ret (tasks.mem s.running) := by
  obtain ⟨w, hw⟩ := isSome_waiting_next sym h
  have hcall := canCall_of_allowed h
  exact ⟨w, hw, callSwitchTask_spec htasks hcall (parked_switchTask htasks hwaits hcall hw)⟩

theorem Waits.step (htasks : tasks.Apart) (hwaits : Waits sym tasks s) (h : Allowed tasks s e) :
    Waits sym tasks (exec sym tasks s e) := by
  intro i w hi hw
  cases e with
  | compute machine => exact (hwaits i w hi hw).congr fun b hb => h i hi b hb
  | fillTask j entry =>
      obtain ⟨hj, hlow, hhigh⟩ := h
      change Function.update s.waiting j _ i = some w at hw
      by_cases hij : i = j
      · subst hij
        rw [Function.update_self] at hw
        obtain rfl := Option.some.inj hw
        exact parked_fillTask htasks hlow hhigh _ entry
      · rw [Function.update_of_ne hij] at hw
        exact (hwaits i w hi hw).congr fun b hb =>
          fillTask_of_apart htasks (fun h => hij h.symm) hlow hhigh hb
  | switchTask next ret =>
      obtain ⟨-, -, -, hmemory⟩ := exec_switchTask htasks hwaits h
      rw [hmemory]
      exact parked_switchTask htasks hwaits (canCall_of_allowed h) hw

theorem Waits.run (htasks : tasks.Apart) {events : List (Event ι)} (hwaits : Waits sym tasks s)
    (h : AllSteps (exec sym tasks) (Allowed tasks) s events) :
    Waits sym tasks (events.foldl (exec sym tasks) s) := by
  induction events generalizing s with
  | nil => exact hwaits
  | cons e events ih => exact ih (hwaits.step htasks h.1) h.2

-- The task that runs at the start; no other is there yet.
def State.start (machine : Machine) (running : ι) : State ι where
  machine
  running
  waiting := fun _ => none

-- At the end of every run that makes a call, the task it switches to goes on as it was left
-- at its own last call, or enters its entry function.
theorem switchTask_resumes (htasks : tasks.Apart) (machine : Machine) (running : ι)
    (events : List (Event ι)) {next : ι} {ret : BitVec 32}
    (h : AllSteps (exec sym tasks) (Allowed tasks) (State.start machine running)
      (events ++ [.switchTask next ret])) :
    let s := (events ++ [Event.switchTask next ret]).foldl (exec sym tasks) (State.start machine running)
    ∃ w, s.waiting next = some w ∧ Resumes sym s.machine w := by
  rw [allSteps_append] at h
  have hstart : Waits sym tasks (State.start machine running) := by
    intro i w _ hw
    cases hw
  obtain ⟨w, hw, hresumes, -⟩ := exec_switchTask htasks (hstart.run htasks h.1) h.2.1
  simp only [List.foldl_append, List.foldl_cons, List.foldl_nil]
  exact ⟨w, hw, hresumes⟩

-- The boot stack below 0x90000 and a task from malloc at 0x200000
def sampleTasks : Tasks (Fin 2) where
  mem := fun i => if i = 0 then 0x1FE000 else 0x200000
  low := fun i => if i = 0 then 0x80000 else 0x200020
  high := fun i => if i = 0 then 0x90000 else 0x201020

-- The head task about to switch to the other one
def sampleMachine : Machine where
  eax := 0
  edx := 0
  ebx := 1
  ebp := 0x8FFFC
  esi := 2
  edi := 3
  esp := 0x8FFF0
  eflags := Eflags.load 0x200
  eip := 0x101000
  memory := store32 (store32 (fun _ => 0) 0x8FFF0 0x1FE000) 0x8FFF4 0x200000

def sampleSymbols : Symbols where
  taskExit := 0x102000
  taskEntryTrampoline := 0x103000

theorem sampleTasks_apart : sampleTasks.Apart where
  stack_bound := by decide
  mem_bound := by decide
  stacks_apart := by decide
  fields_apart := by decide
  records_apart := by decide

theorem switchTask_resumes_sample :
    let s := [Event.fillTask 1 0x104000, .switchTask 1 0x101010].foldl
      (exec sampleSymbols sampleTasks) (State.start sampleMachine 0)
    ∃ w, s.waiting 1 = some w ∧ Resumes sampleSymbols s.machine w := by
  refine switchTask_resumes sampleTasks_apart sampleMachine 0 [.fillTask 1 0x104000] ?_
  refine ⟨⟨by decide, rfl, rfl⟩, ⟨?_, trivial⟩⟩
  refine ⟨by decide, by decide, by decide, by decide, .inr rfl⟩

end Run

end ToyKernel.Switch
