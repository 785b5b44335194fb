import ToyKernel.Hal
import ToyKernel.Scheduler.Advance

namespace ToyKernel.Hal

open Library Scheduler

-- Where `current_task` is while the boot code runs after init_task: it runs as the head task,
-- and in its own call of schedule() it has gone on from there.
def Placed (length : Nat) (currentTask : Option Nat) : Point → Prop
  | .enabled | .setPit | .initTask => False
  | .userTask | .schedule | .returned => currentTask = some 0
  | .demote prev | .start prev => prev = 0 ∧ currentTask = some 0
  | .halt prev start => prev = 0 ∧ start = 0 ∧ currentTask = some 0
  | .advance prev start | .compare prev start | .test prev start =>
      prev = 0 ∧ start = 0 ∧ ∃ i, currentTask = some i ∧ i < length
  | .mark prev | .switchTask prev => prev = 0 ∧ ∃ i, currentTask = some i ∧ i < length
  | .wrap prev start past =>
      prev = 0 ∧ start = 0 ∧ past < length ∧
        currentTask = if past + 1 < length then some (past + 1) else none

-- The invariant: before init_task is done; with the boot code running; or with its context
-- kept in the head task, to be gone on with when that is switched to.
inductive Inv (b : Boot) : Prop where
  | early (hpoint : b.point = .enabled ∨ b.point = .setPit ∧ b.interrupts = false ∨ b.point = .initTask)
      (hrunning : b.running = true)
  | here (hhead : CanRun b.sched.task 0) (hrunning : b.running = true)
      (hplaced : Placed b.sched.task.length b.sched.currentTask b.point)
  | away (hsound : b.sched.Sound) (hrunning : b.running = false)
      (hcurrent : b.sched.currentTask ≠ some 0)
      (hplaced : Placed b.sched.task.length (some 0) b.point)

-- The points at which a tick does no harm: not before `current_task` is set, and not between
-- the read of the last task's `next` and the wrap.
def Point.Spares (length : Nat) : Point → Prop
  | .enabled | .initTask => False
  | .wrap _ _ past => past + 1 < length
  | _ => True

-- Nor may a tick use up the time slice of a task that HAL_Initialize's own schedule() has
-- chosen and not yet switched to.
def Spared (b : Boot) : Event → Prop
  | .tick =>
      b.point.Spares b.sched.task.length ∧
        (b.running = true → ∀ i ∈ b.sched.currentTask, i ≠ 0 →
          ∀ t ∈ b.sched.task[i]?, 1 < t.timeSlice)
  | _ => True

instance (length : Nat) (point : Point) : Decidable (point.Spares length) := by
  cases point <;> unfold Point.Spares <;> infer_instance

instance (b : Boot) (e : Event) : Decidable (Spared b e) :=
  match e with
  | .step | .call _ => inferInstanceAs (Decidable True)
  | .tick =>
      inferInstanceAs (Decidable (b.point.Spares b.sched.task.length ∧
        (b.running = true → ∀ i ∈ b.sched.currentTask, i ≠ 0 → ∀ t ∈ b.sched.task[i]?, 1 < t.timeSlice)))

variable {p : Params} {b b' : Boot} {length length' : Nat} {currentTask : Option Nat} {point : Point}

theorem Placed.listed (h : Placed length currentTask point) (hpos : 0 < length)
    (hspares : point.Spares length) :
    ∃ i, currentTask = some i ∧ i < length := by
  cases point with
  | enabled => exact h.elim
  | setPit => exact h.elim
  | initTask => exact h.elim
  | userTask => exact ⟨0, h, hpos⟩
  | schedule => exact ⟨0, h, hpos⟩
  | returned => exact ⟨0, h, hpos⟩
  | demote prev => exact ⟨0, h.2, hpos⟩
  | start prev => exact ⟨0, h.2, hpos⟩
  | halt prev start => exact ⟨0, h.2.2, hpos⟩
  | advance prev start => exact h.2.2
  | compare prev start => exact h.2.2
  | test prev start => exact h.2.2
  | mark prev => exact h.2
  | switchTask prev => exact h.2
  | wrap prev start past =>
      exact ⟨past + 1, h.2.2.2.trans (if_pos hspares), hspares⟩

-- Tasks may be added while the boot code waits.
theorem Placed.grow {i : Nat} (h : Placed length (some i) point) (hle : length ≤ length') :
    Placed length' (some i) point := by
  have hbound : (∃ j, some i = some j ∧ j < length) → ∃ j, some i = some j ∧ j < length' :=
    fun ⟨j, hj, hlt⟩ => ⟨j, hj, by omega⟩
  cases point with
  | enabled => exact h
  | setPit => exact h
  | initTask => exact h
  | userTask => exact h
  | schedule => exact h
  | returned => exact h
  | demote prev => exact h
  | start prev => exact h
  | halt prev start => exact h
  | advance prev start => exact ⟨h.1, h.2.1, hbound h.2.2⟩
  | compare prev start => exact ⟨h.1, h.2.1, hbound h.2.2⟩
  | test prev start => exact ⟨h.1, h.2.1, hbound h.2.2⟩
  | mark prev => exact ⟨h.1, hbound h.2⟩
  | switchTask prev => exact ⟨h.1, hbound h.2⟩
  | wrap prev start past =>
      obtain ⟨hprev, hstart, hpast, hcurrent⟩ := h
      refine ⟨hprev, hstart, by omega, ?_⟩
      split at hcurrent
      case isTrue hlt =>
        rw [if_pos (by omega)]
        exact hcurrent
      case isFalse => cases hcurrent

section Settle

variable {sched : Scheduler} {c j : Nat}

theorem settle_same (h : sched.switches = b.sched.switches) : b.settle sched = .ok { b with sched } := by
  unfold Boot.settle
  rw [h, List.drop_length]

theorem settle_switch (h : sched.switches = b.sched.switches ++ [(c, j)])
    (hhead : b.running = true → c = 0) :
    b.settle sched = .ok { b with sched, running := j == 0 } := by
  unfold Boot.settle
  rw [h, List.drop_left]
  have hours : (b.running && decide (c ≠ 0)) = false := by
    cases hr : b.running with
    | false => rfl
    | true => simp [hhead hr]
  simp only [hours]
  rfl

-- A switch away from the head task keeps the boot code's context in it; one to it resumes it.
theorem inv_switched (hsound : sched.Sound) (hj : sched.currentTask = some j)
    (hplaced : Placed sched.task.length (some 0) b.point) :
    Inv { b with sched, running := j == 0 } := by
  by_cases hback : j = 0
  · subst hback
    refine .here hsound.head rfl ?_
    change Placed sched.task.length sched.currentTask b.point
    rwa [hj]
  · refine .away hsound (by simpa using hback) ?_ hplaced
    change sched.currentTask ≠ some 0
    rw [hj]
    simpa using hback

-- The boot code is interrupted: it goes on, or its context is kept in the head task.
theorem settle_here (hrunning : b.running = true) {i : Nat} (hcurrent : b.sched.currentTask = some i)
    (hplaced : Placed b.sched.task.length (some i) b.point) (hadv : Advances b.sched sched)
    (hkeeps : i ≠ 0 → sched.switches = b.sched.switches ∧ sched.currentTask = b.sched.currentTask) :
    ∃ b', b.settle sched = .ok b' ∧ Inv b' := by
  have hsame : sched.switches = b.sched.switches ∧ sched.currentTask = b.sched.currentTask →
      ∃ b', b.settle sched = .ok b' ∧ Inv b' := by
    rintro ⟨hlog, hcurrent'⟩
    refine ⟨_, settle_same hlog, .here hadv.sound.head hrunning ?_⟩
    change Placed sched.task.length sched.currentTask b.point
    rw [hcurrent', hcurrent]
    exact hplaced.grow hadv.grows
  rcases hadv.once with h | ⟨c, j, hc, hj, hlog⟩
  · exact hsame h
  · by_cases hi : i = 0
    · subst hi
      obtain rfl : 0 = c := Option.some.inj (hcurrent.symm.trans hc)
      exact ⟨_, settle_switch hlog (fun _ => rfl), inv_switched hadv.sound hj (hplaced.grow hadv.grows)⟩
    · exact hsame (hkeeps hi)

-- While the boot code waits the others go on, until the head task is switched to.
theorem settle_away (hrunning : b.running = false) (hcurrent : b.sched.currentTask ≠ some 0)
    (hplaced : Placed b.sched.task.length (some 0) b.point) (hadv : Advances b.sched sched) :
    ∃ b', b.settle sched = .ok b' ∧ Inv b' := by
  have hplaced' := hplaced.grow hadv.grows
  rcases hadv.once with ⟨hlog, hcurrent'⟩ | ⟨c, j, hc, hj, hlog⟩
  · refine ⟨_, settle_same hlog, .away hadv.sound hrunning ?_ hplaced'⟩
    change sched.currentTask ≠ some 0
    rwa [hcurrent']
  · exact ⟨_, settle_switch hlog (fun h => by simp [hrunning] at h), inv_switched hadv.sound hj hplaced'⟩

end Settle

section Step

theorem lift_ok {α : Type} (a : α) : lift (.ok a : Except SchedulerFault α) = .ok a := rfl

theorem runs_of_lt {s : Scheduler} {i : Nat} (hcurrent : s.currentTask = some i) (hi : i < s.task.length) :
    ∃ t, s.Runs i t := ⟨_, hcurrent, List.getElem?_eq_getElem hi⟩

theorem taskAt_eq {s : Scheduler} {i : Nat} {t : Task} (h : s.Runs i t) : taskAt s i = .ok t := by
  unfold taskAt
  rw [h.2]

theorem canRun_setState {s : Scheduler} {i j : Nat} (h : CanRun s.task i) :
    CanRun (s.setState j .runnig).task i := by
  obtain ⟨t, ht, hrun⟩ := h
  unfold CanRun setState
  rw [update_getElem?, ht]
  split
  · exact ⟨_, rfl, rfl⟩
  · exact ⟨t, rfl, hrun⟩

section Statements

variable {s : Scheduler} {interrupts : Bool}

-- The user task is created behind the head task.
theorem step_userTask (p : Params) (hhead : CanRun s.task 0) (hcurrent : s.currentTask = some 0) :
    ∃ b', (⟨s, .userTask, interrupts, true⟩ : Boot).step p = .ok b' ∧ Inv b' := by
  obtain ⟨mem, userTask⟩ := p
  cases userTask with
  | none => exact ⟨_, rfl, .here hhead rfl hcurrent⟩
  | some task =>
      obtain ⟨mem, entry⟩ := task
      obtain ⟨s', hs', hhead', -, hcurrent', -⟩ := append_sound (s := s.takeTaskId)
        (u := newTask mem s.nextTaskId MEDIUM_TASK true entry USER_ESP) hhead
      have hcreate : s.createUserTask mem entry = .ok s' := hs'
      refine ⟨⟨s', .schedule, interrupts, true⟩, ?_, .here hhead' rfl (hcurrent'.trans hcurrent)⟩
      simp only [Boot.step, hcreate, lift_ok]
      rfl

-- schedule() remembers the current task and takes its state away.
theorem step_schedule (p : Params) (hhead : CanRun s.task 0) (hcurrent : s.currentTask = some 0) :
    ∃ b', (⟨s, .schedule, interrupts, true⟩ : Boot).step p = .ok b' ∧ Inv b' := by
  obtain ⟨t, hruns⟩ := runs_of_lt hcurrent hhead.lt_length
  refine ⟨⟨s, .demote 0, interrupts, true⟩, ?_, .here hhead rfl ⟨rfl, hcurrent⟩⟩
  simp only [Boot.step, hruns.current_eq, lift_ok]
  rfl

theorem step_demote (p : Params) (hhead : CanRun s.task 0) (hcurrent : s.currentTask = some 0) :
    ∃ b', (⟨s, .demote 0, interrupts, true⟩ : Boot).step p = .ok b' ∧ Inv b' := by
  obtain ⟨t, hruns⟩ := runs_of_lt hcurrent hhead.lt_length
  refine ⟨⟨s.demote 0 t, .start 0, interrupts, true⟩, ?_, .here (hhead.demote hruns.2) rfl ⟨rfl, ?_⟩⟩
  · simp only [Boot.step, taskAt_eq hruns, lift_ok]
    rfl
  · change (s.demote 0 t).currentTask = some 0
    unfold demote
    split <;> exact hcurrent

-- The search starts at the head task.
theorem step_start (p : Params) (hhead : CanRun s.task 0) (hcurrent : s.currentTask = some 0) :
    ∃ b', (⟨s, .start 0, interrupts, true⟩ : Boot).step p = .ok b' ∧ Inv b' := by
  have hpos := hhead.lt_length
  obtain ⟨t, hruns⟩ := runs_of_lt hcurrent hpos
  refine ⟨⟨s, .advance 0 0, interrupts, true⟩, ?_, .here hhead rfl ⟨rfl, rfl, 0, hcurrent, hpos⟩⟩
  simp only [Boot.step, hruns.current_eq, lift_ok]
  rfl

theorem step_advance (p : Params) {i : Nat} (hhead : CanRun s.task 0) (hcurrent : s.currentTask = some i)
    (hi : i < s.task.length) :
    ∃ b', (⟨s, .advance 0 0, interrupts, true⟩ : Boot).step p = .ok b' ∧ Inv b' := by
  obtain ⟨t, hruns⟩ := runs_of_lt hcurrent hi
  refine ⟨⟨{ s with currentTask := next s.task i }, .wrap 0 0 i, interrupts, true⟩, ?_,
    .here hhead rfl ⟨rfl, rfl, hi, rfl⟩⟩
  simp only [Boot.step, hruns.current_eq, lift_ok]
  rfl

-- Behind the last task the search goes on with the head task.
theorem step_wrap (p : Params) {past : Nat} (hhead : CanRun s.task 0) (hpos : 0 < s.task.length)
    (hcurrent : s.currentTask = if past + 1 < s.task.length then some (past + 1) else none) :
    ∃ b', (⟨s, .wrap 0 0 past, interrupts, true⟩ : Boot).step p = .ok b' ∧ Inv b' := by
  refine ⟨_, rfl, .here hhead rfl ⟨rfl, rfl, ?_⟩⟩
  simp only
  by_cases hlt : past + 1 < s.task.length
  · exact ⟨past + 1, by rw [hcurrent, if_pos hlt]; rfl, hlt⟩
  · refine ⟨0, ?_, hpos⟩
    rw [hcurrent, if_neg hlt]
    unfold head
    cases hl : s.task with
    | nil => simp [hl] at hpos
    | cons => rfl

-- All tasks are tried; the head task can always run.
theorem step_halt (p : Params) (hhead : CanRun s.task 0) (hpos : 0 < s.task.length)
    (hcurrent : s.currentTask = some 0) :
    ∃ b', (⟨s, .halt 0 0, interrupts, true⟩ : Boot).step p = .ok b' ∧ Inv b' := by
  obtain ⟨t, ht, hrun⟩ := hhead
  have hruns : s.Runs 0 t := ⟨hcurrent, ht⟩
  refine ⟨⟨s, .test 0 0, false, true⟩, ?_, .here ⟨t, ht, hrun⟩ rfl ⟨rfl, rfl, 0, hcurrent, hpos⟩⟩
  simp only [Boot.step, hruns.current_eq, lift_ok]
  change (if t.passedOver = true then _ else _) = _
  rw [hrun]
  rfl

-- A task that is passed over is followed by the next one.
theorem step_test (p : Params) {i : Nat} (hhead : CanRun s.task 0) (hcurrent : s.currentTask = some i)
    (hi : i < s.task.length) :
    ∃ b', (⟨s, .test 0 0, interrupts, true⟩ : Boot).step p = .ok b' ∧ Inv b' := by
  obtain ⟨t, hruns⟩ := runs_of_lt hcurrent hi
  simp only [Boot.step, hruns.current_eq, lift_ok]
  cases hp : t.passedOver with
  | true =>
      refine ⟨⟨s, .advance 0 0, interrupts, true⟩, ?_, .here hhead rfl ⟨rfl, rfl, i, hcurrent, hi⟩⟩
      change (if t.passedOver = true then _ else _) = _
      rw [hp]
      rfl
  | false =>
      refine ⟨⟨s, .mark 0, interrupts, true⟩, ?_, .here hhead rfl ⟨rfl, i, hcurrent, hi⟩⟩
      change (if t.passedOver = true then _ else _) = _
      rw [hp]
      rfl

-- The task that was found is to run.
theorem step_mark (p : Params) {i : Nat} (hhead : CanRun s.task 0) (hcurrent : s.currentTask = some i)
    (hi : i < s.task.length) :
    ∃ b', (⟨s, .mark 0, interrupts, true⟩ : Boot).step p = .ok b' ∧ Inv b' := by
  obtain ⟨t, hruns⟩ := runs_of_lt hcurrent hi
  refine ⟨⟨s.setState i .runnig, .switchTask 0, interrupts, true⟩, ?_,
    .here (canRun_setState hhead) rfl ⟨rfl, i, hcurrent, ?_⟩⟩
  · simp only [Boot.step, hruns.current_eq, lift_ok]
    rfl
  · change i < (s.update i _).task.length
    rwa [update_length]

-- The boot code goes on, or waits in the head task for its turn.
theorem step_switchTask (p : Params) {i : Nat} (hhead : CanRun s.task 0) (hcurrent : s.currentTask = some i)
    (hi : i < s.task.length) :
    ∃ b', (⟨s, .switchTask 0, interrupts, true⟩ : Boot).step p = .ok b' ∧ Inv b' := by
  obtain ⟨t, hruns⟩ := runs_of_lt hcurrent hi
  let s' : Scheduler :=
    { s with
      esp0 := u32 (t.mem + SIZEOF_TASK + STACK_SIZE)
      switches := s.switches ++ [(0, i)] }
  have hsettle := settle_switch (b := ⟨s, .returned, interrupts, true⟩)
    (show s'.switches = _ from rfl) (fun _ => rfl)
  refine ⟨⟨s', .returned, interrupts, i == 0⟩, ?_, ?_⟩
  · simp only [Boot.step, hruns.current_eq, lift_ok]
    exact hsettle
  · by_cases hback : i = 0
    · subst hback
      exact .here hhead rfl hcurrent
    · have hsound : s'.Sound := ⟨⟨i, t, hcurrent, hruns.2⟩, hhead⟩
      have hother : s'.currentTask ≠ some 0 := by
        change s.currentTask ≠ some 0
        rw [hcurrent]
        simpa using hback
      have haway : (i == 0) = false := by simpa using hback
      exact .away hsound haway hother rfl

end Statements

-- One statement of the boot code after init_task
theorem step_here (p : Params) (hhead : CanRun b.sched.task 0) (hrunning : b.running = true)
    (hplaced : Placed b.sched.task.length b.sched.currentTask b.point) :
    ∃ b', b.step p = .ok b' ∧ Inv b' := by
  have hpos := hhead.lt_length
  obtain ⟨sched, point, interrupts, running⟩ := b
  simp only at hhead hrunning hplaced hpos
  subst hrunning
  cases point with
  | enabled => exact hplaced.elim
  | setPit => exact hplaced.elim
  | initTask => exact hplaced.elim
  | returned => exact ⟨_, rfl, .here hhead rfl hplaced⟩
  | userTask => exact step_userTask p hhead hplaced
  | schedule => exact step_schedule p hhead hplaced
  | demote prev =>
      obtain ⟨rfl, hcurrent⟩ := hplaced
      exact step_demote p hhead hcurrent
  | start prev =>
      obtain ⟨rfl, hcurrent⟩ := hplaced
      exact step_start p hhead hcurrent
  | advance prev start =>
      obtain ⟨rfl, rfl, i, hcurrent, hi⟩ := hplaced
      exact step_advance p hhead hcurrent hi
  | wrap prev start past =>
      obtain ⟨rfl, rfl, -, hcurrent⟩ := hplaced
      exact step_wrap p hhead hpos hcurrent
  | compare prev start =>
      obtain ⟨rfl, rfl, hcurrent⟩ := hplaced
      by_cases hfull : sched.currentTask = some 0
      · exact ⟨⟨sched, .halt 0 0, true, true⟩, if_pos hfull, .here hhead rfl ⟨rfl, rfl, hfull⟩⟩
      · exact ⟨⟨sched, .test 0 0, interrupts, true⟩, if_neg hfull, .here hhead rfl ⟨rfl, rfl, hcurrent⟩⟩
  | halt prev start =>
      obtain ⟨rfl, rfl, hcurrent⟩ := hplaced
      exact step_halt p hhead hpos hcurrent
  | test prev start =>
      obtain ⟨rfl, rfl, i, hcurrent, hi⟩ := hplaced
      exact step_test p hhead hcurrent hi
  | mark prev =>
      obtain ⟨rfl, i, hcurrent, hi⟩ := hplaced
      exact step_mark p hhead hcurrent hi
  | switchTask prev =>
      obtain ⟨rfl, i, hcurrent, hi⟩ := hplaced
      exact step_switchTask p hhead hcurrent hi

end Step

section Run

theorem step_inv (hmem : p.mem ≠ 0) (h : Inv b) (hrun : b.running = true) :
    ∃ b', b.step p = .ok b' ∧ Inv b' := by
  cases h with
  | early hpoint hrunning =>
      obtain ⟨sched, point, interrupts, running⟩ := b
      rcases hpoint with h | ⟨h, -⟩ | h
      · simp only at h
        subst h
        exact ⟨_, rfl, .early (.inr (.inl ⟨rfl, rfl⟩)) hrunning⟩
      · simp only at h
        subst h
        exact ⟨_, rfl, .early (.inr (.inr rfl)) hrunning⟩
      · simp only at h
        subst h
        have hvalid := initTask_valid sched hmem
        exact ⟨_, rfl, .here hvalid.head hrunning (if_neg hmem)⟩
  | here hhead hrunning hplaced => exact step_here p hhead hrunning hplaced
  | away hsound hrunning =>
      rw [hrun] at hrunning
      cases hrunning

-- A tick that is spared finds a current task and leaves everything in order.
theorem tick_inv (h : Inv b) (hpossible : Possible b .tick) (hspared : Spared b .tick) :
    b.sched.CurrentListed ∧ ∃ b', exec p b .tick = .ok b' ∧ Inv b' := by
  obtain ⟨hspares, hslice⟩ := hspared
  have hexec : ∀ {sched : Scheduler}, b.sched.timerIrq0Handler = .ok sched →
      exec p b .tick = b.settle sched := by
    intro sched hs
    change (lift b.sched.timerIrq0Handler >>= _) = _
    rw [hs]
    rfl
  cases h with
  | early hpoint hrunning =>
      rcases hpoint with h | ⟨-, h⟩ | h
      · rw [h] at hspares
        exact hspares.elim
      · rw [hpossible hrunning] at h
        cases h
      · rw [h] at hspares
        exact hspares.elim
  | here hhead hrunning hplaced =>
      obtain ⟨i, hcurrent, hi⟩ := hplaced.listed hhead.lt_length hspares
      obtain ⟨t, hruns⟩ := runs_of_lt hcurrent hi
      obtain ⟨sched, hs, hadv, hkeeps⟩ := timerIrq0Handler_sound ⟨⟨i, t, hruns⟩, hhead⟩ hruns
      rw [hcurrent] at hplaced
      refine ⟨⟨i, t, hruns⟩, ?_⟩
      rw [hexec hs]
      exact settle_here hrunning hcurrent hplaced hadv fun hi => hkeeps (hslice hrunning i hruns.1 hi t hruns.2)
  | away hsound hrunning hcurrent hplaced =>
      obtain ⟨i, t, hruns⟩ := hsound.listed
      obtain ⟨sched, hs, hadv, -⟩ := timerIrq0Handler_sound hsound hruns
      refine ⟨⟨i, t, hruns⟩, ?_⟩
      rw [hexec hs]
      exact settle_away hrunning hcurrent hplaced hadv

theorem call_inv {e : Scheduler.Event} (h : Inv b) (hpossible : Possible b (.call e)) :
    ∃ b', exec p b (.call e) = .ok b' ∧ Inv b' := by
  have hboth : b.running = false ∧ b.sched.Enabled e := by
    cases e with
    | timerIrq0Handler => exact hpossible.elim
    | createTask mem => exact hpossible
    | createUserTask mem entry => exact hpossible
    | schedule => exact hpossible
    | syscallSleep ms => exact hpossible
    | syscallExit => exact hpossible
    | taskExit => exact hpossible
  obtain ⟨hrun, henabled⟩ := hboth
  cases h with
  | early hpoint hrunning =>
      rw [hrun] at hrunning
      cases hrunning
  | here hhead hrunning =>
      rw [hrun] at hrunning
      cases hrunning
  | away hsound hrunning hcurrent hplaced =>
      obtain ⟨sched, hs, hadv⟩ := exec_advances hsound henabled
      have hexec : exec p b (.call e) = b.settle sched := by
        change (lift (Scheduler.exec b.sched e) >>= _) = _
        rw [hs]
        rfl
      rw [hexec]
      exact settle_away hrunning hcurrent hplaced hadv

theorem exec_inv {e : Event} (hmem : p.mem ≠ 0) (h : Inv b) (hpossible : Possible b e)
    (hspared : Spared b e) : FindsTask b e ∧ ∃ b', exec p b e = .ok b' ∧ Inv b' := by
  cases e with
  | step => exact ⟨trivial, step_inv hmem h hpossible⟩
  | tick => exact tick_inv h hpossible hspared
  | call e => exact ⟨trivial, call_inv h hpossible⟩

theorem findsTask_of_inv {events : List Event} (hmem : p.mem ≠ 0) (h : Inv b)
    (hmet : AllMet (exec p) (fun b e => Possible b e ∧ Spared b e) b events) :
    AllMet (exec p) FindsTask b events ∧ ∃ b', run (exec p) b events = .ok b' := by
  induction events generalizing b with
  | nil => exact ⟨trivial, b, rfl⟩
  | cons e events ih =>
      obtain ⟨hfinds, mid, hmid, hinv⟩ := exec_inv hmem h hmet.1.1 hmet.1.2
      obtain ⟨hall, b', hrun⟩ := ih hinv (hmet.2 mid hmid)
      refine ⟨⟨hfinds, ?_⟩, b', ?_⟩
      · intro mid' hmid'
        obtain rfl : mid = mid' := Except.ok.inj (hmid.symm.trans hmid')
        exact hall
      · rw [run_cons hmid, hrun]

-- From the `sti` of init_idt_32 on, in every interleaving in which every tick is spared, each
-- tick finds a current task in the list, and so does each schedule() it calls: none fails.
theorem findsTask_of_met (hmem : p.mem ≠ 0) {events : List Event}
    (hmet : AllMet (exec p) (fun b e => Possible b e ∧ Spared b e) start events) :
    AllMet (exec p) FindsTask start events ∧ ∃ b, run (exec p) start events = .ok b :=
  findsTask_of_inv hmem (.early (.inl rfl) rfl) hmet

def sampleParams : Params where
  mem := 4096
  userTask := some (8192, 0x400000)

-- Ticks while the module is loaded, inside schedule(), and once the user task runs, which ends
-- in time and gives way to the boot code
theorem findsTask_of_met_sample :
    let events := [.step, .step, .step, .tick, .step, .tick, .step, .step, .tick, .step, .step, .tick,
      .step, .tick, .step, .step, .step, .tick, .step, .tick, .call .syscallExit, .tick]
    AllMet (exec sampleParams) FindsTask start events ∧
      ∃ b, run (exec sampleParams) start events = .ok b :=
  findsTask_of_met (by decide) (by decide)

-- The tick right after the `sti` of init_idt_32 finds no task.
theorem not_findsTask_sample :
    ¬ ∀ (p : Params) (events : List Event), AllMet (exec p) Possible start events →
      AllMet (exec p) FindsTask start events := by
  intro h
  obtain ⟨i, t, hcurrent, -⟩ := (h sampleParams [.tick] (by decide)).1
  cases hcurrent

end Run

end ToyKernel.Hal
