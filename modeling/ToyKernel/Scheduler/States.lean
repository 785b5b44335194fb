import ToyKernel.Library.Run
import ToyKernel.Scheduler.Steps

namespace ToyKernel.Scheduler

open Library

def CurrentListed (s : Scheduler) : Prop := ∃ c t, s.Runs c t

-- At most one task is `TASK_RUNNIG`, and it is `current_task`.
def OneRunnig (s : Scheduler) : Prop :=
  ∀ i t, s.task[i]? = some t → t.state = .runnig → s.currentTask = some i

-- Since the state `s`, the task at `i` has been switched to.
def Selects (s s' : Scheduler) (i : Nat) : Prop :=
  ∃ p, (p, i) ∈ s'.switches.drop s.switches.length

-- The running task is in the loop of `task_exit`.
def Exiting (s : Scheduler) : Prop :=
  (s.currentTask.bind fun i => s.task[i]?).map Task.state = some .completed

-- The timer may interrupt anything. A task in the loop of `task_exit` calls nothing more,
-- and the idle task at the head of the list neither sleeps nor exits.
def Enabled (s : Scheduler) : Event → Prop
  | .timerIrq0Handler => True
  | .syscallSleep ms => ¬ s.Exiting ∧ (ms ≠ 0 → s.currentTask ≠ some 0)
  | .syscallExit | .taskExit => ¬ s.Exiting ∧ s.currentTask ≠ some 0
  | .createTask _ | .createUserTask _ _ | .schedule => ¬ s.Exiting

instance (s : Scheduler) (e : Event) : Decidable (s.Enabled e) := by
  unfold Enabled Exiting
  cases e <;> infer_instance

-- All that `schedule` needs to come to an end
structure Sound (s : Scheduler) : Prop where
  listed : s.CurrentListed
  head : CanRun s.task 0

-- What holds also between the parts of an event.
structure Ordered (s : Scheduler) : Prop extends Sound s where
  runnig : s.OneRunnig

-- The invariant between events.
structure Valid (s : Scheduler) : Prop extends Ordered s where
  awake : ∀ c t, s.Runs c t → t.state ≠ .blocked

-- The task at `i` is asleep in both states, until the same time.
def StillBlocked (s' : Scheduler) (i : Nat) (t : Task) : Prop :=
  ∃ t', s'.task[i]? = some t' ∧ t'.state = .blocked ∧ t'.wakeTick = t.wakeTick

-- The loop of the timer handler makes the blocked task `t` ready.
def Wakes (s : Scheduler) (t : Task) : Prop := t.wakeTick ≤ s.kernelTimerMs + 10

instance (s : Scheduler) (t : Task) : Decidable (s.Wakes t) :=
  inferInstanceAs (Decidable (t.wakeTick ≤ s.kernelTimerMs + 10))

-- Calls of `switch_task` one after the other, each by the task that the last one switched to
inductive Linked : Option Nat → List (Nat × Nat) → Option Nat → Prop where
  | nil (c : Option Nat) : Linked c [] c
  | cons {p n : Nat} {rest : List (Nat × Nat)} {c : Option Nat} (h : Linked (some n) rest c) :
      Linked (some p) ((p, n) :: rest) c

theorem Linked.append {a b c : Option Nat} {first second : List (Nat × Nat)} (h : Linked a first b)
    (h' : Linked b second c) : Linked a (first ++ second) c := by
  induction h with
  | nil => exact h'
  | cons _ ih => exact .cons (ih h')

-- The calls of `switch_task` between two states
def Switched (s s' : Scheduler) : Prop :=
  ∃ new, s'.switches = s.switches ++ new ∧ Linked s.currentTask new s'.currentTask

theorem switched_same {s s' : Scheduler} (hlog : s'.switches = s.switches)
    (hcurrent : s'.currentTask = s.currentTask) : Switched s s' :=
  ⟨[], by rw [hlog, List.append_nil], hcurrent ▸ .nil _⟩

theorem Switched.trans {s mid s' : Scheduler} (h : Switched s mid) (h' : Switched mid s') :
    Switched s s' := by
  obtain ⟨first, hfirst, hlink⟩ := h
  obtain ⟨second, hsecond, hlink'⟩ := h'
  exact ⟨first ++ second, by rw [hsecond, hfirst, List.append_assoc], hlink.append hlink'⟩

theorem Switched.log {s s' : Scheduler} (h : Switched s s') : s.switches <+: s'.switches := by
  obtain ⟨new, hnew, -⟩ := h
  exact ⟨new, hnew.symm⟩

-- By how much an event moves `kernel_timer_ms` on
def Event.elapsed : Event → BitVec 32
  | .timerIrq0Handler => 10
  | _ => 0

-- What an event does to the clock and to the tasks that have ended or sleep.
structure Moves (s : Scheduler) (e : Event) (s' : Scheduler) : Prop where
  timer : s'.kernelTimerMs = s.kernelTimerMs + e.elapsed
  switched : Switched s s'
  completed : ∀ i t, s.task[i]? = some t → t.state = .completed →
    (∃ t', s'.task[i]? = some t' ∧ t'.state = .completed) ∧ ¬ Selects s s' i
  blocked : ∀ i t, s.task[i]? = some t → t.state = .blocked →
    s'.StillBlocked i t ∧ ¬ Selects s s' i ∨ e = .timerIrq0Handler ∧ s.Wakes t

section Selects

variable {s mid s' : Scheduler} {c i j : Nat} {t : Task} {e : Event}

theorem not_selects (h : s'.switches = s.switches) : ¬ Selects s s' i := by
  rintro ⟨p, hp⟩
  rw [h, List.drop_length] at hp
  cases hp

theorem selects_append (h : s'.switches = s.switches ++ [(c, j)]) : Selects s s' i ↔ i = j := by
  unfold Selects
  rw [h, List.drop_left]
  simp

theorem selects_trans (hfirst : s.switches <+: mid.switches) (hsecond : mid.switches <+: s'.switches) :
    Selects s s' i ↔ Selects s mid i ∨ Selects mid s' i := by
  obtain ⟨first, hfirst⟩ := hfirst
  obtain ⟨second, hsecond⟩ := hsecond
  unfold Selects
  rw [← hsecond, ← hfirst]
  simp [exists_or]

theorem timer_eq (he : e.elapsed = 0) (h : s'.kernelTimerMs = s.kernelTimerMs) :
    s'.kernelTimerMs = s.kernelTimerMs + e.elapsed := by simp [he, h]

theorem Moves.trans (hfirst : Moves s e mid) (hsecond : Moves mid .schedule s') : Moves s e s' where
  timer := by simp [hsecond.timer, hfirst.timer, Event.elapsed]
  switched := hfirst.switched.trans hsecond.switched
  completed := by
    intro i t ht hstate
    obtain ⟨⟨u, hu, hustate⟩, hnot⟩ := hfirst.completed i t ht hstate
    obtain ⟨hend, hnot'⟩ := hsecond.completed i u hu hustate
    rw [selects_trans hfirst.switched.log hsecond.switched.log]
    exact ⟨hend, not_or.mpr ⟨hnot, hnot'⟩⟩
  blocked := by
    intro i t ht hstate
    rcases hfirst.blocked i t ht hstate with ⟨⟨u, hu, hustate, hwake⟩, hnot⟩ | hwakes
    · rcases hsecond.blocked i u hu hustate with ⟨⟨v, hv, hvstate, hvwake⟩, hnot'⟩ | ⟨he, -⟩
      · refine .inl ⟨⟨v, hv, hvstate, hvwake.trans hwake⟩, ?_⟩
        rw [selects_trans hfirst.switched.log hsecond.switched.log]
        exact not_or.mpr ⟨hnot, hnot'⟩
      · cases he
    · exact .inr hwakes

end Selects

section Parts

variable {s : Scheduler} {c : Nat} {t : Task} {f : Task → Task}

theorem Sound.update (hs : s.Sound) (h : s.Runs c t) (hhead : c = 0 → (f t).passedOver = false) :
    (s.update c f).Sound where
  listed := ⟨c, f t, h.update⟩
  head := by
    unfold CanRun
    rw [update_getElem?]
    split
    case isTrue he =>
      subst he
      exact ⟨f t, by rw [h.2]; rfl, hhead rfl⟩
    case isFalse => exact hs.head

theorem Ordered.update (hs : s.Ordered) (h : s.Runs c t)
    (hhead : c = 0 → (f t).passedOver = false) : (s.update c f).Ordered where
  toSound := hs.toSound.update h hhead
  runnig := by
    intro i u hu hstate
    rw [update_getElem?] at hu
    split at hu
    case isTrue he =>
      subst he
      exact h.1
    case isFalse => exact hs.runnig i u hu hstate

-- Work on the running task leaves all others alone.
theorem moves_update (h : s.Runs c t) (hawake : t.state ≠ .blocked)
    (hcompleted : t.state = .completed → (f t).state = .completed) {e : Event}
    (he : e.elapsed = 0) : Moves s e (s.update c f) where
  timer := timer_eq he rfl
  switched := switched_same rfl rfl
  completed := by
    intro i u hu hstate
    refine ⟨?_, not_selects rfl⟩
    rw [update_getElem?, hu]
    split
    case isTrue he =>
      subst he
      obtain rfl : t = u := Option.some.inj (h.2.symm.trans hu)
      exact ⟨f t, rfl, hcompleted hstate⟩
    case isFalse => exact ⟨u, rfl, hstate⟩
  blocked := by
    intro i u hu hstate
    refine .inl ⟨?_, not_selects rfl⟩
    have hne : c ≠ i := by
      rintro rfl
      obtain rfl : t = u := Option.some.inj (h.2.symm.trans hu)
      exact hawake hstate
    exact ⟨u, by rw [update_getElem?, if_neg hne, hu], hstate, rfl⟩

theorem schedule_moves (hs : s.Ordered) :
    ∃ s', s.schedule = .ok s' ∧ s'.Valid ∧ Moves s .schedule s' := by
  obtain ⟨c, t, hruns⟩ := hs.listed
  obtain ⟨j, s', hs', hsched⟩ := schedule_ok hruns ⟨0, hs.head⟩
  obtain ⟨u, -, -, u', hu', hrunnig⟩ := hsched.selected
  have hstays : ∀ i t, s.task[i]? = some t → t.passedOver = true →
      s'.task[i]? = some t ∧ ¬ Selects s s' i := by
    intro i t ht hp
    rw [selects_append hsched.switches]
    exact hsched.passedOver ht hp
  refine ⟨s', hs', ⟨⟨⟨⟨j, u', hsched.current, hu'⟩, hsched.canRun hs.head⟩, ?_⟩, ?_⟩, ?_, ?_, ?_, ?_⟩
  · intro i v hv hstate
    rw [hsched.current, hsched.runnig ?_ hv hstate]
    intro i w hw hw'
    exact Option.some.inj ((hs.runnig i w hw hw').symm.trans hruns.1)
  · intro c' t' hruns'
    obtain ⟨-, rfl⟩ := Runs.unique hruns' ⟨hsched.current, hu'⟩
    rw [hrunnig]
    simp
  · exact timer_eq rfl hsched.timer
  · refine ⟨[(c, j)], hsched.switches, ?_⟩
    rw [hruns.1, hsched.current]
    exact .cons (.nil _)
  · intro i t ht hstate
    obtain ⟨hsame, hnot⟩ := hstays i t ht (by simp [Task.passedOver, hstate])
    exact ⟨⟨t, hsame, hstate⟩, hnot⟩
  · intro i t ht hstate
    obtain ⟨hsame, hnot⟩ := hstays i t ht (by simp [Task.passedOver, hstate])
    exact .inl ⟨⟨t, hsame, hstate, rfl⟩, hnot⟩

theorem tick_sound (hs : s.Sound) : s.tick.Sound where
  listed := by
    obtain ⟨c, t, hc, ht⟩ := hs.listed
    exact ⟨c, _, hc, by rw [tick_getElem?, ht]; rfl⟩
  head := by
    obtain ⟨t, ht, hrun⟩ := hs.head
    refine ⟨t, ?_, hrun⟩
    rw [tick_getElem?, ht, Option.map_some, Task.unblock_passedOver hrun]

theorem tick_ordered (hs : s.Ordered) : s.tick.Ordered where
  toSound := tick_sound hs.toSound
  runnig := by
    intro i t ht hstate
    rw [tick_getElem?] at ht
    obtain ⟨u, hu, rfl⟩ := Option.map_eq_some_iff.mp ht
    rw [Task.unblock_runnig hstate] at hstate
    exact hs.runnig i u hu hstate

theorem tick_moves (s : Scheduler) : Moves s .timerIrq0Handler s.tick where
  timer := rfl
  switched := switched_same rfl rfl
  completed := by
    intro i t ht hstate
    refine ⟨⟨t, ?_, hstate⟩, not_selects rfl⟩
    rw [tick_getElem?, ht, Option.map_some, Task.unblock_of_ne (by simp [hstate])]
  blocked := by
    intro i t ht hstate
    by_cases hw : s.Wakes t
    · exact .inr ⟨rfl, hw⟩
    · refine .inl ⟨⟨t, ?_, hstate, rfl⟩, not_selects rfl⟩
      rw [tick_getElem?, ht, Option.map_some, Task.unblock, if_neg (fun h => hw h.2)]

-- A task at the end of the list leaves the places of the others as they are.
theorem append_moves {u : Task} {e : Event} (hs : s.Valid) (hu : u.state = .ready)
    (he : e.elapsed = 0) :
    ∃ s', s.append u = .ok s' ∧ s'.Valid ∧ Moves s e s' := by
  obtain ⟨c, t, hc, ht⟩ := hs.listed
  have htimer : s.kernelTimerMs = s.kernelTimerMs + e.elapsed := timer_eq he rfl
  have hsame : Moves s e s := by
    refine ⟨htimer, switched_same rfl rfl, fun i t ht hstate => ⟨⟨t, ht, hstate⟩, not_selects rfl⟩, ?_⟩
    exact fun i t ht hstate => .inl ⟨⟨t, ht, hstate, rfl⟩, not_selects rfl⟩
  rw [append_ok ht]
  by_cases hmem : u.mem = 0
  · exact ⟨s, by simp [hmem], hs, hsame⟩
  · have hold : ∀ (i : Nat) (t : Task), s.task[i]? = some t → (s.task ++ [u])[i]? = some t := by
      intro i t ht
      obtain ⟨hi, -⟩ := List.getElem?_eq_some_iff.mp ht
      rw [List.getElem?_append_left hi, ht]
    have hnew : ∀ (i : Nat) (t : Task), (s.task ++ [u])[i]? = some t → t = u ∨ s.task[i]? = some t := by
      intro i t ht
      by_cases hi : i < s.task.length
      · exact .inr (by rwa [List.getElem?_append_left hi] at ht)
      · rw [List.getElem?_append_right (by omega)] at ht
        exact .inl (by simpa using List.mem_of_getElem? ht)
    refine ⟨{ s with task := s.task ++ [u] }, by simp [hmem], ?_, ?_⟩
    · refine ⟨⟨⟨⟨c, t, hc, hold c t ht⟩, ?_⟩, ?_⟩, ?_⟩
      · obtain ⟨v, hv, hrun⟩ := hs.head
        exact ⟨v, hold 0 v hv, hrun⟩
      · intro i v hv hstate
        rcases hnew i v hv with rfl | hv
        · rw [hu] at hstate
          cases hstate
        · exact hs.runnig i v hv hstate
      · rintro c' t' ⟨hc', ht'⟩
        rcases hnew c' t' ht' with rfl | ht'
        · simp [hu]
        · exact hs.awake c' t' ⟨hc', ht'⟩
    · refine ⟨htimer, switched_same rfl rfl, ?_, ?_⟩
      · exact fun i t ht hstate => ⟨⟨t, hold i t ht, hstate⟩, not_selects rfl⟩
      · exact fun i t ht hstate => .inl ⟨⟨t, hold i t ht, hstate, rfl⟩, not_selects rfl⟩

-- Work on the running task, then `schedule`
theorem update_schedule_moves (hs : s.Ordered) (h : s.Runs c t) (hawake : t.state ≠ .blocked)
    (hcompleted : t.state = .completed → (f t).state = .completed)
    (hhead : c = 0 → (f t).passedOver = false) {e : Event} (he : e.elapsed = 0) :
    ∃ s', (s.update c f).schedule = .ok s' ∧ s'.Valid ∧ Moves s e s' := by
  obtain ⟨s', hs', hvalid, hmoves⟩ := schedule_moves (hs.update h hhead)
  exact ⟨s', hs', hvalid, (moves_update h hawake hcompleted he).trans hmoves⟩

theorem timerIrq0Handler_moves (hs : s.Valid) :
    ∃ s', s.timerIrq0Handler = .ok s' ∧ s'.Valid ∧ Moves s .timerIrq0Handler s' := by
  obtain ⟨c, t, hruns⟩ := hs.listed
  have hstate := hs.awake c t hruns
  have htick : s.tick.Runs c t := by
    refine ⟨hruns.1, ?_⟩
    rw [tick_getElem?, hruns.2, Option.map_some, Task.unblock_of_ne hstate]
  have hhead : c = 0 → t.passedOver = false := by
    rintro rfl
    obtain ⟨u, hu, hrun⟩ := hs.head
    obtain rfl : t = u := Option.some.inj (hruns.2.symm.trans hu)
    exact hrun
  have hordered := tick_ordered hs.toOrdered
  rw [timerIrq0Handler_eq htick]
  split
  · obtain ⟨s', hs', hvalid, hmoves⟩ := update_schedule_moves hordered htick
      (f := fun t => { t with timeSlice := t.priority }) hstate id hhead (e := .schedule) rfl
    exact ⟨s', hs', hvalid, (tick_moves s).trans hmoves⟩
  · have hmoves := moves_update htick (f := fun u => { u with timeSlice := t.timeSlice - 1 })
      hstate id (e := .schedule) rfl
    refine ⟨_, rfl, ⟨hordered.update htick hhead, ?_⟩, (tick_moves s).trans hmoves⟩
    intro c' t' hruns'
    obtain ⟨rfl, rfl⟩ := Runs.unique hruns' htick.update
    exact hstate

-- Counting the tasks has no part in what is said of their states.
theorem append_takeTaskId_moves {u : Task} {e : Event} (hs : s.Valid) (hu : u.state = .ready)
    (he : e.elapsed = 0) :
    ∃ s', s.takeTaskId.append u = .ok s' ∧ s'.Valid ∧ Moves s e s' := by
  have hcount : s.takeTaskId.Valid := ⟨⟨⟨hs.listed, hs.head⟩, hs.runnig⟩, hs.awake⟩
  obtain ⟨s', hs', hvalid, hmoves⟩ := append_moves hcount hu he
  exact ⟨s', hs', hvalid, hmoves.timer, hmoves.switched, hmoves.completed, hmoves.blocked⟩

theorem exec_moves {e : Event} (hs : s.Valid) (he : s.Enabled e) :
    ∃ s', exec s e = .ok s' ∧ s'.Valid ∧ Moves s e s' := by
  obtain ⟨c, t, hruns⟩ := hs.listed
  have hawake := hs.awake c t hruns
  -- a task that has ended is in its loop, and the head task is the one that idles
  have hcompleted : ¬ s.Exiting → t.state = .completed → False :=
    fun h hstate => h (by rw [Exiting, hruns.1, Option.bind_some, hruns.2, Option.map_some, hstate])
  have hidle : s.currentTask ≠ some 0 → c = 0 → False := by
    rintro h rfl
    exact h hruns.1
  cases e with
  | createTask mem => exact append_takeTaskId_moves (u := newTask ..) hs rfl rfl
  | createUserTask mem entry => exact append_takeTaskId_moves (u := newTask ..) hs rfl rfl
  | schedule => exact schedule_moves hs.toOrdered
  | timerIrq0Handler => exact timerIrq0Handler_moves hs
  | syscallSleep ms =>
      by_cases hms : ms = 0
      · subst hms
        refine ⟨s, rfl, hs, timer_eq rfl rfl, switched_same rfl rfl, ?_, ?_⟩
        · exact fun i t ht hstate => ⟨⟨t, ht, hstate⟩, not_selects rfl⟩
        · exact fun i t ht hstate => .inl ⟨⟨t, ht, hstate, rfl⟩, not_selects rfl⟩
      · have h := update_schedule_moves hs.toOrdered hruns
          (f := fun t => { t with wakeTick := s.kernelTimerMs + ms, state := .blocked }) hawake
          (fun h => (hcompleted he.1 h).elim) (fun h => (hidle (he.2 hms) h).elim)
          (e := .syscallSleep ms) rfl
        rwa [← syscallSleep_eq hruns hms] at h
  | syscallExit =>
      have h := update_schedule_moves hs.toOrdered hruns (f := fun t => { t with state := .completed })
        hawake (fun _ => rfl) (fun h => (hidle he.2 h).elim) (e := .syscallExit) rfl
      obtain ⟨s', hs', h⟩ := h
      exact ⟨s', (syscallExit_eq hruns).trans hs', h⟩
  | taskExit =>
      refine ⟨_, taskExit_eq hruns, ⟨hs.toOrdered.update hruns fun h => (hidle he.2 h).elim, ?_⟩,
        moves_update hruns hawake (fun _ => rfl) rfl⟩
      intro c' t' hruns'
      obtain ⟨rfl, rfl⟩ := Runs.unique hruns' hruns.update
      simp

end Parts

section Runs

variable {s s' : Scheduler} {events : List Event}

-- Whatever happens in whichever order, no run stops.
theorem run_ok (hs : s.Valid) (hmet : AllMet exec Enabled s events) :
    ∃ s', run exec s events = .ok s' ∧ s'.Valid := by
  induction events generalizing s with
  | nil => exact ⟨s, rfl, hs⟩
  | cons e events ih =>
      obtain ⟨mid, hmid, hvalid, -⟩ := exec_moves hs hmet.1
      rw [run_cons hmid]
      exact ih hvalid (hmet.2 mid hmid)

theorem run_switched (hs : s.Valid) (hmet : AllMet exec Enabled s events)
    (hrun : run exec s events = .ok s') : Switched s s' := by
  induction events generalizing s with
  | nil =>
      cases hrun
      exact switched_same rfl rfl
  | cons e events ih =>
      obtain ⟨mid, hmid, hvalid, hmoves⟩ := exec_moves hs hmet.1
      rw [run_cons hmid] at hrun
      exact hmoves.switched.trans (ih hvalid (hmet.2 mid hmid) hrun)

-- A task that has ended never changes its state and is never chosen again.
theorem run_completed {i : Nat} {t : Task} (hs : s.Valid) (hmet : AllMet exec Enabled s events)
    (hrun : run exec s events = .ok s') (ht : s.task[i]? = some t) (hstate : t.state = .completed) :
    (∃ t', s'.task[i]? = some t' ∧ t'.state = .completed) ∧ ¬ Selects s s' i := by
  induction events generalizing s t with
  | nil =>
      cases hrun
      exact ⟨⟨t, ht, hstate⟩, not_selects rfl⟩
  | cons e events ih =>
      obtain ⟨mid, hmid, hvalid, hmoves⟩ := exec_moves hs hmet.1
      obtain ⟨⟨u, hu, hustate⟩, hnot⟩ := hmoves.completed i t ht hstate
      rw [run_cons hmid] at hrun
      obtain ⟨hend, hnot'⟩ := ih hvalid (hmet.2 mid hmid) hrun hu hustate
      rw [selects_trans hmoves.switched.log
            (run_switched hvalid (hmet.2 mid hmid) hrun).log]
      exact ⟨hend, not_or.mpr ⟨hnot, hnot'⟩⟩

-- The tick that makes the sleeping task at `i` ready, with what the run did before it: up to
-- there the task sleeps and is not chosen.
def WokenFirst (s : Scheduler) (events : List Event) (i : Nat) : Prop :=
  ∃ before after mid, events = before ++ .timerIrq0Handler :: after ∧
    run exec s before = .ok mid ∧ ¬ Selects s mid i ∧
    ∃ t, mid.task[i]? = some t ∧ t.state = .blocked ∧ mid.Wakes t

-- A sleeping task sleeps on until a tick wakes it.
theorem run_blocked {i : Nat} {t : Task} (hs : s.Valid) (hmet : AllMet exec Enabled s events)
    (hrun : run exec s events = .ok s') (ht : s.task[i]? = some t) (hstate : t.state = .blocked) :
    s'.StillBlocked i t ∧ ¬ Selects s s' i ∨ WokenFirst s events i := by
  induction events generalizing s t with
  | nil =>
      cases hrun
      exact .inl ⟨⟨t, ht, hstate, rfl⟩, not_selects rfl⟩
  | cons e events ih =>
      obtain ⟨mid, hmid, hvalid, hmoves⟩ := exec_moves hs hmet.1
      rw [run_cons hmid] at hrun
      rcases hmoves.blocked i t ht hstate with ⟨⟨u, hu, hustate, hwake⟩, hnot⟩ | ⟨rfl, hwakes⟩
      · rcases ih hvalid (hmet.2 mid hmid) hrun hu hustate with ⟨⟨v, hv, hvstate, hvwake⟩, hnot'⟩ | h
        · refine .inl ⟨⟨v, hv, hvstate, hvwake.trans hwake⟩, ?_⟩
          rw [selects_trans hmoves.switched.log
            (run_switched hvalid (hmet.2 mid hmid) hrun).log]
          exact not_or.mpr ⟨hnot, hnot'⟩
        · obtain ⟨before, after, mid', rfl, hbefore, hnot', hwoken⟩ := h
          have hmet' := (hmet.2 mid hmid).left
          refine .inr ⟨e :: before, after, mid', rfl, ?_, ?_, hwoken⟩
          · rw [run_cons hmid, hbefore]
          · rw [selects_trans hmoves.switched.log (run_switched hvalid hmet' hbefore).log]
            exact not_or.mpr ⟨hnot, hnot'⟩
      · exact .inr ⟨[], events, s, rfl, rfl, not_selects rfl, t, ht, hstate, hwakes⟩

theorem initTask_valid (s : Scheduler) {mem : Nat} (hmem : mem ≠ 0) : (s.initTask mem).Valid := by
  have htask : (s.initTask mem).task = [newTask mem s.nextTaskId LOW_TASK false 0 0] := if_neg hmem
  have hcurrent : (s.initTask mem).currentTask = some 0 := if_neg hmem
  have honly : ∀ i t, (s.initTask mem).task[i]? = some t →
      i = 0 ∧ t = newTask mem s.nextTaskId LOW_TASK false 0 0 := by
    intro i t ht
    rw [htask] at ht
    obtain ⟨hi, rfl⟩ := List.getElem?_eq_some_iff.mp ht
    simp only [List.length_singleton, Nat.lt_one_iff] at hi
    subst hi
    exact ⟨rfl, rfl⟩
  refine ⟨⟨⟨⟨0, _, hcurrent, by rw [htask]; rfl⟩, ⟨_, by rw [htask]; rfl, rfl⟩⟩, ?_⟩, ?_⟩
  · intro i t ht hstate
    rw [(honly i t ht).2] at hstate
    cases hstate
  · rintro c t ⟨-, ht⟩
    rw [(honly c t ht).2]
    simp [newTask]

-- From the head task on, each call of `switch_task` is made by the task that the call before
-- it switched to, and the last one switched to `current_task`.
theorem run_linked (start : Scheduler) {mem : Nat} (hmem : mem ≠ 0)
    (hmet : AllMet exec Enabled (start.initTask mem) events)
    (hrun : run exec (start.initTask mem) events = .ok s) :
    ∃ new, s.switches = start.switches ++ new ∧ Linked (some 0) new s.currentTask := by
  have h := run_switched (initTask_valid start hmem) hmet hrun
  have hcurrent : (start.initTask mem).currentTask = some 0 := if_neg hmem
  rwa [Switched, hcurrent] at h

-- After `init_task` has made the head task, every run keeps to the states: `before` leads to
-- any reached state `s`, `after` to any later one.
theorem taskStates_safe (start : Scheduler) {mem : Nat} (hmem : mem ≠ 0) {before after : List Event}
    (hmet : AllMet exec Enabled (start.initTask mem) (before ++ after)) :
    ∃ s s', run exec (start.initTask mem) before = .ok s ∧ run exec s after = .ok s' ∧
      s'.CurrentListed ∧ s'.OneRunnig ∧
      (∀ i t, s.task[i]? = some t → t.state = .completed →
        (∃ t', s'.task[i]? = some t' ∧ t'.state = .completed) ∧ ¬ Selects s s' i) ∧
      (∀ i t, s.task[i]? = some t → t.state = .blocked → Selects s s' i → WokenFirst s after i) := by
  obtain ⟨s, hs, hvalid⟩ := run_ok (initTask_valid start hmem) hmet.left
  have hafter := hmet.right hs
  obtain ⟨s', hs', hvalid'⟩ := run_ok hvalid hafter
  refine ⟨s, s', hs, hs', hvalid'.listed, hvalid'.runnig, ?_, ?_⟩
  · exact fun i t ht hstate => run_completed hvalid hafter hs' ht hstate
  · intro i t ht hstate hselects
    rcases run_blocked hvalid hafter hs' ht hstate with ⟨-, hnot⟩ | hwoken
    · exact absurd hselects hnot
    · exact hwoken

-- The statics before `init_task`
def statics : Scheduler where
  task := []
  currentTask := none
  nextTaskId := 0
  kernelTimerMs := 0
  esp0 := 0
  switches := []

-- Two tasks beside the idle one: the first sleeps, the second exits, ticks follow.
theorem taskStates_safe_sample :
    let before := [.createTask 8192, .createTask 12288, .schedule, .syscallSleep 20]
    let after := [.taskExit, .timerIrq0Handler, .timerIrq0Handler, .timerIrq0Handler]
    ∃ s s', run exec (statics.initTask 4096) before = .ok s ∧ run exec s after = .ok s' ∧
      s'.CurrentListed ∧ s'.OneRunnig ∧
      (∀ i t, s.task[i]? = some t → t.state = .completed →
        (∃ t', s'.task[i]? = some t' ∧ t'.state = .completed) ∧ ¬ Selects s s' i) ∧
      (∀ i t, s.task[i]? = some t → t.state = .blocked → Selects s s' i → WokenFirst s after i) :=
  taskStates_safe statics (by decide) (by decide)

end Runs

end ToyKernel.Scheduler
