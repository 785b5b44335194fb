import ToyKernel.Scheduler.States

namespace ToyKernel.Scheduler

open Library

variable {s s' : Scheduler} {c : Nat} {t : Task} {f : Task → Task}

-- What any event comes to for code that waits in a task: at most one call of `switch_task`,
-- by the task that was running.
structure Advances (s s' : Scheduler) : Prop where
  sound : s'.Sound
  grows : s.task.length ≤ s'.task.length
  once : s'.switches = s.switches ∧ s'.currentTask = s.currentTask ∨
    ∃ c j, s.currentTask = some c ∧ s'.currentTask = some j ∧ s'.switches = s.switches ++ [(c, j)]

theorem Sound.head_idle (hs : s.Sound) (hruns : s.Runs c t) (hc : c = 0) : t.passedOver = false := by
  subst hc
  obtain ⟨u, hu, hrun⟩ := hs.head
  obtain rfl : t = u := Option.some.inj (hruns.2.symm.trans hu)
  exact hrun

theorem schedule_sound (hs : s.Sound) (hruns : s.Runs c t) :
    ∃ j s', s.schedule = .ok s' ∧ s'.Sound ∧ s'.task.length = s.task.length ∧
      s'.currentTask = some j ∧ s'.switches = s.switches ++ [(c, j)] := by
  obtain ⟨j, s', hs', hsched⟩ := schedule_ok hruns ⟨0, hs.head⟩
  obtain ⟨u, -, -, u', hu', -⟩ := hsched.selected
  exact ⟨j, s', hs', ⟨⟨j, u', hsched.current, hu'⟩, hsched.canRun hs.head⟩, hsched.length,
    hsched.current, hsched.switches⟩

-- The same after work on the running task
theorem update_schedule_sound (hs : s.Sound) (hruns : s.Runs c t)
    (hhead : c = 0 → (f t).passedOver = false) :
    ∃ s', (s.update c f).schedule = .ok s' ∧ Advances s s' := by
  obtain ⟨j, s', hs', hsound, hlength, hcurrent, hlog⟩ :=
    schedule_sound (hs.update hruns hhead) hruns.update
  exact ⟨s', hs', hsound, by simp [hlength], .inr ⟨c, j, hruns.1, hcurrent, hlog⟩⟩

-- The handler reschedules only when it uses up the slice of the running task.
theorem timerIrq0Handler_sound (hs : s.Sound) (hruns : s.Runs c t) :
    ∃ s', s.timerIrq0Handler = .ok s' ∧ Advances s s' ∧
      (1 < t.timeSlice → s'.switches = s.switches ∧ s'.currentTask = s.currentTask) := by
  have htick : s.tick.Runs c (t.unblock (s.kernelTimerMs + 10)) := by
    refine ⟨hruns.1, ?_⟩
    rw [tick_getElem?, hruns.2, Option.map_some]
  have hlength : s.tick.task.length = s.task.length := List.length_map ..
  have hslice : (t.unblock (s.kernelTimerMs + 10)).timeSlice = t.timeSlice := by
    unfold Task.unblock
    split <;> rfl
  have hsound := tick_sound hs
  have hidle : c = 0 → (t.unblock (s.kernelTimerMs + 10)).passedOver = false :=
    hsound.head_idle htick
  rw [timerIrq0Handler_eq htick, hslice]
  split
  case isTrue hzero =>
    obtain ⟨s', hs', hadv⟩ := update_schedule_sound hsound htick
      (f := fun t => { t with timeSlice := t.priority }) hidle
    refine ⟨s', hs', ⟨hadv.sound, by rw [← hlength]; exact hadv.grows, hadv.once⟩, fun h => ?_⟩
    omega
  case isFalse =>
    refine ⟨_, rfl, ⟨hsound.update htick hidle, ?_, .inl ⟨rfl, rfl⟩⟩,
      fun _ => ⟨rfl, rfl⟩⟩
    rw [update_length, hlength]

theorem append_sound {u : Task} (hhead : CanRun s.task 0) :
    ∃ s', s.append u = .ok s' ∧ CanRun s'.task 0 ∧ s.task.length ≤ s'.task.length ∧
      s'.currentTask = s.currentTask ∧ s'.switches = s.switches := by
  obtain ⟨t, ht, hrun⟩ := hhead
  obtain ⟨hpos, -⟩ := List.getElem?_eq_some_iff.mp ht
  rw [append_ok ht]
  by_cases hmem : u.mem = 0
  · exact ⟨s, by simp [hmem], ⟨t, ht, hrun⟩, Nat.le_refl _, rfl, rfl⟩
  · refine ⟨{ s with task := s.task ++ [u] }, by simp [hmem], ⟨t, ?_, hrun⟩, by simp, rfl, rfl⟩
    change (s.task ++ [u])[0]? = some t
    rw [List.getElem?_append_left hpos, ht]

theorem append_advances {u : Task} (hs : s.Sound) : ∃ s', s.append u = .ok s' ∧ Advances s s' := by
  obtain ⟨c, t, hc, ht⟩ := hs.listed
  obtain ⟨hlt, -⟩ := List.getElem?_eq_some_iff.mp ht
  obtain ⟨s', hs', hhead, hgrows, hcurrent, hlog⟩ := append_sound (u := u) hs.head
  have hlisted : s'.CurrentListed :=
    ⟨c, _, hcurrent.trans hc, List.getElem?_eq_getElem (Nat.lt_of_lt_of_le hlt hgrows)⟩
  exact ⟨s', hs', ⟨hlisted, hhead⟩, hgrows, .inl ⟨hlog, hcurrent⟩⟩

theorem exec_advances {e : Event} (hs : s.Sound) (he : s.Enabled e) :
    ∃ s', exec s e = .ok s' ∧ Advances s s' := by
  obtain ⟨c, t, hruns⟩ := hs.listed
  have hidle : s.currentTask ≠ some 0 → c ≠ 0 := by
    rintro h rfl
    exact h hruns.1
  cases e with
  | createTask mem =>
      obtain ⟨s', hs', hadv⟩ := append_advances (s := s.takeTaskId)
        (u := newTask mem s.nextTaskId CRITICAL_TASK false 0 0) ⟨hs.listed, hs.head⟩
      exact ⟨s', hs', hadv.sound, hadv.grows, hadv.once⟩
  | createUserTask mem entry =>
      obtain ⟨s', hs', hadv⟩ := append_advances (s := s.takeTaskId)
        (u := newTask mem s.nextTaskId MEDIUM_TASK true entry USER_ESP) ⟨hs.listed, hs.head⟩
      exact ⟨s', hs', hadv.sound, hadv.grows, hadv.once⟩
  | schedule =>
      obtain ⟨j, s', hs', hsound, hlength, hcurrent, hlog⟩ := schedule_sound hs hruns
      exact ⟨s', hs', hsound, by omega, .inr ⟨c, j, hruns.1, hcurrent, hlog⟩⟩
  | timerIrq0Handler =>
      obtain ⟨s', hs', hadv, -⟩ := timerIrq0Handler_sound hs hruns
      exact ⟨s', hs', hadv⟩
  | syscallSleep ms =>
      by_cases hms : ms = 0
      · subst hms
        exact ⟨s, rfl, hs, Nat.le_refl _, .inl ⟨rfl, rfl⟩⟩
      · obtain ⟨s', hs', hadv⟩ := update_schedule_sound hs hruns
          (f := fun t => { t with wakeTick := s.kernelTimerMs + ms, state := .blocked })
          (fun h => absurd h (hidle (he.2 hms)))
        exact ⟨s', (syscallSleep_eq hruns hms).trans hs', hadv⟩
  | syscallExit =>
      obtain ⟨s', hs', hadv⟩ := update_schedule_sound hs hruns
        (f := fun t => { t with state := .completed }) (fun h => absurd h (hidle he.2))
      exact ⟨s', (syscallExit_eq hruns).trans hs', hadv⟩
  | taskExit =>
      refine ⟨_, taskExit_eq hruns, hs.update hruns fun h => absurd h (hidle he.2), ?_,
        .inl ⟨rfl, rfl⟩⟩
      exact Nat.le_of_eq (update_length ..).symm

end ToyKernel.Scheduler
