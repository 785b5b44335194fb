import ToyKernel.Scheduler

namespace ToyKernel

section Unblock

variable {t : Task} {now : BitVec 32}

theorem Task.unblock_passedOver (h : t.passedOver = false) :
    t.unblock now = t := by
  unfold Task.unblock
  rw [if_neg]
  rintro ⟨hb, -⟩
  simp [Task.passedOver, hb] at h

theorem Task.unblock_runnig (h : (t.unblock now).state = .runnig) :
    t.unblock now = t := by
  unfold Task.unblock at h ⊢
  split at h
  case isTrue => cases h
  case isFalse hn => rw [if_neg hn]

theorem Task.unblock_of_ne (h : t.state ≠ .blocked) : t.unblock now = t := by
  unfold Task.unblock
  rw [if_neg (fun hb => h hb.1)]

end Unblock

namespace Scheduler

open Library

-- The task at `i` is one that `schedule` does not pass over.
def CanRun (tasks : List Task) (i : Nat) : Prop :=
  ∃ t, tasks[i]? = some t ∧ t.passedOver = false

theorem CanRun.lt_length {tasks : List Task} {i : Nat} (h : CanRun tasks i) : i < tasks.length := by
  obtain ⟨t, ht, -⟩ := h
  exact (List.getElem?_eq_some_iff.mp ht).1

section Select

variable {tasks : List Task} {start : Nat}

-- From distance `d` on, with as many tasks left as there are to the full turn, the walk ends
-- at the first task that it does not pass over.
theorem select_mod (hstart : start < tasks.length) (fuel d : Nat) (hfuel : d + fuel = tasks.length)
    (hsome : ∃ k, d < k ∧ k ≤ tasks.length ∧ CanRun tasks ((start + k) % tasks.length)) :
    ∃ k t, d < k ∧ k ≤ tasks.length ∧ tasks[(start + k) % tasks.length]? = some t ∧
      t.passedOver = false ∧
      (∀ l u, d < l → l < k → tasks[(start + l) % tasks.length]? = some u → u.passedOver = true) ∧
      select tasks start fuel ((start + d) % tasks.length) = .ok ((start + k) % tasks.length, t) := by
  induction fuel generalizing d with
  | zero =>
      obtain ⟨k, hlo, hhi, -⟩ := hsome
      omega
  | succ fuel ih =>
      have hn : 0 < tasks.length := by omega
      have hlt : (start + (d + 1)) % tasks.length < tasks.length := Nat.mod_lt _ hn
      obtain ⟨t, ht⟩ : ∃ t, tasks[(start + (d + 1)) % tasks.length]? = some t :=
        ⟨_, List.getElem?_eq_getElem hlt⟩
      rw [select, Cyclic.next_mod hn]
      simp only [ht]
      cases hp : t.passedOver with
      | false =>
          refine ⟨d + 1, t, by omega, by omega, ht, hp, ?_, by simp⟩
          intro l u hlo hhi
          omega
      | true =>
          -- the task that stops the walk lies further on, so this one is not the start
          obtain ⟨k, hlo, hhi, u, hu, hrun⟩ := hsome
          have hne : k ≠ d + 1 := by
            rintro rfl
            rw [ht] at hu
            cases hu
            rw [hp] at hrun
            cases hrun
          have hback : (start + (d + 1)) % tasks.length ≠ start := fun h => by
            have := Cyclic.distance_eq hstart (by omega) (by omega) h
            omega
          rw [if_pos rfl, if_neg hback]
          obtain ⟨m, v, hm, hmn, hv, hvrun, hbefore, hsel⟩ :=
            ih (d + 1) (by omega) ⟨k, by omega, hhi, u, hu, hrun⟩
          refine ⟨m, v, by omega, hmn, hv, hvrun, ?_, hsel⟩
          intro l w hl hlm hw
          by_cases he : l = d + 1
          · subst he
            rw [ht] at hw
            cases hw
            exact hp
          · exact hbefore l w (by omega) hlm hw

-- Wherever one task can run, `schedule` finds the first such task after `start` in the
-- circle of the list, `start` itself last.
theorem select_ok (hstart : start < tasks.length)
    (hsome : ∃ i, CanRun tasks i) :
    ∃ k t, 0 < k ∧ k ≤ tasks.length ∧ tasks[(start + k) % tasks.length]? = some t ∧
      t.passedOver = false ∧
      (∀ l u, 0 < l → l < k → tasks[(start + l) % tasks.length]? = some u → u.passedOver = true) ∧
      select tasks start tasks.length start = .ok ((start + k) % tasks.length, t) := by
  obtain ⟨i, t, ht, hrun⟩ := hsome
  obtain ⟨hi, -⟩ := List.getElem?_eq_some_iff.mp ht
  obtain ⟨k, hpos, hk, rfl⟩ := Cyclic.exists_distance hstart hi
  have h := select_mod hstart tasks.length 0 (by omega) ⟨k, hpos, hk, t, ht, hrun⟩
  rwa [Nat.add_zero, Nat.mod_eq_of_lt hstart] at h

end Select

variable {s s' : Scheduler} {c i j : Nat} {t : Task}

theorem update_getElem? (f : Task → Task) (i j : Nat) :
    (s.update i f).task[j]? = if i = j then s.task[j]?.map f else s.task[j]? := by
  rw [update, List.getElem?_modify]
  split <;> simp

@[simp] theorem update_length (f : Task → Task) (i : Nat) :
    (s.update i f).task.length = s.task.length := List.length_modify ..

theorem tick_getElem? (i : Nat) :
    s.tick.task[i]? = s.task[i]?.map (Task.unblock (s.kernelTimerMs + 10)) := List.getElem?_map ..

-- `current_task` is the task at `c` and is in the list.
def Runs (s : Scheduler) (c : Nat) (t : Task) : Prop := s.currentTask = some c ∧ s.task[c]? = some t

theorem Runs.current_eq (h : s.Runs c t) : s.current = .ok (c, t) := by
  unfold current
  rw [h.1]
  simp [h.2]

theorem Runs.update {f : Task → Task} (h : s.Runs c t) : (s.update c f).Runs c (f t) := by
  refine ⟨h.1, ?_⟩
  rw [update_getElem?, if_pos rfl, h.2]
  rfl

theorem Runs.unique {c' : Nat} {t' : Task} (h : s.Runs c t) (h' : s.Runs c' t') : c = c' ∧ t = t' := by
  obtain ⟨hc, ht⟩ := h
  obtain ⟨hc', ht'⟩ := h'
  rw [hc] at hc'
  cases hc'
  rw [ht] at ht'
  cases ht'
  exact ⟨rfl, rfl⟩

theorem timerIrq0Handler_eq (h : s.tick.Runs c t) :
    s.timerIrq0Handler =
      if t.timeSlice - 1 = 0 then
        (s.tick.update c fun t => { t with timeSlice := t.priority }).schedule
      else .ok (s.tick.update c fun u => { u with timeSlice := t.timeSlice - 1 }) := by
  change (s.tick.current >>= _) = _
  rw [h.current_eq]
  rfl

theorem syscallSleep_eq {ms : BitVec 32} (h : s.Runs c t) (hms : ms ≠ 0) :
    s.syscallSleep ms =
      (s.update c fun t =>
        { t with wakeTick := s.kernelTimerMs + ms, state := .blocked }).schedule := by
  unfold syscallSleep
  rw [if_neg hms, h.current_eq]
  rfl

theorem syscallExit_eq (h : s.Runs c t) : s.syscallExit = (s.setState c .completed).schedule := by
  unfold syscallExit
  rw [h.current_eq]
  rfl

theorem taskExit_eq (h : s.Runs c t) : s.taskExit = .ok (s.setState c .completed) := by
  unfold taskExit
  rw [h.current_eq]
  rfl

-- What a call of `schedule` with the task at `c` running and then that at `j` comes to.
structure Scheduled (s : Scheduler) (c j : Nat) (s' : Scheduler) : Prop where
  current : s'.currentTask = some j
  switches : s'.switches = s.switches ++ [(c, j)]
  timer : s'.kernelTimerMs = s.kernelTimerMs
  length : s'.task.length = s.task.length
  selected : ∃ t, s.task[j]? = some t ∧ t.passedOver = false ∧
    ∃ t', s'.task[j]? = some t' ∧ t' = { t with state := .runnig }
  others : ∀ i t, i ≠ j → s.task[i]? = some t →
    s'.task[i]? = some (if i = c ∧ t.passedOver = false then { t with state := .paused } else t)

theorem demote_getElem? (ht : s.task[c]? = some t) (i : Nat) :
    (s.demote c t).task[i]? =
      if i = c ∧ t.passedOver = false then some { t with state := .paused } else s.task[i]? := by
  unfold demote
  cases hp : t.passedOver with
  | true => simp
  | false =>
      simp only [Bool.false_eq_true, ite_false, setState, update_getElem?, and_true]
      by_cases h : c = i
      · subst h
        simp [ht]
      · rw [if_neg h, if_neg (fun he => h he.symm)]

theorem CanRun.demote (ht : s.task[c]? = some t) (h : CanRun s.task i) :
    CanRun (s.demote c t).task i := by
  obtain ⟨u, hu, hrun⟩ := h
  unfold CanRun
  rw [demote_getElem? ht]
  split
  · exact ⟨_, rfl, rfl⟩
  · exact ⟨u, hu, hrun⟩

@[simp] theorem demote_length : (s.demote c t).task.length = s.task.length := by
  unfold demote
  split
  · rfl
  · exact update_length ..

@[simp] theorem demote_switches : (s.demote c t).switches = s.switches := by
  unfold demote
  split <;> rfl

@[simp] theorem demote_kernelTimerMs : (s.demote c t).kernelTimerMs = s.kernelTimerMs := by
  unfold demote
  split <;> rfl

theorem dispatch_getElem? (i : Nat) : (s.dispatch c j t).task[i]? =
    if j = i then s.task[i]?.map fun t => { t with state := .runnig } else s.task[i]? :=
  update_getElem? _ j i

-- The task chosen after the demotion was already there before it.
theorem scheduled_dispatch {u : Task} (ht : s.task[c]? = some t)
    (hu : (s.demote c t).task[j]? = some u) (hrun : u.passedOver = false) :
    Scheduled s c j ((s.demote c t).dispatch c j u) where
  current := rfl
  switches := by
    change (s.demote c t).switches ++ _ = _
    rw [demote_switches]
  timer := demote_kernelTimerMs
  length := by
    change ((s.demote c t).update j _).task.length = _
    rw [update_length, demote_length]
  selected := by
    rw [dispatch_getElem?, if_pos rfl, hu]
    rw [demote_getElem? ht] at hu
    split at hu
    case isTrue h =>
      cases hu
      exact ⟨t, by rw [h.1, ht], h.2, _, rfl, rfl⟩
    case isFalse h => exact ⟨u, hu, hrun, _, rfl, rfl⟩
  others := by
    intro i v hne hv
    rw [dispatch_getElem?, if_neg (fun h => hne h.symm), demote_getElem? ht]
    by_cases hc : i = c
    · subst hc
      rw [ht] at hv
      cases hv
      split <;> simp_all
    · rw [if_neg (fun h => hc h.1), if_neg (fun h => hc h.1), hv]

theorem schedule_ok (hruns : s.Runs c t) (hsome : ∃ i, CanRun s.task i) :
    ∃ j s', s.schedule = .ok s' ∧ Scheduled s c j s' := by
  obtain ⟨hc, -⟩ := List.getElem?_eq_some_iff.mp hruns.2
  obtain ⟨i, hi⟩ := hsome
  have hlen : (s.demote c t).task.length = s.task.length := demote_length
  obtain ⟨k, u, -, -, hu, hrun, -, hsel⟩ :=
    select_ok (show c < (s.demote c t).task.length by omega) ⟨i, hi.demote hruns.2⟩
  refine ⟨_, _, ?_, scheduled_dispatch hruns.2 hu hrun⟩
  unfold schedule
  rw [hruns.current_eq]
  change (select (s.demote c t).task c (s.demote c t).task.length c >>= _) = _
  rw [hsel]
  rfl

namespace Scheduled

-- A task that is passed over stays as it is.
theorem passedOver (h : Scheduled s c j s') (ht : s.task[i]? = some t) (hp : t.passedOver = true) :
    s'.task[i]? = some t ∧ i ≠ j := by
  have hne : i ≠ j := by
    rintro rfl
    obtain ⟨u, hu, hrun, -⟩ := h.selected
    rw [ht] at hu
    cases hu
    rw [hp] at hrun
    cases hrun
  refine ⟨?_, hne⟩
  rw [h.others i t hne ht, if_neg (by simp [hp])]

theorem canRun (h : Scheduled s c j s') (hi : CanRun s.task i) : CanRun s'.task i := by
  obtain ⟨t, ht, hp⟩ := hi
  by_cases hne : i = j
  · subst hne
    obtain ⟨u, -, -, u', hu', rfl⟩ := h.selected
    exact ⟨_, hu', rfl⟩
  · refine ⟨_, h.others i t hne ht, ?_⟩
    split
    · rfl
    · exact hp

-- Where nothing but the task that gives way was running, nothing but the chosen one is.
theorem runnig (h : Scheduled s c j s') {t' : Task}
    (hc : ∀ i t, s.task[i]? = some t → t.state = .runnig → i = c) (ht' : s'.task[i]? = some t')
    (hstate : t'.state = .runnig) : i = j := by
  by_contra hne
  obtain ⟨hi, -⟩ := List.getElem?_eq_some_iff.mp ht'
  rw [h.length] at hi
  have ht := List.getElem?_eq_getElem hi
  rw [h.others i _ hne ht] at ht'
  split at ht'
  case isTrue hpaused =>
    cases ht'
    cases hstate
  case isFalse hsame =>
    cases ht'
    have he := hc i _ ht hstate
    simp_all [Task.passedOver]

end Scheduled

-- With a task in the list there is a last one to walk to.
theorem append_ok {s : Scheduler} {c : Nat} {t : Task} (ht : s.task[c]? = some t) (u : Task) :
    s.append u = .ok (if u.mem = 0 then s else { s with task := s.task ++ [u] }) := by
  have hne : s.task.isEmpty = false := by
    cases hl : s.task with
    | nil => simp [hl] at ht
    | cons => rfl
  unfold append
  rw [hne]
  by_cases hmem : u.mem = 0 <;> simp [hmem]

end Scheduler

end ToyKernel
