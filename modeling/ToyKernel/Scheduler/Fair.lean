import ToyKernel.Library.Rotation
import ToyKernel.Library.Run
import ToyKernel.Scheduler.Steps

namespace ToyKernel.Scheduler

open Library Cyclic

-- Whether `schedule` does not pass over the task at `i`
def canRun (tasks : List Task) (i : Nat) : Bool := tasks[i]?.any (!·.passedOver)

theorem canRun_iff {tasks : List Task} {i : Nat} : canRun tasks i = true ↔ CanRun tasks i := by
  unfold canRun CanRun
  simp [Option.any_eq_true]

-- As many places can run as there are tasks that are not passed over.
theorem countP_canRun (tasks : List Task) :
    (List.range tasks.length).countP (canRun tasks) = tasks.countP (!·.passedOver) := by
  induction tasks with
  | nil => rfl
  | cons t tasks ih =>
      rw [List.length_cons, List.range_succ_eq_map, List.countP_cons, List.countP_map,
        List.countP_cons, ← ih]
      rfl

-- What one call makes of the list: the first task after the old current one that can run is
-- the new one.
structure Picks (s : Scheduler) (c : Nat) (t : Task) (j : Nat) (s' : Scheduler) : Prop where
  first : FirstAfter s.task.length (canRun (s.demote c t).task) c j
  current : s'.currentTask = some j
  length : s'.task.length = s.task.length
  selected : ∃ u, s.task[j]? = some u ∧ s'.task[j]? = some { u with state := .runnig } ∧
    s'.esp0 = u32 (u.mem + SIZEOF_TASK + STACK_SIZE)
  previous : j ≠ c → s'.task[c]? = some (if t.passedOver then t else { t with state := .paused })
  others : ∀ i, i ≠ j → i ≠ c → s'.task[i]? = s.task[i]?

variable {s s' : Scheduler} {c i j : Nat} {t : Task}

theorem demote_canRun (ht : s.task[c]? = some t) (i : Nat) :
    canRun (s.demote c t).task i = canRun s.task i := by
  unfold canRun
  rw [demote_getElem? ht]
  split
  case isTrue h =>
    obtain ⟨rfl, hp⟩ := h
    have hidle : ({ t with state := .paused } : Task).passedOver = false := rfl
    simp [ht, hp, hidle]
  case isFalse => rfl

-- A call changes nothing about which tasks can run.
theorem scheduled_canRun (h : Scheduled s c j s') (i : Nat) :
    canRun s'.task i = canRun s.task i := by
  unfold canRun
  by_cases hi : i < s.task.length
  · have ht := List.getElem?_eq_getElem hi
    by_cases hne : i = j
    · subst hne
      obtain ⟨u, hu, hp, u', hu', rfl⟩ := h.selected
      have hrunnig : ({ u with state := .runnig } : Task).passedOver = false := rfl
      simp [hu, hu', hp, hrunnig]
    · rw [h.others i _ hne ht, ht]
      split
      case isTrue hpaused =>
        have hidle : ({ s.task[i] with state := .paused } : Task).passedOver = false := rfl
        simp [hpaused.2, hidle]
      case isFalse => rfl
  · have hi' : ¬ i < s'.task.length := by
      rw [h.length]
      exact hi
    rw [List.getElem?_eq_none (by omega), List.getElem?_eq_none (by omega)]

theorem schedule_picks (hruns : s.Runs c t) (hsome : ∃ i, CanRun (s.demote c t).task i) :
    ∃ j s', s.schedule = .ok s' ∧ Scheduled s c j s' ∧ Picks s c t j s' := by
  obtain ⟨hc, -⟩ := List.getElem?_eq_some_iff.mp hruns.2
  have hlength : (s.demote c t).task.length = s.task.length := demote_length
  obtain ⟨k, u, hpos, hk, hu, hrun, hbefore, hsel⟩ :=
    select_ok (show c < (s.demote c t).task.length by omega) hsome
  have hsched := scheduled_dispatch hruns.2 hu hrun
  rw [hlength] at hu hbefore hsel hsched hk
  refine ⟨_, _, ?_, hsched, ?_⟩
  · unfold schedule
    rw [hruns.current_eq]
    change (select (s.demote c t).task c (s.demote c t).task.length c >>= _) = _
    rw [hlength, hsel]
    rfl
  · refine ⟨⟨k, hpos, hk, rfl, ?_, ?_⟩, hsched.current, hsched.length, ?_, ?_, ?_⟩
    · exact canRun_iff.mpr ⟨u, hu, hrun⟩
    · intro e he hek
      have hlt : (c + e) % s.task.length < (s.demote c t).task.length := by
        rw [hlength]
        exact Nat.mod_lt _ (by omega)
      have hget := List.getElem?_eq_getElem hlt
      unfold canRun
      rw [hget]
      simp [hbefore e _ he hek hget]
    · obtain ⟨v, hv, -, v', hv', rfl⟩ := hsched.selected
      refine ⟨v, hv, hv', ?_⟩
      -- the demotion leaves the task's memory as it is
      change u32 (u.mem + SIZEOF_TASK + STACK_SIZE) = _
      rw [demote_getElem? hruns.2, hv] at hu
      split at hu
      case isTrue h =>
        cases hu
        rw [h.1, hruns.2] at hv
        cases hv
        rfl
      case isFalse =>
        cases hu
        rfl
    · intro hne
      rw [hsched.others c t (fun h => hne h.symm) hruns.2]
      cases t.passedOver <;> simp
    · intro i hij hic
      by_cases hi : i < s.task.length
      · have ht := List.getElem?_eq_getElem hi
        rw [hsched.others i _ hij ht, if_neg (fun h => hic h.1), ht]
      · have hlength' := hsched.length
        rw [List.getElem?_eq_none (by omega), List.getElem?_eq_none (by omega)]

-- Calls one after the other go round the tasks that can run.
theorem schedule_tour (hruns : s.Runs c t) (hsome : ∃ i, CanRun s.task i) (calls : Nat) :
    ∃ s' new, run exec s (List.replicate calls .schedule) = .ok s' ∧
      s'.switches = s.switches ++ new ∧ new.length = calls ∧
      Tour s.task.length (canRun s.task) c (new.map Prod.snd) := by
  induction calls generalizing s c t with
  | zero => exact ⟨s, [], rfl, by simp, rfl, .nil c⟩
  | succ calls ih =>
      obtain ⟨i, hi⟩ := hsome
      obtain ⟨j, mid, hmid, hsched, hpicks⟩ := schedule_picks hruns ⟨i, hi.demote hruns.2⟩
      obtain ⟨u, -, hu, -⟩ := hpicks.selected
      obtain ⟨s', new, hs', hlog, hlength, htour⟩ :=
        ih (s := mid) ⟨hpicks.current, hu⟩ ⟨i, hsched.canRun hi⟩
      refine ⟨s', (c, j) :: new, ?_, ?_, by simp [hlength], ?_⟩
      · rw [List.replicate_succ]
        exact (run_cons hmid _).trans hs'
      · rw [hlog, hsched.switches, List.append_assoc, List.singleton_append]
      · have hpos : 0 < s.task.length := by
          obtain ⟨h, -⟩ := List.getElem?_eq_some_iff.mp hruns.2
          omega
        rw [hsched.length] at htour
        exact .cons (hpicks.first.congr hpos fun i _ => demote_canRun hruns.2 i)
          (htour.congr hpos fun i _ => scheduled_canRun hsched i)

theorem schedule_fair (hruns : s.Runs c t) :
    ((∃ i, CanRun (s.demote c t).task i) → ∃ j s', s.schedule = .ok s' ∧ Picks s c t j s') ∧
    ∃ s' new, run exec s (List.replicate (s.task.countP (!·.passedOver)) .schedule) = .ok s' ∧
      s'.switches = s.switches ++ new ∧ (new.map Prod.snd).Nodup ∧
      ∀ i, i ∈ new.map Prod.snd ↔ CanRun s.task i := by
  obtain ⟨hc, -⟩ := List.getElem?_eq_some_iff.mp hruns.2
  refine ⟨fun hsome => ?_, ?_⟩
  · obtain ⟨j, s', hs', -, hpicks⟩ := schedule_picks hruns hsome
    exact ⟨j, s', hs', hpicks⟩
  · by_cases hsome : ∃ i, CanRun s.task i
    · obtain ⟨s', new, hs', hlog, hlength, htour⟩ :=
        schedule_tour hruns hsome (s.task.countP (!·.passedOver))
      have hperm := htour.perm hc (by rw [List.length_map, hlength, countP_canRun])
      refine ⟨s', new, hs', hlog, hperm.nodup_iff.mpr (List.nodup_range.filter _), fun i => ?_⟩
      rw [hperm.mem_iff, List.mem_filter, List.mem_range, canRun_iff]
      refine ⟨fun h => h.2, fun h => ⟨?_, h⟩⟩
      obtain ⟨u, hu, -⟩ := h
      exact (List.getElem?_eq_some_iff.mp hu).1
    · have hzero : s.task.countP (!·.passedOver) = 0 := by
        rw [← countP_canRun, List.countP_eq_zero]
        exact fun i _ h => hsome ⟨i, canRun_iff.mp h⟩
      rw [hzero]
      exact ⟨s, [], rfl, by simp, List.nodup_nil, fun i => by simpa using fun h => hsome ⟨i, h⟩⟩

-- Three tasks, the second of them asleep
def threeTasks : Scheduler where
  task := [newTask 0x104000 0 LOW_TASK false 0 0,
    { newTask 0x106000 1 CRITICAL_TASK false 0 0 with state := .blocked },
    newTask 0x108000 2 CRITICAL_TASK false 0 0]
  currentTask := some 0
  nextTaskId := 3
  kernelTimerMs := 0
  esp0 := 0
  switches := []

theorem schedule_fair_sample :
    (∃ j s', threeTasks.schedule = .ok s' ∧
      Picks threeTasks 0 (newTask 0x104000 0 LOW_TASK false 0 0) j s') ∧
    ∃ s' new, run exec threeTasks
        (List.replicate (threeTasks.task.countP (!·.passedOver)) .schedule) = .ok s' ∧
      s'.switches = threeTasks.switches ++ new ∧ (new.map Prod.snd).Nodup ∧
      ∀ i, i ∈ new.map Prod.snd ↔ CanRun threeTasks.task i := by
  have h := schedule_fair (s := threeTasks) (c := 0)
    (t := newTask 0x104000 0 LOW_TASK false 0 0) ⟨rfl, rfl⟩
  exact ⟨h.1 ⟨0, _, rfl, rfl⟩, h.2⟩

end ToyKernel.Scheduler
