import ToyKernel.Library.Rank
import ToyKernel.Library.Round
import ToyKernel.Scheduler.Fair
import ToyKernel.Scheduler.Sleep

namespace ToyKernel.Scheduler

open Library Cyclic

-- The ticks that the tasks still have, in the order of the list
def turns (s : Scheduler) : List Nat := s.task.map Task.timeSlice

-- The full time slices
def priorities (s : Scheduler) : List Nat := s.task.map Task.priority

-- No task has used up its time slice, or has more of it than its priority gives.
def Sliced (s : Scheduler) : Prop :=
  ∀ (i : Nat) (t : Task), s.task[i]? = some t → 0 < t.timeSlice ∧ t.timeSlice ≤ t.priority

-- The tasks of `s'` have the time slices and priorities of those of `s`.
def SameSlices (s s' : Scheduler) : Prop :=
  s'.task.map (fun t => (t.timeSlice, t.priority)) = s.task.map fun t => (t.timeSlice, t.priority)

-- The full time slice of the task that an event puts at the end of the list
def Event.brings : Event → Nat
  | .createTask _ => CRITICAL_TASK
  | .createUserTask _ _ => MEDIUM_TASK
  | _ => 0

section Slices

variable {s mid s' : Scheduler} {c i j : Nat} {t : Task}

theorem SameSlices.trans (h : SameSlices s mid) (h' : SameSlices mid s') : SameSlices s s' :=
  Eq.trans h' h

theorem sameSlices_update {f : Task → Task}
    (hf : ∀ t, (f t).timeSlice = t.timeSlice ∧ (f t).priority = t.priority) :
    SameSlices s (s.update i f) := by
  refine List.ext_getElem? fun k => ?_
  rw [List.getElem?_map, List.getElem?_map, update_getElem?]
  split
  · cases s.task[k]? with
    | none => rfl
    | some t => simp [(hf t).1, (hf t).2]
  · rfl

theorem sameSlices_tick (s : Scheduler) : SameSlices s s.tick := by
  refine List.ext_getElem? fun k => ?_
  rw [List.getElem?_map, List.getElem?_map, tick_getElem?]
  cases s.task[k]? with
  | none => rfl
  | some t =>
      simp only [Option.map_some, Option.some.injEq]
      unfold Task.unblock
      split <;> rfl

theorem sameSlices_demote : SameSlices s (s.demote c t) := by
  unfold demote
  split
  · rfl
  · exact sameSlices_update fun _ => ⟨rfl, rfl⟩

theorem SameSlices.length (h : SameSlices s s') : s'.task.length = s.task.length := by
  have hmap := congrArg List.length h
  simpa using hmap

theorem SameSlices.turns (h : SameSlices s s') : s'.turns = s.turns := by
  have hmap := congrArg (List.map Prod.fst) h
  simpa [Scheduler.turns, Function.comp_def] using hmap

theorem SameSlices.sliced (h : SameSlices s s') (hs : s.Sliced) : s'.Sliced := by
  intro i t ht
  have hpair : (s'.task.map fun t => (t.timeSlice, t.priority))[i]? = some (t.timeSlice, t.priority) := by
    rw [List.getElem?_map, ht, Option.map_some]
  rw [h, List.getElem?_map, Option.map_eq_some_iff] at hpair
  obtain ⟨u, hu, he⟩ := hpair
  have hslice := hs i u hu
  simp only [Prod.mk.injEq] at he
  omega

@[simp] theorem turns_length : s.turns.length = s.task.length := List.length_map ..

theorem turns_getD (ht : s.task[i]? = some t) : s.turns.getD i 0 = t.timeSlice := by
  rw [turns, List.getD_eq_getElem?_getD, List.getElem?_map, ht]
  rfl

theorem Scheduled.sameSlices (h : Scheduled s c j s') : SameSlices s s' := by
  refine List.ext_getElem? fun k => ?_
  rw [List.getElem?_map, List.getElem?_map]
  by_cases hk : k < s.task.length
  · have ht := List.getElem?_eq_getElem hk
    by_cases hne : k = j
    · subst hne
      obtain ⟨u, hu, -, u', hu', rfl⟩ := h.selected
      rw [hu, hu']
      rfl
    · rw [h.others k _ hne ht, ht]
      split <;> rfl
  · have hlength := h.length
    rw [List.getElem?_eq_none (by omega), List.getElem?_eq_none (by omega)]

end Slices

-- The task at `i` can run, and another one has the processor.
structure Queued (i : Nat) (s : Scheduler) : Prop where
  listed : ∃ c t, s.Runs c t ∧ c ≠ i
  ready : CanRun s.task i
  sliced : s.Sliced

-- The ticks that may go by before the walk of `schedule` comes to the task at `i`
def rank (i : Nat) (s : Scheduler) : Nat := queue s.turns (s.currentTask.getD 0) i

section Steps

variable {s s' : Scheduler} {c i : Nat} {t : Task} {f : Task → Task}

theorem rank_eq (h : s.Runs c t) : rank i s = queue s.turns c i := by
  rw [rank, h.1]
  rfl

theorem Runs.lt_turns (h : s.Runs c t) : c < s.turns.length := by
  rw [turns_length]
  exact (List.getElem?_eq_some_iff.mp h.2).1

theorem Queued.rank_pos (h : Queued i s) : 0 < rank i s := by
  obtain ⟨c, t, hruns, hci⟩ := h.listed
  have hslice := h.sliced c t hruns.2
  have hle := queue_start_le hruns.lt_turns hci
  rw [turns_getD hruns.2] at hle
  rw [rank_eq hruns]
  omega

theorem update_canRun (hci : c ≠ i) (hi : CanRun s.task i) : CanRun (s.update c f).task i := by
  unfold CanRun
  rw [update_getElem?, if_neg hci]
  exact hi

-- The processor goes to the first task behind the one at `c` that can run: that at `i`, or
-- one that the walk passes before.
theorem schedule_queued (hruns : s.Runs c t) (hci : c ≠ i) (hi : CanRun s.task i) (hs : s.Sliced) :
    ∃ s', s.schedule = .ok s' ∧
      (s'.currentTask = some i ∨ Queued i s' ∧ rank i s' + t.timeSlice ≤ queue s.turns c i) := by
  obtain ⟨j, s', hs', hsched, hpicks⟩ := schedule_picks hruns ⟨i, hi.demote hruns.2⟩
  refine ⟨s', hs', ?_⟩
  have hsame := hsched.sameSlices
  by_cases hji : j = i
  · exact .inl (hji ▸ hsched.current)
  · obtain ⟨u, -, -, u', hu', -⟩ := hsched.selected
    have hruns' : s'.Runs j u' := ⟨hsched.current, hu'⟩
    have hrun : canRun (s.demote c t).task i = true := by
      rw [demote_canRun hruns.2]
      exact canRun_iff.mpr hi
    refine .inr ⟨⟨⟨j, u', hruns', hji⟩, hsched.canRun hi, hsame.sliced hs⟩, ?_⟩
    rw [rank_eq hruns', ← turns_getD hruns.2, hsame.turns]
    refine queue_advance hruns.lt_turns hci rfl (fun _ _ => rfl) fun k hk hbetween => ?_
    rw [turns_length] at hk
    have hlt := hruns.lt_turns
    rw [turns_length] at hlt
    exact hpicks.first.between hlt hi.lt_length hrun hci hk hbetween

-- The same after work on the running task that leaves the slices alone
theorem update_schedule_queued (h : Queued i s) (hruns : s.Runs c t) (hci : c ≠ i)
    (hf : ∀ t, (f t).timeSlice = t.timeSlice ∧ (f t).priority = t.priority) :
    ∃ s', (s.update c f).schedule = .ok s' ∧
      (s'.currentTask = some i ∨ Queued i s' ∧ rank i s' ≤ rank i s) := by
  have hsame : SameSlices s (s.update c f) := sameSlices_update hf
  obtain ⟨s', hs', hends⟩ :=
    schedule_queued hruns.update hci (update_canRun hci h.ready) (hsame.sliced h.sliced)
  refine ⟨s', hs', hends.imp_right fun hq => ⟨hq.1, ?_⟩⟩
  have hle := hq.2
  rw [hsame.turns, ← rank_eq hruns] at hle
  omega

theorem Runs.tick (h : s.Runs c t) : s.tick.Runs c (t.unblock (s.kernelTimerMs + 10)) :=
  ⟨h.1, by rw [tick_getElem?, h.2, Option.map_some]⟩

theorem tick_canRun (hi : CanRun s.task i) : CanRun s.tick.task i := by
  obtain ⟨t, ht, hrun⟩ := hi
  exact ⟨t, by rw [tick_getElem?, ht, Option.map_some, Task.unblock_passedOver hrun], hrun⟩

-- A new slice for the running task
theorem update_turns (hruns : s.Runs c t) (hci : c ≠ i) :
    queue (s.update c f).turns c i + t.timeSlice = queue s.turns c i + (f t).timeSlice := by
  rw [← turns_getD hruns.2, ← turns_getD hruns.update.2]
  refine queue_spend hruns.lt_turns hci (by simp) fun k hk => ?_
  rw [turns, turns, List.getD_eq_getElem?_getD, List.getD_eq_getElem?_getD, List.getElem?_map,
    List.getElem?_map, update_getElem?, if_neg (fun he => hk he.symm)]

theorem update_sliced (hs : s.Sliced) (hruns : s.Runs c t)
    (hf : 0 < (f t).timeSlice ∧ (f t).timeSlice ≤ (f t).priority) : (s.update c f).Sliced := by
  intro k u hu
  rw [update_getElem?] at hu
  split at hu
  case isTrue he =>
    subst he
    rw [hruns.2] at hu
    cases hu
    exact hf
  case isFalse => exact hs k u hu

-- A tick takes one from what the tasks before the one at `i` still have. It may be the tick
-- that makes that task ready.
theorem timerIrq0Handler_queued (hruns : s.Runs c t) (hci : c ≠ i) (hready : CanRun s.tick.task i)
    (hs : s.Sliced) :
    ∃ s', s.timerIrq0Handler = .ok s' ∧
      (s'.currentTask = some i ∨ Queued i s' ∧ rank i s' + 1 ≤ queue s.turns c i) := by
  obtain ⟨u, htick⟩ : ∃ u, s.tick.Runs c u := ⟨_, hruns.tick⟩
  have hsame := sameSlices_tick s
  have hsliced := hsame.sliced hs
  have hslice := hsliced c u htick.2
  rw [timerIrq0Handler_eq htick, ← hsame.turns]
  split
  case isTrue hzero =>
    have hsliced' : (s.tick.update c fun t => { t with timeSlice := t.priority }).Sliced := by
      refine update_sliced hsliced htick ?_
      simp only [Nat.le_refl, and_true]
      omega
    obtain ⟨s', hs', hends⟩ :=
      schedule_queued htick.update hci (update_canRun hci hready) hsliced'
    refine ⟨s', hs', hends.imp_right fun hq => ⟨hq.1, ?_⟩⟩
    have hspend := update_turns (f := fun t => { t with timeSlice := t.priority }) htick hci
    have hle := hq.2
    omega
  case isFalse hmore =>
    refine ⟨_, rfl, .inr ⟨⟨⟨c, _, htick.update, hci⟩, update_canRun hci hready, ?_⟩, ?_⟩⟩
    · refine update_sliced hsliced htick ?_
      simp only
      omega
    · have hspend := update_turns (f := fun t => { t with timeSlice := u.timeSlice - 1 }) htick hci
      simp only at hspend
      rw [rank_eq htick.update]
      omega

-- A new task comes in at most once before the one at `i`.
theorem append_queued {u : Task} (h : Queued i s) (hu : 0 < u.timeSlice ∧ u.timeSlice ≤ u.priority) :
    ∃ s', s.append u = .ok s' ∧ Queued i s' ∧ rank i s' ≤ rank i s + u.timeSlice := by
  obtain ⟨c, t, hruns, hci⟩ := h.listed
  rw [append_ok hruns.2]
  by_cases hmem : u.mem = 0
  · exact ⟨s, by simp [hmem], h, Nat.le_add_right ..⟩
  · have hold : ∀ (k : Nat) (t : Task), s.task[k]? = some t → (s.task ++ [u])[k]? = some t := by
      intro k t ht
      obtain ⟨hk, -⟩ := List.getElem?_eq_some_iff.mp ht
      rw [List.getElem?_append_left hk, ht]
    refine ⟨{ s with task := s.task ++ [u] }, by simp [hmem], ⟨?_, ?_, ?_⟩, ?_⟩
    · exact ⟨c, t, ⟨hruns.1, hold c t hruns.2⟩, hci⟩
    · obtain ⟨v, hv, hrun⟩ := h.ready
      exact ⟨v, hold i v hv, hrun⟩
    · intro k v hv
      by_cases hk : k < s.task.length
      · rw [List.getElem?_append_left hk] at hv
        exact h.sliced k v hv
      · rw [List.getElem?_append_right (by omega)] at hv
        obtain rfl : v = u := by simpa using List.mem_of_getElem? hv
        exact hu
    · have hle : queue (s.turns ++ [u.timeSlice]) (s.currentTask.getD 0) i ≤
          queue s.turns (s.currentTask.getD 0) i + u.timeSlice := queue_append u.timeSlice
      simpa [rank, turns] using hle

-- Whatever happens, the task at `i` gets the processor or comes nearer to it with each tick.
theorem exec_queued (h : Queued i s) (e : Event) :
    ∃ s', exec s e = .ok s' ∧
      (s'.currentTask = some i ∨ Queued i s' ∧ rank i s' + e.ticks ≤ rank i s + e.brings) := by
  obtain ⟨c, t, hruns, hci⟩ := h.listed
  cases e with
  | createTask mem =>
      obtain ⟨s', hs', hq, hle⟩ := append_queued (s := s.takeTaskId)
        (u := newTask mem s.nextTaskId CRITICAL_TASK false 0 0) ⟨h.listed, h.ready, h.sliced⟩
        (by simp [newTask, CRITICAL_TASK])
      exact ⟨s', hs', .inr ⟨hq, hle⟩⟩
  | createUserTask mem entry =>
      obtain ⟨s', hs', hq, hle⟩ := append_queued (s := s.takeTaskId)
        (u := newTask mem s.nextTaskId MEDIUM_TASK true entry USER_ESP) ⟨h.listed, h.ready, h.sliced⟩
        (by simp [newTask, MEDIUM_TASK])
      exact ⟨s', hs', .inr ⟨hq, hle⟩⟩
  | schedule =>
      obtain ⟨s', hs', hends⟩ := schedule_queued hruns hci h.ready h.sliced
      refine ⟨s', hs', hends.imp_right fun hq => ⟨hq.1, ?_⟩⟩
      have hle := hq.2
      rw [← rank_eq hruns] at hle
      simp only [Event.ticks, Event.brings]
      omega
  | timerIrq0Handler =>
      obtain ⟨s', hs', hends⟩ := timerIrq0Handler_queued hruns hci (tick_canRun h.ready) h.sliced
      rw [← rank_eq hruns] at hends
      exact ⟨s', hs', hends⟩
  | syscallSleep ms =>
      by_cases hms : ms = 0
      · subst hms
        exact ⟨s, rfl, .inr ⟨h, Nat.le_refl _⟩⟩
      · obtain ⟨s', hs', hends⟩ := update_schedule_queued h hruns hci
          (f := fun t => { t with wakeTick := s.kernelTimerMs + ms, state := .blocked })
          fun _ => ⟨rfl, rfl⟩
        exact ⟨s', (syscallSleep_eq hruns hms).trans hs', hends⟩
  | syscallExit =>
      obtain ⟨s', hs', hends⟩ := update_schedule_queued h hruns hci
        (f := fun t => { t with state := .completed }) fun _ => ⟨rfl, rfl⟩
      exact ⟨s', (syscallExit_eq hruns).trans hs', hends⟩
  | taskExit =>
      have hsame : SameSlices s (s.setState c .completed) := sameSlices_update fun _ => ⟨rfl, rfl⟩
      refine ⟨_, taskExit_eq hruns, .inr ⟨⟨⟨c, _, hruns.update, hci⟩, update_canRun hci h.ready,
        hsame.sliced h.sliced⟩, ?_⟩⟩
      rw [rank_eq hruns, rank_eq (s := s.setState c .completed) hruns.update, hsame.turns]
      exact Nat.le_refl _

end Steps

-- What every run keeps, whoever calls what.
structure Kept (s : Scheduler) : Prop where
  listed : s.CurrentListed
  sliced : s.Sliced

-- The tasks of `s` keep their priorities in `s'`, and those behind them come to `brings`.
def Brings (s : Scheduler) (brings : Nat) (s' : Scheduler) : Prop :=
  ∃ new, s'.priorities = s.priorities ++ new ∧ new.sum ≤ brings

section Kept

variable {s mid s' : Scheduler} {c i j brings : Nat} {t u : Task}

theorem brings_same (h : s'.priorities = s.priorities) : Brings s brings s' :=
  ⟨[], by rw [h, List.append_nil], Nat.zero_le _⟩

theorem SameSlices.priorities (h : SameSlices s s') : s'.priorities = s.priorities := by
  have hmap := congrArg (List.map Prod.snd) h
  simpa [Scheduler.priorities, Function.comp_def] using hmap

theorem update_priorities {f : Task → Task} (hf : ∀ t, (f t).priority = t.priority) :
    (s.update c f).priorities = s.priorities := by
  refine List.ext_getElem? fun k => ?_
  rw [priorities, priorities, List.getElem?_map, List.getElem?_map, update_getElem?]
  split
  · cases s.task[k]? with
    | none => rfl
    | some t => simp [hf t]
  · rfl

theorem select_getElem? {tasks : List Task} {start fuel i j : Nat}
    (h : select tasks start fuel i = .ok (j, t)) : tasks[j]? = some t := by
  induction fuel generalizing i with
  | zero => cases h
  | succ fuel ih =>
      rw [select] at h
      cases ht : tasks[Cyclic.next tasks.length i]? with
      | none => simp [ht] at h
      | some u =>
          simp only [ht] at h
          split at h
          · split at h
            · cases h
            · exact ih h
          · cases h
            exact ht

theorem schedule_kept (hs : s.Kept) (h : s.schedule = .ok s') : s'.Kept ∧ s'.priorities = s.priorities := by
  obtain ⟨c, t, hruns⟩ := hs.listed
  unfold schedule at h
  rw [hruns.current_eq] at h
  change (select (s.demote c t).task c (s.demote c t).task.length c >>= _) = _ at h
  obtain ⟨⟨j, u⟩, hsel, hdispatch⟩ := exists_of_bind (show Except.bind _ _ = _ from h)
  have hu := select_getElem? hsel
  cases hdispatch
  have hsame : SameSlices s ((s.demote c t).dispatch c j u) := by
    have hdemote : SameSlices s (s.demote c t) := sameSlices_demote
    exact hdemote.trans (sameSlices_update (i := j) (f := fun t => { t with state := .runnig })
      fun _ => ⟨rfl, rfl⟩)
  refine ⟨⟨⟨j, { u with state := .runnig }, rfl, ?_⟩, hsame.sliced hs.sliced⟩, hsame.priorities⟩
  rw [dispatch_getElem?, if_pos rfl, hu]
  rfl

theorem Kept.update {f : Task → Task} (hs : s.Kept) (h : s.Runs c t)
    (hf : 0 < (f t).timeSlice ∧ (f t).timeSlice ≤ (f t).priority) : (s.update c f).Kept :=
  ⟨⟨c, f t, h.update⟩, update_sliced hs.sliced h hf⟩

-- Work on the running task, then `schedule`
theorem update_schedule_kept {f : Task → Task} (hs : s.Kept) (hruns : s.Runs c t)
    (h : (s.update c f).schedule = .ok s') (hf : 0 < (f t).timeSlice ∧ (f t).timeSlice ≤ (f t).priority)
    (hpriority : ∀ t, (f t).priority = t.priority) :
    s'.Kept ∧ s'.priorities = s.priorities := by
  obtain ⟨hkept, hsame⟩ := schedule_kept (hs.update hruns hf) h
  exact ⟨hkept, hsame.trans (update_priorities hpriority)⟩

theorem append_kept (hs : s.Kept) (hu : 0 < u.timeSlice ∧ u.timeSlice ≤ u.priority)
    (h : s.append u = .ok s') : s'.Kept ∧ Brings s u.priority s' := by
  obtain ⟨c, t, hruns⟩ := hs.listed
  rw [append_ok hruns.2] at h
  cases h
  split
  · exact ⟨hs, brings_same rfl⟩
  · refine ⟨⟨⟨c, t, hruns.1, ?_⟩, fun k v hv => ?_⟩, [u.priority], ?_, ?_⟩
    · obtain ⟨hc, -⟩ := List.getElem?_eq_some_iff.mp hruns.2
      exact (List.getElem?_append_left hc).trans hruns.2
    · change (s.task ++ [u])[k]? = some v at hv
      by_cases hk : k < s.task.length
      · rw [List.getElem?_append_left hk] at hv
        exact hs.sliced k v hv
      · rw [List.getElem?_append_right (by omega)] at hv
        obtain rfl : v = u := by simpa using List.mem_of_getElem? hv
        exact hu
    · simp [priorities]
    · simp

theorem timerIrq0Handler_kept (hs : s.Kept) (h : s.timerIrq0Handler = .ok s') :
    s'.Kept ∧ s'.priorities = s.priorities := by
  obtain ⟨c, t, hruns⟩ := hs.listed
  obtain ⟨u, htick⟩ : ∃ u, s.tick.Runs c u := ⟨_, hruns.tick⟩
  have hsame := sameSlices_tick s
  have hkept : s.tick.Kept := ⟨⟨c, u, htick⟩, hsame.sliced hs.sliced⟩
  have hslice := hkept.sliced c u htick.2
  rw [timerIrq0Handler_eq htick] at h
  rw [← hsame.priorities]
  split at h
  · refine update_schedule_kept hkept htick h ?_ fun _ => rfl
    simp only [Nat.le_refl, and_true]
    omega
  · cases h
    refine ⟨hkept.update htick ?_, update_priorities fun _ => rfl⟩
    simp only
    omega

theorem exec_kept {e : Event} (hs : s.Kept) (h : exec s e = .ok s') :
    s'.Kept ∧ Brings s e.brings s' := by
  obtain ⟨c, t, hruns⟩ := hs.listed
  have hslice := hs.sliced c t hruns.2
  cases e with
  | createTask mem =>
      exact append_kept (s := s.takeTaskId) ⟨hs.listed, hs.sliced⟩
        (by simp [newTask, CRITICAL_TASK]) h
  | createUserTask mem entry =>
      exact append_kept (s := s.takeTaskId) ⟨hs.listed, hs.sliced⟩
        (by simp [newTask, MEDIUM_TASK]) h
  | schedule => exact (schedule_kept hs h).imp_right brings_same
  | timerIrq0Handler => exact (timerIrq0Handler_kept hs h).imp_right brings_same
  | syscallSleep ms =>
      by_cases hms : ms = 0
      · subst hms
        cases h
        exact ⟨hs, brings_same rfl⟩
      · have hsched := (syscallSleep_eq hruns hms).symm.trans h
        exact (update_schedule_kept hs hruns hsched hslice fun _ => rfl).imp_right brings_same
  | syscallExit =>
      have hsched := (syscallExit_eq hruns).symm.trans h
      exact (update_schedule_kept hs hruns hsched hslice fun _ => rfl).imp_right brings_same
  | taskExit =>
      cases (taskExit_eq hruns).symm.trans h
      exact ⟨hs.update hruns hslice, brings_same (update_priorities fun _ => rfl)⟩

theorem initTask_kept (start : Scheduler) {mem : Nat} (hmem : mem ≠ 0) : (start.initTask mem).Kept := by
  refine ⟨(initTask_valid start hmem).listed, fun i t ht => ?_⟩
  have htask : (start.initTask mem).task = [newTask mem start.nextTaskId LOW_TASK false 0 0] :=
    if_neg hmem
  rw [htask] at ht
  obtain ⟨-, rfl⟩ := List.getElem?_eq_some_iff.mp ht
  simp [newTask, LOW_TASK]

end Kept

-- The full time slices of all tasks but that at `i`
def othersTurns (s : Scheduler) (i : Nat) : Nat := (s.priorities.eraseIdx i).sum

section Served

variable {start s s' : Scheduler} {mem c i k : Nat} {t : Task} {before after : List Event}

theorem Sliced.queue_le (hs : s.Sliced) (hi : i < s.task.length) :
    queue s.turns c i ≤ s.othersTurns i := by
  have hle : ∀ k, s.turns.getD k 0 ≤ s.priorities.getD k 0 := by
    intro k
    rw [turns, priorities, List.getD_eq_getElem?_getD, List.getD_eq_getElem?_getD, List.getElem?_map,
      List.getElem?_map]
    cases ht : s.task[k]? with
    | none => exact Nat.le_refl _
    | some t => exact (hs k t ht).2
  exact Cyclic.queue_le (by simpa using hi) (by simp [turns, priorities]) hle

-- No task starves: in every state that a run reaches, a task that can run has the processor
-- after as many ticks as the full time slices of the others, and of the tasks created meanwhile,
-- come to. Whatever the others call, no run stops before.
theorem runnable_served (hmem : mem ≠ 0) (hrun : run exec (start.initTask mem) before = .ok s)
    (hready : CanRun s.task i)
    (hlong : s.othersTurns i + (after.map Event.brings).sum ≤ ticks after) :
    s.currentTask = some i ∨ Attains exec (fun s' => s'.currentTask = some i) s after := by
  have hkept := run_keeps Kept (fun _ _ _ hs h => (exec_kept hs h).1) (initTask_kept start hmem) hrun
  obtain ⟨c, t, hruns⟩ := hkept.listed
  by_cases hci : c = i
  · exact .inl (hci ▸ hruns.1)
  · have hqueued : Queued i s := ⟨⟨c, t, hruns, hci⟩, hready, hkept.sliced⟩
    have hrank : rank i s ≤ s.othersTurns i := hkept.sliced.queue_le hready.lt_length
    refine .inr (attains_of_rank (fun n s => Queued i s ∧ rank i s = n) Event.ticks Event.brings
      ?_ ?_ ⟨hqueued, rfl⟩ (allMet_trivial s after) ?_)
    · rintro n s ⟨h, rfl⟩
      exact h.rank_pos
    · rintro n s e ⟨h, rfl⟩ -
      obtain ⟨s', hs', hends⟩ := exec_queued h e
      exact ⟨s', hs', hends.imp_right fun hq => ⟨_, ⟨hq.1, rfl⟩, hq.2⟩⟩
    · unfold ticks at hlong
      omega

-- The idle task before the second one, which waits behind it
theorem runnable_served_sample :
    ∃ s, run exec (statics.initTask 4096) [.createTask 8192] = .ok s ∧
      (s.currentTask = some 1 ∨ Attains exec (fun s' => s'.currentTask = some 1) s
        (List.replicate 5 .timerIrq0Handler)) := by
  have hrun : run exec (statics.initTask 4096) [.createTask 8192] = .ok _ := rfl
  exact ⟨_, hrun, runnable_served (by decide) hrun ⟨_, rfl, rfl⟩ (by decide)⟩

-- The task at `c` sleeps since `k` ticks, or has been made ready and waits for the processor:
-- at most `n` ticks are left to it.
def Behind (c : Nat) (now ms : BitVec 32) (n : Nat) (s : Scheduler) : Prop :=
  (∃ k, s.Asleep c now ms k ∧ s.Sliced ∧ 10 * k < ms.toNat ∧
    n + k = (ms.toNat + 9) / 10 + s.othersTurns c) ∨ Queued c s ∧ rank c s = n

variable {brings : Nat} {now ms : BitVec 32}

theorem Brings.othersTurns_le (h : Brings s brings s') (hc : c < s.task.length) :
    s'.othersTurns c ≤ s.othersTurns c + brings := by
  obtain ⟨new, hnew, hsum⟩ := h
  have hlt : c < s.priorities.length := by simpa [priorities] using hc
  unfold othersTurns
  rw [hnew, List.eraseIdx_append_of_lt_length hlt, List.sum_append]
  omega

-- The tick that wakes the task leaves it behind the others at most.
theorem tick_behind (h : s.Asleep c now ms k) (hs : s.Sliced) (hreached : Reached now ms k) :
    ∃ s', exec s .timerIrq0Handler = .ok s' ∧
      (s'.currentTask = some c ∨ Queued c s' ∧ rank c s' + 1 ≤ s.othersTurns c) := by
  obtain ⟨d, u, hruns⟩ := h.valid.listed
  obtain ⟨t, ht, hstate, hwake⟩ := h.blocked
  have hdc : d ≠ c := by
    rintro rfl
    obtain rfl : u = t := Option.some.inj (hruns.2.symm.trans ht)
    exact h.valid.awake d u hruns hstate
  have hwoken : t.unblock (s.kernelTimerMs + 10) = { t with state := .ready } :=
    if_pos ⟨hstate, (h.wakes_iff hwake).mpr hreached⟩
  have hready : CanRun s.tick.task c := by
    refine ⟨t.unblock (s.kernelTimerMs + 10), by rw [tick_getElem?, ht, Option.map_some], ?_⟩
    rw [hwoken]
    rfl
  obtain ⟨s', hs', hends⟩ := timerIrq0Handler_queued hruns hdc hready hs
  refine ⟨s', hs', hends.imp_right fun hq => ⟨hq.1, hq.2.trans (hs.queue_le ?_)⟩⟩
  exact (List.getElem?_eq_some_iff.mp ht).1

theorem exec_behind {n : Nat} {e : Event} (hserves : ClockServes now ms) (hms : ms ≠ 0)
    (h : Behind c now ms n s) (he : s.Enabled e) :
    ∃ s', exec s e = .ok s' ∧
      (s'.currentTask = some c ∨ ∃ n', Behind c now ms n' s' ∧ n' + e.ticks ≤ n + e.brings) := by
  obtain ⟨k, hasleep, hsliced, hk, hn⟩ | ⟨hq, rfl⟩ := h
  · by_cases hwoken : e.ticks = 1 ∧ Reached now ms k
    · obtain rfl : e = .timerIrq0Handler := by
        cases e <;> simp [Event.ticks] at hwoken ⊢
      obtain ⟨s', hs', hends⟩ := tick_behind hasleep hsliced hwoken.2
      refine ⟨s', hs', hends.imp_right fun hq => ⟨rank c s', .inr ⟨hq.1, rfl⟩, ?_⟩⟩
      have hle := hq.2
      simp only [Event.ticks, Event.brings]
      omega
    · obtain ⟨s', hs', hvalid, hmoves⟩ := exec_moves hasleep.valid he
      obtain ⟨t, ht, -⟩ := hasleep.blocked
      obtain ⟨hkept, hbrings⟩ := exec_kept ⟨hasleep.valid.listed, hsliced⟩ hs'
      have hothers := hbrings.othersTurns_le (List.getElem?_eq_some_iff.mp ht).1
      have hearly : 10 * (k + e.ticks) < ms.toNat := by
        have hticks : e.ticks ≤ 1 := by cases e <;> simp [Event.ticks]
        have hnext := (clockServes_iff hms).mp hserves k hk
        by_cases hone : e.ticks = 1
        · have hnot : ¬ ms.toNat ≤ 10 * (k + 1) := fun h => hwoken ⟨hone, hnext.mpr h⟩
          omega
        · omega
      refine ⟨s', hs', .inr ⟨(ms.toNat + 9) / 10 + s'.othersTurns c - (k + e.ticks), .inl ⟨k + e.ticks,
        hasleep.step hvalid hmoves fun hone h => hwoken ⟨hone, h⟩, hkept.sliced, hearly, ?_⟩, ?_⟩⟩
      · omega
      · omega
  · obtain ⟨s', hs', hends⟩ := exec_queued hq e
    exact ⟨s', hs', hends.imp_right fun hq => ⟨_, .inr ⟨hq.1, rfl⟩, hq.2⟩⟩

-- A task that sleeps for `ms` has the processor again once `ms` and the full time slices of
-- the other tasks have gone by, wherever the clock serves.
theorem sleeper_served (hmem : mem ≠ 0) (hms : ms ≠ 0)
    (hmet : AllMet exec Enabled (start.initTask mem) (before ++ .syscallSleep ms :: after))
    (hrun : run exec (start.initTask mem) before = .ok s)
    (hserves : ClockServes s.kernelTimerMs ms) :
    ∃ c s', s.currentTask = some c ∧ exec s (.syscallSleep ms) = .ok s' ∧
      ((ms.toNat + 9) / 10 + s.othersTurns c + (after.map Event.brings).sum ≤ ticks after →
        Attains exec (fun s' => s'.currentTask = some c) s' after) := by
  obtain ⟨s₀, hs₀, hvalid⟩ := run_ok (initTask_valid start hmem) hmet.left
  obtain rfl : s₀ = s := Except.ok.inj (hs₀.symm.trans hrun)
  have hkept := run_keeps Kept (fun _ _ _ hs h => (exec_kept hs h).1) (initTask_kept start hmem) hrun
  have hafter := hmet.right hrun
  obtain ⟨c, s', hc, hs', hasleep⟩ := asleep_syscallSleep hvalid hafter.1 hms
  obtain ⟨c', t, hruns⟩ := hvalid.listed
  obtain rfl : c = c' := Option.some.inj (hc.symm.trans hruns.1)
  obtain ⟨hkept', hbrings⟩ := exec_kept hkept hs'
  have hothers : s'.othersTurns c ≤ s₀.othersTurns c :=
    hbrings.othersTurns_le (List.getElem?_eq_some_iff.mp hruns.2).1
  refine ⟨c, s', hc, hs', fun hlong => ?_⟩
  refine attains_of_rank (n := (ms.toNat + 9) / 10 + s'.othersTurns c)
    (Behind c s₀.kernelTimerMs ms) Event.ticks Event.brings ?_
    (fun _ _ _ h he => exec_behind hserves hms h he)
    (.inl ⟨0, hasleep, hkept'.sliced, ?_, rfl⟩) (hafter.2 s' hs') ?_
  · rintro n s (⟨k, -, -, hk, hn⟩ | ⟨hq, rfl⟩)
    · omega
    · exact hq.rank_pos
  · have hne : ms.toNat ≠ 0 := fun h => hms (BitVec.eq_of_toNat_eq h)
    omega
  · unfold ticks at hlong
    omega

-- A sleep of 20 ms, with the idle task beside it
theorem sleeper_served_sample :
    ∃ s, run exec (statics.initTask 4096) [.createTask 8192, .schedule] = .ok s ∧
      ∃ c s', s.currentTask = some c ∧ exec s (.syscallSleep 20) = .ok s' ∧
        (((20 : BitVec 32).toNat + 9) / 10 + s.othersTurns c +
            ((List.replicate 7 Event.timerIrq0Handler).map Event.brings).sum ≤
            ticks (List.replicate 7 .timerIrq0Handler) →
          Attains exec (fun s' => s'.currentTask = some c) s' (List.replicate 7 .timerIrq0Handler)) := by
  have hrun : run exec (statics.initTask 4096) [.createTask 8192, .schedule] = .ok _ := rfl
  exact ⟨_, hrun, sleeper_served (by decide) (by decide) (by decide) hrun (.inl (by decide))⟩

end Served

end ToyKernel.Scheduler
