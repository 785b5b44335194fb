import Mathlib.Algebra.GroupWithZero.Nat
import ToyKernel.Scheduler.States

namespace ToyKernel.Scheduler

open Library

def Event.ticks : Event → Nat
  | .timerIrq0Handler => 1
  | _ => 0

-- The ticks among the events, of 10 ms each.
def ticks (events : List Event) : Nat := (events.map Event.ticks).sum

-- For as long as less than `ms` has gone by, the task at `c` is blocked, and the next tick
-- makes it ready exactly when `ms` has gone by with it.
def WakesOnTime (s : Scheduler) (c : Nat) (ms : BitVec 32) : Prop :=
  ∀ events s', AllMet exec Enabled s events → run exec s events = .ok s' →
    10 * ticks events < ms.toNat →
    ∃ t, s'.task[c]? = some t ∧ t.state = .blocked ∧
      (s'.Wakes t ↔ ms.toNat ≤ 10 * (ticks events + 1))

-- The clock does not wrap between the call and the tick that is to wake the task; or it
-- wraps at the first tick already, along with the wake time, and not again.
def ClockServes (now ms : BitVec 32) : Prop :=
  now.toNat + 10 * ((ms.toNat + 9) / 10) < 4294967296 ∨
    4294967296 ≤ now.toNat + ms.toNat ∧ 4294967296 ≤ now.toNat + 10 ∧
      now.toNat + 10 * ((ms.toNat + 9) / 10) < 8589934592

-- Tick `k + 1` after a call at `now` finds the wake time reached.
def Reached (now ms : BitVec 32) (k : Nat) : Prop :=
  now + ms ≤ now + BitVec.ofNat 32 (10 * k) + 10

theorem reached_iff (now ms : BitVec 32) (k : Nat) :
    Reached now ms k ↔
      (now.toNat + ms.toNat) % 4294967296 ≤ (now.toNat + 10 * (k + 1)) % 4294967296 := by
  unfold Reached
  rw [BitVec.le_def]
  simp only [BitVec.toNat_add, BitVec.toNat_ofNat, show (10 : BitVec 32).toNat = 10 from rfl]
  omega

theorem clockServes_iff {now ms : BitVec 32} (hms : ms ≠ 0) :
    ClockServes now ms ↔
      ∀ k, 10 * k < ms.toNat → (Reached now ms k ↔ ms.toNat ≤ 10 * (k + 1)) := by
  have hpos : 0 < ms.toNat := by
    rcases Nat.eq_zero_or_pos ms.toNat with h | h
    · exact absurd (BitVec.eq_of_toNat_eq h) hms
    · exact h
  have hnow := now.isLt
  have hlt := ms.isLt
  simp only [reached_iff]
  unfold ClockServes
  generalize now.toNat = T at *
  generalize ms.toNat = m at *
  constructor
  · intro h k hk
    rcases h with h | ⟨h1, h2, h3⟩
    · rw [Nat.mod_eq_of_lt (by omega), Nat.mod_eq_of_lt (by omega)]
      omega
    · rw [Nat.mod_eq_sub_mod h1, Nat.mod_eq_of_lt (by omega), Nat.mod_eq_sub_mod (by omega),
        Nat.mod_eq_of_lt (by omega)]
      omega
  · intro h
    have hfirst := h 0 (by omega)
    have hlast := h ((m + 9) / 10 - 1) (by omega)
    omega


variable {start s s' : Scheduler} {events : List Event} {c : Nat} {now ms : BitVec 32}

-- The task at `c` sleeps until `now + ms`, `k` ticks after `now`.
structure Asleep (s : Scheduler) (c : Nat) (now ms : BitVec 32) (k : Nat) : Prop where
  valid : s.Valid
  timer : s.kernelTimerMs = now + BitVec.ofNat 32 (10 * k)
  blocked : ∃ t, s.task[c]? = some t ∧ t.state = .blocked ∧ t.wakeTick = now + ms

theorem Asleep.wakes_iff {k : Nat} (h : s.Asleep c now ms k) {t : Task} (hwake : t.wakeTick = now + ms) :
    s.Wakes t ↔ Reached now ms k := by
  unfold Wakes Reached
  rw [h.timer, hwake]

theorem Asleep.step {k : Nat} {e : Event} (h : s.Asleep c now ms k) (hvalid : s'.Valid)
    (hmoves : Moves s e s') (hearly : e.ticks = 1 → ¬ Reached now ms k) :
    s'.Asleep c now ms (k + e.ticks) where
  valid := hvalid
  timer := by
    rw [hmoves.timer, h.timer]
    cases e <;> simp [Event.elapsed, Event.ticks, Nat.mul_add, BitVec.ofNat_add, BitVec.add_assoc]
  blocked := by
    obtain ⟨t, ht, hstate, hwake⟩ := h.blocked
    rcases hmoves.blocked c t ht hstate with ⟨⟨u, hu, hustate, huwake⟩, -⟩ | ⟨rfl, hwakes⟩
    · exact ⟨u, hu, hustate, huwake.trans hwake⟩
    · exact absurd ((h.wakes_iff hwake).mp hwakes) (hearly rfl)

-- As long as no tick finds the wake time reached the task sleeps on.
theorem Asleep.run {k : Nat} (h : s.Asleep c now ms k) (hmet : AllMet exec Enabled s events)
    (hrun : run exec s events = .ok s')
    (hearly : ∀ l, k ≤ l → l < k + ticks events → ¬ Reached now ms l) :
    s'.Asleep c now ms (k + ticks events) := by
  induction events generalizing s k with
  | nil =>
      cases hrun
      exact h
  | cons e events ih =>
      obtain ⟨mid, hmid, hvalid, hmoves⟩ := exec_moves h.valid hmet.1
      have hticks : ticks (e :: events) = e.ticks + ticks events := by simp [ticks]
      rw [hticks] at hearly ⊢
      rw [run_cons hmid] at hrun
      have hnext := h.step hvalid hmoves fun he => hearly k (by omega) (by omega)
      rw [← Nat.add_assoc]
      exact ih hnext (hmet.2 mid hmid) hrun fun l hlo hhi => hearly l (by omega) (by omega)

-- A run of ticks alone is always possible.
theorem allMet_replicate (s : Scheduler) (k : Nat) :
    AllMet exec Enabled s (List.replicate k .timerIrq0Handler) := by
  induction k generalizing s with
  | zero => trivial
  | succ k ih => exact ⟨trivial, fun s' _ => ih s'⟩

theorem ticks_replicate (k : Nat) : ticks (List.replicate k .timerIrq0Handler) = k := by
  simp [ticks, Event.ticks]

theorem Asleep.onTime_iff (h : s.Asleep c now ms 0) (hms : ms ≠ 0) :
    s.WakesOnTime c ms ↔ ClockServes now ms := by
  rw [clockServes_iff hms]
  constructor
  · -- the run of `k` ticks: no earlier one has woken the task, as the claim holds for it too
    intro hclaim k
    induction k using Nat.strong_induction_on with
    | _ k ih =>
        intro hk
        have hmet := allMet_replicate s k
        obtain ⟨s', hs', -⟩ := run_ok h.valid hmet
        have hasleep := h.run hmet hs' (by
          rw [ticks_replicate]
          intro l _ hl
          rw [ih l (by omega) (by omega)]
          omega)
        obtain ⟨t, ht, -, hiff⟩ := hclaim _ s' hmet hs' (by rwa [ticks_replicate])
        obtain ⟨u, hu, -, huwake⟩ := hasleep.blocked
        obtain rfl : t = u := Option.some.inj (ht.symm.trans hu)
        rw [ticks_replicate] at hiff hasleep
        rw [← hiff, hasleep.wakes_iff huwake, Nat.zero_add]
  · intro hserves events s' hmet hrun hless
    have hasleep := h.run hmet hrun (by
      intro l _ hl
      rw [hserves l (by omega)]
      omega)
    obtain ⟨t, ht, hstate, hwake⟩ := hasleep.blocked
    refine ⟨t, ht, hstate, ?_⟩
    rw [hasleep.wakes_iff hwake, Nat.zero_add, hserves _ hless]

-- The call leaves the running task asleep, whatever `schedule` then switches to.
theorem asleep_syscallSleep (hs : s.Valid) (he : s.Enabled (.syscallSleep ms)) (hms : ms ≠ 0) :
    ∃ c s', s.currentTask = some c ∧ exec s (.syscallSleep ms) = .ok s' ∧
      s'.Asleep c s.kernelTimerMs ms 0 := by
  obtain ⟨c, t, hruns⟩ := hs.listed
  have hordered : (s.update c fun t =>
      { t with wakeTick := s.kernelTimerMs + ms, state := .blocked }).Ordered :=
    hs.toOrdered.update hruns fun h => absurd (h ▸ hruns.1) (he.2 hms)
  obtain ⟨s', hs', hvalid, hmoves⟩ := schedule_moves hordered
  refine ⟨c, s', hruns.1, (syscallSleep_eq hruns hms).trans hs', hvalid, ?_, ?_⟩
  · rw [hmoves.timer]
    simp [update, Event.elapsed]
  · have hsleeps := hmoves.blocked c _ hruns.update.2 rfl
    rcases hsleeps with ⟨hstill, -⟩ | ⟨h, -⟩
    · exact hstill
    · cases h

-- A task that sleeps is made ready by the first tick at which `ms` has gone by exactly when
-- the clock serves: in every state that a run reaches, whatever the clock was at its start.
theorem wakesOnTime_iff {mem : Nat} (hmem : mem ≠ 0) (hms : ms ≠ 0)
    (hmet : AllMet exec Enabled (start.initTask mem) (events ++ [.syscallSleep ms]))
    (hrun : run exec (start.initTask mem) events = .ok s) :
    ∃ c s', s.currentTask = some c ∧ exec s (.syscallSleep ms) = .ok s' ∧
      (s'.WakesOnTime c ms ↔ ClockServes s.kernelTimerMs ms) := by
  obtain ⟨s₀, hs₀, hvalid⟩ := run_ok (initTask_valid start hmem) hmet.left
  obtain rfl : s₀ = s := Except.ok.inj (hs₀.symm.trans hrun)
  obtain ⟨c, s', hc, hs', hasleep⟩ := asleep_syscallSleep hvalid (hmet.right hrun).1 hms
  exact ⟨c, s', hc, hs', hasleep.onTime_iff hms⟩

-- The clock shortly before it wraps
def lateStatics : Scheduler := { statics with kernelTimerMs := 4294967280 }

theorem wakesOnTime_iff_sample :
    ∃ s, run exec (lateStatics.initTask 4096) [.createTask 8192, .schedule] = .ok s ∧
      ∃ c s', s.currentTask = some c ∧ exec s (.syscallSleep 20) = .ok s' ∧
        (s'.WakesOnTime c 20 ↔ ClockServes s.kernelTimerMs 20) := by
  have hrun : run exec (lateStatics.initTask 4096) [.createTask 8192, .schedule] = .ok _ := rfl
  exact ⟨_, hrun, wakesOnTime_iff (by decide) (by decide) (by decide) hrun⟩

-- At 4294967280 ms a sleep of 20 ms ends with the next tick, 10 ms later.
theorem not_wakesOnTime_sample :
    ∃ s s', run exec (lateStatics.initTask 4096) [.createTask 8192, .schedule] = .ok s ∧
      s.currentTask = some 1 ∧ exec s (.syscallSleep 20) = .ok s' ∧ ¬ s'.WakesOnTime 1 20 := by
  refine ⟨_, _, rfl, rfl, rfl, ?_⟩
  intro h
  obtain ⟨t, ht, -, hiff⟩ := h [] _ trivial rfl (by decide)
  cases ht
  exact absurd (hiff.mp (by decide)) (by decide)

end ToyKernel.Scheduler
