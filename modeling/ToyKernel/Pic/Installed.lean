import ToyKernel.Idt
import ToyKernel.Pic.Service

namespace ToyKernel.Pic

open Library Controller Idt

-- The line for which a handler sends its end of interrupt. `default_int_handler` sends none.
def eoiLine : Isr → Option Nat
  | .timerIrq0Handler => some 0
  | .keyboardIrq1Handler => some 1
  | _ => none

-- The lines that `init_idt_32` unmasks
def unmask (p : Pair) : Pair := clearIrqMask (clearIrqMask (clearIrqMask p 0) 1) 2

-- The controllers, the lines whose handlers have yet to send their end of interrupt, the one
-- begun last first, and those that `default_int_handler` has taken, the last first
structure Installed where
  pic : Pair
  handlers : List Nat
  unanswered : List Nat

inductive InstalledEvent where
  | raise (n : Nat)
  | interrupt
  | finish

def InstalledEvent.Allowed : InstalledEvent → Prop
  | .raise n => IsLine n
  | .interrupt | .finish => True

namespace Installed

-- The processor takes the interrupt through the gate of its vector.
def taken (s : Installed) (v : BitVec 8) (pic : Pair) : Installed :=
  match eoiLine (handler v.toNat) with
  | some irq => { s with pic, handlers := irq :: s.handlers }
  | none => { s with pic, unanswered := lineOf v :: s.unanswered }

def exec (s : Installed) : InstalledEvent → Installed
  | .raise n => { s with pic := s.pic.raise n }
  | .interrupt =>
      match s.pic.acknowledge with
      | none => s
      | some (v, pic) => s.taken v pic
  | .finish =>
      match s.handlers with
      | [] => s
      | irq :: rest => { s with pic := sendPicEoi s.pic irq, handlers := rest }

end Installed

-- In service are the clock and the keyboard while their handlers run, and for good the lines
-- that nobody has answered, each of a higher priority than those before it.
structure Held (s : Installed) : Prop where
  remapped : Remapped s.pic
  unmasked : ∀ j < 3, s.pic.master.imr.getLsbD j = false
  answering : ∀ n ∈ s.handlers, n < 2
  nested : s.handlers.Pairwise (· < ·)
  devices : ∀ n ∈ s.unanswered, IsLine n ∧ 2 ≤ masterLine n
  ordered : s.unanswered.Pairwise fun a b => masterLine a < masterLine b
  master : ∀ j, s.pic.master.isr.getLsbD j = true ↔ j ∈ s.handlers ∨ ∃ n ∈ s.unanswered, masterLine n = j

section Installed

variable {s : Installed} {e : InstalledEvent} {events : List InstalledEvent} {n m irq : Nat} {p : Pair}
  {rest : List Nat}

theorem eoiLine_vector (hn : IsLine n) : eoiLine (handler (vector n).toNat) = if n < 2 then some n else none := by
  have hlines : ∀ k : Fin 16, eoiLine (handler (vector k.val).toNat) = if k.val < 2 then some k.val else none := by
    decide
  exact hlines ⟨n, hn.1⟩

theorem raise_held (h : Held s) (hn : IsLine n) : Held (s.exec (.raise n)) := by
  have hmaster : (s.pic.raise n).master.isr = s.pic.master.isr := by
    unfold Pair.raise
    split <;> rfl
  have hmask : (s.pic.raise n).master.imr = s.pic.master.imr := by
    unfold Pair.raise
    split <;> rfl
  refine ⟨raise_remapped h.remapped hn, ?_, h.answering, h.nested, h.devices, h.ordered, ?_⟩
  · intro j hj
    change (s.pic.raise n).master.imr.getLsbD j = false
    rw [hmask, h.unmasked j hj]
  · intro j
    change (s.pic.raise n).master.isr.getLsbD j = true ↔ _
    rw [hmaster]
    exact h.master j

-- What is free comes before every line that is in service.
theorem Held.free (h : Held s) (hn : Free s.pic n) :
    (∀ m ∈ s.handlers, masterLine n < m) ∧ ∀ m ∈ s.unanswered, masterLine n < masterLine m := by
  have hbefore : ∀ j, s.pic.master.isr.getLsbD j = true → masterLine n < j := by
    intro j hset
    by_contra hle
    rw [hn.1 j (by omega)] at hset
    cases hset
  exact ⟨fun m hm => hbefore m ((h.master m).mpr (.inl hm)),
    fun m hm => hbefore _ ((h.master _).mpr (.inr ⟨m, hm, rfl⟩))⟩

theorem service_master (p : Pair) (n : Nat) : (service p n).master = p.master.service (masterLine n) := by
  unfold service masterLine
  split <;> rfl

theorem taken_eq (hn : IsLine n) (q : Pair) :
    s.taken (vector n) q =
      if n < 2 then { s with pic := q, handlers := n :: s.handlers }
      else { s with pic := q, unanswered := n :: s.unanswered } := by
  unfold Installed.taken
  rw [eoiLine_vector hn, lineOf_vector hn.1]
  by_cases hn2 : n < 2
  · simp only [if_pos hn2]
  · simp only [if_neg hn2]

theorem service_held (h : Held s) (hn : Deliverable s.pic n) :
    Held (s.taken (vector n) (service s.pic n)) := by
  obtain ⟨hhandlers, hunanswered⟩ := h.free hn.free
  have hisr : ∀ j, (service s.pic n).master.isr.getLsbD j = true ↔
      masterLine n = j ∨ s.pic.master.isr.getLsbD j = true := by
    intro j
    rw [service_master]
    change (setLine s.pic.master.isr (masterLine n)).getLsbD j = true ↔ _
    rw [getLsbD_setLine (masterLine_lt n), Bool.or_eq_true, decide_eq_true_eq, or_comm]
  have hmask : ∀ j < 3, (service s.pic n).master.imr.getLsbD j = false := by
    intro j hj
    rw [service_master]
    exact h.unmasked j hj
  have hne := hn.line.2
  rw [taken_eq hn.line]
  by_cases hn2 : n < 2
  · have hline : masterLine n = n := if_pos (by omega)
    rw [if_pos hn2]
    rw [hline] at hhandlers hisr
    refine ⟨service_remapped h.remapped, hmask, ?_, ?_, h.devices, h.ordered, fun j => ?_⟩
    · intro m hm
      rcases List.mem_cons.mp hm with rfl | hm
      · exact hn2
      · exact h.answering m hm
    · exact List.pairwise_cons.mpr ⟨hhandlers, h.nested⟩
    · rw [hisr, h.master j, List.mem_cons, ← or_assoc, eq_comm]
  · have hdevice : 2 ≤ masterLine n := by
      unfold masterLine
      split <;> omega
    rw [if_neg hn2]
    refine ⟨service_remapped h.remapped, hmask, h.answering, h.nested, ?_, ?_, fun j => ?_⟩
    · intro m hm
      rcases List.mem_cons.mp hm with rfl | hm
      · exact ⟨hn.line, hdevice⟩
      · exact h.devices m hm
    · exact List.pairwise_cons.mpr ⟨hunanswered, h.ordered⟩
    · simp only [List.mem_cons, exists_eq_or_imp]
      rw [hisr, h.master j, or_left_comm]

-- The end of interrupt of the clock or the keyboard is for no other line.
theorem Held.eoi (h : Held s) (hhandlers : s.handlers = irq :: rest) :
    sendPicEoi s.pic irq =
      { s.pic with master := { s.pic.master with isr := clearLine s.pic.master.isr irq } } := by
  have hirq := h.answering irq (by simp [hhandlers])
  have hnested := h.nested
  rw [hhandlers, List.pairwise_cons] at hnested
  rw [sendPicEoi_eq, if_neg (by omega), endOfInterrupt_isr (i := irq) (by omega)]
  · exact (h.master irq).mpr (.inl (by simp [hhandlers]))
  · intro j hj
    rw [Bool.eq_false_iff]
    intro hset
    rcases (h.master j).mp hset with hmem | ⟨n, hn, rfl⟩
    · rw [hhandlers] at hmem
      rcases List.mem_cons.mp hmem with rfl | hmem
      · omega
      · have hlt := hnested.1 j hmem
        omega
    · have hge := (h.devices n hn).2
      omega

theorem finish_held (h : Held s) : Held (s.exec .finish) := by
  cases hhandlers : s.handlers with
  | nil =>
      have hsame : s.exec .finish = s := by
        unfold Installed.exec
        simp only [hhandlers]
      rwa [hsame]
  | cons irq rest =>
      have hfinish : s.exec .finish = { s with pic := sendPicEoi s.pic irq, handlers := rest } := by
        unfold Installed.exec
        simp only [hhandlers]
      have hirq := h.answering irq (by simp [hhandlers])
      have hnested := h.nested
      have hmaster := h.master
      rw [hhandlers] at hmaster
      rw [hhandlers, List.pairwise_cons] at hnested
      have hremapped : Remapped (sendPicEoi s.pic irq) := sendPicEoi_remapped h.remapped
      rw [hfinish]
      rw [h.eoi hhandlers] at hremapped ⊢
      refine ⟨hremapped, h.unmasked, ?_, hnested.2, h.devices, h.ordered, fun j => ?_⟩
      · intro m hm
        exact h.answering m (by rw [hhandlers]; exact List.mem_cons_of_mem _ hm)
      · change (clearLine s.pic.master.isr irq).getLsbD j = true ↔ _
        rw [getLsbD_clearLine (by omega), Bool.and_eq_true, hmaster j, List.mem_cons]
        simp only [Bool.not_eq_true', decide_eq_false_iff_not]
        constructor
        · rintro ⟨(he | hmem) | hdevice, hne⟩
          · exact absurd he.symm hne
          · exact .inl hmem
          · exact .inr hdevice
        · rintro (hmem | ⟨n, hn, rfl⟩)
          · have hlt := hnested.1 j hmem
            exact ⟨.inl (.inr hmem), by omega⟩
          · have hge := (h.devices n hn).2
            exact ⟨.inr ⟨n, hn, rfl⟩, by omega⟩

theorem exec_held (h : Held s) (he : e.Allowed) : Held (s.exec e) := by
  cases e with
  | raise n => exact raise_held h he
  | interrupt =>
      unfold Installed.exec
      cases hack : s.pic.acknowledge with
      | none => exact h
      | some r =>
          obtain ⟨v, q⟩ := r
          obtain ⟨n, hn, -, rfl, rfl⟩ := acknowledge_eq_some h.remapped hack
          exact service_held h hn
  | finish => exact finish_held h

theorem run_held (h : Held s) (hall : ∀ e ∈ events, e.Allowed) : Held (events.foldl Installed.exec s) := by
  induction events generalizing s with
  | nil => exact h
  | cons e events ih =>
      exact ih (exec_held h (hall e List.mem_cons_self)) fun e he => hall e (List.mem_cons_of_mem _ he)

theorem clearIrqMask_isr (h : Remapped p) : (clearIrqMask p irq).master.isr = p.master.isr := by
  rw [clearIrqMask_eq h]
  split <;> rfl

theorem unmask_remapped (h : Remapped p) : Remapped (unmask p) :=
  clearIrqMask_remapped (clearIrqMask_remapped (clearIrqMask_remapped h))

theorem unmask_masked (h : Remapped p) : masked (unmask p) n = (masked p n && decide (3 ≤ n)) := by
  unfold unmask
  rw [clearIrqMask_masked (clearIrqMask_remapped (clearIrqMask_remapped h)) (by omega),
    clearIrqMask_masked (clearIrqMask_remapped h) (by omega), clearIrqMask_masked h (by omega), Bool.and_assoc,
    Bool.and_assoc]
  congr 1
  by_cases h3 : 3 ≤ n
  · simp [h3, show 0 ≠ n by omega, show 1 ≠ n by omega, show 2 ≠ n by omega]
  · obtain rfl | rfl | rfl : n = 0 ∨ n = 1 ∨ n = 2 := by omega
    · rfl
    · rfl
    · rfl

theorem unmask_held (p : Pair) : Held { pic := unmask (remapPic p), handlers := [], unanswered := [] } where
  remapped := unmask_remapped (remapPic_remapped p)
  unmasked := by
    intro j hj
    have hmasked := unmask_masked (n := j) (remapPic_remapped p)
    rw [decide_eq_false (by omega), Bool.and_false] at hmasked
    unfold masked lineBit at hmasked
    rwa [if_pos (by omega)] at hmasked
  answering := nofun
  nested := .nil
  devices := nofun
  ordered := .nil
  master := by
    intro j
    have h := remapPic_remapped p
    have hisr : (unmask (remapPic p)).master.isr = (remapPic p).master.isr := by
      unfold unmask
      rw [clearIrqMask_isr (clearIrqMask_remapped (clearIrqMask_remapped h)),
        clearIrqMask_isr (clearIrqMask_remapped h), clearIrqMask_isr h]
    rw [hisr, remapPic_eq]
    simp

-- Numbers that go up from one to the next fit between bounds only so often.
theorem length_le_of_ordered {f : Nat → Nat} {l : List Nat} {a b : Nat} (hl : l.Pairwise fun x y => f x < f y)
    (hlo : ∀ x ∈ l, a ≤ f x) (hhi : ∀ x ∈ l, f x < b) : l.length ≤ b - a := by
  induction l generalizing a with
  | nil => exact Nat.zero_le _
  | cons x l ih =>
      obtain ⟨hx, hl⟩ := List.pairwise_cons.mp hl
      have hrest := ih hl (a := f x + 1) hx fun y hy => hhi y (List.mem_cons_of_mem _ hy)
      have := hlo x List.mem_cons_self
      have := hhi x List.mem_cons_self
      rw [List.length_cons]
      omega

theorem Held.clock (h : Held s) (hrequested : requested s.pic 0 = true) (hnone : 0 ∉ s.handlers) :
    Deliverable s.pic 0 := by
  refine ⟨by decide, hrequested, h.unmasked 0 (by omega), h.unmasked 0 (by omega), fun j hj => ?_, fun h => ?_⟩
  · change j ≤ 0 at hj
    obtain rfl : j = 0 := by omega
    rw [Bool.eq_false_iff]
    intro hset
    rcases (h.master 0).mp hset with hmem | ⟨n, hn, he⟩
    · exact hnone hmem
    · have hge := (h.devices n hn).2
      omega
  · omega

theorem Held.keyboard (h : Held s) (hrequested : requested s.pic 1 = true) (hnone : s.handlers = []) :
    Deliverable s.pic 1 := by
  refine ⟨by decide, hrequested, h.unmasked 1 (by omega), h.unmasked 1 (by omega), fun j hj => ?_, fun h => ?_⟩
  · change j ≤ 1 at hj
    rw [Bool.eq_false_iff]
    intro hset
    rcases (h.master j).mp hset with hmem | ⟨n, hn, he⟩
    · rw [hnone] at hmem
      cases hmem
    · have hge := (h.devices n hn).2
      omega
  · omega

-- With the handlers that `init_idt_32` installs the clock and the keyboard are never blocked. Any
-- other line that interrupts is never answered: from then on it blocks itself and all that come
-- after it, so that there are six such interrupts at most.
theorem installed_lines (p : Pair) (hall : ∀ e ∈ events, e.Allowed) :
    let s := events.foldl Installed.exec { pic := unmask (remapPic p), handlers := [], unanswered := [] }
    s.unanswered.Pairwise (fun a b => masterLine a < masterLine b) ∧ s.unanswered.length ≤ 6 ∧
      (∀ v q, s.pic.acknowledge = some (v, q) →
        ∃ n, IsLine n ∧ v = vector n ∧ ∀ m ∈ s.unanswered, masterLine n < masterLine m) ∧
      (requested s.pic 0 = true → 0 ∉ s.handlers → ∃ q, s.pic.acknowledge = some (vector 0, q)) ∧
      (requested s.pic 1 = true → s.handlers = [] → requested s.pic 0 = false →
        ∃ q, s.pic.acknowledge = some (vector 1, q)) := by
  have h := run_held (unmask_held p) hall
  refine ⟨h.ordered, ?_, fun v q hack => ?_, fun hrequested hnone => ?_, fun hrequested hnone hclock => ?_⟩
  · exact length_le_of_ordered (b := 8) h.ordered (fun n hn => (h.devices n hn).2) fun n _ => masterLine_lt n
  · obtain ⟨n, hn, -, hv, -⟩ := acknowledge_eq_some h.remapped hack
    exact ⟨n, hn.line, hv, (h.free hn.free).2⟩
  · obtain ⟨k, q, hack, hk, hle⟩ := acknowledge_of_deliverable h.remapped (h.clock hrequested hnone)
    obtain rfl : k = 0 := by
      unfold priority at hle
      split_ifs at hle <;> omega
    exact ⟨q, hack⟩
  · obtain ⟨k, q, hack, hk, hle⟩ := acknowledge_of_deliverable h.remapped (h.keyboard hrequested hnone)
    obtain rfl | rfl : k = 0 ∨ k = 1 := by
      unfold priority at hle
      split_ifs at hle <;> omega
    · rw [hk.requested] at hclock
      cases hclock
    · exact ⟨q, hack⟩

-- The printer interrupts, then the mouse. The disk comes in vain after that, the keyboard does not.
def sampleInstalled : List InstalledEvent :=
  [.raise 7, .interrupt, .raise 12, .interrupt, .raise 14, .interrupt, .raise 1, .interrupt, .finish, .raise 1]

def openPair : Pair :=
  { master := { firmwarePair.master with imr := 0 }, slave := { firmwarePair.slave with imr := 0 } }

theorem installed_lines_sample :
    let s := sampleInstalled.foldl Installed.exec
      { pic := unmask (remapPic openPair), handlers := [], unanswered := [] }
    s.unanswered = [12, 7] ∧ s.unanswered.length ≤ 6 ∧ ∃ q, s.pic.acknowledge = some (vector 1, q) := by
  obtain ⟨-, hlength, -, -, hkeyboard⟩ :=
    @installed_lines sampleInstalled openPair (by simp [sampleInstalled, InstalledEvent.Allowed, IsLine])
  exact ⟨rfl, hlength, hkeyboard rfl rfl rfl⟩

end Installed

end ToyKernel.Pic
