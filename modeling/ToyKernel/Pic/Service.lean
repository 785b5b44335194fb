import ToyKernel.Pic.Requests

namespace ToyKernel.Pic

open Library Controller

-- The controllers, and the lines whose handlers have begun and not yet sent their end of
-- interrupt, the one begun last first
structure Handling where
  pic : Pair
  handlers : List Nat

-- A handler ends with `send_pic_eoi` for its own line. Others may interrupt it before.
inductive HandlingEvent where
  | raise (n : Nat)
  | interrupt
  | finish
  | setIrqMask (irq : Nat)
  | clearIrqMask (irq : Nat)

def HandlingEvent.Allowed : HandlingEvent → Prop
  | .raise n => IsLine n
  | .setIrqMask irq | .clearIrqMask irq => irq < 16
  | .interrupt | .finish => True

-- The line whose vector the processor has been given
def lineOf (v : BitVec 8) : Nat := v.toNat - 32

def Handling.exec (s : Handling) : HandlingEvent → Handling
  | .raise n => { s with pic := s.pic.raise n }
  | .interrupt =>
      match s.pic.acknowledge with
      | none => s
      | some (v, pic) => { pic, handlers := lineOf v :: s.handlers }
  | .finish =>
      match s.handlers with
      | [] => s
      | n :: rest => { pic := sendPicEoi s.pic n, handlers := rest }
  | .setIrqMask irq => { s with pic := setIrqMask s.pic irq }
  | .clearIrqMask irq => { s with pic := clearIrqMask s.pic irq }

-- The lines in service are those of the handlers, each of which has interrupted one of a
-- lower priority on the first controller.
structure Nested (s : Handling) : Prop where
  remapped : Remapped s.pic
  lines : ∀ n ∈ s.handlers, IsLine n
  ordered : s.handlers.Pairwise fun a b => masterLine a < masterLine b
  master : ∀ j, s.pic.master.isr.getLsbD j = true ↔ ∃ n ∈ s.handlers, masterLine n = j
  slave : ∀ j, s.pic.slave.isr.getLsbD j = true ↔ 8 + j ∈ s.handlers

section Service

variable {s : Handling} {p : Pair} {e : HandlingEvent} {events : List HandlingEvent} {n m : Nat}
  {c : Chip}

theorem lineOf_vector (hn : n < 16) : lineOf (vector n) = n := by
  unfold lineOf vector
  rw [BitVec.toNat_ofNat]
  omega

-- The command takes the line of the highest priority out of service.
theorem endOfInterrupt_isr (hi : i < 8) (hset : c.isr.getLsbD i = true)
    (hbefore : ∀ j < i, c.isr.getLsbD j = false) :
    c.endOfInterrupt = { c with isr := clearLine c.isr i } := by
  have hfirst : first (fun j => c.isr.getLsbD j) = some i := first_eq_some.mpr ⟨hi, hset, hbefore⟩
  unfold Chip.endOfInterrupt
  rw [hfirst]

-- Functions that leave the bits in service alone
theorem Nested.same (h : Nested s) (hp : Remapped p) (hmaster : p.master.isr = s.pic.master.isr)
    (hslave : p.slave.isr = s.pic.slave.isr) : Nested { s with pic := p } where
  remapped := hp
  lines := h.lines
  ordered := h.ordered
  master := by
    intro j
    rw [← h.master j, hmaster]
  slave := by
    intro j
    rw [← h.slave j, hslave]

-- A handler begins only where it comes before all that have begun.
theorem Nested.free (h : Nested s) (hn : Free s.pic n) (hm : m ∈ s.handlers) :
    masterLine n < masterLine m := by
  have hset := (h.master (masterLine m)).mpr ⟨m, hm, rfl⟩
  by_contra hle
  rw [hn.1 (masterLine m) (by omega)] at hset
  cases hset

theorem interrupt_eq {v : BitVec 8} {q : Pair} (hack : s.pic.acknowledge = some (v, q)) :
    s.exec .interrupt = { pic := q, handlers := lineOf v :: s.handlers } := by
  unfold Handling.exec
  simp only [hack]

theorem finish_eq {rest : List Nat} (hhandlers : s.handlers = n :: rest) :
    s.exec .finish = { pic := sendPicEoi s.pic n, handlers := rest } := by
  unfold Handling.exec
  simp only [hhandlers]

theorem interrupt_nested (h : Nested s) : Nested (s.exec .interrupt) := by
  cases hack : s.pic.acknowledge with
  | none =>
      unfold Handling.exec
      simp only [hack]
      exact h
  | some r =>
      obtain ⟨v, q⟩ := r
      obtain ⟨n, hn, -, rfl, rfl⟩ := acknowledge_eq_some h.remapped hack
      have hn16 := hn.line.1
      have hmaster : (service s.pic n).master.isr = setLine s.pic.master.isr (masterLine n) := by
        unfold service masterLine
        split <;> rfl
      rw [interrupt_eq hack, lineOf_vector hn16]
      refine ⟨service_remapped h.remapped, fun m hm => ?_, ?_, fun j => ?_, fun j => ?_⟩
      · rcases List.mem_cons.mp hm with rfl | hm
        · exact hn.line
        · exact h.lines m hm
      · exact List.pairwise_cons.mpr ⟨fun m hm => h.free hn.free hm, h.ordered⟩
      · simp only [List.mem_cons, exists_eq_or_imp]
        rw [hmaster, getLsbD_setLine (masterLine_lt n), Bool.or_eq_true, decide_eq_true_eq, h.master j,
          or_comm]
      · rw [List.mem_cons, ← h.slave j]
        unfold service
        by_cases hn8 : n < 8
        · rw [if_pos hn8]
          simp [show 8 + j ≠ n by omega]
        · rw [if_neg hn8]
          change (setLine s.pic.slave.isr (n - 8)).getLsbD j = true ↔ _
          rw [getLsbD_setLine (by omega), Bool.or_eq_true, decide_eq_true_eq, or_comm]
          refine or_congr_left ?_
          omega

section Innermost

variable {rest : List Nat}

theorem Nested.innermost (h : Nested s) (hhandlers : s.handlers = n :: rest) :
    IsLine n ∧ ∀ m ∈ rest, masterLine n < masterLine m := by
  have hordered := h.ordered
  rw [hhandlers] at hordered
  exact ⟨h.lines n (by simp [hhandlers]), (List.pairwise_cons.mp hordered).1⟩

-- At most one handler is that of a line of the second controller.
theorem Nested.one_slave (h : Nested s) (hhandlers : s.handlers = n :: rest) (hn : 8 ≤ n) (hm : 8 ≤ m) :
    m ∉ rest := by
  intro hmem
  have hlt := (h.innermost hhandlers).2 m hmem
  unfold masterLine at hlt
  rw [if_neg (by omega), if_neg (by omega)] at hlt
  omega

-- The innermost handler's line is the first one in service on both controllers.
theorem Nested.master_eoi (h : Nested s) (hhandlers : s.handlers = n :: rest) :
    s.pic.master.endOfInterrupt =
      { s.pic.master with isr := clearLine s.pic.master.isr (masterLine n) } := by
  refine endOfInterrupt_isr (masterLine_lt n) ?_ fun j hj => ?_
  · exact (h.master _).mpr ⟨n, by simp [hhandlers], rfl⟩
  · rw [Bool.eq_false_iff]
    intro hset
    obtain ⟨m, hm, rfl⟩ := (h.master j).mp hset
    rw [hhandlers] at hm
    rcases List.mem_cons.mp hm with rfl | hm
    · omega
    · have hlt := (h.innermost hhandlers).2 m hm
      omega

theorem Nested.slave_eoi (h : Nested s) (hhandlers : s.handlers = n :: rest) (hn : 8 ≤ n) :
    s.pic.slave.endOfInterrupt =
      { s.pic.slave with isr := clearLine s.pic.slave.isr (n - 8) } := by
  have hline := (h.innermost hhandlers).1.1
  refine endOfInterrupt_isr (by omega) ?_ fun j hj => ?_
  · rw [h.slave, hhandlers, show 8 + (n - 8) = n by omega]
    exact List.mem_cons_self
  · rw [Bool.eq_false_iff]
    intro hset
    have hmem := (h.slave j).mp hset
    rw [hhandlers] at hmem
    rcases List.mem_cons.mp hmem with he | hmem
    · omega
    · exact h.one_slave hhandlers hn (by omega) hmem

end Innermost

-- The end of interrupt of the innermost handler is that of its own line.
theorem finish_nested (h : Nested s) : Nested (s.exec .finish) := by
  cases hhandlers : s.handlers with
  | nil =>
      unfold Handling.exec
      simp only [hhandlers]
      exact h
  | cons n rest =>
      obtain ⟨hline, hfirst⟩ := h.innermost hhandlers
      have hordered := h.ordered
      have hmaster := h.master
      have hslave := h.slave
      rw [hhandlers] at hordered hmaster hslave
      have hremapped : Remapped (sendPicEoi s.pic n) := sendPicEoi_remapped h.remapped
      rw [finish_eq hhandlers]
      refine ⟨hremapped, fun m hm => ?_, (List.pairwise_cons.mp hordered).2, fun j => ?_, fun j => ?_⟩
      · exact h.lines m (by rw [hhandlers]; exact List.mem_cons_of_mem _ hm)
      · have hj := hmaster j
        simp only [List.mem_cons, exists_eq_or_imp] at hj
        simp only [sendPicEoi_eq, h.master_eoi hhandlers]
        rw [getLsbD_clearLine (masterLine_lt n), Bool.and_eq_true, hj]
        simp only [Bool.not_eq_true', decide_eq_false_iff_not]
        constructor
        · rintro ⟨he | hm, hne⟩
          · exact absurd he hne
          · exact hm
        · rintro ⟨m, hm, rfl⟩
          have hlt := hfirst m hm
          exact ⟨.inr ⟨m, hm, rfl⟩, by omega⟩
      · simp only [sendPicEoi_eq]
        have hj := hslave j
        rw [List.mem_cons] at hj
        by_cases hn8 : 8 ≤ n
        · rw [if_pos hn8, h.slave_eoi hhandlers hn8]
          have hn16 := hline.1
          change (clearLine s.pic.slave.isr (n - 8)).getLsbD j = true ↔ _
          rw [getLsbD_clearLine (by omega), Bool.and_eq_true, hj]
          simp only [Bool.not_eq_true', decide_eq_false_iff_not]
          constructor
          · rintro ⟨he | hm, hne⟩
            · omega
            · exact hm
          · intro hm
            exact absurd hm (h.one_slave hhandlers hn8 (by omega))
        · rw [if_neg (by omega), hj]
          simp [show 8 + j ≠ n by omega]

theorem exec_nested (h : Nested s) (he : e.Allowed) : Nested (s.exec e) := by
  cases e with
  | raise n =>
      refine h.same (raise_remapped h.remapped he) ?_ ?_
      · unfold Pair.raise
        split <;> rfl
      · unfold Pair.raise
        split <;> rfl
  | interrupt => exact interrupt_nested h
  | finish => exact finish_nested h
  | setIrqMask irq =>
      refine h.same (setIrqMask_remapped h.remapped) ?_ ?_
      · rw [setIrqMask_eq h.remapped]
        split <;> rfl
      · rw [setIrqMask_eq h.remapped]
        split <;> rfl
  | clearIrqMask irq =>
      refine h.same (clearIrqMask_remapped h.remapped) ?_ ?_
      · rw [clearIrqMask_eq h.remapped]
        split <;> rfl
      · rw [clearIrqMask_eq h.remapped]
        split <;> rfl

theorem run_nested (h : Nested s) (hall : ∀ e ∈ events, e.Allowed) :
    Nested (events.foldl Handling.exec s) := by
  induction events generalizing s with
  | nil => exact h
  | cons e events ih =>
      exact ih (exec_nested h (hall e List.mem_cons_self)) fun e he =>
        hall e (List.mem_cons_of_mem _ he)

theorem remapPic_nested (p : Pair) : Nested { pic := remapPic p, handlers := [] } where
  remapped := remapPic_remapped p
  lines := nofun
  ordered := .nil
  master := by
    intro j
    rw [remapPic_eq]
    simp
  slave := by
    intro j
    rw [remapPic_eq]
    simp

theorem Nested.inService_iff (h : Nested s) (hn : IsLine n) :
    inService s.pic n = true ↔ n ∈ s.handlers := by
  have hne := hn.2
  unfold inService lineBit
  by_cases hn8 : n < 8
  · rw [if_pos hn8, h.master n]
    constructor
    · rintro ⟨m, hm, he⟩
      have hm2 := (h.lines m hm).2
      unfold masterLine at he
      split at he
      · exact he ▸ hm
      · omega
    · intro hm
      exact ⟨n, hm, if_pos hn8⟩
  · rw [if_neg hn8, h.slave (n - 8), show 8 + (n - 8) = n by omega]

-- However the handlers interrupt each other, `send_pic_eoi` of each takes its own line out of
-- service and no other: in service are the lines of the handlers that have not ended, each of
-- a higher priority than the one it interrupted. With none left nothing but a mask withholds a
-- request.
theorem service_nested (p : Pair) (hall : ∀ e ∈ events, e.Allowed) :
    let s := events.foldl Handling.exec { pic := remapPic p, handlers := [] }
    (∀ n, IsLine n → (inService s.pic n = true ↔ n ∈ s.handlers)) ∧
      s.handlers.Pairwise (fun a b => masterLine a < masterLine b) ∧
      (∀ v q, s.pic.acknowledge = some (v, q) →
        ∃ n, IsLine n ∧ v = vector n ∧ ∀ m ∈ s.handlers, masterLine n < masterLine m) ∧
      (s.handlers = [] → (s.pic.acknowledge = none ↔ ∀ n, IsLine n → requested s.pic n = true →
        masked s.pic n = true ∨ s.pic.master.imr.getLsbD (masterLine n) = true)) := by
  have h := run_nested (remapPic_nested p) hall
  refine ⟨fun n hn => h.inService_iff hn, h.ordered, fun v q hack => ?_, fun hnone => ?_⟩
  · obtain ⟨n, hn, -, hv, -⟩ := acknowledge_eq_some h.remapped hack
    exact ⟨n, hn.line, hv, fun m hm => h.free hn.free hm⟩
  · have hfree : ∀ n, Free (events.foldl Handling.exec { pic := remapPic p, handlers := [] }).pic n := by
      refine fun n => ⟨fun j _ => ?_, fun _ j _ => ?_⟩
      · rw [Bool.eq_false_iff]
        intro hset
        obtain ⟨m, hm, -⟩ := (h.master j).mp hset
        rw [hnone] at hm
        cases hm
      · rw [Bool.eq_false_iff]
        intro hset
        have hm := (h.slave j).mp hset
        rw [hnone] at hm
        cases hm
    rw [acknowledge_eq_none h.remapped]
    refine forall_congr' fun n => ⟨fun hnot hline hreq => ?_, fun hheld hn => ?_⟩
    · by_contra hpassed
      simp only [not_or, Bool.not_eq_true] at hpassed
      exact hnot ⟨hline, hreq, hpassed.1, hpassed.2, hfree n⟩
    · rcases hheld hn.line hn.requested with hmask | hmask
      · rw [hn.unmasked] at hmask
        cases hmask
      · rw [hn.passed] at hmask
        cases hmask

-- The clock interrupts the disk's handler and ends before it, with the keyboard waiting.
def sampleHandling : List HandlingEvent :=
  [.clearIrqMask 14, .raise 14, .interrupt, .raise 0, .interrupt, .raise 1, .finish]

theorem service_nested_sample :
    let s := sampleHandling.foldl Handling.exec { pic := remapPic firmwarePair, handlers := [] }
    s.handlers = [14] ∧
      (∀ n, IsLine n → (inService s.pic n = true ↔ n ∈ s.handlers)) ∧
      s.handlers.Pairwise (fun a b => masterLine a < masterLine b) ∧
      (∀ v q, s.pic.acknowledge = some (v, q) →
        ∃ n, IsLine n ∧ v = vector n ∧ ∀ m ∈ s.handlers, masterLine n < masterLine m) ∧
      (s.handlers = [] → (s.pic.acknowledge = none ↔ ∀ n, IsLine n → requested s.pic n = true →
        masked s.pic n = true ∨ s.pic.master.imr.getLsbD (masterLine n) = true)) :=
  ⟨rfl, service_nested firmwarePair (by simp [sampleHandling, HandlingEvent.Allowed, IsLine])⟩

end Service

end ToyKernel.Pic
