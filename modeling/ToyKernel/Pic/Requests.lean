import ToyKernel.Pic.Lines

namespace ToyKernel.Pic

open Library Controller

section Effects

variable {p : Pair} {irq n m : Nat} {c : Chip}

theorem endOfInterrupt_eq (c : Chip) : ∃ isr, c.endOfInterrupt = { c with isr } := by
  unfold Chip.endOfInterrupt
  split
  · exact ⟨c.isr, rfl⟩
  · exact ⟨_, rfl⟩

theorem sendPicEoi_eq (p : Pair) (irq : Nat) :
    sendPicEoi p irq =
      { master := p.master.endOfInterrupt
        slave := if irq ≥ 8 then p.slave.endOfInterrupt else p.slave } := by
  unfold sendPicEoi
  split <;> rfl

theorem writeData_ready (h : c.awaits = none) (value : BitVec 8) :
    c.writeData value = { c with imr := value } := by
  unfold Chip.writeData
  rw [h]

theorem setIrqMask_eq (h : Remapped p) :
    setIrqMask p irq =
      if irq < 8 then { p with master := { p.master with imr := setLine p.master.imr irq } }
      else { p with slave := { p.slave with imr := setLine p.slave.imr (irq - 8) } } := by
  unfold setIrqMask irqPort
  by_cases hirq : irq < 8
  · rw [if_pos hirq, if_pos hirq]
    change { p with master := p.master.writeData (setLine p.master.imr irq) } = _
    rw [writeData_ready h.masterReady]
  · rw [if_neg hirq, if_neg hirq]
    change { p with slave := p.slave.writeData (setLine p.slave.imr (irq - 8)) } = _
    rw [writeData_ready h.slaveReady]

theorem clearIrqMask_eq (h : Remapped p) :
    clearIrqMask p irq =
      if irq < 8 then { p with master := { p.master with imr := clearLine p.master.imr irq } }
      else { p with slave := { p.slave with imr := clearLine p.slave.imr (irq - 8) } } := by
  unfold clearIrqMask irqPort
  by_cases hirq : irq < 8
  · rw [if_pos hirq, if_pos hirq]
    change { p with master := p.master.writeData (clearLine p.master.imr irq) } = _
    rw [writeData_ready h.masterReady]
  · rw [if_neg hirq, if_neg hirq]
    change { p with slave := p.slave.writeData (clearLine p.slave.imr (irq - 8)) } = _
    rw [writeData_ready h.slaveReady]

theorem disablePic_eq (h : Remapped p) :
    disablePic p =
      { master := { p.master with imr := 0xFF }, slave := { p.slave with imr := 0xFF } } := by
  unfold disablePic
  change Pair.mk (p.master.writeData 0xFF) (p.slave.writeData 0xFF) = _
  rw [writeData_ready h.masterReady, writeData_ready h.slaveReady]

-- Whatever state the controllers are in, also amid an initialization, they come out ready, with
-- nothing requested or in service, and with the masks that they had.
theorem remapPic_eq (p : Pair) :
    remapPic p =
      { master :=
          { irr := 0, isr := 0, imr := p.master.imr, base := 0x20, cascade := 0x4, mode := 0x1
            single := false, withIcw4 := true, awaits := none }
        slave :=
          { irr := 0, isr := 0, imr := p.slave.imr, base := 0x28, cascade := 0x2, mode := 0x1
            single := false, withIcw4 := true, awaits := none } } := rfl

theorem remapPic_remapped (p : Pair) : Remapped (remapPic p) := by
  rw [remapPic_eq]
  exact ⟨rfl, rfl, rfl, rfl, rfl, rfl, BitVec.getLsbD_zero⟩

theorem lineBit_setLine {master slave : BitVec 8} (hn : n < 16) :
    (if n < 8 then lineBit (setLine master n) slave m else lineBit master (setLine slave (n - 8)) m) =
      (lineBit master slave m || decide (n = m)) := by
  unfold lineBit
  by_cases hn8 : n < 8
  · rw [if_pos hn8]
    by_cases hm8 : m < 8
    · rw [if_pos hm8, if_pos hm8, getLsbD_setLine hn8]
    · rw [if_neg hm8, if_neg hm8]
      simp [show n ≠ m by omega]
  · rw [if_neg hn8]
    by_cases hm8 : m < 8
    · rw [if_pos hm8, if_pos hm8]
      simp [show n ≠ m by omega]
    · rw [if_neg hm8, if_neg hm8, getLsbD_setLine (by omega)]
      simp [show (n - 8 = m - 8) = (n = m) from propext (by omega)]

theorem lineBit_clearLine {master slave : BitVec 8} (hn : n < 16) :
    (if n < 8 then lineBit (clearLine master n) slave m else lineBit master (clearLine slave (n - 8)) m) =
      (lineBit master slave m && !decide (n = m)) := by
  unfold lineBit
  by_cases hn8 : n < 8
  · rw [if_pos hn8]
    by_cases hm8 : m < 8
    · rw [if_pos hm8, if_pos hm8, getLsbD_clearLine hn8]
    · rw [if_neg hm8, if_neg hm8]
      simp [show n ≠ m by omega]
  · rw [if_neg hn8]
    by_cases hm8 : m < 8
    · rw [if_pos hm8, if_pos hm8]
      simp [show n ≠ m by omega]
    · rw [if_neg hm8, if_neg hm8, getLsbD_clearLine (by omega)]
      simp [show (n - 8 = m - 8) = (n = m) from propext (by omega)]

theorem raise_remapped (h : Remapped p) (hn : IsLine n) : Remapped (p.raise n) := by
  unfold Pair.raise
  split
  · refine ⟨h.masterReady, h.slaveReady, h.masterBase, h.slaveBase, h.masterCascade, h.slaveCascade, ?_⟩
    have hne := hn.2
    change (setLine p.master.irr n).getLsbD 2 = false
    rw [getLsbD_setLine (by omega), h.cascadeLine]
    simp [hne]
  · exact ⟨h.masterReady, h.slaveReady, h.masterBase, h.slaveBase, h.masterCascade, h.slaveCascade,
      h.cascadeLine⟩

theorem raise_requested (hn : n < 16) : requested (p.raise n) m = (requested p m || decide (n = m)) := by
  unfold requested
  rw [← lineBit_setLine hn]
  unfold Pair.raise
  split <;> rfl

theorem service_remapped (h : Remapped p) : Remapped (service p n) := by
  unfold service
  split
  · refine ⟨h.masterReady, h.slaveReady, h.masterBase, h.slaveBase, h.masterCascade, h.slaveCascade, ?_⟩
    change (clearLine p.master.irr n).getLsbD 2 = false
    rw [getLsbD_clearLine (by omega), h.cascadeLine, Bool.false_and]
  · refine ⟨h.masterReady, h.slaveReady, h.masterBase, h.slaveBase, h.masterCascade, h.slaveCascade, ?_⟩
    change (clearLine p.master.irr 2).getLsbD 2 = false
    rw [getLsbD_clearLine (by omega), h.cascadeLine, Bool.false_and]

-- The interrupt takes its request away. The line of the cascade holds none.
theorem service_requested (h : Remapped p) (hn : n < 16) :
    requested (service p n) m = (requested p m && !decide (n = m)) := by
  unfold requested
  rw [← lineBit_clearLine hn]
  unfold service
  by_cases hn8 : n < 8
  · rw [if_pos hn8, if_pos hn8]
    rfl
  · rw [if_neg hn8, if_neg hn8]
    have hsame : clearLine p.master.irr 2 = p.master.irr := by
      apply BitVec.eq_of_getLsbD_eq
      intro j _
      rw [getLsbD_clearLine (by omega)]
      by_cases hj : 2 = j
      · subst hj
        rw [h.cascadeLine, Bool.false_and]
      · simp [hj]
    change lineBit (clearLine p.master.irr 2) (clearLine p.slave.irr (n - 8)) m = _
    rw [hsame]

theorem service_masked : masked (service p n) m = masked p m := by
  unfold service
  split <;> rfl

theorem sendPicEoi_remapped (h : Remapped p) : Remapped (sendPicEoi p irq) := by
  obtain ⟨isr, hmaster⟩ := endOfInterrupt_eq p.master
  obtain ⟨isr', hslave⟩ := endOfInterrupt_eq p.slave
  rw [sendPicEoi_eq, hmaster, hslave]
  refine ⟨h.masterReady, ?_, h.masterBase, ?_, h.masterCascade, ?_, h.cascadeLine⟩
  · split
    · exact h.slaveReady
    · exact h.slaveReady
  · split
    · exact h.slaveBase
    · exact h.slaveBase
  · split
    · exact h.slaveCascade
    · exact h.slaveCascade

theorem sendPicEoi_requested : requested (sendPicEoi p irq) m = requested p m := by
  obtain ⟨isr, hmaster⟩ := endOfInterrupt_eq p.master
  obtain ⟨isr', hslave⟩ := endOfInterrupt_eq p.slave
  rw [sendPicEoi_eq, hmaster, hslave]
  unfold requested
  split <;> rfl

theorem sendPicEoi_masked : masked (sendPicEoi p irq) m = masked p m := by
  obtain ⟨isr, hmaster⟩ := endOfInterrupt_eq p.master
  obtain ⟨isr', hslave⟩ := endOfInterrupt_eq p.slave
  rw [sendPicEoi_eq, hmaster, hslave]
  unfold masked
  split <;> rfl

theorem imr_remapped (h : Remapped p) (imr imr' : BitVec 8) :
    Remapped { master := { p.master with imr }, slave := { p.slave with imr := imr' } } :=
  ⟨h.masterReady, h.slaveReady, h.masterBase, h.slaveBase, h.masterCascade, h.slaveCascade,
    h.cascadeLine⟩

theorem setIrqMask_remapped (h : Remapped p) : Remapped (setIrqMask p irq) := by
  rw [setIrqMask_eq h]
  split <;> exact imr_remapped h _ _

theorem setIrqMask_requested (h : Remapped p) : requested (setIrqMask p irq) m = requested p m := by
  rw [setIrqMask_eq h]
  split <;> rfl

theorem setIrqMask_masked (h : Remapped p) (hirq : irq < 16) :
    masked (setIrqMask p irq) m = (masked p m || decide (irq = m)) := by
  unfold masked
  rw [setIrqMask_eq h, ← lineBit_setLine hirq]
  split <;> rfl

theorem clearIrqMask_remapped (h : Remapped p) : Remapped (clearIrqMask p irq) := by
  rw [clearIrqMask_eq h]
  split <;> exact imr_remapped h _ _

theorem clearIrqMask_requested (h : Remapped p) : requested (clearIrqMask p irq) m = requested p m := by
  rw [clearIrqMask_eq h]
  split <;> rfl

theorem clearIrqMask_masked (h : Remapped p) (hirq : irq < 16) :
    masked (clearIrqMask p irq) m = (masked p m && !decide (irq = m)) := by
  unfold masked
  rw [clearIrqMask_eq h, ← lineBit_clearLine hirq]
  split <;> rfl

end Effects

-- A device raises a line, the processor takes an interrupt if there is one, or the kernel calls
-- one of its functions.
inductive Event where
  | raise (n : Nat)
  | interrupt
  | sendPicEoi (irq : Nat)
  | setIrqMask (irq : Nat)
  | clearIrqMask (irq : Nat)
  | disablePic

-- What has been seen of it from outside
inductive Seen where
  | raised (n : Nat)
  | delivered (v : BitVec 8)
  | maskSet (irq : Nat)
  | maskCleared (irq : Nat)
  | allMasked

-- The controllers, and what has been seen so far, the last first
structure Traced where
  pic : Pair
  log : List Seen

def exec (s : Traced) : Event → Traced
  | .raise n => { pic := s.pic.raise n, log := .raised n :: s.log }
  | .interrupt =>
      match s.pic.acknowledge with
      | none => s
      | some (v, pic) => { pic, log := .delivered v :: s.log }
  | .sendPicEoi irq => { s with pic := sendPicEoi s.pic irq }
  | .setIrqMask irq => { pic := setIrqMask s.pic irq, log := .maskSet irq :: s.log }
  | .clearIrqMask irq => { pic := clearIrqMask s.pic irq, log := .maskCleared irq :: s.log }
  | .disablePic => { pic := disablePic s.pic, log := .allMasked :: s.log }

def Event.Allowed : Event → Prop
  | .raise n => IsLine n
  | .sendPicEoi irq | .setIrqMask irq | .clearIrqMask irq => irq < 16
  | .interrupt | .disablePic => True

-- Line `n` has been raised, and no interrupt has come for it since.
def waiting : List Seen → Nat → Bool
  | [], _ => false
  | .raised m :: rest, n => waiting rest n || decide (m = n)
  | .delivered v :: rest, n => waiting rest n && !decide (v = vector n)
  | _ :: rest, n => waiting rest n

-- Whether line `n` is masked, by the last word said of it or as it was before
def maskedIn (before : Nat → Bool) : List Seen → Nat → Bool
  | [], n => before n
  | .maskSet irq :: rest, n => maskedIn before rest n || decide (irq = n)
  | .maskCleared irq :: rest, n => maskedIn before rest n && !decide (irq = n)
  | .allMasked :: _, _ => true
  | _ :: rest, n => maskedIn before rest n

-- Every vector that the processor was given is that of a line which waited and was not masked.
def Honest (before : Nat → Bool) : List Seen → Prop
  | [] => True
  | .delivered v :: rest =>
      (∃ n, IsLine n ∧ v = vector n ∧ waiting rest n = true ∧ maskedIn before rest n = false ∧
        maskedIn before rest (masterLine n) = false) ∧ Honest before rest
  | _ :: rest => Honest before rest

section Runs

variable {s : Traced} {before : Nat → Bool} {n m : Nat} {e : Event} {events : List Event}

theorem vector_injective (hn : n < 16) (hm : m < 16) (h : vector n = vector m) : n = m := by
  have hnat := congrArg BitVec.toNat h
  simp only [vector, BitVec.toNat_ofNat] at hnat
  omega

-- The registers of the controllers say what has been seen.
structure Faithful (before : Nat → Bool) (s : Traced) : Prop where
  remapped : Remapped s.pic
  requested : ∀ n, IsLine n → requested s.pic n = waiting s.log n
  masked : ∀ n, n < 16 → masked s.pic n = maskedIn before s.log n
  honest : Honest before s.log

-- The mask of the line that an interrupt comes on is one of the sixteen.
theorem Faithful.passed (h : Faithful before s) (n : Nat) :
    s.pic.master.imr.getLsbD (masterLine n) = maskedIn before s.log (masterLine n) := by
  have hlt := masterLine_lt n
  rw [← h.masked _ (by omega)]
  unfold Pic.masked lineBit
  rw [if_pos hlt]

theorem exec_faithful (h : Faithful before s) (he : e.Allowed) : Faithful before (exec s e) := by
  cases e with
  | raise n =>
      refine ⟨raise_remapped h.remapped he, fun m hm => ?_, fun m hm => ?_, h.honest⟩
      · change Pic.requested (s.pic.raise n) m = (waiting s.log m || decide (n = m))
        rw [raise_requested he.1, h.requested m hm]
      · refine Eq.trans ?_ (h.masked m hm)
        unfold Pic.masked exec Pair.raise
        dsimp only
        split <;> rfl
  | interrupt =>
      unfold exec
      cases hack : s.pic.acknowledge with
      | none => exact h
      | some r =>
          obtain ⟨v, q⟩ := r
          obtain ⟨n, hn, -, rfl, rfl⟩ := acknowledge_eq_some h.remapped hack
          refine ⟨service_remapped h.remapped, fun m hm => ?_, fun m hm => ?_, ?_, h.honest⟩
          · change Pic.requested (service s.pic n) m = (waiting s.log m && !decide (vector n = vector m))
            have hsame : decide (vector n = vector m) = decide (n = m) := by
              rw [decide_eq_decide]
              exact ⟨vector_injective hn.line.1 hm.1, congrArg vector⟩
            rw [service_requested h.remapped hn.line.1, h.requested m hm, hsame]
          · change Pic.masked (service s.pic n) m = maskedIn before s.log m
            rw [service_masked, h.masked m hm]
          · refine ⟨n, hn.line, rfl, ?_, ?_, ?_⟩
            · rw [← h.requested n hn.line]
              exact hn.requested
            · rw [← h.masked n hn.line.1]
              exact hn.unmasked
            · rw [← h.passed n]
              exact hn.passed
  | sendPicEoi irq =>
      refine ⟨sendPicEoi_remapped h.remapped, fun m hm => ?_, fun m hm => ?_, h.honest⟩
      · exact sendPicEoi_requested.trans (h.requested m hm)
      · exact sendPicEoi_masked.trans (h.masked m hm)
  | setIrqMask irq =>
      refine ⟨setIrqMask_remapped h.remapped, fun m hm => ?_, fun m hm => ?_, h.honest⟩
      · exact (setIrqMask_requested h.remapped).trans (h.requested m hm)
      · change Pic.masked (setIrqMask s.pic irq) m = (maskedIn before s.log m || decide (irq = m))
        rw [setIrqMask_masked h.remapped he, h.masked m hm]
  | clearIrqMask irq =>
      refine ⟨clearIrqMask_remapped h.remapped, fun m hm => ?_, fun m hm => ?_, h.honest⟩
      · exact (clearIrqMask_requested h.remapped).trans (h.requested m hm)
      · change Pic.masked (clearIrqMask s.pic irq) m = (maskedIn before s.log m && !decide (irq = m))
        rw [clearIrqMask_masked h.remapped he, h.masked m hm]
  | disablePic =>
      change Faithful before { pic := disablePic s.pic, log := .allMasked :: s.log }
      rw [disablePic_eq h.remapped]
      refine ⟨imr_remapped h.remapped _ _, h.requested, fun m hm => ?_, h.honest⟩
      have hall : ∀ j : Fin 16, lineBit 0xFF 0xFF j.val = true := by decide
      exact hall ⟨m, hm⟩

theorem run_faithful (h : Faithful before s) (hall : ∀ e ∈ events, e.Allowed) :
    Faithful before (events.foldl exec s) := by
  induction events generalizing s with
  | nil => exact h
  | cons e events ih =>
      exact ih (exec_faithful h (hall e List.mem_cons_self)) fun e he =>
        hall e (List.mem_cons_of_mem _ he)

theorem remapPic_faithful (p : Pair) : Faithful (masked p) { pic := remapPic p, log := [] } where
  remapped := remapPic_remapped p
  requested := by
    intro n hn
    rw [remapPic_eq]
    unfold requested lineBit
    split <;> exact BitVec.getLsbD_zero
  masked := by
    intro n _
    rw [remapPic_eq]
    rfl
  honest := trivial

-- After `remap_pic` no interrupt is made up and none is lost: the processor is given the
-- vector 0x20 + n for a line n that has been raised since its last interrupt, while nothing
-- masks it; and a line that has been raised keeps waiting, withheld by its mask, by that of
-- the cascade, or by an interrupt in service that comes before it.
theorem remapped_faithful (p : Pair) (hall : ∀ e ∈ events, e.Allowed) :
    let s := events.foldl exec { pic := remapPic p, log := [] }
    Honest (masked p) s.log ∧
      (∀ n, n < 16 → masked s.pic n = maskedIn (masked p) s.log n) ∧
      (∀ n, IsLine n → requested s.pic n = waiting s.log n) ∧
      (s.pic.acknowledge = none ↔ ∀ n, IsLine n → waiting s.log n = true →
        maskedIn (masked p) s.log n = true ∨ maskedIn (masked p) s.log (masterLine n) = true ∨
          ¬ Free s.pic n) := by
  have h := run_faithful (remapPic_faithful p) hall
  refine ⟨h.honest, h.masked, h.requested, ?_⟩
  rw [acknowledge_eq_none h.remapped]
  refine forall_congr' fun n => ⟨fun hnot hline hwaits => ?_, fun hheld hn => ?_⟩
  · by_contra hpassed
    simp only [not_or, Bool.not_eq_true, not_not] at hpassed
    refine hnot ⟨hline, ?_, ?_, ?_, hpassed.2.2⟩
    · rw [h.requested n hline, hwaits]
    · rw [h.masked n hline.1, hpassed.1]
    · rw [h.passed n, hpassed.2.1]
  · rcases hheld hn.line ((h.requested n hn.line).symm.trans hn.requested) with hmask | hmask | hfree
    · rw [← h.masked n hn.line.1, hn.unmasked] at hmask
      cases hmask
    · rw [← h.passed n, hn.passed] at hmask
      cases hmask
    · exact hfree hn.free

-- The controllers as the firmware leaves them, with the clock, the keyboard and the cascade open
def firmwarePair : Pair where
  master :=
    { irr := 0x1, isr := 0x2, imr := 0xF8, base := 0x08, cascade := 0x4, mode := 0x1
      single := false, withIcw4 := true, awaits := none }
  slave :=
    { irr := 0, isr := 0, imr := 0xFF, base := 0x70, cascade := 0x2, mode := 0x1
      single := false, withIcw4 := true, awaits := none }

def sampleEvents : List Event :=
  [.raise 14, .raise 1, .interrupt, .clearIrqMask 14, .raise 0, .interrupt, .sendPicEoi 0, .sendPicEoi 1,
    .interrupt]

theorem remapped_faithful_sample :
    let s := sampleEvents.foldl exec { pic := remapPic firmwarePair, log := [] }
    s.log = [.delivered 0x2E, .delivered 0x20, .raised 0, .maskCleared 14, .delivered 0x21, .raised 1,
        .raised 14] ∧
      Honest (masked firmwarePair) s.log ∧
      (∀ n, n < 16 → masked s.pic n = maskedIn (masked firmwarePair) s.log n) ∧
      (∀ n, IsLine n → requested s.pic n = waiting s.log n) ∧
      (s.pic.acknowledge = none ↔ ∀ n, IsLine n → waiting s.log n = true →
        maskedIn (masked firmwarePair) s.log n = true ∨
          maskedIn (masked firmwarePair) s.log (masterLine n) = true ∨ ¬ Free s.pic n) :=
  ⟨rfl, remapped_faithful firmwarePair (by simp [sampleEvents, Event.Allowed, IsLine])⟩

end Runs

end ToyKernel.Pic
