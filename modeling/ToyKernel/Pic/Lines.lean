import Mathlib.Tactic.SplitIfs
import ToyKernel.Pic

namespace ToyKernel.Pic

open Library Controller

-- The bit of line `n`, of the lines 0 to 15, in a register of the two controllers
def lineBit (master slave : BitVec 8) (n : Nat) : Bool :=
  if n < 8 then master.getLsbD n else slave.getLsbD (n - 8)

def requested (p : Pair) (n : Nat) : Bool := lineBit p.master.irr p.slave.irr n

def inService (p : Pair) (n : Nat) : Bool := lineBit p.master.isr p.slave.isr n

def masked (p : Pair) (n : Nat) : Bool := lineBit p.master.imr p.slave.imr n

-- The lines that a device may be on: line 2 is where the second controller asks.
def IsLine (n : Nat) : Prop := n < 16 ∧ n ≠ 2

instance (n : Nat) : Decidable (IsLine n) := inferInstanceAs (Decidable (n < 16 ∧ n ≠ 2))

-- The controllers as `remap_pic` sets them up
structure Remapped (p : Pair) : Prop where
  masterReady : p.master.awaits = none
  slaveReady : p.slave.awaits = none
  masterBase : p.master.base = NEW_IRQ_0
  slaveBase : p.slave.base = NEW_IRQ_8
  masterCascade : p.master.cascade = 0x4
  slaveCascade : p.slave.cascade = 0x2
  cascadeLine : p.master.irr.getLsbD 2 = false

-- The line of the first controller on which the interrupts of line `n` come
def masterLine (n : Nat) : Nat := if n < 8 then n else 2

theorem masterLine_lt (n : Nat) : masterLine n < 8 := by
  unfold masterLine
  split <;> omega

-- No line of the same or a higher priority is in service.
def Free (p : Pair) (n : Nat) : Prop :=
  (∀ j, j ≤ masterLine n → p.master.isr.getLsbD j = false) ∧
    (8 ≤ n → ∀ j, j ≤ n - 8 → p.slave.isr.getLsbD j = false)

-- The controllers can pass a request of line `n` on to the processor.
structure Deliverable (p : Pair) (n : Nat) : Prop where
  line : IsLine n
  requested : requested p n = true
  unmasked : masked p n = false
  passed : p.master.imr.getLsbD (masterLine n) = false
  free : Free p n

-- The order in which the lines are served
def priority (n : Nat) : Nat := if n < 2 then n else if n < 8 then n + 8 else n - 6

def service (p : Pair) (n : Nat) : Pair :=
  if n < 8 then { p with master := p.master.service n }
  else { master := p.master.service 2, slave := p.slave.service (n - 8) }

-- The vector of line `n`
def vector (n : Nat) : BitVec 8 := BitVec.ofNat 8 (32 + n)

section Registers

variable {p : Pair} {i n m : Nat} {c : Chip}

theorem heldBack_eq_false : c.heldBack i = false ↔ ∀ j, j ≤ i → c.isr.getLsbD j = false := by
  unfold Chip.heldBack
  simp only [List.any_eq_false, List.mem_range, Nat.lt_succ_iff, Bool.not_eq_true]

theorem answers_eq_some {slave : Nat → Bool} (hready : c.awaits = none) :
    c.answers slave = some i ↔ i < 8 ∧
      ((c.irr.getLsbD i || slave i) && !c.imr.getLsbD i && !c.heldBack i) = true ∧
      ∀ j < i, ((c.irr.getLsbD j || slave j) && !c.imr.getLsbD j && !c.heldBack j) = false := by
  unfold Chip.answers
  rw [hready]
  exact first_eq_some

theorem answers_eq_none {slave : Nat → Bool} (hready : c.awaits = none) :
    c.answers slave = none ↔
      ∀ i < 8, ((c.irr.getLsbD i || slave i) && !c.imr.getLsbD i && !c.heldBack i) = false := by
  unfold Chip.answers
  rw [hready]
  exact first_eq_none

-- The request of the second controller comes on line 2.
theorem slaveAsks_eq (h : Remapped p) :
    p.slaveAsks i = (decide (i = 2) && (p.slave.answers fun _ => false).isSome) := by
  have hwired : ∀ i, ((0x4 : BitVec 8).getLsbD i && decide ((0x2 : BitVec 8) &&& 7 = BitVec.ofNat 8 i)) =
      decide (i = 2) := by
    intro i
    by_cases hi : i < 8
    · have hall : ∀ j : Fin 8, ((0x4 : BitVec 8).getLsbD j.val &&
          decide ((0x2 : BitVec 8) &&& 7 = BitVec.ofNat 8 j.val)) = decide (j.val = 2) := by decide
      exact hall ⟨i, hi⟩
    · rw [BitVec.getLsbD_of_ge _ _ (by omega)]
      simp [show i ≠ 2 by omega]
  unfold Pair.slaveAsks
  rw [h.masterCascade, h.slaveCascade, hwired]

theorem slave_line (h : Remapped p) (hn : 8 ≤ n) (hlt : n < 16)
    (hasks : ((p.slave.irr.getLsbD (n - 8) || false) && !p.slave.imr.getLsbD (n - 8) &&
      !p.slave.heldBack (n - 8)) = true) : p.slaveAsks 2 = true := by
  rw [slaveAsks_eq h]
  cases hanswers : p.slave.answers fun _ => false with
  | some k => rfl
  | none =>
      have hnone := (answers_eq_none h.slaveReady).mp hanswers (n - 8) (by omega)
      rw [hasks] at hnone
      cases hnone

theorem Deliverable.slave (h : Deliverable p n) (hn : 8 ≤ n) :
    ((p.slave.irr.getLsbD (n - 8) || false) && !p.slave.imr.getLsbD (n - 8) &&
      !p.slave.heldBack (n - 8)) = true := by
  have hirr := h.requested
  have himr := h.unmasked
  unfold Pic.requested lineBit at hirr
  unfold masked lineBit at himr
  rw [if_neg (by omega)] at hirr himr
  rw [hirr, himr, heldBack_eq_false.mpr (h.free.2 hn)]
  rfl

theorem Deliverable.master (h : Deliverable p n) (hp : Remapped p) :
    ((p.master.irr.getLsbD (masterLine n) || p.slaveAsks (masterLine n)) &&
      !p.master.imr.getLsbD (masterLine n) && !p.master.heldBack (masterLine n)) = true := by
  have hasks : (p.master.irr.getLsbD (masterLine n) || p.slaveAsks (masterLine n)) = true := by
    by_cases hn : n < 8
    · have hirr := h.requested
      unfold Pic.requested lineBit at hirr
      rw [if_pos hn] at hirr
      unfold masterLine
      rw [if_pos hn, hirr, Bool.true_or]
    · have hslave := slave_line hp (by omega) h.line.1 (h.slave (by omega))
      unfold masterLine
      rw [if_neg hn, hslave, Bool.or_true]
  rw [hasks, h.passed, heldBack_eq_false.mpr h.free.1]
  rfl

-- What a controller answers with is asked for, let through and not held back.
theorem of_answers {slave : Nat → Bool} (hready : c.awaits = none) (h : c.answers slave = some i) :
    i < 8 ∧ (c.irr.getLsbD i || slave i) = true ∧ c.imr.getLsbD i = false ∧
      ∀ j, j ≤ i → c.isr.getLsbD j = false := by
  obtain ⟨hlt, hasks, -⟩ := (answers_eq_some hready).mp h
  simp only [Bool.and_eq_true, Bool.not_eq_true'] at hasks
  exact ⟨hlt, hasks.1.1, hasks.1.2, heldBack_eq_false.mp hasks.2⟩

-- Nothing that could be passed on comes before it, on the first controller and on the second.
theorem le_masterLine (h : Remapped p) (hi : p.master.answers p.slaveAsks = some i)
    (hm : Deliverable p m) : i ≤ masterLine m := by
  by_contra hlt
  have hnot := ((answers_eq_some h.masterReady).mp hi).2.2 (masterLine m) (by omega)
  rw [hm.master h] at hnot
  cases hnot

theorem le_slaveLine (h : Remapped p) {k : Nat} (hk : (p.slave.answers fun _ => false) = some k)
    (hm : Deliverable p m) (hm8 : 8 ≤ m) : k ≤ m - 8 := by
  by_contra hlt
  have hnot := ((answers_eq_some h.slaveReady).mp hk).2.2 (m - 8) (by omega)
  rw [hm.slave hm8] at hnot
  cases hnot

-- A line of the first controller, where the second does not ask
theorem deliverable_of_master (h : Remapped p) (hi : p.master.answers p.slaveAsks = some i)
    (hslave : p.slaveAsks i = false) : Deliverable p i := by
  obtain ⟨hlt, hasks, hpassed, hfree⟩ := of_answers h.masterReady hi
  rw [hslave, Bool.or_false] at hasks
  have hline : masterLine i = i := if_pos hlt
  have hne : i ≠ 2 := by
    rintro rfl
    rw [h.cascadeLine] at hasks
    cases hasks
  refine ⟨⟨by omega, hne⟩, ?_, ?_, ?_, ?_, fun h => by omega⟩
  · unfold requested lineBit
    rwa [if_pos hlt]
  · unfold masked lineBit
    rwa [if_pos hlt]
  · rwa [hline]
  · rwa [hline]

-- A line of the second, which the first passes on
theorem deliverable_of_slave (h : Remapped p) {k : Nat} (hi : p.master.answers p.slaveAsks = some 2)
    (hk : (p.slave.answers fun _ => false) = some k) : Deliverable p (8 + k) := by
  obtain ⟨-, -, hpassed, hfree⟩ := of_answers h.masterReady hi
  obtain ⟨hlt, hasks, hopen, hfree'⟩ := of_answers h.slaveReady hk
  rw [Bool.or_false] at hasks
  have hline : masterLine (8 + k) = 2 := if_neg (by omega)
  have hindex : 8 + k - 8 = k := by omega
  refine ⟨⟨by omega, by omega⟩, ?_, ?_, ?_, ?_, ?_⟩
  · unfold requested lineBit
    rwa [if_neg (by omega), hindex]
  · unfold masked lineBit
    rwa [if_neg (by omega), hindex]
  · rwa [hline]
  · rwa [hline]
  · intro _
    rwa [hindex]

-- The processor is given the deliverable request of the highest priority.
theorem acknowledge_eq_some (h : Remapped p) {v : BitVec 8} {q : Pair}
    (hack : p.acknowledge = some (v, q)) :
    ∃ n, Deliverable p n ∧ (∀ m, Deliverable p m → priority n ≤ priority m) ∧ v = vector n ∧
      q = service p n := by
  unfold Pair.acknowledge at hack
  cases hi : p.master.answers p.slaveAsks with
  | none => simp [hi] at hack
  | some i =>
      simp only [hi] at hack
      cases hslave : p.slaveAsks i with
      | true =>
          rw [hslave, if_pos rfl] at hack
          rw [slaveAsks_eq h] at hslave
          simp only [Bool.and_eq_true, decide_eq_true_eq] at hslave
          obtain ⟨rfl, -⟩ := hslave
          cases hk : p.slave.answers fun _ => false with
          | none => simp [hk] at hack
          | some k =>
              simp only [hk, Option.some.injEq, Prod.mk.injEq] at hack
              obtain ⟨rfl, rfl⟩ := hack
              have hdeliverable := deliverable_of_slave h hi hk
              refine ⟨8 + k, hdeliverable, fun m hm => ?_, ?_, ?_⟩
              · have hlt := hdeliverable.line.1
                have hle := le_masterLine h hi hm
                have hle' := le_slaveLine h hk hm
                have hne := hm.line.2
                unfold masterLine at hle
                unfold priority
                split_ifs at hle ⊢ <;> omega
              · rw [h.slaveBase, vector, show 32 + (8 + k) = 40 + k by omega, BitVec.ofNat_add]
                rfl
              · unfold service
                rw [if_neg (by omega), show 8 + k - 8 = k by omega]
      | false =>
          rw [hslave, if_neg Bool.false_ne_true] at hack
          simp only [Option.some.injEq, Prod.mk.injEq] at hack
          obtain ⟨rfl, rfl⟩ := hack
          have hlt := (of_answers h.masterReady hi).1
          have hdeliverable := deliverable_of_master h hi hslave
          refine ⟨i, hdeliverable, fun m hm => ?_, ?_, ?_⟩
          · have hle := le_masterLine h hi hm
            have hne := hdeliverable.line.2
            have hm' := hm.line
            unfold IsLine at hm'
            unfold masterLine at hle
            unfold priority
            split_ifs at hle ⊢ <;> omega
          · rw [h.masterBase, vector, BitVec.ofNat_add]
            rfl
          · unfold service
            rw [if_pos hlt]

-- Where no interrupt comes there is no request that could be passed on.
theorem acknowledge_eq_none (h : Remapped p) : p.acknowledge = none ↔ ∀ n, ¬ Deliverable p n := by
  constructor
  · intro hack n hn
    unfold Pair.acknowledge at hack
    cases hi : p.master.answers p.slaveAsks with
    | none =>
        have hnone := (answers_eq_none h.masterReady).mp hi (masterLine n) (masterLine_lt n)
        rw [hn.master h] at hnone
        cases hnone
    | some i =>
        simp only [hi] at hack
        cases hslave : p.slaveAsks i with
        | false => simp [hslave] at hack
        | true =>
            have hsome := hslave
            rw [slaveAsks_eq h, Bool.and_eq_true, Option.isSome_iff_exists] at hsome
            obtain ⟨-, k, hk⟩ := hsome
            simp [hslave, hk] at hack
  · intro hnone
    cases hack : p.acknowledge with
    | none => rfl
    | some r =>
        obtain ⟨v, q⟩ := r
        obtain ⟨n, hn, -⟩ := acknowledge_eq_some h hack
        exact absurd hn (hnone n)

-- A request that could be passed on is, or one that comes before it.
theorem acknowledge_of_deliverable (h : Remapped p) (hn : Deliverable p n) :
    ∃ k q, p.acknowledge = some (vector k, q) ∧ Deliverable p k ∧ priority k ≤ priority n := by
  cases hack : p.acknowledge with
  | none => exact absurd hn ((acknowledge_eq_none h).mp hack n)
  | some r =>
      obtain ⟨v, q⟩ := r
      obtain ⟨k, hk, hfirst, rfl, -⟩ := acknowledge_eq_some h hack
      exact ⟨k, q, rfl, hk, hfirst n hn⟩

end Registers

end ToyKernel.Pic
