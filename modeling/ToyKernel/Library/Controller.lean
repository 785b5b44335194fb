import Mathlib.Data.List.Basic

namespace Library.Controller

-- The bits of the registers below are the eight request lines of a chip.
def setLine (v : BitVec 8) (i : Nat) : BitVec 8 := v ||| (1 : BitVec 8) <<< i

def clearLine (v : BitVec 8) (i : Nat) : BitVec 8 := v &&& ~~~((1 : BitVec 8) <<< i)

-- The line of the highest priority among those where `p` holds
def first (p : Nat → Bool) : Option Nat := (List.range 8).find? p

-- The initialization word that a chip waits for
inductive Awaits where
  | icw2
  | icw3
  | icw4
  deriving DecidableEq

-- An interrupt controller of the type 8259A, with edge-triggered lines and fixed priorities:
-- the requests that have come in, those in service, those masked; the vector of line 0, the
-- wiring of the cascade and the mode, as the initialization set them.
structure Chip where
  irr : BitVec 8
  isr : BitVec 8
  imr : BitVec 8
  base : BitVec 8
  cascade : BitVec 8
  mode : BitVec 8
  single : Bool
  withIcw4 : Bool
  awaits : Option Awaits

namespace Chip

def raise (c : Chip) (i : Nat) : Chip := { c with irr := setLine c.irr i }

-- A line is held back by a line of the same or a higher priority in service.
def heldBack (c : Chip) (i : Nat) : Bool := (List.range (i + 1)).any fun j => c.isr.getLsbD j

-- The request that the chip passes on, where `slave` tells the lines on which a second chip asks
def answers (c : Chip) (slave : Nat → Bool) : Option Nat :=
  if c.awaits.isSome then none
  else first fun i => (c.irr.getLsbD i || slave i) && !c.imr.getLsbD i && !c.heldBack i

def service (c : Chip) (i : Nat) : Chip :=
  { c with irr := clearLine c.irr i, isr := setLine c.isr i }

-- The end-of-interrupt command that names no line
def endOfInterrupt (c : Chip) : Chip :=
  match first fun i => c.isr.getLsbD i with
  | none => c
  | some i => { c with isr := clearLine c.isr i }

-- ICW1 where bit 4 is set; of the other words, those that end an interrupt.
def writeCommand (c : Chip) (value : BitVec 8) : Chip :=
  if value.getLsbD 4 then
    { c with
      irr := 0
      isr := 0
      imr := 0
      single := value.getLsbD 1
      withIcw4 := value.getLsbD 0
      awaits := some .icw2 }
  else if value &&& 0xF8 = 0x20 then c.endOfInterrupt
  else c

def writeData (c : Chip) (value : BitVec 8) : Chip :=
  let last := if c.withIcw4 then some Awaits.icw4 else none
  match c.awaits with
  | some .icw2 => { c with base := value &&& 0xF8, awaits := if c.single then last else some .icw3 }
  | some .icw3 => { c with cascade := value, awaits := last }
  | some .icw4 => { c with mode := value, awaits := none }
  | none => { c with imr := value }

end Chip

-- Two chips, the second one wired to a line of the first
structure Pair where
  master : Chip
  slave : Chip

namespace Pair

-- The second chip asks on the line that both have been told of.
def slaveAsks (p : Pair) (i : Nat) : Bool :=
  p.master.cascade.getLsbD i && decide (p.slave.cascade &&& 7 = BitVec.ofNat 8 i) &&
    (p.slave.answers fun _ => false).isSome

-- The lines 8 to 15 are those of the second chip.
def raise (p : Pair) (n : Nat) : Pair :=
  if n < 8 then { p with master := p.master.raise n }
  else { p with slave := p.slave.raise (n - 8) }

-- The processor takes an interrupt, if there is one, and gets its vector.
def acknowledge (p : Pair) : Option (BitVec 8 × Pair) :=
  match p.master.answers p.slaveAsks with
  | none => none
  | some i =>
      if p.slaveAsks i then
        match p.slave.answers fun _ => false with
        | none => none
        | some k =>
            some (p.slave.base + BitVec.ofNat 8 k,
              { master := p.master.service i, slave := p.slave.service k })
      else some (p.master.base + BitVec.ofNat 8 i, { p with master := p.master.service i })

end Pair

section Lines

variable {v : BitVec 8} {i j : Nat} {p : Nat → Bool}

theorem getLsbD_setLine (hi : i < 8) : (setLine v i).getLsbD j = (v.getLsbD j || decide (i = j)) := by
  unfold setLine
  by_cases hj : j < 8
  · have hbit : ∀ a b : Fin 8, ((1 : BitVec 8) <<< a.val).getLsbD b.val = decide (a.val = b.val) := by
      decide
    rw [BitVec.getLsbD_or, hbit ⟨i, hi⟩ ⟨j, hj⟩]
  · rw [BitVec.getLsbD_of_ge _ _ (by omega), BitVec.getLsbD_of_ge _ _ (by omega)]
    simp [show i ≠ j by omega]

theorem getLsbD_clearLine (hi : i < 8) :
    (clearLine v i).getLsbD j = (v.getLsbD j && !decide (i = j)) := by
  unfold clearLine
  by_cases hj : j < 8
  · have hbit : ∀ a b : Fin 8, ((1 : BitVec 8) <<< a.val).getLsbD b.val = decide (a.val = b.val) := by
      decide
    rw [BitVec.getLsbD_and, BitVec.getLsbD_not, hbit ⟨i, hi⟩ ⟨j, hj⟩]
    simp [hj]
  · rw [BitVec.getLsbD_of_ge _ _ (by omega), BitVec.getLsbD_of_ge v _ (by omega), Bool.false_and]

theorem first_eq_some : first p = some i ↔ i < 8 ∧ p i = true ∧ ∀ j < i, p j = false := by
  unfold first
  rw [List.find?_range_eq_some]
  simp only [Bool.not_eq_eq_eq_not, Bool.not_true, List.mem_range]
  constructor
  · rintro ⟨hp, hi, h⟩
    exact ⟨hi, hp, h⟩
  · rintro ⟨hi, hp, h⟩
    exact ⟨hp, hi, h⟩

theorem first_eq_none : first p = none ↔ ∀ i < 8, p i = false := by
  unfold first
  simp

end Lines

end Library.Controller
