import Mathlib.Data.List.Range
import ToyKernel.Stdio

namespace ToyKernel.Stdio

variable {mem : Memory} {msg buffer : UInt32} {text : List UInt8} {count k n : Nat}

-- The two digits of every byte of the buffer
def dump (mem : Memory) (buffer : UInt32) (k n : Nat) : List UInt8 :=
  (List.range' k n).flatMap fun j =>
    [hexChar ((mem (buffer + UInt32.ofNat j)).toNat / 16),
      hexChar ((mem (buffer + UInt32.ofNat j)).toNat % 16)]

theorem hexByte_eq (b : UInt8) : hexByte b = [hexChar (b.toNat / 16), hexChar (b.toNat % 16)] := by
  have hhigh : (b >>> 4).toNat = b.toNat / 16 := by
    rw [UInt8.toNat_shiftRight]
    exact Nat.shiftRight_eq_div_pow b.toNat 4
  have hlow : (b &&& 0xF).toNat = b.toNat % 16 := by
    rw [UInt8.toNat_and]
    exact Nat.and_two_pow_sub_one_eq_mod b.toNat 4
  rw [hexByte, hhigh, hlow]

theorem toNat_uint16 (h : k < 65536) : (UInt16.ofNat k).toNat = k := UInt16.toNat_ofNat_of_lt' h

theorem toUInt32_ofNat (h : k < 65536) : (UInt16.ofNat k).toUInt32 = UInt32.ofNat k := by
  have hwide : k < UInt32.size := Nat.lt_trans h (by decide)
  apply UInt32.toNat_inj.mp
  rw [UInt16.toNat_toUInt32, toNat_uint16 h, UInt32.toNat_ofNat_of_lt' hwide]

-- With a count that `i` can reach, a round for each byte and one to stop
theorem dumpLoop_eq (mem : Memory) (buffer : UInt32) (hcount : k + n < 65536) :
    dumpLoop mem buffer (k + n) (n + 1) (UInt16.ofNat k) = some (dump mem buffer k n) := by
  induction n generalizing k with
  | zero =>
      have hk := toNat_uint16 (k := k) (by omega)
      exact if_neg (by omega)
  | succ n ih =>
      have hk := toNat_uint16 (k := k) (by omega)
      have hnext : UInt16.ofNat k + 1 = UInt16.ofNat (k + 1) := (UInt16.ofNat_add k 1).symm
      have ih := ih (k := k + 1) (by omega)
      rw [Nat.add_right_comm k 1 n, Nat.add_assoc] at ih
      rw [dumpLoop, if_pos (by omega), hnext, ih, toUInt32_ofNat (by omega), hexByte_eq]
      rfl

-- No `i` reaches a larger count, and the loop goes round and round.
theorem dumpLoop_endless (hcount : 65536 ≤ count) (rounds : Nat) (i : UInt16) :
    dumpLoop mem buffer count rounds i = none := by
  induction rounds generalizing i with
  | zero => rfl
  | succ rounds ih =>
      have hi : i.toNat < 65536 := i.toNat_lt
      rw [dumpLoop, if_pos (by omega), ih, Option.map_none]

theorem printBuffer_eq (hmsg : puts mem msg = some text) (buffer : UInt32) (hcount : count < 65536) :
    printBuffer mem msg buffer count (count + 1) = some (text ++ dump mem buffer 0 count ++ [0x0A]) := by
  have hloop := dumpLoop_eq mem buffer (k := 0) (n := count) (by omega)
  rw [Nat.zero_add] at hloop
  have hzero : UInt16.ofNat 0 = 0 := rfl
  rw [printBuffer, hmsg, ← hzero, hloop]
  rfl

theorem printBuffer_endless (hmsg : puts mem msg = some text) (buffer : UInt32) (hcount : 65536 ≤ count)
    (rounds : Nat) :
    printBuffer mem msg buffer count rounds = none := by
  rw [printBuffer, hmsg]
  exact congrArg (Option.bind · _) (dumpLoop_endless hcount rounds 0)

-- The kernel's copy takes a `uint16_t` and always comes to its end.
theorem Kernel.printBuffer_eq (hmsg : puts mem msg = some text) (count : UInt16) :
    ∃ rounds, Kernel.printBuffer mem msg buffer count rounds =
      some (text ++ dump mem buffer 0 count.toNat ++ [0x0A]) :=
  ⟨_, Stdio.printBuffer_eq hmsg buffer count.toNat_lt⟩

namespace Stage2

-- It ends with the message, the digits of every byte and a newline put out.
def Dumps (mem : Memory) (msg buffer count : UInt32) (text : List UInt8) : Prop :=
  ∃ rounds, printBuffer mem msg buffer count rounds =
    some (text ++ dump mem buffer 0 count.toNat ++ [0x0A])

-- Stage 2's copy does exactly when its `uint32_t` fits in the `uint16_t` of the loop.
theorem dumps_iff (hmsg : puts mem msg = some text) (buffer count : UInt32) :
    Dumps mem msg buffer count text ↔ count.toNat < 65536 := by
  constructor
  · rintro ⟨rounds, hends⟩
    by_contra hlarge
    have hnone := printBuffer_endless hmsg buffer (Nat.not_lt.mp hlarge) rounds
    exact Option.some_ne_none _ (hends.symm.trans hnone)
  · exact fun hsmall => ⟨_, printBuffer_eq hmsg buffer hsmall⟩

-- "A" at address 0
def sampleMemory : Memory := fun p => if p = 0 then 0x41 else 0

theorem puts_sample : puts sampleMemory 0 = some [0x41] := rfl

theorem dumps_iff_sample : Dumps sampleMemory 0 0 2 [0x41] ↔ 2 < 65536 := dumps_iff puts_sample 0 2

-- The first count that does not fit
theorem not_dumps_sample : ¬∀ (mem : Memory) (msg buffer count : UInt32) (text : List UInt8),
    puts mem msg = some text → Dumps mem msg buffer count text := by
  intro h
  obtain ⟨rounds, hends⟩ := h sampleMemory 0 0 65536 [0x41] puts_sample
  have hnone := printBuffer_endless puts_sample 0 (Nat.le_refl 65536) rounds
  exact Option.some_ne_none _ (hends.symm.trans hnone)

end Stage2

end ToyKernel.Stdio
