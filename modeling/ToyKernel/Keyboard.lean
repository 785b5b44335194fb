import ToyKernel.Library.ByteMemory

namespace ToyKernel

open Library ByteMemory

-- `key_info` lies at a fixed physical address: the key code and two flags, a byte each.
def KEY_INFO_ADDRESS : Nat := 0x1600
def KEY_ADDRESS : Nat := KEY_INFO_ADDRESS
def SHIFT_ADDRESS : Nat := KEY_INFO_ADDRESS + 1
def CTRL_ADDRESS : Nat := KEY_INFO_ADDRESS + 2

def LSHIFT_MAKE : BitVec 8 := 0x2A
def LSHIFT_BREAK : BitVec 8 := 0xAA
def RSHIFT_MAKE : BitVec 8 := 0x36
def RSHIFT_BREAK : BitVec 8 := 0xB6
def LCTRL_MAKE : BitVec 8 := 0x1D
def LCTRL_BREAK : BitVec 8 := 0x9D

-- The string `scancode_to_ascii`, a row of the keyboard to a line, with its final NUL.
def SCANCODE_TO_ASCII : List (BitVec 8) :=
  [0x00, 0x1B,
    0x31, 0x32, 0x33, 0x34, 0x35, 0x36, 0x37, 0x38, 0x39, 0x30, 0x2D, 0x3D, 0x08, 0x00,
    0x71, 0x77, 0x65, 0x72, 0x74, 0x79, 0x75, 0x69, 0x6F, 0x70, 0x5B, 0x5D, 0x0D, 0x1D,
    0x61, 0x73, 0x64, 0x66, 0x67, 0x68, 0x6A, 0x6B, 0x6C, 0x3B, 0x27, 0x60, 0x00, 0x5C,
    0x7A, 0x78, 0x63, 0x76, 0x62, 0x6E, 0x6D, 0x2C, 0x2E, 0x2F, 0x00, 0x00, 0x00, 0x20,
    0x00]

-- `num_row_shifts`: the characters over the digits 0 to 9
def NUM_ROW_SHIFTS : List (BitVec 8) :=
  [0x29, 0x21, 0x40, 0x23, 0x24, 0x25, 0x5E, 0x26, 0x2A, 0x28]

-- The keys beside letters and digits that have a shifted character, with it
def SHIFTED : List (BitVec 8 × BitVec 8) :=
  [(0x3D, 0x2B), (0x5C, 0x7C), (0x60, 0x7E), (0x5B, 0x7B), (0x5D, 0x7D), (0x27, 0x22), (0x3B, 0x3A),
    (0x2C, 0x3C), (0x2E, 0x3E), (0x2F, 0x3F)]

-- Scancodes past the end of the string read what the linker put behind it, `rodata`.
def scancodeToAscii (rodata : Nat → BitVec 8) (scancode : BitVec 8) : BitVec 8 :=
  (SCANCODE_TO_ASCII[scancode.toNat]?).getD (rodata scancode.toNat)

def shiftKey (key : BitVec 8) : BitVec 8 :=
  if 0x61 ≤ key ∧ key ≤ 0x7A then key - 0x20
  else if 0x30 ≤ key ∧ key ≤ 0x39 then (NUM_ROW_SHIFTS[(key - 0x30).toNat]?).getD key
  else (SHIFTED.lookup key).getD key

-- The handler, once `key` has been read from the keyboard's data port
def keyboardIrq1Handler (rodata : Nat → BitVec 8) (m : Memory) (key : BitVec 8) : Memory :=
  if key = 0 then m
  else if key = LSHIFT_MAKE ∨ key = RSHIFT_MAKE then store8 m SHIFT_ADDRESS 1
  else if key = LSHIFT_BREAK ∨ key = RSHIFT_BREAK then store8 m SHIFT_ADDRESS 0
  else if key = LCTRL_MAKE then store8 m CTRL_ADDRESS 1
  else if key = LCTRL_BREAK then store8 m CTRL_ADDRESS 0
  else if key &&& 0x80 = 0 then
    let key := scancodeToAscii rodata key
    store8 m KEY_ADDRESS (if m SHIFT_ADDRESS ≠ 0 then shiftKey key else key)
  else m

-- Where a call of `get_key` is: before it clears the key, in the loop around `hlt`, at the `cli`
-- behind the loop, and after it with the interrupts off again.
inductive GetKey where
  | start
  | wait
  | found
  | read
  | clear (output : BitVec 8)
  | returned (output : BitVec 8)

structure Keyboard where
  memory : Memory
  point : GetKey
  interrupts : Bool

namespace Keyboard

-- The next statement of `get_key`; one call may follow the other.
def step (k : Keyboard) : Keyboard :=
  match k.point with
  | .start => { memory := store8 k.memory KEY_ADDRESS 0, point := .wait, interrupts := true }
  | .wait => if k.memory KEY_ADDRESS = 0 then k else { k with point := .found }
  | .found => { k with point := .read, interrupts := false }
  | .read => { k with point := .clear (k.memory KEY_ADDRESS) }
  | .clear output =>
      { k with memory := store8 k.memory KEY_ADDRESS 0, point := .returned output }
  | .returned _ => { k with point := .start }

inductive Event where
  | interrupt (scancode : BitVec 8)
  | step

def exec (rodata : Nat → BitVec 8) (k : Keyboard) : Event → Keyboard
  | .interrupt scancode => { k with memory := keyboardIrq1Handler rodata k.memory scancode }
  | .step => k.step

end Keyboard

end ToyKernel
