import Mathlib.Tactic.TypeStar

namespace ToyKernel.Stdio

def PERCENT : UInt8 := 0x25
def MINUS : UInt8 := 0x2D

-- `g_HexChars` and `userland_hex_chars`: "0123456789abcdef"
def hexChar (digit : Nat) : UInt8 :=
  if digit < 10 then UInt8.ofNat (0x30 + digit) else UInt8.ofNat (0x61 + (digit - 10))

-- The digits in the order they are stored in `buffer`; a number of 64 bits has no more than 64.
def digitsLoop (radix : Nat) : (fuel number : Nat) → (buffer : List UInt8) → List UInt8
  | 0, _, buffer => buffer
  | fuel + 1, number, buffer =>
      let buffer := buffer ++ [hexChar (number % radix)]
      if number / radix > 0 then digitsLoop radix fuel (number / radix) buffer else buffer

-- `while (--pos >= 0) putc(buffer[pos])`
def printfUnsigned (number : UInt64) (radix : Nat) : List UInt8 :=
  (digitsLoop radix 64 number.toNat []).reverse

def printfSigned (number : Int64) (radix : Nat) : List UInt8 :=
  if number < 0 then MINUS :: printfUnsigned (-number).toUInt64 radix
  else printfUnsigned number.toUInt64 radix

section Strings

abbrev Memory := UInt32 → UInt8

-- After 2^32 characters `str` is back where it began, and the loop never ends.
def putsLoop (mem : Memory) : (fuel : Nat) → (str : UInt32) → Option (List UInt8)
  | 0, _ => none
  | fuel + 1, str =>
      if mem str = 0 then some [] else (putsLoop mem fuel (str + 1)).map (mem str :: ·)

def puts (mem : Memory) (str : UInt32) : Option (List UInt8) := putsLoop mem 4294967296 str

-- "(null)"
def NULL_TEXT : List UInt8 := [0x28, 0x6E, 0x75, 0x6C, 0x6C, 0x29]

-- userland's `print`
def print (mem : Memory) (s : UInt32) : Option (List UInt8) :=
  if s = 0 then some NULL_TEXT else puts mem s

def hexByte (b : UInt8) : List UInt8 := [hexChar (b >>> 4).toNat, hexChar (b &&& 0xF).toNat]

-- The loop of `print_buffer` from `i` on, a `uint16_t` whatever the type of `count`
def dumpLoop (mem : Memory) (u8Buffer : UInt32) (count : Nat) :
    (rounds : Nat) → (i : UInt16) → Option (List UInt8)
  | 0, _ => none
  | rounds + 1, i =>
      if i.toNat < count then
        (dumpLoop mem u8Buffer count rounds (i + 1)).map (hexByte (mem (u8Buffer + i.toUInt32)) ++ ·)
      else some []

def printBuffer (mem : Memory) (msg buffer : UInt32) (count rounds : Nat) : Option (List UInt8) := do
  let text ← puts mem msg
  let digits ← dumpLoop mem buffer count rounds 0
  return text ++ digits ++ [0x0A]

end Strings

-- PRINTF_STATE_NORMAL and the others
inductive State where
  | normal
  | length
  | lengthShort
  | lengthLong
  | spec
  deriving DecidableEq

-- PRINTF_LENGTH_DEFAULT and the others
inductive Length where
  | default
  | shortShort
  | short
  | long
  | longLong
  deriving DecidableEq

-- The local variables, the words that `va_arg` has taken, and the characters given to `putc`
structure Formatter where
  state : State
  length : Length
  radix : Nat
  sign : Bool
  number : Bool
  taken : Nat
  emitted : List UInt8

-- The cases of the switch over the specifier
inductive Conversion where
  | character
  | string
  | percent
  | numeral (radix : Nat) (sign : Bool)
  | other
  deriving DecidableEq

def conversion (c : UInt8) : Conversion :=
  if c = 0x63 then .character                                      -- 'c'
  else if c = 0x73 then .string                                    -- 's'
  else if c = PERCENT then .percent
  else if c = 0x64 ∨ c = 0x69 then .numeral 10 true                -- 'd', 'i'
  else if c = 0x75 then .numeral 10 false                          -- 'u'
  else if c = 0x58 ∨ c = 0x78 ∨ c = 0x70 then .numeral 16 false    -- 'X', 'x', 'p'
  else if c = 0x6F then .numeral 8 false                           -- 'o'
  else .other

def CHAR_H : UInt8 := 0x68
def CHAR_L : UInt8 := 0x6C

namespace Formatter

def start : Formatter where
  state := .normal
  length := .default
  radix := 10
  sign := false
  number := false
  taken := 0
  emitted := []

def putAll (f : Formatter) (text : List UInt8) : Formatter := { f with emitted := f.emitted ++ text }

def putc (f : Formatter) (c : UInt8) : Formatter := f.putAll [c]

def take (f : Formatter) (words : Nat) : Formatter := { f with taken := f.taken + words }

-- The switch over the specifier. The arguments are the words on the stack from the first one on.
def convert (puts : UInt32 → Option (List UInt8)) (args : Nat → UInt32) (f : Formatter) (c : UInt8) :
    Option Formatter :=
  match conversion c with
  | .character => some ((f.putc (args f.taken).toUInt8).take 1)
  | .string => (puts (args f.taken)).map fun text => (f.putAll text).take 1
  | .percent => some (f.putc PERCENT)
  | .numeral radix sign => some { f with radix, sign, number := true }
  | .other => some f

-- `va_arg(args, long long)`: two words, the low one first
def vaArgLongLong (args : Nat → UInt32) (k : Nat) : UInt64 :=
  (args k).toUInt64 ||| ((args (k + 1)).toUInt64 <<< 32)

-- `if (number)`
def printNumber (args : Nat → UInt32) (f : Formatter) : Formatter :=
  if f.number then
    if f.sign then
      match f.length with
      | .shortShort | .short | .default =>
          (f.putAll (printfSigned (args f.taken).toInt32.toInt64 f.radix)).take 1
      | .long => (f.putAll (printfSigned (args f.taken).toInt32.toInt64 f.radix)).take 1
      | .longLong => (f.putAll (printfSigned (vaArgLongLong args f.taken).toInt64 f.radix)).take 2
    else
      match f.length with
      | .shortShort | .short | .default =>
          (f.putAll (printfUnsigned (args f.taken).toUInt64 f.radix)).take 1
      | .long => (f.putAll (printfUnsigned (args f.taken).toUInt64 f.radix)).take 1
      | .longLong => (f.putAll (printfUnsigned (vaArgLongLong args f.taken) f.radix)).take 2
  else f

-- PRINTF_STATE_SPEC_
def spec (puts : UInt32 → Option (List UInt8)) (reset : Formatter → Formatter) (args : Nat → UInt32)
    (f : Formatter) (c : UInt8) : Option Formatter :=
  (f.convert puts args c).map fun f => reset (f.printNumber args)

-- A round of the loop over the format
def step (puts : UInt32 → Option (List UInt8)) (reset : Formatter → Formatter) (args : Nat → UInt32)
    (f : Formatter) (c : UInt8) : Option Formatter :=
  match f.state with
  | .normal => if c = PERCENT then some { f with state := .length } else some (f.putc c)
  | .length =>
      if c = CHAR_H then some { f with length := .short, state := .lengthShort }
      else if c = CHAR_L then some { f with length := .long, state := .lengthLong }
      else f.spec puts reset args c
  | .lengthShort =>
      if c = CHAR_H then some { f with length := .shortShort, state := .spec }
      else f.spec puts reset args c
  | .lengthLong =>
      if c = CHAR_L then some { f with length := .longLong, state := .spec }
      else f.spec puts reset args c
  | .spec => f.spec puts reset args c

end Formatter

-- What is emitted, and the number of words taken from the argument list
structure Printed where
  text : List UInt8
  taken : Nat

-- `fmt` is the characters before the NUL. There is no result when a string does not end.
def format (puts : UInt32 → Option (List UInt8)) (reset : Formatter → Formatter) (fmt : List UInt8)
    (args : Nat → UInt32) : Option Printed :=
  (fmt.foldlM (Formatter.step puts reset args) .start).map fun f => ⟨f.emitted, f.taken⟩

namespace Stage2

-- `// reset state`, which leaves `number` as it is
def reset (f : Formatter) : Formatter :=
  { f with state := .normal, length := .default, radix := 10, sign := false }

def printf (mem : Memory) (fmt : List UInt8) (args : Nat → UInt32) : Option Printed :=
  format (puts mem) reset fmt args

def printBuffer (mem : Memory) (msg buffer count : UInt32) (rounds : Nat) : Option (List UInt8) :=
  Stdio.printBuffer mem msg buffer count.toNat rounds

end Stage2

namespace Kernel

def reset (f : Formatter) : Formatter :=
  { f with state := .normal, length := .default, radix := 10, sign := false, number := false }

def printf (mem : Memory) (fmt : List UInt8) (args : Nat → UInt32) : Option Printed :=
  format (puts mem) reset fmt args

def printBuffer (mem : Memory) (msg buffer : UInt32) (count : UInt16) (rounds : Nat) :
    Option (List UInt8) := Stdio.printBuffer mem msg buffer count.toNat rounds

end Kernel

namespace Userland

def reset (f : Formatter) : Formatter :=
  { f with state := .normal, length := .default, radix := 10, sign := false, number := false }

-- `none` is a format that is a null pointer.
def vprintf (mem : Memory) (fmt : Option (List UInt8)) (args : Nat → UInt32) : Option Printed :=
  match fmt with
  | none => some ⟨[], 0⟩
  | some fmt => format (print mem) reset fmt args

end Userland

end ToyKernel.Stdio
