import ToyKernel.Library.Transducer
import ToyKernel.Stdio

namespace ToyKernel.Stdio

open Library

-- What a format consists of: characters to copy, and directives
inductive Event where
  | text (c : UInt8)
  | directive (length : Length) (conversion : Conversion)

structure Control where
  state : State
  length : Length

def Control.start : Control := ⟨.normal, .default⟩

def Control.next (s : Control) (c : UInt8) : Control :=
  match s.state with
  | .normal => if c = PERCENT then { s with state := .length } else s
  | .length =>
      if c = CHAR_H then ⟨.lengthShort, .short⟩
      else if c = CHAR_L then ⟨.lengthLong, .long⟩
      else .start
  | .lengthShort => if c = CHAR_H then ⟨.spec, .shortShort⟩ else .start
  | .lengthLong => if c = CHAR_L then ⟨.spec, .longLong⟩ else .start
  | .spec => .start

def Control.emit (s : Control) (c : UInt8) : Option Event :=
  match s.state with
  | .normal => if c = PERCENT then none else some (.text c)
  | .length =>
      if c = CHAR_H then none
      else if c = CHAR_L then none
      else some (.directive s.length (conversion c))
  | .lengthShort => if c = CHAR_H then none else some (.directive s.length (conversion c))
  | .lengthLong => if c = CHAR_L then none else some (.directive s.length (conversion c))
  | .spec => some (.directive s.length (conversion c))

-- The states of the loop, without what the directives do
def scanner : Transducer Control UInt8 Event := ⟨Control.next, Control.emit⟩

def scan (fmt : List UInt8) : List Event := scanner.events .start fmt

-- What outlives a directive
structure Store where
  number : Bool
  taken : Nat
  emitted : List UInt8

namespace Store

def start : Store := ⟨false, 0, []⟩

def putAll (t : Store) (text : List UInt8) : Store := { t with emitted := t.emitted ++ text }

def take (t : Store) (words : Nat) : Store := { t with taken := t.taken + words }

@[simp] theorem number_putAll (t : Store) (text : List UInt8) : (t.putAll text).number = t.number := rfl
@[simp] theorem taken_putAll (t : Store) (text : List UInt8) : (t.putAll text).taken = t.taken := rfl
@[simp] theorem number_take (t : Store) (words : Nat) : (t.take words).number = t.number := rfl
@[simp] theorem taken_take (t : Store) (words : Nat) : (t.take words).taken = t.taken + words := rfl

def printed (t : Store) : Printed := ⟨t.emitted, t.taken⟩

-- The formatter in the middle of a format: outside a number `radix` and `sign` are at their reset
-- values.
def load (s : Control) (t : Store) : Formatter where
  state := s.state
  length := s.length
  radix := 10
  sign := false
  number := t.number
  taken := t.taken
  emitted := t.emitted

end Store

def Length.words : Length → Nat
  | .longLong => 2
  | _ => 1

-- The words a directive asks for
def Event.words : Event → Nat
  | .text _ => 0
  | .directive length (.numeral _ _) => length.words
  | .directive _ .character | .directive _ .string => 1
  | .directive _ .percent | .directive _ .other => 0

section Meaning

variable (puts : UInt32 → Option (List UInt8)) (args : Nat → UInt32)

-- The numeral of the argument at word `k`
def numeralText (length : Length) (radix : Nat) (sign : Bool) (k : Nat) : List UInt8 :=
  match length, sign with
  | .longLong, true => printfSigned (Formatter.vaArgLongLong args k).toInt64 radix
  | .longLong, false => printfUnsigned (Formatter.vaArgLongLong args k) radix
  | _, true => printfSigned (args k).toInt32.toInt64 radix
  | _, false => printfUnsigned (args k).toUInt64 radix

-- What a directive by itself emits for the arguments from word `k` on
def Conversion.output (length : Length) (k : Nat) : Conversion → Option (List UInt8)
  | .character => some [(args k).toUInt8]
  | .string => puts (args k)
  | .percent => some [PERCENT]
  | .numeral radix sign => some (numeralText args length radix sign k)
  | .other => some []

def Event.output (k : Nat) : Event → Option (List UInt8)
  | .text c => some [c]
  | .directive length conversion => conversion.output puts args length k

-- The number that is printed once more when `number` is still set from an earlier directive
def Store.surplus (t : Store) (length : Length) : Store :=
  if t.number then (t.putAll (numeralText args length 10 false t.taken)).take length.words else t

-- The end of a directive, with `keep` for what the reset makes of `number`
def Store.close (keep : Bool → Bool) (t : Store) : Event → Store
  | .text _ => t
  | .directive _ (.numeral _ _) => { t with number := keep true }
  | .directive length _ => { t.surplus args length with number := keep (t.surplus args length).number }

def Store.act (keep : Bool → Bool) (t : Store) (e : Event) : Option Store :=
  (e.output puts args t.taken).map fun text => ((t.putAll text).take e.words).close args keep e

end Meaning

section Simulation

variable (puts : UInt32 → Option (List UInt8)) (args : Nat → UInt32)
  {reset : Formatter → Formatter} {keep : Bool → Bool}

theorem printNumber_eq {f : Formatter} (h : f.number = true) :
    f.printNumber args =
      (f.putAll (numeralText args f.length f.radix f.sign f.taken)).take f.length.words := by
  unfold Formatter.printNumber
  rw [if_pos h]
  cases f.sign <;> cases f.length <;> rfl

def Resets (reset : Formatter → Formatter) (keep : Bool → Bool) : Prop :=
  ∀ f, reset f =
    { f with state := .normal, length := .default, radix := 10, sign := false, number := keep f.number }

theorem reset_printNumber (hreset : Resets reset keep) (s : Control) (t : Store) :
    reset ((Store.load s t).printNumber args) =
      Store.load .start
        { t.surplus args s.length with number := keep (t.surplus args s.length).number } := by
  rw [hreset]
  unfold Store.surplus
  by_cases hnumber : t.number = true
  · rw [printNumber_eq args hnumber, if_pos hnumber]
    rfl
  · have hkept : (Store.load s t).printNumber args = Store.load s t := if_neg hnumber
    rw [hkept, if_neg hnumber]
    rfl

theorem spec_load (hreset : Resets reset keep) (s : Control) (t : Store) (c : UInt8) :
    (Store.load s t).spec puts reset args c =
      (t.act puts args keep (.directive s.length (conversion c))).map (Store.load .start) := by
  unfold Formatter.spec Formatter.convert Store.act
  cases conversion c with
  | character => exact congrArg some (reset_printNumber args hreset s ((t.putAll [_]).take 1))
  | string =>
      change ((puts (args t.taken)).map _).map _ = ((puts (args t.taken)).map _).map _
      cases puts (args t.taken) with
      | none => rfl
      | some text => exact congrArg some (reset_printNumber args hreset s ((t.putAll text).take 1))
  | percent => exact congrArg some (reset_printNumber args hreset s ((t.putAll [_]).take 0))
  | numeral radix sign =>
      refine congrArg some ?_
      change reset (Formatter.printNumber args _) = _
      rw [printNumber_eq args (by rfl), hreset]
      rfl
  | other =>
      have hnothing : (t.putAll []).take 0 = t := by simp [Store.putAll, Store.take]
      change some (reset ((Store.load s t).printNumber args)) =
        some (Store.load .start (((t.putAll []).take 0).close args keep (.directive s.length .other)))
      rw [reset_printNumber args hreset, hnothing]
      rfl

theorem step_load (hreset : Resets reset keep) (s : Control) (t : Store) (c : UInt8) :
    (Store.load s t).step puts reset args c =
      (Transducer.react (Store.act puts args keep) t (scanner.emit s c)).map
        (Store.load (scanner.next s c)) := by
  have hspec := spec_load puts args hreset s t c
  obtain ⟨state, length⟩ := s
  cases state with
  | normal =>
      change (if c = PERCENT then _ else _) = _
      by_cases hpercent : c = PERCENT
      · simp [scanner, Control.next, Control.emit, Store.load, hpercent, Transducer.react]
      · simp only [scanner, Control.next, Control.emit, hpercent, if_false]
        rfl
  | length =>
      change (if c = CHAR_H then _ else if c = CHAR_L then _ else _) = _
      by_cases hshort : c = CHAR_H
      · simp [scanner, Control.next, Control.emit, Store.load, hshort, Transducer.react]
      · by_cases hlong : c = CHAR_L
        · simp [scanner, Control.next, Control.emit, Store.load, hlong, Transducer.react, CHAR_H, CHAR_L]
        · rw [if_neg hshort, if_neg hlong, hspec]
          simp [scanner, Control.next, Control.emit, hshort, hlong, Transducer.react]
  | lengthShort =>
      change (if c = CHAR_H then _ else _) = _
      by_cases hshort : c = CHAR_H
      · simp [scanner, Control.next, Control.emit, Store.load, hshort, Transducer.react]
      · rw [if_neg hshort, hspec]
        simp [scanner, Control.next, Control.emit, hshort, Transducer.react]
  | lengthLong =>
      change (if c = CHAR_L then _ else _) = _
      by_cases hlong : c = CHAR_L
      · simp [scanner, Control.next, Control.emit, Store.load, hlong, Transducer.react]
      · rw [if_neg hlong, hspec]
        simp [scanner, Control.next, Control.emit, hlong, Transducer.react]
  | spec => exact hspec

-- The loop is the directives of the format, one after the other.
theorem format_eq (hreset : Resets reset keep) (fmt : List UInt8) :
    format puts reset fmt args =
      ((scan fmt).foldlM (Store.act puts args keep) .start).map Store.printed := by
  have hrun := Transducer.foldlM_load (step_load puts args hreset) .start .start fmt
  unfold format
  change Option.map _ (fmt.foldlM _ (Store.load .start .start)) = _
  rw [hrun, Option.map_map]
  rfl

end Simulation

section Formatters

variable (mem : Memory) (fmt : List UInt8) (args : Nat → UInt32)

theorem Stage2.printf_eq : Stage2.printf mem fmt args =
    ((scan fmt).foldlM (Store.act (puts mem) args id) .start).map Store.printed :=
  have hreset : Resets reset id := fun _ => rfl
  format_eq (puts mem) args hreset fmt

theorem Kernel.printf_eq : Kernel.printf mem fmt args =
    ((scan fmt).foldlM (Store.act (puts mem) args fun _ => false) .start).map Store.printed :=
  have hreset : Resets reset fun _ => false := fun _ => rfl
  format_eq (puts mem) args hreset fmt

theorem Userland.vprintf_eq : Userland.vprintf mem (some fmt) args =
    ((scan fmt).foldlM (Store.act (print mem) args fun _ => false) .start).map Store.printed :=
  have hreset : Resets reset fun _ => false := fun _ => rfl
  format_eq (print mem) args hreset fmt

end Formatters

end ToyKernel.Stdio
