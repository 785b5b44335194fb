import ToyKernel.Screen

namespace ToyKernel

def BACKSPACE : UInt8 := 0x08
def DELETE : UInt8 := 127

-- `put_c((char)regs->ebx)`
def syscallPrint (s : Screen) (ebx : BitVec 32) : Screen := s.putC ⟨ebx.setWidth 8⟩

-- `_syscall1(SYS_PUTC, (uint32_t)(unsigned char)c)`
def sysPutc (s : Screen) (c : UInt8) : Screen := syscallPrint s (c.toBitVec.setWidth 32)

namespace Readline

-- The buffer, with the indices stored to so far, the count of characters in it, and the
-- characters given to `sys_putc`
structure Editor where
  buf : Nat → UInt8
  stored : List Nat
  i : Nat
  echoed : List UInt8

def IsEnter (c : UInt8) : Prop := c = CARRIAGE_RETURN ∨ c = NEWLINE

def IsErase (c : UInt8) : Prop := c = BACKSPACE ∨ c = DELETE

-- `c < 0x20` for a `char`, which is signed
def IsControl (c : UInt8) : Prop := c < 0x20 ∨ 0x80 ≤ c

instance : DecidablePred IsEnter := fun _ => inferInstanceAs (Decidable (_ ∨ _))
instance : DecidablePred IsErase := fun _ => inferInstanceAs (Decidable (_ ∨ _))
instance : DecidablePred IsControl := fun _ => inferInstanceAs (Decidable (_ ∨ _))

namespace Editor

def store (e : Editor) (index : Nat) (c : UInt8) : Editor :=
  { e with buf := fun k => if k = index then c else e.buf k, stored := e.stored ++ [index] }

def echo (e : Editor) (text : List UInt8) : Editor := { e with echoed := e.echoed ++ text }

-- A round of the loop with a key that does not end the line
def key (len : Nat) (e : Editor) (c : UInt8) : Editor :=
  if IsErase c then
    if e.i > 0 then { e with i := e.i - 1 }.echo [BACKSPACE, SPACE, BACKSPACE] else e
  else if IsControl c then e
  else if e.i < u32Sub len 1 then { e.store e.i c with i := e.i + 1 }.echo [c]
  else e

-- `buf[i] = '\0'` and `return i`
def finish (e : Editor) : Editor := e.store e.i 0

end Editor

-- The loop over the keys that `sys_getkey` returns; without an Enter it goes on waiting.
def loop (len : Nat) : Editor → List UInt8 → Option Editor
  | _, [] => none
  | e, c :: keys => if IsEnter c then some (e.echo [NEWLINE]).finish else loop len (e.key len c) keys

def readline (buf : Nat → UInt8) (len : Nat) (keys : List UInt8) : Option Editor :=
  loop len { buf, stored := [], i := 0, echoed := [] } keys

end Readline

end ToyKernel
