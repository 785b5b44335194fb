import ToyKernel.Readline
import ToyKernel.Stdio

namespace ToyKernel

open Stdio Readline

def INPUT_BUF_SIZE : Nat := 256

def ascii (text : String) : List UInt8 := text.toList.map Char.toUInt8

-- The lines that `_start` prints first
def RULE : List UInt8 := ascii "========================================"
def TITLE : List UInt8 := ascii "  MyKernel - Userland Echo Shell"
def HINT : List UInt8 := ascii "  Type a line and press Enter."

def PROMPT_FORMAT : List UInt8 := ascii "%u> "
def ECHO : List UInt8 := ascii "Echo: "

-- `println` of a string literal
def println (text : List UInt8) : List UInt8 := text ++ [NEWLINE]

-- `_start` while `readline` waits for a key: `prompt`, what was printed before this call of
-- `readline`, and the call itself
structure Shell where
  prompt : UInt32
  printed : List UInt8
  editor : Editor

namespace Shell

-- Everything given to `sys_putc` so far
def output (s : Shell) : List UInt8 := s.printed ++ s.editor.echoed

-- The task's memory, with `char buf[INPUT_BUF_SIZE]` at `address`
def memory (rest : Memory) (address : UInt32) (buf : Nat → UInt8) : Memory := fun a =>
  if (a - address).toNat < INPUT_BUF_SIZE then buf (a - address).toNat else rest a

section Program

variable (rest : Memory) (address : UInt32)

-- The head of the loop: the prompt, and a call of `readline`
def nextLine (prompt : UInt32) (printed : List UInt8) (buf : Nat → UInt8) : Option Shell :=
  (Userland.vprintf (memory rest address buf) (some PROMPT_FORMAT) fun _ => prompt).map fun p =>
    { prompt := prompt + 1
      printed := printed ++ p.text
      editor := { buf, stored := [], i := 0, echoed := [] } }

def start (buf : Nat → UInt8) : Option Shell :=
  nextLine rest address 1 (println RULE ++ println TITLE ++ println HINT ++ println RULE) buf

-- What follows `readline`, which has left `e`
def answer (s : Shell) (e : Editor) : Option Shell :=
  let printed := s.printed ++ e.echoed
  if e.buf 0 = 0 then nextLine rest address s.prompt printed e.buf
  else (print (memory rest address e.buf) address).bind fun line =>
    nextLine rest address s.prompt (printed ++ ECHO ++ line ++ [NEWLINE]) e.buf

-- A key that `sys_getkey` returns either ends the loop of `readline` or is one more round of it.
def press (s : Shell) (c : UInt8) : Option Shell :=
  match loop INPUT_BUF_SIZE s.editor [c] with
  | some e => s.answer rest address e
  | none => some { s with editor := s.editor.key INPUT_BUF_SIZE c }

def _start (buf : Nat → UInt8) (keys : List UInt8) : Option Shell :=
  (start rest address buf).bind fun s => keys.foldlM (press rest address) s

end Program

end Shell

end ToyKernel
