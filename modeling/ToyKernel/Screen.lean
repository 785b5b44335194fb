import ToyKernel.Word

namespace ToyKernel

def SCREEN_WIDTH : Nat := 80
def SCREEN_HEIGHT : Nat := 25
def DEFAULT_COLOR : UInt8 := 0x7

def NEWLINE : UInt8 := 0x0A
def TAB : UInt8 := 0x09
def CARRIAGE_RETURN : UInt8 := 0x0D
def SPACE : UInt8 := 0x20

-- The memory at `g_ScreenBuffer`, the statics, the cursor of the CRT controller, and the
-- indices of the buffer stored to so far.
structure Screen where
  buffer : Nat → UInt8
  x : Nat
  y : Nat
  cursor : Nat
  stored : List Nat

namespace Screen

def store (s : Screen) (index : Nat) (value : UInt8) : Screen :=
  { s with buffer := fun i => if i = index then value else s.buffer i, stored := s.stored ++ [index] }

section Cells

-- These are the same in screen.c and in stage2's stdio.c.
def getchr (s : Screen) (x y : Nat) : UInt8 := s.buffer (2 * (y * SCREEN_WIDTH + x))

def putchr (s : Screen) (x y : Nat) (c : UInt8) : Screen := s.store (2 * (y * SCREEN_WIDTH + x)) c

def getcolor (s : Screen) (x y : Nat) : UInt8 := s.buffer (2 * (y * SCREEN_WIDTH + x) + 1)

def putcolor (s : Screen) (x y : Nat) (color : UInt8) : Screen :=
  s.store (2 * (y * SCREEN_WIDTH + x) + 1) color

-- Both halves of the position reach the controller, as bytes.
def setcursor (s : Screen) (x y : Nat) : Screen :=
  { s with cursor := (y * SCREEN_WIDTH + x) % 256 + 256 * ((y * SCREEN_WIDTH + x) / 256 % 256) }

-- The inner loops over `x`
def blankRow (s : Screen) (y : Nat) : Screen :=
  (List.range SCREEN_WIDTH).foldl (fun s x => (s.putchr x y 0).putcolor x y DEFAULT_COLOR) s

def copyRow (s : Screen) (dst src : Nat) : Screen :=
  (List.range SCREEN_WIDTH).foldl
    (fun s x =>
      let s := s.putchr x dst (s.getchr x src)
      s.putcolor x dst (s.getcolor x src)) s

def clrscr (s : Screen) : Screen :=
  let s := (List.range SCREEN_HEIGHT).foldl blankRow s
  { s with x := 0, y := 0 }.setcursor 0 0

end Cells

section Kernel

def scrollback (s : Screen) : Screen :=
  let s := (List.range' 1 (SCREEN_HEIGHT - 1)).foldl (fun s y => s.copyRow (y - 1) y) s
  let s := s.blankRow (SCREEN_HEIGHT - 1)
  { s with y := s.y - 1 }

-- What follows the `switch` of `put_c`
def settle (s : Screen) : Screen :=
  let s := if s.x ≥ SCREEN_WIDTH then { s with x := s.x - SCREEN_WIDTH, y := s.y + 1 } else s
  let s := if s.y ≥ SCREEN_HEIGHT then s.scrollback else s
  s.setcursor s.x s.y

-- `put_c` of a character other than a tab
def putGlyph (s : Screen) (c : UInt8) : Screen :=
  settle <|
    if c = NEWLINE then { s with x := 0, y := s.y + 1 }
    else if c = CARRIAGE_RETURN then { s with x := 0 }
    else { s.putchr s.x s.y c with x := s.x + 1 }

-- The loop of the tab from `i` on; its bound, at most 4, is read again in every round.
def tabLoop (putSpace : Screen → Screen) : (rounds i : Nat) → Screen → Screen
  | 0, _, s => s
  | rounds + 1, i, s => if i < 4 - s.x % 4 then tabLoop putSpace rounds (i + 1) (putSpace s) else s

def putC (s : Screen) (c : UInt8) : Screen :=
  if c = TAB then (tabLoop (fun s => s.putGlyph SPACE) 4 0 s).settle else s.putGlyph c

end Kernel

end Screen

-- The copy of the driver in stage2's stdio.c
namespace Stage2.Screen

open ToyKernel.Screen

def scrollback (s : Screen) (lines : Nat) : Screen :=
  let s := (List.range' lines (SCREEN_HEIGHT - lines)).foldl (fun s y => s.copyRow (y - lines) y) s
  let s := (List.range' (SCREEN_HEIGHT - lines) lines).foldl blankRow s
  { s with y := s.y - lines }

def settle (s : Screen) : Screen :=
  let s := if s.x ≥ SCREEN_WIDTH then { s with y := s.y + 1, x := 0 } else s
  let s := if s.y ≥ SCREEN_HEIGHT then scrollback s 1 else s
  s.setcursor s.x s.y

def putGlyph (s : Screen) (c : UInt8) : Screen :=
  settle <|
    if c = NEWLINE then { s with x := 0, y := s.y + 1 }
    else if c = CARRIAGE_RETURN then { s with x := 0 }
    else { s.putchr s.x s.y c with x := s.x + 1 }

def putc (s : Screen) (c : UInt8) : Screen :=
  if c = TAB then settle (tabLoop (fun s => putGlyph s SPACE) 4 0 s) else putGlyph s c

end Stage2.Screen

end ToyKernel
