import ToyKernel.Library.Controller

namespace ToyKernel.Pic

open Library Controller

def PIC_1_CMD : BitVec 16 := 0x20
def PIC_1_DATA : BitVec 16 := 0x21

def PIC_2_CMD : BitVec 16 := 0xA0
def PIC_2_DATA : BitVec 16 := 0xA1

def NEW_IRQ_0 : BitVec 8 := 0x20
def NEW_IRQ_8 : BitVec 8 := 0x28

def PIC_EOI : BitVec 8 := 0x20

-- Writes to other ports do not reach the controllers.
def outb (p : Pair) (port : BitVec 16) (value : BitVec 8) : Pair :=
  if port = PIC_1_CMD then { p with master := p.master.writeCommand value }
  else if port = PIC_1_DATA then { p with master := p.master.writeData value }
  else if port = PIC_2_CMD then { p with slave := p.slave.writeCommand value }
  else if port = PIC_2_DATA then { p with slave := p.slave.writeData value }
  else p

-- The two data ports read as the masks. No other port is read below.
def inb (p : Pair) (port : BitVec 16) : BitVec 8 :=
  if port = PIC_1_DATA then p.master.imr
  else if port = PIC_2_DATA then p.slave.imr
  else 0xFF

def ioWait (p : Pair) : Pair := outb p 0x80 0

def sendPicEoi (p : Pair) (irq : Nat) : Pair :=
  let p := if irq ≥ 8 then outb p PIC_2_CMD PIC_EOI else p
  outb p PIC_1_CMD PIC_EOI

def disablePic (p : Pair) : Pair := outb (outb p PIC_2_DATA 0xFF) PIC_1_DATA 0xFF

-- The data port of the controller that `irq` belongs to, and its line there
def irqPort (irq : Nat) : BitVec 16 × Nat := if irq < 8 then (PIC_1_DATA, irq) else (PIC_2_DATA, irq - 8)

def setIrqMask (p : Pair) (irq : Nat) : Pair :=
  let (port, irq) := irqPort irq
  outb p port (inb p port ||| (1 : BitVec 8) <<< irq)

def clearIrqMask (p : Pair) (irq : Nat) : Pair :=
  let (port, irq) := irqPort irq
  outb p port (inb p port &&& ~~~((1 : BitVec 8) <<< irq))

def remapPic (p : Pair) : Pair :=
  let pic1Mask := inb p PIC_1_DATA
  let pic2Mask := inb p PIC_2_DATA
  -- ICW1 to ICW4, to both controllers in turn
  let p := ioWait (outb p PIC_1_CMD 0x11)
  let p := ioWait (outb p PIC_2_CMD 0x11)
  let p := ioWait (outb p PIC_1_DATA NEW_IRQ_0)
  let p := ioWait (outb p PIC_2_DATA NEW_IRQ_8)
  let p := ioWait (outb p PIC_1_DATA 0x4)
  let p := ioWait (outb p PIC_2_DATA 0x2)
  let p := ioWait (outb p PIC_1_DATA 0x1)
  let p := ioWait (outb p PIC_2_DATA 0x1)
  outb (outb p PIC_1_DATA pic1Mask) PIC_2_DATA pic2Mask

end ToyKernel.Pic
