import ToyKernel.Library.StackMachine

namespace Library.Protection

open ByteMemory StackMachine

-- A gate of the interrupt table, as the processor reads its eight bytes
structure Gate where
  offset : BitVec 32
  selector : BitVec 16
  kind : BitVec 4
  ordinary : Bool
  dpl : BitVec 2
  present : Bool
  deriving DecidableEq

def Gate.decode (d : BitVec 64) : Gate where
  offset := d.extractLsb' 48 16 ++ d.extractLsb' 0 16
  selector := d.extractLsb' 16 16
  kind := d.extractLsb' 40 4
  ordinary := d.getLsbD 44
  dpl := d.extractLsb' 45 2
  present := d.getLsbD 47

-- A descriptor of the segment table. `ordinary` tells code and data from the system segments.
structure Segment where
  base : BitVec 32
  limit : BitVec 20
  kind : BitVec 4
  ordinary : Bool
  dpl : BitVec 2
  present : Bool
  flags : BitVec 4
  deriving DecidableEq

def Segment.decode (d : BitVec 64) : Segment where
  base := d.extractLsb' 56 8 ++ d.extractLsb' 16 24
  limit := d.extractLsb' 48 4 ++ d.extractLsb' 0 16
  kind := d.extractLsb' 40 4
  ordinary := d.getLsbD 44
  dpl := d.extractLsb' 45 2
  present := d.getLsbD 47
  flags := d.extractLsb' 52 4

section Fields

variable {m n start start' len : Nat} {d : BitVec m} {x : BitVec n}

-- A field of a descriptor is told by its bits.
theorem extractLsb'_congr (h : ∀ i < len, d.getLsbD (start + i) = x.getLsbD (start' + i)) :
    d.extractLsb' start len = x.extractLsb' start' len := by
  apply BitVec.eq_of_getLsbD_eq
  intro i hi
  rw [BitVec.getLsbD_extractLsb', BitVec.getLsbD_extractLsb', h i hi]

theorem extractLsb'_whole (h : ∀ i < n, d.getLsbD (start + i) = x.getLsbD i) :
    d.extractLsb' start n = x := by
  rw [extractLsb'_congr fun i hi => (h i hi).trans (congrArg x.getLsbD (Nat.zero_add i).symm)]
  exact BitVec.extractLsb'_eq_self

end Fields

namespace Segment

-- Code that any outer ring may go on with
def isConforming (s : Segment) : Bool := s.ordinary && s.kind.getLsbD 3 && s.kind.getLsbD 2

-- Code that runs in the ring of its descriptor alone
def isCode (s : Segment) : Bool := s.ordinary && s.kind.getLsbD 3 && !s.kind.getLsbD 2

def isWritable (s : Segment) : Bool := s.ordinary && !s.kind.getLsbD 3 && s.kind.getLsbD 1

def isReadable (s : Segment) : Bool := s.ordinary && (!s.kind.getLsbD 3 || s.kind.getLsbD 1)

-- A segment of 32 bits over all of memory
def isFlat (s : Segment) : Bool := s.base == 0 && s.limit == 0xFFFFF && s.flags == 0xC

end Segment

-- The tables that the processor has been told of, and the stack of ring 0 that the task
-- state segment names. A limit is the last byte of its table.
structure Tables where
  gdt : Nat → BitVec 64
  gdtLimit : Nat
  idt : Nat → BitVec 64
  idtLimit : Nat
  ss0 : BitVec 16
  esp0 : BitVec 32

-- The privilege level of a selector, and of the code that runs with it in `cs`
def level (selector : BitVec 16) : Nat := selector.toNat % 4

-- The segment of a selector: not the null one, and none of a local table
def Tables.segment (t : Tables) (selector : BitVec 16) : Option Segment :=
  let i := selector.toNat / 8
  if i = 0 ∨ selector.getLsbD 2 = true ∨ t.gdtLimit < 8 * i + 7 then none
  else some (Segment.decode (t.gdt i))

structure General where
  eax : BitVec 32
  ecx : BitVec 32
  edx : BitVec 32
  ebx : BitVec 32
  ebp : BitVec 32
  esi : BitVec 32
  edi : BitVec 32

-- The data segment registers
structure Data where
  ds : BitVec 16
  es : BitVec 16
  fs : BitVec 16
  gs : BitVec 16

def Data.all (d : Data) (p : BitVec 16 → Prop) : Prop := p d.ds ∧ p d.es ∧ p d.fs ∧ p d.gs

def Data.const (selector : BitVec 16) : Data where
  ds := selector
  es := selector
  fs := selector
  gs := selector

def Data.map (f : BitVec 16 → BitVec 16) (d : Data) : Data where
  ds := f d.ds
  es := f d.es
  fs := f d.fs
  gs := f d.gs

structure Cpu where
  eip : BitVec 32
  esp : BitVec 32
  eflags : Eflags
  cs : BitVec 16
  ss : BitVec 16
  data : Data
  general : General
  memory : Memory

def iopl (e : Eflags) : Nat := (e.bits.extractLsb' 12 2).toNat

def nested (e : Eflags) : Bool := e.bits.getLsbD 14

def virtual (e : Eflags) : Bool := e.bits.getLsbD 17

namespace Cpu

def cpl (m : Cpu) : Nat := level m.cs

def push (m : Cpu) (value : BitVec 32) : Cpu :=
  { m with esp := m.esp - 4, memory := store32 m.memory (m.esp - 4).toNat value }

-- Pushing the words one after the other
def pushes (m : Cpu) (words : List (BitVec 32)) : Cpu := words.foldl push m

def top (m : Cpu) : BitVec 32 := load32 m.memory m.esp.toNat

def drop (m : Cpu) : Cpu := { m with esp := m.esp + 4 }

def onStack (m : Cpu) (ss : BitVec 16) (esp : BitVec 32) : Cpu := { m with ss, esp }

-- What an interrupt leaves on the stack for `iret`, the first word pushed first
def frame (m : Cpu) : List (BitVec 32) := [m.eflags.bits, m.cs.setWidth 32, m.eip]

-- Where it switches the stack, the pointer of the outer stack comes before.
def outerFrame (m : Cpu) : List (BitVec 32) := [m.ss.setWidth 32, m.esp] ++ m.frame

end Cpu

-- A gate taken clears the trap, nested-task, resume and virtual flags; an interrupt gate also
-- clears the interrupt flag.
def cleared (interruptGate : Bool) : BitVec 32 := if interruptGate then 0x34300 else 0x34100

theorem cleared_reserved (e : Eflags) (interruptGate : Bool) :
    (e.bits &&& ~~~(cleared interruptGate)).getLsbD 1 = true := by
  cases interruptGate <;> simp [cleared, e.reserved]

def throughGate (e : Eflags) (interruptGate : Bool) : Eflags where
  bits := e.bits &&& ~~~(cleared interruptGate)
  reserved := cleared_reserved e interruptGate

theorem cli_reserved (e : Eflags) : (e.bits &&& ~~~(0x200 : BitVec 32)).getLsbD 1 = true := by
  simp [e.reserved]

def cli (e : Eflags) : Eflags where
  bits := e.bits &&& ~~~(0x200 : BitVec 32)
  reserved := cli_reserved e

-- What brings an interrupt about: a device, an instruction of the program, or an exception of
-- the processor, some of which push an error code.
inductive Source where
  | external
  | software
  | exception (errorCode : Option (BitVec 32))

namespace Source

def isSoftware : Source → Bool
  | software => true
  | _ => false

def errorCode : Source → List (BitVec 32)
  | exception (some code) => [code]
  | _ => []

end Source

inductive Refused where
  | generalProtection
  | notPresent
  | invalidTss
  -- what is not described here: segments that are not flat, rings 1 and 2, the nested-task
  -- flag and virtual mode
  | undescribed
  deriving DecidableEq

namespace Tables

-- The gate of vector `v`, where an interrupt of the code in ring `cpl` may go through it
def gate (t : Tables) (source : Source) (cpl v : Nat) : Except Refused Gate :=
  let g := Gate.decode (t.idt v)
  if t.idtLimit < 8 * v + 7 then .error .generalProtection
  else if g.ordinary || !(g.kind == 0xE || g.kind == 0xF) then .error .generalProtection
  else if source.isSoftware && decide (g.dpl.toNat < cpl) then .error .generalProtection
  else if !g.present then .error .notPresent
  else .ok g

-- The code segment of a gate
def target (t : Tables) (cpl : Nat) (selector : BitVec 16) : Except Refused Segment :=
  match t.segment selector with
  | none => .error .generalProtection
  | some code =>
      if !code.isCode || decide (cpl < code.dpl.toNat) then .error .generalProtection
      else if !code.present then .error .notPresent
      else if !code.isFlat then .error .undescribed
      else .ok code

-- A stack segment for ring `ring`
def isStack (t : Tables) (ring : Nat) (selector : BitVec 16) : Bool :=
  match t.segment selector with
  | none => false
  | some stack =>
      stack.isWritable && stack.present && stack.isFlat && stack.dpl.toNat == ring && level selector == ring

end Tables

-- The stack of ring 0, with the outer stack's pointer on it
def switchStack (t : Tables) (m : Cpu) : Except Refused Cpu :=
  if t.isStack 0 t.ss0 then .ok ((m.onStack t.ss0 t.esp0).pushes [m.ss.setWidth 32, m.esp])
  else .error .invalidTss

-- The stack on which a handler in `code` begins
def handlerStack (t : Tables) (code : Segment) (m : Cpu) : Except Refused Cpu :=
  if code.dpl.toNat = m.cpl then .ok m
  else if code.dpl = 0 then switchStack t m
  else .error .undescribed

-- The processor takes the interrupt `v`.
def interrupt (t : Tables) (source : Source) (v : Nat) (m : Cpu) : Except Refused Cpu := do
  let g ← t.gate source m.cpl v
  let code ← t.target m.cpl g.selector
  let k ← handlerStack t code m
  return { k.pushes (m.frame ++ source.errorCode) with
    eip := g.offset
    cs := (g.selector &&& 0xFFFC) ||| code.dpl.setWidth 16
    eflags := throughGate m.eflags (g.kind == 0xE) }

-- A data segment register that the outer ring may not use is cleared.
def keepSegment (t : Tables) (ring : Nat) (selector : BitVec 16) : BitVec 16 :=
  match t.segment selector with
  | none => 0
  | some s => if s.dpl.toNat < ring then 0 else selector

-- The code segment with which `iret` of ring `cpl` goes on
def Tables.back (t : Tables) (cpl : Nat) (selector : BitVec 16) : Except Refused Segment :=
  match t.segment selector with
  | none => .error .generalProtection
  | some code =>
      if !code.isCode || code.dpl.toNat != level selector || decide (level selector < cpl) then
        .error .generalProtection
      else if !code.present then .error .notPresent
      else if !code.isFlat then .error .undescribed
      else .ok code

-- `iret` in ring 0
def iret (t : Tables) (m : Cpu) : Except Refused Cpu := do
  let eip := m.top
  let cs := m.drop.top.setWidth 16
  let eflags := Eflags.load m.drop.drop.top
  let k := m.drop.drop.drop
  let _ ← t.back m.cpl cs
  if nested m.eflags || virtual eflags then .error .undescribed
  else if level cs = m.cpl then .ok { k with eip, cs, eflags }
  else
    let esp := k.top
    let ss := k.drop.top.setWidth 16
    if t.isStack (level cs) ss then
      .ok { k with eip, cs, eflags, esp, ss, data := k.data.map (keepSegment t (level cs)) }
    else .error .generalProtection

-- A selector that code of ring `ring` may load into a data segment register
def Tables.isData (t : Tables) (ring : Nat) (selector : BitVec 16) : Bool :=
  match t.segment selector with
  | none => decide (selector.toNat < 4)
  | some s =>
      s.isReadable && s.present &&
        (s.isConforming || decide (ring ≤ s.dpl.toNat) && decide (level selector ≤ s.dpl.toNat))

-- A selector with which a far jump may go on in ring `ring`
def Tables.isFarCode (t : Tables) (ring : Nat) (selector : BitVec 16) : Bool :=
  match t.segment selector with
  | none => false
  | some s =>
      s.present && (s.isConforming && decide (s.dpl.toNat ≤ ring) ||
        s.isCode && decide (s.dpl.toNat = ring) && decide (level selector ≤ ring))

-- What an instruction may do that is no interrupt, in a ring that may not change the
-- interrupt flag. Through a gate or a task segment that it may use it could get anywhere.
inductive OuterStep (t : Tables) (m : Cpu) : Cpu → Prop where
  | ordinary (m' : Cpu)
      (cs : m'.cs = m.cs ∨ ∃ selector, t.isFarCode m.cpl selector = true ∧
        m'.cs = (selector &&& 0xFFFC) ||| BitVec.ofNat 16 m.cpl)
      (ss : m'.ss = m.ss ∨ t.isStack m.cpl m'.ss = true)
      (data : m'.data.all fun s => s ∈ [m.data.ds, m.data.es, m.data.fs, m.data.gs] ∨
        t.isData m.cpl s = true)
      (interrupts : iopl m.eflags < m.cpl → m'.eflags.interrupts = m.eflags.interrupts)
      (iopl : iopl m'.eflags = iopl m.eflags)
      (virtual : virtual m'.eflags = virtual m.eflags) : OuterStep t m m'
  | system (selector : BitVec 16) (s : Segment) (hsegment : t.segment selector = some s)
      (hsystem : s.ordinary = false) (hlevel : max m.cpl (level selector) ≤ s.dpl.toNat) (m' : Cpu) :
      OuterStep t m m'

-- The state in which the handler of a gate begins, on the stack whose top was at `esp`
def Cpu.atHandler (m : Cpu) (ss : BitVec 16) (esp : BitVec 32) (words : List (BitVec 32)) (g : Gate)
    (code : Segment) : Cpu :=
  { m with
    ss
    esp := esp - BitVec.ofNat 32 (4 * words.length)
    memory := pushAll m.memory esp.toNat words
    eip := g.offset
    cs := (g.selector &&& 0xFFFC) ||| code.dpl.setWidth 16
    eflags := throughGate m.eflags (g.kind == 0xE) }

section Flags

variable {e : Eflags} {interruptGate : Bool}

theorem nested_throughGate : nested (throughGate e interruptGate) = false := by
  cases interruptGate <;> simp [nested, throughGate, cleared]

theorem virtual_throughGate : virtual (throughGate e interruptGate) = false := by
  cases interruptGate <;> simp [virtual, throughGate, cleared]

theorem nested_cli (h : nested e = false) : nested (cli e) = false := by
  unfold nested cli at *
  simpa using h

theorem virtual_cli_sti (h : virtual e = false) : virtual (cli e).sti = false := by
  unfold virtual cli Eflags.sti at *
  simpa using h

theorem iopl_cli_sti : iopl (cli e).sti = iopl e := by
  unfold iopl
  refine congrArg BitVec.toNat (extractLsb'_congr fun i hi => ?_)
  have hzero : ∀ j : Fin 2, (0x200 : BitVec 32).getLsbD (12 + j.val) = false := by decide
  unfold cli Eflags.sti
  rw [BitVec.getLsbD_or, BitVec.getLsbD_and, BitVec.getLsbD_not, hzero ⟨i, hi⟩]
  simp
  omega

theorem interrupts_throughGate :
    (throughGate e interruptGate).interrupts = (e.interrupts && !interruptGate) := by
  cases interruptGate <;> simp [Eflags.interrupts, throughGate, cleared]

end Flags

section Stack

variable {m : Cpu} {w : BitVec 32} {ws : List (BitVec 32)}

theorem pushes_eq (m : Cpu) (words : List (BitVec 32)) (hroom : 4 * words.length ≤ m.esp.toNat) :
    m.pushes words =
      { m with
        esp := m.esp - BitVec.ofNat 32 (4 * words.length)
        memory := pushAll m.memory m.esp.toNat words } := by
  induction words generalizing m with
  | nil => simp [Cpu.pushes, pushAll]
  | cons w words ih =>
      rw [List.length_cons] at hroom ⊢
      have hesp : (m.esp - 4).toNat = m.esp.toNat - 4 := toNat_sub_four (by omega)
      have hrest := ih (m.push w) (by
        change _ ≤ (m.esp - 4).toNat
        omega)
      change (m.push w).pushes words = _
      rw [hrest]
      simp only [Cpu.push, hesp, pushAll]
      congr 1
      rw [Nat.mul_add, BitVec.ofNat_add, BitVec.sub_sub, BitVec.add_comm]
      rfl

theorem pushes_same (m : Cpu) (words : List (BitVec 32)) :
    m.pushes words = { m with esp := (m.pushes words).esp, memory := (m.pushes words).memory } := by
  induction words generalizing m with
  | nil => rfl
  | cons w words ih => exact ih (m.push w)

-- The words lie on the stack afterwards, above them what lay there before.
theorem pushes_words {vs : List (BitVec 32)} (h : Words m.memory m.esp.toNat vs) (words : List (BitVec 32))
    (hroom : 4 * words.length ≤ m.esp.toNat) :
    (m.pushes words).esp.toNat = m.esp.toNat - 4 * words.length ∧
      Words (m.pushes words).memory (m.esp.toNat - 4 * words.length) (words.reverse ++ vs) := by
  rw [pushes_eq m words hroom]
  exact ⟨toNat_sub_word hroom, words_pushAll h words hroom⟩

theorem pushes_append (m : Cpu) (ws vs : List (BitVec 32)) :
    (m.pushes ws).pushes vs = m.pushes (ws ++ vs) := List.foldl_append.symm

theorem errorCode_length (source : Source) : source.errorCode.length ≤ 1 := by
  unfold Source.errorCode
  split <;> simp

-- The first word of a stack, and the stack without it
theorem top_eq (h : Words m.memory m.esp.toNat (w :: ws)) (hroom : m.esp.toNat + 4 < 4294967296) :
    m.top = w ∧ Words m.drop.memory m.drop.esp.toNat ws ∧ m.drop.esp.toNat = m.esp.toNat + 4 := by
  have hesp : m.drop.esp.toNat = m.esp.toNat + 4 := toNat_add_four hroom
  refine ⟨h.1, ?_, hesp⟩
  rw [hesp]
  exact h.2

end Stack

section Taken

variable {t : Tables} {source : Source} {v : Nat} {m : Cpu} {g : Gate} {code : Segment} {eip esp : BitVec 32}
  {cs ss : BitVec 16} {flags : Eflags}

theorem interrupt_eq {k : Cpu} (hgate : t.gate source m.cpl v = .ok g)
    (htarget : t.target m.cpl g.selector = .ok code) (hstack : handlerStack t code m = .ok k) :
    interrupt t source v m =
      .ok { k.pushes (m.frame ++ source.errorCode) with
        eip := g.offset
        cs := (g.selector &&& 0xFFFC) ||| code.dpl.setWidth 16
        eflags := throughGate m.eflags (g.kind == 0xE) } := by
  unfold interrupt
  simp only [hgate, htarget, hstack, bind, Except.bind, pure, Except.pure]

-- From an outer ring the handler begins on the stack of ring 0.
theorem interrupt_outer (hgate : t.gate source m.cpl v = .ok g)
    (htarget : t.target m.cpl g.selector = .ok code) (hdpl : code.dpl = 0) (hcpl : m.cpl ≠ 0)
    (hstack : t.isStack 0 t.ss0 = true) (hroom : 24 ≤ t.esp0.toNat) :
    interrupt t source v m =
      .ok (m.atHandler t.ss0 t.esp0 (m.outerFrame ++ source.errorCode) g code) := by
  have hlength := errorCode_length source
  have hne : ¬ code.dpl.toNat = m.cpl := by
    rw [hdpl]
    exact fun h => hcpl h.symm
  have hswitch : handlerStack t code m =
      .ok ((m.onStack t.ss0 t.esp0).pushes [m.ss.setWidth 32, m.esp]) := by
    unfold handlerStack switchStack
    rw [if_neg hne, if_pos hdpl, if_pos hstack]
  rw [interrupt_eq hgate htarget hswitch, pushes_append, pushes_eq]
  · rfl
  · simp only [Cpu.frame, List.length_append, List.length_cons, List.length_nil]
    change _ ≤ t.esp0.toNat
    omega

-- In ring 0 the handler begins on the stack that is in use.
theorem interrupt_inner (hgate : t.gate source m.cpl v = .ok g)
    (htarget : t.target m.cpl g.selector = .ok code) (hdpl : code.dpl.toNat = m.cpl)
    (hroom : 16 ≤ m.esp.toNat) :
    interrupt t source v m = .ok (m.atHandler m.ss m.esp (m.frame ++ source.errorCode) g code) := by
  have hlength := errorCode_length source
  have hsame : handlerStack t code m = .ok m := if_pos hdpl
  rw [interrupt_eq hgate htarget hsame, pushes_eq]
  · rfl
  · simp only [Cpu.frame, List.length_append, List.length_cons, List.length_nil]
    omega

-- The return to the ring in which the handler ran
theorem iret_inner (hwords : Words m.memory m.esp.toNat [eip, cs.setWidth 32, flags.bits])
    (hroom : m.esp.toNat + 12 < 4294967296) (hnested : nested m.eflags = false)
    (hvirtual : virtual flags = false) (hback : t.back m.cpl cs = .ok code) (hcs : level cs = m.cpl) :
    iret t m = .ok { m with esp := m.esp + 12, eip, cs, eflags := flags } := by
  obtain ⟨heip, hwords, hesp⟩ := top_eq hwords (by omega)
  obtain ⟨hcsTop, hwords, hesp'⟩ := top_eq hwords (by omega)
  obtain ⟨hflags, -, -⟩ := top_eq hwords (by omega)
  have hcs16 : (cs.setWidth 32).setWidth 16 = cs := by simp
  have hthree : m.esp + 4 + 4 + 4 = m.esp + 12 := by
    rw [BitVec.add_assoc, BitVec.add_assoc]
    rfl
  unfold iret
  simp only [heip, hcsTop, hflags, hcs16, Eflags.load_bits, hback, hnested, hvirtual, bind, Except.bind,
    Bool.or_self]
  rw [if_neg Bool.false_ne_true, if_pos hcs, ← hthree]
  rfl

-- The return to an outer ring
theorem iret_outer
    (hwords : Words m.memory m.esp.toNat [eip, cs.setWidth 32, flags.bits, esp, ss.setWidth 32])
    (hroom : m.esp.toNat + 20 ≤ 4294967296) (hnested : nested m.eflags = false)
    (hvirtual : virtual flags = false) (hback : t.back m.cpl cs = .ok code) (hcs : level cs ≠ m.cpl)
    (hstack : t.isStack (level cs) ss = true) :
    iret t m =
      .ok { m with eip, cs, eflags := flags, esp, ss, data := m.data.map (keepSegment t (level cs)) } := by
  obtain ⟨heip, hwords, hesp⟩ := top_eq hwords (by omega)
  obtain ⟨hcsTop, hwords, hesp'⟩ := top_eq hwords (by omega)
  obtain ⟨hflags, hwords, hesp''⟩ := top_eq hwords (by omega)
  obtain ⟨hespTop, hwords, -⟩ := top_eq hwords (by omega)
  have hssTop : m.drop.drop.drop.drop.top = ss.setWidth 32 := hwords.1
  have hcs16 : (cs.setWidth 32).setWidth 16 = cs := by simp
  have hss16 : (ss.setWidth 32).setWidth 16 = ss := by simp
  unfold iret
  simp only [heip, hcsTop, hflags, hespTop, hssTop, hcs16, hss16, Eflags.load_bits, hback, hnested, hvirtual,
    bind, Except.bind, Bool.or_self]
  rw [if_neg Bool.false_ne_true, if_neg hcs, if_pos hstack]
  rfl

end Taken

end Library.Protection
