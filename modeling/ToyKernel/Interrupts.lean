import ToyKernel.Gdt
import ToyKernel.Idt

namespace ToyKernel.Interrupts

open Library ByteMemory StackMachine Protection Gdt Idt

-- Where the linker has put the handlers and `g_TSS`, and what `idt32` holds at first
structure Image where
  address : Isr → BitVec 32
  tss : BitVec 32
  idt32 : Idt32

-- The tables after `tss_init` and `init_idt_32`, while the kernel stack of the running task
-- ends at `esp0`
def tables (image : Image) (esp0 : BitVec 32) : Tables :=
  let (tss, gdt) := tssInit g_GDT image.tss
  let tss := tssSetKernelStack tss esp0
  { gdt := fun i => (gdt.getD i (GDT_ENTRY 0 0 0 0)).bits
    gdtLimit := gdtLimit
    idt := fun v => (initIdt32 image.address image.idt32 (BitVec.ofNat 8 v)).bits
    idtLimit := SIZEOF_IDT32
    ss0 := tss.ss0
    esp0 := tss.esp0 }

-- A segment of 32 bits over all of memory
def flat (kind : BitVec 4) (dpl : BitVec 2) : Segment where
  base := 0
  limit := 0xFFFFF
  kind := kind
  ordinary := true
  dpl := dpl
  present := true
  flags := 0xC

def tssSegment (base : BitVec 32) : Segment where
  base := base
  limit := 103
  kind := 9
  ordinary := false
  dpl := 0
  present := true
  flags := 0

-- The gate of a vector
def gateOf (image : Image) (v : Nat) : Gate where
  offset := image.address (handler v)
  selector := 0x08
  kind := if v < 32 then 0xF else 0xE
  ordinary := false
  dpl := if v = 0x80 then 3 else 0
  present := true

-- Instructions of the outer ring may name one vector alone.
def Permitted (source : Source) (cpl v : Nat) : Prop :=
  source.isSoftware = true → cpl = 0 ∨ v = 0x80

-- Code of a user task. What it has set the data segment registers to is for it to choose.
structure User (image : Image) (esp0 : BitVec 32) (m : Cpu) : Prop where
  cs : m.cs = 0x1B
  ss : m.ss = 0x23
  data : m.data.all fun s => (tables image esp0).isData 3 s = true
  interrupts : m.eflags.interrupts = true
  iopl : iopl m.eflags = 0
  virtual : virtual m.eflags = false

-- Code of the kernel, on a stack that ends at `esp0`
structure Kernel (esp0 : BitVec 32) (m : Cpu) : Prop where
  cs : m.cs = 0x08
  ss : m.ss = 0x10
  within : m.esp.toNat ≤ esp0.toNat
  virtual : virtual m.eflags = false

section Lookup

variable {image : Image} {esp0 : BitVec 32} {selector : BitVec 16} {source : Source} {cpl v : Nat}

theorem decode_one : Segment.decode ((tables image esp0).gdt 1) = flat 0xA 0 :=
  (decode_bits ..).trans rfl

theorem decode_two : Segment.decode ((tables image esp0).gdt 2) = flat 0x2 0 :=
  (decode_bits ..).trans rfl

theorem decode_three : Segment.decode ((tables image esp0).gdt 3) = flat 0xA 3 :=
  (decode_bits ..).trans rfl

theorem decode_four : Segment.decode ((tables image esp0).gdt 4) = flat 0x2 3 :=
  (decode_bits ..).trans rfl

theorem decode_five : Segment.decode ((tables image esp0).gdt 5) = tssSegment image.tss :=
  (decode_bits image.tss 103 (GDT_ACCESS_PRESENT ||| GDT_ACCESS_TSS_AVAILABLE_32BIT) 0).trans rfl

-- The five segments
theorem segment_eq (image : Image) (esp0 : BitVec 32) (selector : BitVec 16) :
    (tables image esp0).segment selector =
      if selector.getLsbD 2 = true then none
      else if selector.toNat / 8 = 1 then some (flat 0xA 0)
      else if selector.toNat / 8 = 2 then some (flat 0x2 0)
      else if selector.toNat / 8 = 3 then some (flat 0xA 3)
      else if selector.toNat / 8 = 4 then some (flat 0x2 3)
      else if selector.toNat / 8 = 5 then some (tssSegment image.tss)
      else none := by
  have hlimit : (tables image esp0).gdtLimit = 47 := rfl
  unfold Tables.segment
  rw [hlimit]
  by_cases hlocal : selector.getLsbD 2 = true
  · rw [if_pos (.inr (.inl hlocal)), if_pos hlocal]
  rw [if_neg hlocal]
  have hin : 1 ≤ selector.toNat / 8 → selector.toNat / 8 ≤ 5 →
      ¬ (selector.toNat / 8 = 0 ∨ selector.getLsbD 2 = true ∨ 47 < 8 * (selector.toNat / 8) + 7) := by
    rintro hlo hhi (hzero | hset | hlast)
    · omega
    · exact hlocal hset
    · omega
  by_cases hone : selector.toNat / 8 = 1
  · rw [if_neg (hin (by omega) (by omega)), if_pos hone, hone, decode_one]
  by_cases htwo : selector.toNat / 8 = 2
  · rw [if_neg (hin (by omega) (by omega)), if_neg hone, if_pos htwo, htwo, decode_two]
  by_cases hthree : selector.toNat / 8 = 3
  · rw [if_neg (hin (by omega) (by omega)), if_neg hone, if_neg htwo, if_pos hthree, hthree, decode_three]
  by_cases hfour : selector.toNat / 8 = 4
  · rw [if_neg (hin (by omega) (by omega)), if_neg hone, if_neg htwo, if_neg hthree, if_pos hfour, hfour,
      decode_four]
  by_cases hfive : selector.toNat / 8 = 5
  · rw [if_neg (hin (by omega) (by omega)), if_neg hone, if_neg htwo, if_neg hthree, if_neg hfour, if_pos hfive,
      hfive, decode_five]
  · rw [if_pos (by omega), if_neg hone, if_neg htwo, if_neg hthree, if_neg hfour, if_neg hfive]

theorem decode_idt (hv : v < 256) : Gate.decode ((tables image esp0).idt v) = gateOf image v := by
  have hidt : (tables image esp0).idt v = (descriptor (image.address (handler v)) (gateFlags v)).bits :=
    congrArg IdtEntry32.bits (initIdt32_eq image.address image.idt32 hv)
  rw [hidt, decode_descriptor]
  unfold gateOf gateFlags
  by_cases h32 : v < 32
  · rw [if_pos h32, if_pos h32, if_neg (show v ≠ 0x80 by omega)]
    rfl
  · rw [if_neg h32, if_neg h32]
    by_cases hsyscall : v = 0x80
    · rw [if_pos hsyscall, if_pos hsyscall]
      rfl
    · rw [if_neg hsyscall, if_neg hsyscall]
      rfl

theorem gateOf_kind (image : Image) (v : Nat) :
    ((gateOf image v).kind == 0xE || (gateOf image v).kind == 0xF) = true := by
  unfold gateOf
  split <;> rfl

theorem gateOf_interrupt (image : Image) (v : Nat) :
    ((gateOf image v).kind == 0xE) = decide (32 ≤ v) := by
  unfold gateOf
  split
  · simp
    omega
  · simp
    omega

-- The gate lets through whatever is permitted, and the instruction `int` for other vectors is not.
theorem gate_eq (hv : v < 256) :
    (tables image esp0).gate source cpl v =
      if source.isSoftware && decide ((gateOf image v).dpl.toNat < cpl) then .error .generalProtection
      else .ok (gateOf image v) := by
  have hlimit : (tables image esp0).idtLimit = 2048 := rfl
  unfold Tables.gate
  rw [decode_idt hv, hlimit, if_neg (by omega), gateOf_kind, if_neg (by simp [gateOf])]
  rfl

theorem gate_permitted (hv : v < 256) (hpermitted : Permitted source cpl v) (hcpl : cpl ≤ 3) :
    (tables image esp0).gate source cpl v = .ok (gateOf image v) := by
  rw [gate_eq hv, if_neg]
  rw [Bool.and_eq_true, decide_eq_true_eq]
  rintro ⟨hsoftware, hlt⟩
  rcases hpermitted hsoftware with hzero | hsyscall
  · omega
  · simp only [gateOf, if_pos hsyscall] at hlt
    change 3 < cpl at hlt
    omega

theorem gate_refused (hv : v < 256) (hne : v ≠ 0x80) (hcpl : cpl ≠ 0) :
    (tables image esp0).gate .software cpl v = .error .generalProtection := by
  rw [gate_eq hv, if_pos]
  simp only [gateOf, if_neg hne]
  change decide (0 < cpl) = true
  simp
  omega

theorem target_eq (cpl : Nat) : (tables image esp0).target cpl 0x08 = .ok (flat 0xA 0) := by
  unfold Tables.target
  rw [segment_eq]
  simp [flat, Segment.isCode, Segment.isFlat]

theorem back_user : (tables image esp0).back 0 0x1B = .ok (flat 0xA 3) := by
  unfold Tables.back
  rw [segment_eq]
  rfl

theorem back_kernel : (tables image esp0).back 0 0x08 = .ok (flat 0xA 0) := by
  unfold Tables.back
  rw [segment_eq]
  rfl

theorem isStack_user : (tables image esp0).isStack 3 0x23 = true := by
  unfold Tables.isStack
  rw [segment_eq]
  rfl

theorem isStack_kernel : (tables image esp0).isStack 0 0x10 = true := by
  unfold Tables.isStack
  rw [segment_eq]
  rfl

theorem isData_kernel : (tables image esp0).isData 0 0x23 = true := by
  unfold Tables.isData
  rw [segment_eq]
  rfl

theorem isData_user : (tables image esp0).isData 3 0x23 = true := by
  unfold Tables.isData
  rw [segment_eq]
  rfl

end Lookup

section Taken

variable {image : Image} {esp0 : BitVec 32} {source : Source} {v : Nat} {m : Cpu}

theorem User.cpl (h : User image esp0 m) : m.cpl = 3 := by
  unfold Cpu.cpl
  rw [h.cs]
  rfl

theorem Kernel.cpl (h : Kernel esp0 m) : m.cpl = 0 := by
  unfold Cpu.cpl
  rw [h.cs]
  rfl

-- From a user task the handler begins at the top of the task's kernel stack.
theorem interrupt_user (h : User image esp0 m) (hv : v < 256) (hpermitted : Permitted source 3 v)
    (hroom : 24 ≤ esp0.toNat) :
    interrupt (tables image esp0) source v m =
      .ok (m.atHandler 0x10 esp0 (m.outerFrame ++ source.errorCode) (gateOf image v) (flat 0xA 0)) := by
  refine interrupt_outer ?_ ?_ rfl ?_ isStack_kernel hroom
  · rw [h.cpl]
    exact gate_permitted hv hpermitted (by omega)
  · rw [h.cpl]
    exact target_eq 3
  · rw [h.cpl]
    decide

theorem interrupt_kernel (h : Kernel esp0 m) (hv : v < 256) (hroom : 16 ≤ m.esp.toNat) :
    interrupt (tables image esp0) source v m =
      .ok (m.atHandler 0x10 m.esp (m.frame ++ source.errorCode) (gateOf image v) (flat 0xA 0)) := by
  rw [← h.ss]
  refine interrupt_inner ?_ ?_ ?_ hroom
  · rw [h.cpl]
    exact gate_permitted hv (fun _ => .inl rfl) (by omega)
  · rw [h.cpl]
    exact target_eq 0
  · rw [h.cpl]
    rfl

end Taken

end ToyKernel.Interrupts
