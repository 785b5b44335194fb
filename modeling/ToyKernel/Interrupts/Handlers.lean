import ToyKernel.Interrupts

namespace ToyKernel.Interrupts

open Library ByteMemory StackMachine Protection Gdt Idt

-- What brings the interrupts of the vectors about: exceptions, some of them with an error code,
-- and the devices. The instruction `int` is for the system calls.
def Fits : Source → Nat → Prop
  | .exception code, v => v < 32 ∧ code.isSome = takesErrorCode v
  | .external, v => 32 ≤ v ∧ v ≠ 0x80
  | .software, _ => False

-- A compiled handler that is declared with an error code takes it off the stack at its end.
def popped (isr : Isr) : Nat := if isr = .defaultExcpHandlerErrCode then 4 else 0

-- Where the `int_frame_32_t` of a handler lies that begins in `k`
def frameAt (isr : Isr) (k : Cpu) : Nat := k.esp.toNat + popped isr

-- What the code of a handler does whose frame lies at `bound`, on the stack that ends at `top`
structure Computes (top bound : Nat) (k k' : Cpu) : Prop where
  cs : k'.cs = k.cs
  ss : k'.ss = k.ss
  data : k'.data = k.data
  below : k'.esp.toNat ≤ bound
  nested : nested k'.eflags = false
  virtual : virtual k'.eflags = false
  kept : ∀ b, bound ≤ b → b < top → k'.memory b = k.memory b

-- The end of a compiled handler that began in `k` and whose body ended in `k'`: the registers
-- are taken from where it saved them. `div_by_0_handler` has moved the saved `eip` on.
def leave (isr : Isr) (k k' : Cpu) : Cpu :=
  let frame := frameAt isr k
  { k' with
    general := k.general
    esp := BitVec.ofNat 32 frame
    memory :=
      if isr = .divBy0Handler then store32 k'.memory frame (load32 k'.memory frame + 1) else k'.memory }

-- The code of a handler whose frame lies at `bound`, with the interrupts that it meets
inductive Code (t : Tables) : Nat → Cpu → Cpu → Prop where
  | done (bound : Nat) (k : Cpu) : Code t bound k k
  | compute {bound : Nat} {k k₁ k₂ : Cpu} (h : Computes t.esp0.toNat bound k k₁)
      (rest : Code t bound k₁ k₂) : Code t bound k k₂
  | interrupted {bound v : Nat} {source : Source} {k k₁ k₂ k₃ k₄ : Cpu} (hv : v < 256)
      (hfits : Fits source v) (hroom : 16 ≤ k.esp.toNat)
      (hentered : interrupt t source v k = .ok k₁) (body : Code t (frameAt (handler v) k₁) k₁ k₂)
      (hleft : iret t (leave (handler v) k₁ k₂) = .ok k₃) (rest : Code t bound k₃ k₄) :
      Code t bound k k₄

-- How far the saved `eip` is moved on
def skipped (isr : Isr) : BitVec 32 := if isr = .divBy0Handler then 1 else 0

section Frames

variable {v top bound : Nat} {source : Source} {isr : Isr} {k₁ k₂ : Cpu}
  {w : BitVec 32} {ws : List (BitVec 32)}

theorem handler_errCode (hv : v < 256) :
    handler v = .defaultExcpHandlerErrCode ↔ takesErrorCode v = true := by
  unfold handler
  by_cases h0 : v = 0
  · simp [h0, takesErrorCode]
  by_cases h32 : v < 32
  · rw [if_neg h0, if_pos h32]
    split <;> simp_all
  · have hnone : takesErrorCode v = false := by
      simp [takesErrorCode]
      omega
    rw [if_neg h0, if_neg h32, hnone]
    split_ifs <;> simp

theorem errorCode_popped (hv : v < 256) (hfits : Fits source v) :
    4 * source.errorCode.length = popped (handler v) := by
  have hpopped : popped (handler v) = if takesErrorCode v = true then 4 else 0 :=
    if_congr (handler_errCode hv) rfl rfl
  rw [hpopped]
  cases source with
  | external =>
      have hnone : takesErrorCode v = false := by
        have hlo := hfits.1
        simp [takesErrorCode]
        omega
      rw [hnone]
      rfl
  | software => exact hfits.elim
  | exception code =>
      obtain ⟨-, hsome⟩ := hfits
      rw [← hsome]
      cases code <;> rfl

theorem Fits.permitted (h : Fits source v) {cpl : Nat} : Permitted source cpl v := by
  intro hsoftware
  cases source with
  | software => exact h.elim
  | external => cases hsoftware
  | exception code => cases hsoftware

-- The frame lies where the handler that fits the vector takes it to be.
theorem atHandler_frame (m : Cpu) (ss : BitVec 16) (esp : BitVec 32) (frame : List (BitVec 32)) (g : Gate)
    (code : Segment) (hcode : 4 * source.errorCode.length = popped isr)
    (hroom : 4 * frame.length + popped isr ≤ esp.toNat) :
    frameAt isr (m.atHandler ss esp (frame ++ source.errorCode) g code) = esp.toNat - 4 * frame.length ∧
      Words (m.atHandler ss esp (frame ++ source.errorCode) g code).memory (esp.toNat - 4 * frame.length)
        frame.reverse ∧
      ∀ b, esp.toNat ≤ b →
        (m.atHandler ss esp (frame ++ source.errorCode) g code).memory b = m.memory b := by
  have hlength : 4 * (frame ++ source.errorCode).length = 4 * frame.length + popped isr := by
    rw [List.length_append]
    omega
  have hnil : Words m.memory esp.toNat [] := trivial
  have hwords := words_pushAll hnil (frame ++ source.errorCode) (by omega)
  rw [List.append_nil, List.reverse_append] at hwords
  have hframe := hwords.append.2
  rw [List.length_reverse] at hframe
  refine ⟨?_, ?_, fun b hb => ?_⟩
  · unfold frameAt
    change (esp - BitVec.ofNat 32 (4 * (frame ++ source.errorCode).length)).toNat + popped isr = _
    rw [toNat_sub_word (by omega)]
    omega
  · change Words (pushAll m.memory esp.toNat (frame ++ source.errorCode)) _ _
    rw [show esp.toNat - 4 * frame.length =
      esp.toNat - 4 * (frame ++ source.errorCode).length + 4 * source.errorCode.length by omega]
    exact hframe
  · exact pushAll_of_apart (by omega) (.inr hb)

-- A body that has kept the frame leaves it to `iret`.
theorem leave_words (hframe : Words k₁.memory (frameAt isr k₁) (w :: ws))
    (hkept : ∀ b, frameAt isr k₁ ≤ b → b < frameAt isr k₁ + 4 * (ws.length + 1) →
      k₂.memory b = k₁.memory b) :
    Words (leave isr k₁ k₂).memory (frameAt isr k₁) ((w + skipped isr) :: ws) := by
  have hbody : Words k₂.memory (frameAt isr k₁) (w :: ws) :=
    hframe.congr fun b hlo hhi => (hkept b hlo hhi).symm
  unfold leave skipped
  dsimp only
  by_cases hdiv : isr = .divBy0Handler
  · rw [if_pos hdiv, if_pos hdiv, hbody.1]
    refine ⟨load32_store32_self .., hbody.2.congr fun b hlo _ => ?_⟩
    exact (store32_of_ne (by omega) _).symm
  · rw [if_neg hdiv, if_neg hdiv, show w + 0 = w from BitVec.add_zero w]
    exact hbody

theorem leave_above {b : Nat} (hb : frameAt isr k₁ + 4 ≤ b) :
    (leave isr k₁ k₂).memory b = k₂.memory b := by
  unfold leave
  dsimp only
  split
  · exact store32_of_ne (by omega) _
  · rfl

end Frames

-- A handler that begins in `k` where `m` was interrupted, with the frame `ws` below `top`
structure Begun (isr : Isr) (m k : Cpu) (top : Nat) (ws : List (BitVec 32)) : Prop where
  cs : k.cs = 0x08
  ss : k.ss = 0x10
  data : k.data = m.data
  general : k.general = m.general
  nested : nested k.eflags = false
  virtual : virtual k.eflags = false
  place : frameAt isr k = top - 4 * ws.length
  words : Words k.memory (frameAt isr k) ws
  above : ∀ b, top ≤ b → k.memory b = m.memory b

section Returns

variable {image : Image} {esp0 : BitVec 32} {v bound : Nat} {source : Source} {k k₁ k₂ m : Cpu}

theorem begun_atHandler (hcode : 4 * source.errorCode.length = popped (handler v)) (m : Cpu)
    (esp : BitVec 32) (frame : List (BitVec 32)) (hroom : 4 * frame.length + 4 ≤ esp.toNat) :
    Begun (handler v) m
      (m.atHandler 0x10 esp (frame ++ source.errorCode) (gateOf image v) (flat 0xA 0)) esp.toNat
      frame.reverse := by
  have hlength := errorCode_length source
  obtain ⟨hat, hwords, habove⟩ := atHandler_frame m 0x10 esp frame (gateOf image v) (flat 0xA 0) hcode
    (by omega)
  have hcs : ((0x08 : BitVec 16) &&& 0xFFFC) ||| (0 : BitVec 2).setWidth 16 = 0x08 := by decide
  refine ⟨hcs, rfl, rfl, rfl, nested_throughGate, virtual_throughGate, ?_, ?_, habove⟩
  · rw [hat, List.length_reverse]
  · rw [hat]
    exact hwords

theorem begun_user (h : User image esp0 m) (hv : v < 256) (hpermitted : Permitted source 3 v)
    (hcode : 4 * source.errorCode.length = popped (handler v)) (hroom : 24 ≤ esp0.toNat) :
    ∃ k, interrupt (tables image esp0) source v m = .ok k ∧ k.eip = image.address (handler v) ∧
      k.eflags = throughGate m.eflags (decide (32 ≤ v)) ∧
      Begun (handler v) m k esp0.toNat
        [m.eip, m.cs.setWidth 32, m.eflags.bits, m.esp, m.ss.setWidth 32] :=
  ⟨_, interrupt_user h hv hpermitted hroom, rfl, congrArg (throughGate m.eflags) (gateOf_interrupt image v),
    begun_atHandler hcode m esp0 m.outerFrame hroom⟩

theorem begun_kernel (image : Image) (h : Kernel esp0 m) (hv : v < 256) (hfits : Fits source v)
    (hroom : 16 ≤ m.esp.toNat) :
    ∃ k, interrupt (tables image esp0) source v m = .ok k ∧ k.eip = image.address (handler v) ∧
      k.eflags = throughGate m.eflags (decide (32 ≤ v)) ∧
      Begun (handler v) m k m.esp.toNat [m.eip, m.cs.setWidth 32, m.eflags.bits] :=
  ⟨_, interrupt_kernel h hv hroom, rfl, congrArg (throughGate m.eflags) (gateOf_interrupt image v),
    begun_atHandler (errorCode_popped hv hfits) m m.esp m.frame hroom⟩

theorem leave_esp {isr : Isr} {top bound : Nat} {ws : List (BitVec 32)} (hbegun : Begun isr m k top ws)
    (hbody : Computes esp0.toNat bound k k₁) (hlt : frameAt isr k < 4294967296) :
    (leave isr k k₁).esp.toNat = frameAt isr k ∧ (leave isr k k₁).cpl = 0 := by
  constructor
  · change (BitVec.ofNat 32 (frameAt isr k)).toNat = _
    rw [BitVec.toNat_ofNat]
    omega
  · have hcs : (leave isr k k₁).cs = 0x08 := hbody.cs.trans hbegun.cs
    unfold Cpu.cpl
    rw [hcs]
    rfl

-- From an interrupt of the kernel a handler goes back to where it came from.
theorem returns_kernel (h : Kernel esp0 m) (hroom : 12 ≤ m.esp.toNat) {isr : Isr}
    (hbegun : Begun isr m k m.esp.toNat [m.eip, m.cs.setWidth 32, m.eflags.bits])
    (hbody : Computes esp0.toNat (frameAt isr k) k k₁) :
    ∃ memory, iret (tables image esp0) (leave isr k k₁) =
        .ok { m with eip := m.eip + skipped isr, memory } ∧
      ∀ b, m.esp.toNat ≤ b → b < esp0.toNat → memory b = m.memory b := by
  have hlt := m.esp.isLt
  have hwithin := h.within
  have hplace : frameAt isr k = m.esp.toNat - 12 := hbegun.place
  have hwords : Words (leave isr k k₁).memory (frameAt isr k)
      ((m.eip + skipped isr) :: [m.cs.setWidth 32, m.eflags.bits]) := by
    refine leave_words hbegun.words fun b hlo hhi => hbody.kept b hlo ?_
    change b < _ + 12 at hhi
    omega
  obtain ⟨hesp, hcpl⟩ := leave_esp hbegun hbody (by omega)
  rw [← hesp] at hwords
  have hback : (tables image esp0).back (leave isr k k₁).cpl m.cs = .ok (flat 0xA 0) := by
    rw [hcpl, h.cs]
    exact back_kernel
  have hreturn := iret_inner hwords (by omega) hbody.nested h.virtual hback (by rw [hcpl, h.cs]; rfl)
  refine ⟨(leave isr k k₁).memory, hreturn.trans ?_, fun b hlo hhi => ?_⟩
  · have hss : k₁.ss = m.ss := (hbody.ss.trans hbegun.ss).trans h.ss.symm
    have hdata : k₁.data = m.data := hbody.data.trans hbegun.data
    have hespBack : (leave isr k k₁).esp + 12 = m.esp := by
      apply BitVec.eq_of_toNat_eq
      refine (toNat_add_word (n := 12) (by omega)).trans ?_
      omega
    rw [hespBack]
    simp only [leave, hss, hdata, hbegun.general]
  · rw [leave_above (by omega), hbody.kept b (by omega) hhi, hbegun.above b hlo]

-- From an interrupt of a user task it goes back to the task.
theorem returns_user (h : User image esp0 m) (hroom : 20 ≤ esp0.toNat) {isr : Isr}
    (hbegun : Begun isr m k esp0.toNat [m.eip, m.cs.setWidth 32, m.eflags.bits, m.esp, m.ss.setWidth 32])
    (hbody : Computes esp0.toNat (frameAt isr k) k k₁) :
    ∃ memory, iret (tables image esp0) (leave isr k k₁) =
      .ok { m with
        eip := m.eip + skipped isr
        data := m.data.map (keepSegment (tables image esp0) 3)
        memory } := by
  have hlt := esp0.isLt
  have hplace : frameAt isr k = esp0.toNat - 20 := hbegun.place
  have hwords : Words (leave isr k k₁).memory (frameAt isr k)
      ((m.eip + skipped isr) :: [m.cs.setWidth 32, m.eflags.bits, m.esp, m.ss.setWidth 32]) := by
    refine leave_words hbegun.words fun b hlo hhi => hbody.kept b hlo ?_
    change b < _ + 20 at hhi
    omega
  obtain ⟨hesp, hcpl⟩ := leave_esp hbegun hbody (by omega)
  rw [← hesp] at hwords
  have hback : (tables image esp0).back (leave isr k k₁).cpl m.cs = .ok (flat 0xA 3) := by
    rw [hcpl, h.cs]
    exact back_user
  have hlevel : level m.cs = 3 := h.cpl
  have hreturn := iret_outer hwords (by omega) hbody.nested h.virtual hback
    (by
      rw [hcpl, hlevel]
      decide)
    (by
      rw [hlevel, h.ss]
      exact isStack_user)
  refine ⟨(leave isr k k₁).memory, hreturn.trans ?_⟩
  have hdata : k₁.data = m.data := hbody.data.trans hbegun.data
  rw [hlevel]
  simp only [leave, hdata, hbegun.general]

theorem Computes.trans {top : Nat} (h : Computes top bound k k₁) (h' : Computes top bound k₁ k₂) :
    Computes top bound k k₂ where
  cs := h'.cs.trans h.cs
  ss := h'.ss.trans h.ss
  data := h'.data.trans h.data
  below := h'.below
  nested := h'.nested
  virtual := h'.virtual
  kept := fun b hlo hhi => (h'.kept b hlo hhi).trans (h.kept b hlo hhi)

theorem Begun.kernel {isr : Isr} {top : Nat} {ws : List (BitVec 32)} (h : Begun isr m k top ws)
    (htop : top ≤ esp0.toNat) : Kernel esp0 k := by
  have hplace := h.place
  unfold frameAt at hplace
  exact ⟨h.cs, h.ss, by omega, h.virtual⟩

-- Whatever interrupts come in between, the code of a handler keeps what lies above it.
theorem code_computes (hcode : Code (tables image esp0) bound k k₁) (hk : Kernel esp0 k)
    (hnested : Protection.nested k.eflags = false) (hbelow : k.esp.toNat ≤ bound)
    (hbound : bound ≤ esp0.toNat) :
    Computes esp0.toNat bound k k₁ := by
  induction hcode with
  | done bound k => exact ⟨rfl, rfl, rfl, hbelow, hnested, hk.virtual, fun _ _ _ => rfl⟩
  | compute h rest ih =>
      have hk₁ : Kernel esp0 _ :=
        ⟨h.cs.trans hk.cs, h.ss.trans hk.ss, Nat.le_trans h.below hbound, h.virtual⟩
      exact Computes.trans h (ih hk₁ h.nested h.below hbound)
  | @interrupted bound v source k k₁ k₂ k₃ k₄ hv hfits hroom hentered _ hleft _ ihBody ihRest =>
      obtain ⟨_, htaken, -, -, hbegun⟩ := begun_kernel image hk hv hfits hroom
      rw [htaken] at hentered
      obtain rfl := Except.ok.inj hentered
      have hplace := hbegun.place
      have hbody := ihBody (hbegun.kernel hk.within) hbegun.nested (Nat.le_add_right ..)
        (by
          have := hk.within
          omega)
      obtain ⟨memory, hreturn, hkept⟩ := returns_kernel hk (by omega) hbegun hbody
      rw [hreturn] at hleft
      obtain rfl := Except.ok.inj hleft
      have hback : Computes esp0.toNat bound k { k with eip := k.eip + skipped (handler v), memory } :=
        ⟨rfl, rfl, rfl, hbelow, hnested, hk.virtual, fun b hlo hhi => hkept b (by omega) hhi⟩
      exact hback.trans (ihRest ⟨hk.cs, hk.ss, hk.within, hk.virtual⟩ hnested hbelow hbound)

-- However deep the interrupts nest, each of them is taken, begins in its own handler in ring 0 and
-- goes back to the instruction that it interrupted with the registers and the flags as they were,
-- to a user task from the top of its kernel stack, to the kernel with what lies on the stack as it
-- was. `div_by_0_handler` goes on one byte further.
theorem interrupt_returns (hv : v < 256) (hfits : Fits source v)
    (hm : User image esp0 m ∧ 24 ≤ esp0.toNat ∨ Kernel esp0 m ∧ 16 ≤ m.esp.toNat) :
    ∃ k, interrupt (tables image esp0) source v m = .ok k ∧ k.eip = image.address (handler v) ∧
      Kernel esp0 k ∧ k.eflags.interrupts = (m.eflags.interrupts && decide (v < 32)) ∧
      ∀ k', Code (tables image esp0) (frameAt (handler v) k) k k' →
        ∃ memory, iret (tables image esp0) (leave (handler v) k k') =
            .ok { m with
              eip := m.eip + skipped (handler v)
              data := if m.cpl = 0 then m.data else m.data.map (keepSegment (tables image esp0) 3)
              memory } ∧
          (m.cpl = 0 → ∀ b, m.esp.toNat ≤ b → b < esp0.toNat → memory b = m.memory b) := by
  have hflag : ∀ e : Eflags,
      (throughGate e (decide (32 ≤ v))).interrupts = (e.interrupts && decide (v < 32)) := by
    intro e
    rw [interrupts_throughGate]
    by_cases h32 : v < 32
    · simp [h32]
    · simp [h32, Nat.le_of_not_lt h32]
  rcases hm with ⟨huser, hroom⟩ | ⟨hkernel, hroom⟩
  · obtain ⟨k, htaken, heip, hflags, hbegun⟩ := begun_user huser hv hfits.permitted
      (errorCode_popped hv hfits) hroom
    have hk := hbegun.kernel (Nat.le_refl esp0.toNat)
    refine ⟨k, htaken, heip, hk, by rw [hflags, hflag], fun k' hcode => ?_⟩
    have hbody := code_computes hcode hk hbegun.nested (Nat.le_add_right ..)
      (by
        rw [hbegun.place]
        exact Nat.sub_le ..)
    obtain ⟨memory, hreturn⟩ := returns_user huser (by omega) hbegun hbody
    have hcpl : m.cpl ≠ 0 := by
      rw [huser.cpl]
      decide
    exact ⟨memory, by rw [if_neg hcpl]; exact hreturn, fun h => absurd h hcpl⟩
  · obtain ⟨k, htaken, heip, hflags, hbegun⟩ := begun_kernel image hkernel hv hfits hroom
    have hk := hbegun.kernel hkernel.within
    refine ⟨k, htaken, heip, hk, by rw [hflags, hflag], fun k' hcode => ?_⟩
    have hbody := code_computes hcode hk hbegun.nested (Nat.le_add_right ..)
      (by
        rw [hbegun.place]
        exact Nat.le_trans (Nat.sub_le ..) hkernel.within)
    obtain ⟨memory, hreturn, hkept⟩ := returns_kernel hkernel (by omega) hbegun hbody
    exact ⟨memory, by rw [if_pos hkernel.cpl]; exact hreturn, fun _ => hkept⟩

end Returns

section Sample

def sampleImage : Image where
  address := fun isr => match isr with
    | .defaultExcpHandler => 0xC0101000
    | .defaultExcpHandlerErrCode => 0xC0101040
    | .defaultIntHandler => 0xC0101080
    | .divBy0Handler => 0xC01010C0
    | .syscallDispatcher => 0xC0101100
    | .timerIrq0Handler => 0xC0101200
    | .keyboardIrq1Handler => 0xC0101300
  tss := 0xC0110000
  idt32 := fun _ =>
    { isrAddressLow := 0, kernelCs := 0, reserved := 0, attributes := 0, isrAddressHigh := 0 }

def sampleEsp0 : BitVec 32 := 0xD0002000

def sampleFlags : Eflags where
  bits := 0x202
  reserved := rfl

-- A user task about to make a system call
def sampleUser : Cpu where
  eip := 0x400102
  esp := 0x600FF0
  eflags := sampleFlags
  cs := 0x1B
  ss := 0x23
  data := Data.const 0x23
  general := { eax := 3, ecx := 2, edx := 4, ebx := 100, ebp := 0x600FF8, esi := 6, edi := 7 }
  memory := fun _ => 0

theorem sampleUser_user : User sampleImage sampleEsp0 sampleUser :=
  ⟨rfl, rfl, ⟨isData_user, isData_user, isData_user, isData_user⟩, rfl, rfl, rfl⟩

end Sample

theorem interrupt_returns_sample :
    ∃ k memory, interrupt (tables sampleImage sampleEsp0) (.exception none) 0 sampleUser = .ok k ∧
      k.eip = 0xC01010C0 ∧
      iret (tables sampleImage sampleEsp0) (leave .divBy0Handler k k) =
        .ok { sampleUser with
          eip := 0x400103
          data := sampleUser.data.map (keepSegment (tables sampleImage sampleEsp0) 3)
          memory } := by
  obtain ⟨k, htaken, heip, -, -, hreturns⟩ := @interrupt_returns sampleImage sampleEsp0 0 (.exception none)
    sampleUser (by decide) ⟨by decide, rfl⟩ (.inl ⟨sampleUser_user, by decide⟩)
  obtain ⟨memory, hreturn, -⟩ := hreturns k (.done _ k)
  exact ⟨k, memory, htaken, heip, hreturn⟩

end ToyKernel.Interrupts
