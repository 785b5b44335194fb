import Mathlib.Logic.Relation
import ToyKernel.Interrupts.Syscalls

namespace ToyKernel.Interrupts

open Library ByteMemory StackMachine Protection Gdt Idt Syscall

def USER_CODE_SELECTOR : BitVec 16 := 0x1B
def USER_DATA_SELECTOR : BitVec 16 := 0x23

-- `mov` of a selector to all four data segment registers
def loadData (t : Tables) (m : Protection.Cpu) (selector : BitVec 16) : Except Refused Protection.Cpu :=
  if t.isData m.cpl selector then .ok { m with data := Data.const selector }
  else .error .generalProtection

-- The words that `enter_usermode` pushes for `iret`, with the interrupt flag set among them
def pushUserFrame (m : Protection.Cpu) : Protection.Cpu :=
  let m := m.pushes [USER_DATA_SELECTOR.setWidth 32, m.general.ecx, m.eflags.bits]
  let m := { m with memory := store32 m.memory m.esp.toNat (m.top ||| 0x200) }
  m.pushes [USER_CODE_SELECTOR.setWidth 32, m.general.eax]

-- `enter_usermode` up to the data segment registers, called with the entry point and the user
-- stack above the return address
def userArguments (m : Protection.Cpu) : Protection.Cpu :=
  { m with
    eflags := cli m.eflags
    general :=
      { m.general with
        eax := load32 m.memory (m.esp + 4).toNat
        ecx := load32 m.memory (m.esp + 8).toNat
        ebx := m.general.ebx.extractLsb' 16 16 ++ USER_DATA_SELECTOR } }

def enterUsermode (t : Tables) (m : Protection.Cpu) : Except Refused Protection.Cpu := do
  let m ← loadData t (userArguments m) USER_DATA_SELECTOR
  iret t (pushUserFrame m)

-- What a user task goes through: its own instructions, the interrupts that come in between, and
-- its system calls.
inductive Moves (image : Image) (esp0 : BitVec 32) (syscalls : Fin MAX_SYSCALLS → Syscall.Handler)
    (upper : SavedReg → BitVec 16) (ret : BitVec 32) : Protection.Cpu → Protection.Cpu → Prop where
  | instruction {m m' : Protection.Cpu} (h : OuterStep (tables image esp0) m m') :
      Moves image esp0 syscalls upper ret m m'
  | interrupted {m k k' m' : Protection.Cpu} {source : Source} {v : Nat} (hv : v < 256) (hfits : Fits source v)
      (hentered : interrupt (tables image esp0) source v m = .ok k)
      (hcode : Code (tables image esp0) (frameAt (handler v) k) k k')
      (hleft : iret (tables image esp0) (leave (handler v) k k') = .ok m') :
      Moves image esp0 syscalls upper ret m m'
  | systemCall {m k m' : Protection.Cpu} {calls : List (Nat × Syscall.Cpu × Syscall.Cpu)} {s : Syscall.Cpu}
      (hentered : interrupt (tables image esp0) .software 0x80 m = .ok k)
      (hdispatch : SyscallDispatcher syscalls upper ret (saved k) calls s)
      (hleft : iret (tables image esp0) (afterDispatcher k s) = .ok m') :
      Moves image esp0 syscalls upper ret m m'

section Selectors

variable {image : Image} {esp0 : BitVec 32} {selector : BitVec 16}

-- A selector is an entry of the table and a level.
theorem selector_eq (hglobal : ¬ selector.getLsbD 2 = true) :
    selector = BitVec.ofNat 16 (8 * (selector.toNat / 8) + level selector) := by
  have hbit : ¬ selector.toNat / 2 ^ 2 % 2 = 1 := by
    unfold BitVec.getLsbD at hglobal
    rwa [Nat.testBit_eq_decide_div_mod_eq, decide_eq_true_eq] at hglobal
  apply BitVec.eq_of_toNat_eq
  have hlt := selector.isLt
  unfold level
  rw [BitVec.toNat_ofNat]
  omega

theorem level_lt (selector : BitVec 16) : level selector < 4 := Nat.mod_lt _ (by decide)

theorem isFarCode_user (h : (tables image esp0).isFarCode 3 selector = true) :
    (selector &&& 0xFFFC) ||| BitVec.ofNat 16 3 = 0x1B := by
  have hlevels : ∀ j : Fin 4, (BitVec.ofNat 16 (24 + j.val) &&& 0xFFFC) ||| BitVec.ofNat 16 3 = 0x1B := by
    decide
  unfold Tables.isFarCode at h
  rw [segment_eq] at h
  by_cases hlocal : selector.getLsbD 2 = true
  · rw [if_pos hlocal] at h
    cases h
  · rw [if_neg hlocal] at h
    have hthree : selector.toNat / 8 = 3 := by
      by_contra hne
      split_ifs at h <;> simp [flat, tssSegment, Segment.isConforming, Segment.isCode] at h
    rw [selector_eq hlocal, hthree]
    exact hlevels ⟨level selector, level_lt selector⟩

theorem isStack_eq (h : (tables image esp0).isStack 3 selector = true) : selector = 0x23 := by
  unfold Tables.isStack at h
  rw [segment_eq] at h
  by_cases hlocal : selector.getLsbD 2 = true
  · rw [if_pos hlocal] at h
    cases h
  · rw [if_neg hlocal] at h
    have hfour : selector.toNat / 8 = 4 := by
      by_contra hne
      split_ifs at h <;> simp [flat, tssSegment, Segment.isWritable, Segment.isFlat] at h
    rw [if_neg (by omega), if_neg (by omega), if_neg (by omega), if_pos hfour] at h
    have hlevel : level selector = 3 := by simpa [flat, Segment.isWritable, Segment.isFlat] using h
    rw [selector_eq hlocal, hfour, hlevel]
    rfl

-- What `iret` makes of a data segment register is again one that the task may have set.
theorem isData_keepSegment (h : (tables image esp0).isData 3 selector = true) :
    (tables image esp0).isData 3 (keepSegment (tables image esp0) 3 selector) = true := by
  have hnull : (tables image esp0).isData 3 0 = true := by
    unfold Tables.isData
    rw [segment_eq]
    rfl
  unfold keepSegment
  split
  · exact hnull
  · split
    · exact hnull
    · exact h

end Selectors

section Confinement

variable {image : Image} {esp0 : BitVec 32} {m m' : Protection.Cpu}
  {syscalls : Fin MAX_SYSCALLS → Syscall.Handler} {upper : SavedReg → BitVec 16} {ret : BitVec 32}

theorem User.keepSegment (h : User image esp0 m) :
    (m.data.map (Protection.keepSegment (tables image esp0) 3)).all fun s =>
      (tables image esp0).isData 3 s = true :=
  ⟨isData_keepSegment h.data.1, isData_keepSegment h.data.2.1, isData_keepSegment h.data.2.2.1,
    isData_keepSegment h.data.2.2.2⟩

-- An instruction of the task leaves it in ring 3, with the interrupts on.
theorem User.instruction (h : User image esp0 m) (hstep : OuterStep (tables image esp0) m m') :
    User image esp0 m' := by
  have hcpl := h.cpl
  cases hstep with
  | ordinary _ cs ss data interrupts iopl virtual =>
      rw [hcpl] at cs ss data interrupts
      have hdata : ∀ s, s ∈ [m.data.ds, m.data.es, m.data.fs, m.data.gs] ∨
          (tables image esp0).isData 3 s = true → (tables image esp0).isData 3 s = true := by
        rintro s (hmem | hs)
        · obtain ⟨hds, hes, hfs, hgs⟩ := h.data
          simp only [List.mem_cons, List.not_mem_nil, or_false] at hmem
          rcases hmem with rfl | rfl | rfl | rfl
          · exact hds
          · exact hes
          · exact hfs
          · exact hgs
        · exact hs
      obtain ⟨hds, hes, hfs, hgs⟩ := data
      refine ⟨?_, ?_, ⟨hdata _ hds, hdata _ hes, hdata _ hfs, hdata _ hgs⟩, ?_, ?_, ?_⟩
      · rcases cs with hsame | ⟨selector, hselector, hcs⟩
        · rw [hsame, h.cs]
        · rw [hcs]
          exact isFarCode_user hselector
      · rcases ss with hsame | hstack
        · rw [hsame, h.ss]
        · exact isStack_eq hstack
      · rw [interrupts (by rw [h.iopl]; decide), h.interrupts]
      · rw [iopl, h.iopl]
      · rw [virtual, h.virtual]
  | system selector s hsegment hsystem hlevel =>
      -- The only system segment is that of ring 0.
      have hdpl : s.dpl = 0 := by
        rw [segment_eq] at hsegment
        split_ifs at hsegment <;> cases hsegment
        · cases hsystem
        · cases hsystem
        · cases hsystem
        · cases hsystem
        · rfl
      rw [hcpl, hdpl] at hlevel
      have hle : 3 ≤ 0 := Nat.le_trans (Nat.le_max_left ..) hlevel
      omega

theorem User.interrupted {k k' : Protection.Cpu} {source : Source} {v : Nat} (h : User image esp0 m)
    (hroom : 24 ≤ esp0.toNat) (hv : v < 256) (hfits : Fits source v)
    (hentered : interrupt (tables image esp0) source v m = .ok k)
    (hcode : Code (tables image esp0) (frameAt (handler v) k) k k')
    (hleft : iret (tables image esp0) (leave (handler v) k k') = .ok m') : User image esp0 m' := by
  obtain ⟨_, htaken, -, -, hbegun⟩ := begun_user h hv hfits.permitted (errorCode_popped hv hfits) hroom
  rw [htaken] at hentered
  obtain rfl := Except.ok.inj hentered
  have hbody := code_computes hcode (hbegun.kernel (Nat.le_refl _)) hbegun.nested (Nat.le_add_right ..)
    (by
      rw [hbegun.place]
      exact Nat.sub_le ..)
  obtain ⟨memory, hreturn⟩ := returns_user h (by omega) hbegun hbody
  rw [hreturn] at hleft
  obtain rfl := Except.ok.inj hleft
  exact ⟨h.cs, h.ss, h.keepSegment, h.interrupts, h.iopl, h.virtual⟩

section Calls

variable (hroom : 72 ≤ esp0.toNat) (hreturns : ∀ i, (syscalls i).ReturnsCleanly)
  (hkeeps : ∀ i, (syscalls i).KeepsBlock) (habove : ∀ i, KeepsAbove esp0.toNat (syscalls i))
include hroom hreturns hkeeps habove

theorem User.moves (h : User image esp0 m) (hmoves : Moves image esp0 syscalls upper ret m m') :
    User image esp0 m' := by
  cases hmoves with
  | instruction hstep => exact h.instruction hstep
  | interrupted hv hfits hentered hcode hleft => exact h.interrupted (by omega) hv hfits hentered hcode hleft
  | systemCall hentered hdispatch hleft =>
      obtain ⟨k, htaken, -, -, hbegun⟩ := begun_syscall h (by omega)
      rw [htaken] at hentered
      obtain rfl := Except.ok.inj hentered
      have hplace : k.esp.toNat = esp0.toNat - 20 := hbegun.place
      have hd := dispatched (m := saved k)
        (by
          change 52 ≤ k.esp.toNat
          omega) hreturns hkeeps habove hdispatch
      rw [returns_dispatcher h (by omega) hbegun hd] at hleft
      obtain rfl := Except.ok.inj hleft
      exact ⟨h.cs, h.ss, h.keepSegment, h.interrupts, h.iopl, h.virtual⟩

theorem User.run (h : User image esp0 m)
    (hrun : Relation.ReflTransGen (Moves image esp0 syscalls upper ret) m m') : User image esp0 m' := by
  induction hrun with
  | refl => exact h
  | tail _ hmoves ih => exact ih.moves hroom hreturns hkeeps habove hmoves

end Calls

end Confinement

section Entering

variable {image : Image} {esp0 : BitVec 32} {m : Protection.Cpu}

theorem pushUserFrame_words (hroom : 20 ≤ m.esp.toNat) :
    (pushUserFrame m).esp.toNat = m.esp.toNat - 20 ∧
      Words (pushUserFrame m).memory (m.esp.toNat - 20)
        [m.general.eax, USER_CODE_SELECTOR.setWidth 32, m.eflags.sti.bits, m.general.ecx,
          USER_DATA_SELECTOR.setWidth 32] := by
  let upper : List (BitVec 32) := [USER_DATA_SELECTOR.setWidth 32, m.general.ecx, m.eflags.bits]
  let lower : List (BitVec 32) := [USER_CODE_SELECTOR.setWidth 32, m.general.eax]
  have hnil : Words m.memory m.esp.toNat [] := trivial
  obtain ⟨hesp, hwords⟩ := pushes_words hnil upper (by change 12 ≤ _; omega)
  change _ = m.esp.toNat - 12 at hesp
  -- `or dword [esp], 0x200`
  have hor : Words (store32 (m.pushes upper).memory (m.pushes upper).esp.toNat ((m.pushes upper).top ||| 0x200))
      (m.pushes upper).esp.toNat [m.eflags.sti.bits, m.general.ecx, USER_DATA_SELECTOR.setWidth 32] := by
    have htop : (m.pushes upper).top = m.eflags.bits := by
      unfold Cpu.top
      rw [hesp]
      exact hwords.1
    rw [hesp, htop]
    refine ⟨load32_store32_self .., hwords.2.congr fun b hlo _ => ?_⟩
    refine (store32_of_ne (.inr ?_) _).symm
    exact hlo
  let flagged : Protection.Cpu :=
    { m.pushes upper with
      memory := store32 (m.pushes upper).memory (m.pushes upper).esp.toNat ((m.pushes upper).top ||| 0x200) }
  obtain ⟨hesp', hwords'⟩ := pushes_words (m := flagged) hor lower (by
    change 8 ≤ (m.pushes upper).esp.toNat
    omega)
  have hframe : pushUserFrame m = flagged.pushes lower := by
    have hgeneral : (m.pushes upper).general = m.general := by rw [pushes_same]
    change Cpu.pushes { m.pushes upper with memory := _ } [_, (m.pushes upper).general.eax] = _
    rw [hgeneral]
  have hplace : flagged.esp.toNat - 4 * lower.length = m.esp.toNat - 20 := by
    change (m.pushes upper).esp.toNat - 8 = _
    omega
  rw [hplace] at hesp' hwords'
  rw [hframe]
  exact ⟨hesp', hwords'⟩

theorem pushUserFrame_same (m : Protection.Cpu) :
    pushUserFrame m = { m with esp := (pushUserFrame m).esp, memory := (pushUserFrame m).memory } := by
  unfold pushUserFrame
  dsimp only
  rw [pushes_same, pushes_same m]

-- `enter_usermode` goes to the entry point in ring 3, on the user stack and with the interrupts on.
theorem enterUsermode_eq (image : Image) (h : Kernel esp0 m) (hroom : 20 ≤ m.esp.toNat)
    (hnested : nested m.eflags = false) :
    ∃ general memory, enterUsermode (tables image esp0) m =
      .ok { eip := load32 m.memory (m.esp + 4).toNat
            esp := load32 m.memory (m.esp + 8).toNat
            eflags := (cli m.eflags).sti
            cs := USER_CODE_SELECTOR
            ss := USER_DATA_SELECTOR
            data := Data.const USER_DATA_SELECTOR
            general, memory } := by
  let loaded : Protection.Cpu := { userArguments m with data := Data.const USER_DATA_SELECTOR }
  have hloaded : enterUsermode (tables image esp0) m = iret (tables image esp0) (pushUserFrame loaded) := by
    have hdata : loadData (tables image esp0) (userArguments m) USER_DATA_SELECTOR = .ok loaded := by
      refine if_pos ?_
      have hcpl : (userArguments m).cpl = 0 := h.cpl
      rw [hcpl]
      exact isData_kernel
    unfold enterUsermode
    rw [hdata]
    rfl
  have hroom' : 20 ≤ loaded.esp.toNat := hroom
  obtain ⟨hesp, hwords⟩ := pushUserFrame_words hroom'
  rw [← hesp] at hwords
  have hsame := pushUserFrame_same loaded
  have hlt := loaded.esp.isLt
  have hcpl : (pushUserFrame loaded).cpl = 0 := by
    rw [hsame]
    exact h.cpl
  have hflags : nested (pushUserFrame loaded).eflags = false := by
    rw [hsame]
    exact nested_cli hnested
  have hback : (tables image esp0).back (pushUserFrame loaded).cpl USER_CODE_SELECTOR = .ok (flat 0xA 3) := by
    rw [hcpl]
    exact back_user
  have hreturn := iret_outer hwords (by omega) hflags (virtual_cli_sti h.virtual) hback
    (by
      rw [hcpl]
      decide)
    isStack_user
  have hdata : (pushUserFrame loaded).data.map
      (keepSegment (tables image esp0) (level USER_CODE_SELECTOR)) = Data.const USER_DATA_SELECTOR := by
    have hkeep : keepSegment (tables image esp0) 3 USER_DATA_SELECTOR = USER_DATA_SELECTOR := by
      unfold keepSegment
      rw [segment_eq]
      rfl
    rw [hsame]
    change (Data.const USER_DATA_SELECTOR).map (keepSegment (tables image esp0) 3) = _
    unfold Data.map Data.const
    rw [hkeep]
  refine ⟨(pushUserFrame loaded).general, (pushUserFrame loaded).memory, ?_⟩
  rw [hloaded, hreturn, hdata]
  rfl

theorem enterUsermode_user (image : Image) (h : Kernel esp0 m) (hroom : 20 ≤ m.esp.toNat)
    (hnested : nested m.eflags = false) (hiopl : iopl m.eflags = 0) :
    ∃ m', enterUsermode (tables image esp0) m = .ok m' ∧ User image esp0 m' ∧
      m'.eip = load32 m.memory (m.esp + 4).toNat ∧ m'.esp = load32 m.memory (m.esp + 8).toNat := by
  obtain ⟨general, memory, heq⟩ := enterUsermode_eq image h hroom hnested
  refine ⟨_, heq, ⟨rfl, rfl, ⟨isData_user, isData_user, isData_user, isData_user⟩, ?_, ?_, ?_⟩, rfl, rfl⟩
  · exact Eflags.interrupts_sti _
  · exact iopl_cli_sti.trans hiopl
  · exact virtual_cli_sti h.virtual

-- A task that `enter_usermode` has let go stays in ring 3 with the interrupts on, whatever its
-- code does: it gets into the kernel through the gates alone, at the top of its kernel stack. No
-- exception, device or system call is refused, and `int` for any other vector is.
theorem usermode_confined {syscalls : Fin MAX_SYSCALLS → Syscall.Handler} {upper : SavedReg → BitVec 16}
    {ret : BitVec 32} (h : Kernel esp0 m) (hroom : 20 ≤ m.esp.toNat) (hnested : nested m.eflags = false)
    (hiopl : iopl m.eflags = 0) (htop : 72 ≤ esp0.toNat) (hreturns : ∀ i, (syscalls i).ReturnsCleanly)
    (hkeeps : ∀ i, (syscalls i).KeepsBlock) (habove : ∀ i, KeepsAbove esp0.toNat (syscalls i)) :
    ∃ m₀, enterUsermode (tables image esp0) m = .ok m₀ ∧
      m₀.eip = load32 m.memory (m.esp + 4).toNat ∧ m₀.esp = load32 m.memory (m.esp + 8).toNat ∧
      ∀ m', Relation.ReflTransGen (Moves image esp0 syscalls upper ret) m₀ m' →
        m'.cs = USER_CODE_SELECTOR ∧ m'.ss = USER_DATA_SELECTOR ∧ m'.eflags.interrupts = true ∧
        iopl m'.eflags = 0 ∧
        (∀ source v, v < 256 → Fits source v ∨ source = .software ∧ v = 0x80 →
          ∃ k, interrupt (tables image esp0) source v m' = .ok k ∧ k.eip = image.address (handler v) ∧
            Kernel esp0 k ∧ frameAt (handler v) k = esp0.toNat - 20) ∧
        ∀ v, v < 256 → v ≠ 0x80 →
          interrupt (tables image esp0) .software v m' = .error .generalProtection := by
  obtain ⟨m₀, henter, huser, heip, hesp⟩ := enterUsermode_user image h hroom hnested hiopl
  refine ⟨m₀, henter, heip, hesp, fun m' hrun => ?_⟩
  have hm' := huser.run htop hreturns hkeeps habove hrun
  refine ⟨hm'.cs, hm'.ss, hm'.interrupts, hm'.iopl, fun source v hv hsource => ?_, fun v hv hne => ?_⟩
  · have hpermitted : Permitted source 3 v := by
      rcases hsource with hfits | ⟨-, rfl⟩
      · exact hfits.permitted
      · exact fun _ => .inr rfl
    have hcode : 4 * source.errorCode.length = popped (handler v) := by
      rcases hsource with hfits | ⟨rfl, rfl⟩
      · exact errorCode_popped hv hfits
      · rfl
    obtain ⟨k, htaken, hentry, -, hbegun⟩ := begun_user hm' hv hpermitted hcode (by omega)
    exact ⟨k, htaken, hentry, hbegun.kernel (Nat.le_refl _), hbegun.place⟩
  · have hgate : (tables image esp0).gate .software m'.cpl v = .error .generalProtection := by
      rw [hm'.cpl]
      exact gate_refused hv hne (by decide)
    unfold interrupt
    rw [hgate]
    rfl

end Entering

section Sample

-- A new task's kernel stack in `usermode_trampoline`, with the arguments of `enter_usermode`
def sampleTrampoline : Protection.Cpu :=
  { sampleUser with
    eip := 0xC0102000
    esp := 0xD0001FE0
    cs := 0x08
    ss := 0x10
    data := Data.const 0x10
    memory := store32 (store32 (fun _ => 0) 0xD0001FE4 0x400000) 0xD0001FE8 0x601000 }

end Sample

theorem usermode_confined_sample :
    ∃ m₀, enterUsermode (tables sampleImage sampleEsp0) sampleTrampoline = .ok m₀ ∧ m₀.eip = 0x400000 ∧
      m₀.esp = 0x601000 ∧
      ∀ m', Relation.ReflTransGen (Moves sampleImage sampleEsp0 sampleSyscalls (fun _ => 0) 0xC0101130) m₀
          m' →
        m'.cs = USER_CODE_SELECTOR ∧ m'.eflags.interrupts = true := by
  obtain ⟨m₀, henter, heip, hesp, hrun⟩ := @usermode_confined sampleImage sampleEsp0 sampleTrampoline
    sampleSyscalls (fun _ => 0) 0xC0101130 ⟨rfl, rfl, by decide, rfl⟩ (by decide) rfl rfl (by decide)
    (fun _ _ _ h => by rw [h]) sampleSyscalls_keepsBlock (sampleSyscalls_keepsAbove _)
  refine ⟨m₀, henter, heip, hesp, fun m' hm' => ?_⟩
  obtain ⟨hcs, -, hinterrupts, -⟩ := hrun m' hm'
  exact ⟨hcs, hinterrupts⟩

end ToyKernel.Interrupts
