import ToyKernel.Elf.Inside
import ToyKernel.Elf.Opened
import ToyKernel.Malloc.Inside
import ToyKernel.UserTask

namespace ToyKernel

open Library ByteMemory BlockList

-- The ground of a heap that goes on in `k`: the frames taken since `base` are not the heap's.
def Kernel.since (k base : Kernel) : Ground := ⟨k, {f | Owned k f ∧ base.pmm.testBit f = false}⟩

-- What is done for a task before its block is asked for leaves the heap's pages alone.
structure Carries (k k' : Kernel) : Prop where
  paged : Paged k'
  keeps : Keeps k k'
  heap : ∀ a, KERNEL_HEAP_START ≤ a → a < 4294967296 → k'.pte a = k.pte a
  counts : Heap.CountsUp True k k'

section Carries

variable {g : Ground} {k mid k' : Kernel} {frame : Nat → Nat} {stop : Nat}

theorem Carries.trans (h : Carries k mid) (h' : Carries mid k') : Carries k k' where
  paged := h'.paged
  keeps := h.keeps.trans h'.keeps
  heap a hlo hhi := (h'.heap a hlo hhi).trans (h.heap a hlo hhi)
  counts := by
    have hcounts := Heap.CountsUp.composes.trans h.counts h'.counts
    rwa [and_self] at hcounts

theorem Undisturbed.carries (hu : Undisturbed k k') (hcounts : Heap.CountsUp True k k') : Carries k k' :=
  ⟨hu.paged, hu.keeps, fun a _ ha => hu.pte a ha, hcounts⟩

theorem kernelPage_of_heap {a : Nat} (hlo : KERNEL_HEAP_START ≤ a) : KernelPage a :=
  Or.inr (Nat.le_trans (by decide) hlo)

-- An image that keeps out of the kernel's pages
theorem elfLoad_carries (h : Paged k) {data : Nat} (hout : (Elf.elfLoad data).Meets KeepsOut k)
    {r : Elf.Result × Kernel} (hr : k.run (Elf.elfLoad data) = .ok r) : Carries k r.2 := by
  obtain ⟨hpaged, hguards⟩ := Elf.elfLoad_relates Guards.composes (Elf.loadPage_guards data) k r h hr
  have hkeeps := (Elf.elfLoad_relates Elf.keeps_composes (Elf.loadPage_relates data) k r h hr).2
  have hcounts := (Elf.elfLoad_relates Heap.CountsUp.composes
    (Heap.loadPage_countsUp (fun _ _ _ => True) data) k r h hr).2
  exact ⟨hpaged, hkeeps, fun a hlo ha => (hguards.same hout a ha (kernelPage_of_heap hlo)).2, hcounts⟩

theorem allocateBlock_carries (h : Paged k) {r : Nat × Kernel} (hr : k.allocateBlock 1 = .ok r) :
    Carries k r.2 := by
  refine (h.allocateBlock_ok hr).1.carries ?_
  have hused := Kernel.used_allocateBlock (show 1 ≤ 1048576 by omega) hr
  change k.used ≤ r.2.used ∧ r.2.used ≤ max k.used 32768
  omega

-- The page of the user stack is none of the kernel's.
theorem mapPageUser_carries (h : Paged k) {phys virt : Nat} (hlt : virt < KERNEL_HEAP_START)
    {r : Bool × Kernel} (hr : k.mapPageUser phys virt = .ok r) : Carries k r.2 := by
  have hvirt : virt < 4294967296 := Nat.lt_trans hlt (by decide)
  obtain ⟨hpaged, hkeeps⟩ := mapPageUser_paged h hvirt hr
  refine ⟨hpaged, hkeeps, fun a hlo ha => ?_, Heap.used_mapPageUser hr⟩
  obtain ⟨htrue, hfalse⟩ := h.mapPageUser_ok h.marked hvirt hr
  cases hok : r.1 with
  | false => exact (hfalse hok).pte a ha
  | true =>
      refine (htrue hok).pte_other a ha ?_
      change virt < 3506438144 at hlt
      change 3506438144 ≤ a at hlo
      omega

theorem Backed.carried (h : Backed g k frame stop) (hstart : KERNEL_HEAP_START ≤ stop) (hc : Carries k k') :
    Backed (k'.since k) k' frame stop ∧ SameBytes k k' stop := by
  have hbounded := h.bounded
  have h' : Backed (k'.since k) k' frame stop := by
    refine ⟨hc.paged, hbounded, h.aligned, fun a hlo hhi => ?_, fun a hlo hhi => ?_, h.distinct,
      fun a hlo hhi => ?_, h.pos, ⟨rfl, fun _ _ => rfl, fun _ _ => rfl, fun f hf => ⟨hf.1, fun _ _ => rfl⟩⟩,
      fun f hf a hlo hhi he => ?_⟩
    · rw [hc.paged.translate_eq, hc.heap a hlo (by omega), ← h.paged.translate_eq]
      exact h.walks a hlo hhi
    · exact (hc.keeps _ (h.owned a hlo hhi)).1
    · rw [hc.heap a (by omega) hhi]
      exact h.vacant a hlo hhi
    · have hmark := (h.owned a hlo hhi).1
      rw [he, hf.2] at hmark
      cases hmark
  exact ⟨h', h.sameBytes h' fun a hlo hhi => hc.keeps _ (h.owned a hlo hhi)⟩

-- What is below the heap is as it was on the ground.
theorem OnGround.below {virt : Nat} (h : OnGround g k') (hlo : virt < KERNEL_HEAP_START) :
    k'.pte virt = g.kernel.pte virt ∧ (k'.Ring3 virt ↔ g.kernel.Ring3 virt) := by
  have hpte := h.pte virt hlo
  have hpde := h.pde (PD_INDEX virt) (by
    change virt / 4194304 < 836
    change virt < 3506438144 at hlo
    omega)
  refine ⟨hpte, ?_⟩
  unfold Kernel.Ring3
  rw [hpde, hpte]

-- What is found at its own address on the ground is so here.
theorem OnGround.reaches (h : OnGround g k) (hp : Paged k) (hp₀ : Paged g.kernel) {address count : Nat}
    (hend : address + count ≤ KERNEL_HEAP_START) (hreach : g.kernel.Reaches address count) :
    k.Reaches address count := by
  intro i hi
  rw [hp.translate_eq, h.pte _ (by omega), ← hp₀.translate_eq]
  exact hreach i hi

theorem Elf.Staged.onGround {data size : Nat} {file : Nat → BitVec 8} (hst : Staged k data file size)
    (h : OnGround k.ground k') : Staged k' data file size := by
  refine ⟨hst.fits, fun i hi => ?_, fun i hi => (h.kept _ (hst.owned i hi)).1⟩
  exact ((h.kept _ (hst.owned i hi)).2 _ rfl).trans (hst.bytes i hi)

-- So are the frames that were taken.
theorem Backed.ownPage {base : Kernel} {virt : Nat} (h : Backed (k.since base) k' frame stop)
    (hlo : virt < KERNEL_HEAP_START) (hown : OwnPage base k virt) : OwnPage base k' virt := by
  obtain ⟨hpte, hring⟩ := h.ground.below hlo
  exact hown.keep hring.mpr hpte fun f hfree hf => (h.ground.kept f ⟨hf, hfree⟩).1

-- The pages of the heap are not on frame 0.
theorem Backed.noneOnZero {base : Kernel} (h : Backed (k.since base) k' frame stop) :
    ∀ virt < 4294967296, k'.Ring3 virt → PAGE_PHYS_ADDRESS (k'.pte virt) = 0 → k'.pte virt = k.pte virt := by
  intro a ha hring hz
  by_cases hlo : a < KERNEL_HEAP_START
  · exact h.ground.pte a hlo
  have hpresent := hring.2.2.1
  by_cases hhi : a < stop
  · have hwalk := h.walks a (by omega) hhi
    rw [h.paged.translate_eq, if_pos hpresent, hz] at hwalk
    have hsum := Option.some.inj hwalk
    have hpos := h.pos a (by omega) hhi
    omega
  · rw [h.vacant a (by omega) ha, isPresent_zero] at hpresent
    cases hpresent

end Carries

namespace Malloc

variable {g : Ground} {M : Malloc} {h : Heap} {frame : Nat → Nat} {blocks : List Block} {k : Kernel}

-- A write into the heap, whatever it writes
theorem Shows.put (hs : Shows g M h frame) (address count : Nat) (change : Memory → Memory)
    (hlo : KERNEL_HEAP_START ≤ address) (hhi : address + count ≤ h.heapEnd) :
    ∃ M' m, M.put address count change = .ok M' ∧ Shows g M' { h with bytes := m } frame := by
  let m := fun a => if address ≤ a ∧ a < address + count then change M.kernel.view a else h.bytes a
  have hin : ∀ a, address ≤ a → a < address + count → change M.kernel.view a = m a :=
    fun a ha ha' => (if_pos ⟨ha, ha'⟩).symm
  obtain ⟨M', hput, hs'⟩ := put_ok hs hlo hhi hin fun a ha => if_neg (by omega)
  exact ⟨M', m, hput, hs'⟩

-- The heap goes on in `k`.
theorem Shows.carried (hs : Shows g M h frame) (ht : Heap.Tidy h blocks) (hc : Carries M.kernel k) :
    Shows (k.since M.kernel) { M with kernel := k } { h with kernel := k } frame ∧
      Heap.Tidy { h with kernel := k } blocks := by
  obtain ⟨hbacked, hbytes⟩ := hs.backed.carried (Nat.le_add_right _ _) hc
  have ht' := tidy_kernel hs ht
  refine ⟨⟨hbacked, rfl, fun a hlo hhi => ?_, hs.head, hs.pages⟩, ht'.toStands.counting hc.counts, ht'.flags⟩
  exact (hbytes a hlo hhi).trans (hs.bytes a hlo hhi)

-- Behind a block in use, a free one that is large enough is split.
theorem Shows.split_second (hs : Shows g M h frame) {n r size : Nat}
    (ht : Heap.Tidy h [⟨n, false⟩, ⟨r, true⟩]) (hlo : 1 ≤ size) (hroom : size + 12 < r) :
    (¬M.Slack size ∧ M.Grows size) ∧ ∃ M' m,
      M.syscallMalloc size = .ok (KERNEL_HEAP_START + extent 12 [⟨n, false⟩] + 12, M') ∧
        Shows g M' { h with bytes := m } frame := by
  have ht' : Heap.Tidy h ([⟨n, false⟩] ++ ⟨r, true⟩ :: []) := ht
  have hfound : M.findBlock size Heap.LIST_STEPS M.mallocListHead =
      .ok (KERNEL_HEAP_START + extent 12 [⟨n, false⟩]) := by
    obtain ⟨before, b, after, hsplit, hstop, hfound⟩ := hs.search ht size
    rcases before with _ | ⟨x, _ | ⟨y, rest⟩⟩
    · obtain ⟨rfl, rfl⟩ := List.cons_eq_cons.mp hsplit
      rcases hstop with hfits | hlast
      · exact absurd hfits.2 Bool.false_ne_true
      · cases hlast
    · obtain ⟨rfl, -⟩ := List.cons_eq_cons.mp hsplit
      exact hfound
    · have hlength := congrArg List.length hsplit
      simp at hlength
  have hread := hs.sizeAt_block ht'
  obtain ⟨hstart, hend⟩ := node_inside ht'
  obtain ⟨M', m, hmalloc, hs', -⟩ := hs.syscallMalloc_split ht' hlo hroom hfound
  refine ⟨⟨fun ⟨_, cur, old, next, hcur, _, hnext, hne, _⟩ => ?_, fun cur old hcur hold _ hsmall _ => ?_⟩,
    M', m, hmalloc, hs'⟩
  · obtain rfl := Except.ok.inj (hfound.symm.trans hcur)
    rw [hs.nextAt hstart (by omega)] at hnext
    obtain rfl := Except.ok.inj hnext
    exact hne ht'.chain.nextOf_last
  · obtain rfl := Except.ok.inj (hfound.symm.trans hcur)
    obtain rfl := Except.ok.inj (hread.symm.trans hold)
    change r ≤ size + 12 at hsmall
    omega

end Malloc

namespace UserTask

open Heap (fault ok_of_fault USER_STACK_VIRT)

-- A null pointer, and no task
structure Refused (s : State) (mem : Nat) (s' : State) : Prop where
  pointer : mem = 0
  list : s'.scheduler.task = s.scheduler.task
  id : s'.scheduler.nextTaskId = s.scheduler.nextTaskId

-- The pages of the heap are frames of their own, and its list fills them.
def HeapStands (M : Malloc) : Prop :=
  ∃ g h frame blocks, Malloc.Shows g M h frame ∧ Heap.Tidy h blocks

-- The steps as far as the mapping of the stack
structure Stages (s : State) (data entry : Nat) (k₁ k₂ k₃ : Kernel) (phys : Nat) (ok : Bool) : Prop where
  loads : s.malloc.kernel.run (Elf.elfLoad data) = .ok (.ok entry, k₁)
  takes : k₁.allocateBlock 1 = .ok (phys, k₂)
  maps : k₂.mapPageUser phys USER_STACK_VIRT = .ok (ok, k₃)

-- The image keeps out of the kernel's pages, no page comes to another frame for bit 31 of its
-- old entry, and malloc has a block for the task.
structure Fits (s : State) (data : Nat) : Prop where
  out : (Elf.elfLoad data).Meets KeepsOut s.malloc.kernel
  top : (Elf.elfLoad data).Meets KeepsTop s.malloc.kernel
  stack : ∀ {entry k₁ k₂ k₃ phys ok}, Stages s data entry k₁ k₂ k₃ phys ok →
    (k₁.pte USER_STACK_VIRT).getLsbD 31 = true → phys.testBit 31 = true
  block : ∀ {entry k₁ k₂ k₃ phys ok}, Stages s data entry k₁ k₂ k₃ phys ok →
    ¬{ s.malloc with kernel := k₃ }.Slack (SIZEOF_TASK + STACK_SIZE) ∧
      { s.malloc with kernel := k₃ }.Grows (SIZEOF_TASK + STACK_SIZE)

-- A frame for the user stack, and one for its table where there is none
def StackBacked (k : Kernel) : Prop :=
  k.pmm.Supplies (if isPresent (k.pde (PD_INDEX USER_STACK_VIRT)) then 1 else 2)

variable {s s' : State} {data mem entry phys : Nat} {k₁ k₂ k₃ : Kernel} {ok : Bool} {code : Code}

section Steps

-- A call that goes through all the steps
theorem Stages.run {M₁ M₂ M₃ : Malloc} {scheduler : Scheduler} (hst : Stages s data entry k₁ k₂ k₃ phys ok)
    (hmalloc : { s.malloc with kernel := k₃ }.syscallMalloc (SIZEOF_TASK + STACK_SIZE) = .ok (mem, M₁))
    (hfields : (M₁.put mem SIZEOF_TASK fun m =>
      storeTask m mem s.scheduler.nextTaskId (BitVec.ofNat 32 entry)) = .ok M₂)
    (hstack : (M₂.put (u32 (mem + STACK_SIZE)) 32 fun m =>
      setupStack code m (u32 (mem + STACK_SIZE))) = .ok M₃)
    (happend : s.scheduler.createUserTask mem (BitVec.ofNat 32 entry) = .ok scheduler) :
    createUserTaskFromElf code data s = .ok (mem, ⟨M₃, scheduler⟩) := by
  unfold createUserTaskFromElf
  simp only [hst.loads, hst.takes, hst.maps, hmalloc, hfields, hstack, happend, fault, memory,
    Except.mapError, Kernel.ok_bind]
  rfl

-- The writes to the block of the task
theorem putTask_ok {g : Ground} {M : Malloc} {h : Heap} {frame : Nat → Nat} (hs : Malloc.Shows g M h frame)
    (hend : h.heapEnd < 4294967296) (hlo : KERNEL_HEAP_START ≤ mem)
    (hhi : mem + (SIZEOF_TASK + STACK_SIZE) ≤ h.heapEnd) (fields stack : Memory → Memory) :
    ∃ M₁ M₂ m, M.put mem SIZEOF_TASK fields = .ok M₁ ∧ M₁.put (u32 (mem + STACK_SIZE)) 32 stack = .ok M₂ ∧
      Malloc.Shows g M₂ { h with bytes := m } frame := by
  change mem + 4128 ≤ _ at hhi
  obtain ⟨M₁, m₁, hput₁, hs₁⟩ := hs.put mem 32 fields hlo (by omega)
  have hesp : u32 (mem + STACK_SIZE) = mem + 4096 := u32_of_lt (by change mem + 4096 < _; omega)
  obtain ⟨M₂, m₂, hput₂, hs₂⟩ := hs₁.put (mem + 4096) 32 stack (by omega) (by change _ ≤ h.heapEnd; omega)
  rw [← hesp] at hput₂
  exact ⟨M₁, M₂, m₂, hput₁, hput₂, hs₂⟩

theorem Stages.carries (hst : Stages s data entry k₁ k₂ k₃ phys ok) (hp : Paged s.malloc.kernel)
    (hout : (Elf.elfLoad data).Meets KeepsOut s.malloc.kernel) :
    Carries s.malloc.kernel k₁ ∧ Carries s.malloc.kernel k₃ := by
  have hload := elfLoad_carries hp hout hst.loads
  have htake := allocateBlock_carries hload.paged hst.takes
  have hmap := mapPageUser_carries htake.paged (by decide) hst.maps
  exact ⟨hload, (hload.trans htake).trans hmap⟩

-- The block of the task is in the heap, and writing to it leaves the rest on the ground.
theorem Stages.backed {M₁ M₂ : Malloc} {fields stack : Memory → Memory}
    (hst : Stages s data entry k₁ k₂ k₃ phys ok) (hheap : HeapStands s.malloc) (hfits : Fits s data)
    (hmalloc : { s.malloc with kernel := k₃ }.syscallMalloc (SIZEOF_TASK + STACK_SIZE) = .ok (mem, M₁))
    (hfields : M₁.put mem SIZEOF_TASK fields = .ok M₂)
    (hstack : M₂.put (u32 (mem + STACK_SIZE)) 32 stack = .ok s'.malloc) :
    mem ≠ 0 ∧ ∃ frame stop, Backed (k₃.since s.malloc.kernel) s'.malloc.kernel frame stop := by
  obtain ⟨g, h, frame, blocks, hs, ht⟩ := hheap
  obtain ⟨hs₃, ht₃⟩ := hs.carried ht (hst.carries hs.backed.paged hfits.out).2
  obtain ⟨hslack, hgrows⟩ := hfits.block hst
  obtain ⟨before, b, after, extra, h', frame', -, hptr, hs', ht', -, -, hend⟩ :=
    Malloc.syscallMalloc_shows hs₃ ht₃ (by decide) (by decide) hslack hgrows hmalloc
  change mem = _ at hptr
  have hpos : 0 < KERNEL_HEAP_START := by decide
  obtain ⟨M₃, M₄, m, hput, hput', hs₄⟩ := putTask_ok hs' ht'.heapEnd_lt (show KERNEL_HEAP_START ≤ mem by omega)
    hend fields stack
  obtain rfl := Except.ok.inj (hput.symm.trans hfields)
  obtain rfl := Except.ok.inj (hput'.symm.trans hstack)
  exact ⟨by omega, frame', _, hs₄.backed⟩

-- The stack has its frame and its page.
theorem Stages.stackBacked_iff (hst : Stages s data entry k₁ k₂ k₃ phys ok) (hp : Paged k₁) :
    StackBacked k₁ ↔ phys ≠ 0 ∧ ok = true := by
  have hresult := Kernel.allocateBlock_result hst.takes
  have hsame := (hp.allocateBlock_ok hst.takes).1.pde (PD_INDEX USER_STACK_VIRT) (by decide)
  have hfails := Kernel.mapPageUser_false_iff hst.maps
  change k₂.pde _ = _ at hsame
  rw [hsame] at hfails
  unfold StackBacked
  cases hpresent : isPresent (k₁.pde (PD_INDEX USER_STACK_VIRT)) with
  | true =>
      have hok : ok = true := by
        by_contra hne
        have habsent := (hfails.mp (Bool.eq_false_iff.mpr hne)).1
        rw [hpresent] at habsent
        cases habsent
      simp only [if_true, Pmm.Supplies, hresult, and_true, hok]
  | false =>
      have hok : ok = true ↔ (k₂.pmm.allocateBlock 1).1 ≠ 0 := by
        rw [← Bool.not_eq_false, hfails, hpresent]
        simp
      simp only [Bool.false_eq_true, if_false, Pmm.Supplies, hresult, and_true, hok]

-- Pages that the task had before its block was asked for
theorem Stages.opens (hst : Stages s data entry k₁ k₂ k₃ phys ok) (hp : Paged s.malloc.kernel)
    (hfits : Fits s data) (hphys : phys ≠ 0) (hok : ok = true) :
    Opens s.malloc.kernel (fun P => (Elf.elfLoad data).Meets P s.malloc.kernel) s.malloc.kernel k₁ ∧
      (∀ a < 4294967296, OwnPage s.malloc.kernel k₁ a → OwnPage s.malloc.kernel k₃ a) ∧
      OwnPage s.malloc.kernel k₃ USER_STACK_VIRT ∧ NoneOnZero s.malloc.kernel k₃ := by
  subst hok
  have hopens := Elf.elfLoad_opens hp hst.loads
  have hload := elfLoad_carries hp hfits.out hst.loads
  obtain ⟨hsame, hfresh⟩ := hload.paged.allocateBlock_ok hst.takes
  obtain ⟨frame, hframe, hnew, -⟩ := hfresh hphys
  change phys = _ at hframe
  subst hframe
  have hpos : 0 < frame := by omega
  have hfree : s.malloc.kernel.pmm.testBit frame = false := by
    by_contra hbit
    have hmark := hopens.marks frame (Bool.eq_true_of_not_eq_false hbit)
    rw [hnew.free] at hmark
    cases hmark
  have htop : (k₂.pte USER_STACK_VIRT).getLsbD 31 = true → (4096 * frame).testBit 31 = true := by
    rw [hsame.pte _ (by decide)]
    exact hfits.stack hst
  obtain ⟨hself, hothers⟩ := mapPageUser_own hsame.paged hnew.owned hnew.lt hpos hfree (by decide) htop hst.maps
  refine ⟨hopens, fun a ha hown => hothers a ha (hsame.ownPage ha hown), hself, ?_⟩
  have hmap := mapPageUser_noneOnZero hsame.paged hnew.lt hpos (by decide) hst.maps
  exact (hopens.zero.trans hsame.noneOnZero).trans hmap

-- What was not checked shows in the page of the stack.
theorem Stages.missing (hst : Stages s data entry k₁ k₂ k₃ phys ok) (hp : Paged k₁) (hfits : Fits s data)
    (hring : k₃.Ring3 USER_STACK_VIRT) (hne : PAGE_PHYS_ADDRESS (k₃.pte USER_STACK_VIRT) ≠ 0) :
    phys ≠ 0 ∧ ok = true := by
  obtain ⟨hsame, -⟩ := hp.allocateBlock_ok hst.takes
  obtain ⟨htrue, hfalse⟩ := hsame.paged.mapPageUser_ok hsame.paged.marked (by decide) hst.maps
  have hok : ok = true := by
    by_contra hnot
    have hunmapped := hfalse (Bool.eq_false_iff.mpr hnot)
    have hpresent := hring.1
    rw [hunmapped.pde _ (by decide), hunmapped.absent] at hpresent
    cases hpresent
  refine ⟨fun hphys => hne ?_, hok⟩
  have hmapped := htrue hok
  rw [hmapped.pte, hphys]
  refine (PAGE_PHYS_ADDRESS_SET_FRAME_iff _ (Nat.zero_mod 4096) (by omega)).mpr fun hbit => ?_
  rw [BitVec.getLsbD_or, show (PTE_PRESENT ||| PTE_READ_WRITE ||| PTE_USER).getLsbD 31 = false by decide,
    Bool.or_false, hsame.pte _ (by decide)] at hbit
  rw [← hphys]
  exact hfits.stack hst hbit

end Steps

section Sample

-- The frames that the PMM could still give away are marked.
def spent (k : Kernel) : Kernel := { k with pmm := k.pmm.takeFrames 2048 (k.pmm.totalBlock - k.used) }

-- An image of one segment, which takes no memory
def image : Nat → BitVec 8 := Elf.sampleFile 0x400000 0 0

theorem oneSegment_image : Elf.OneSegment image 84 := by
  constructor <;> decide +kernel

-- No frame is left, and the stack has no table.
structure Spent (M : Malloc) : Prop where
  heap : ∃ g h frame, Malloc.Shows g M h frame ∧ Heap.Tidy h [⟨4128, false⟩, ⟨8136, true⟩]
  none : M.kernel.pmm.getFreeFrameBySize 1 = none
  zero : M.kernel.pmm.testBit 0 = true
  staged : Elf.Staged M.kernel 0x50000 image 84
  reaches : M.kernel.Reaches 0x50000 84
  directory : M.kernel.Reaches (M.kernel.currentPageDirectory + 4 * PD_INDEX USER_STACK_VIRT) 4
  absent : isPresent (M.kernel.pde (PD_INDEX USER_STACK_VIRT)) = false

-- The scheduler after init_task
def initScheduler : Scheduler :=
  Scheduler.initTask { task := [], currentTask := none, nextTaskId := 0, kernelTimerMs := 0, esp0 := 0, switches := [] }
    (KERNEL_HEAP_START + 12)

def sampleCode : Code := ⟨0x100100, 0x100110, 0x100120⟩

-- The task gets its block and its place in the list, and its stack no page.
theorem Spent.createUserTask {M : Malloc} (h : Spent M) :
    let s : State := ⟨M, initScheduler⟩
    HeapStands s.malloc ∧ Fits s 0x50000 ∧ (∃ mem s', createUserTaskFromElf sampleCode 0x50000 s = .ok (mem, s')) ∧
      ∃ entry, M.kernel.run (Elf.elfLoad 0x50000) = .ok (.ok entry, M.kernel) ∧ ¬StackBacked M.kernel := by
  intro s
  obtain ⟨g, h₀, frame, hs, ht⟩ := h.heap
  have hp : Paged M.kernel := hs.backed.paged
  -- the image has no page
  have hpages : u32 ((Elf.phdr image 0).memsz + PAGE_SIZE - 1) / PAGE_SIZE = 0 := by decide +kernel
  obtain ⟨hload, hmeets⟩ := oneSegment_image.loads h.staged h.reaches h.staged h.reaches (by rw [hpages]; rfl)
  rw [hpages] at hmeets
  have hall : ∀ P, (Elf.elfLoad 0x50000).Meets P M.kernel := fun P => (hmeets P).mpr trivial
  -- the stack has none either
  have halloc := Kernel.allocateBlock_none h.none
  have hmapping : MappingReaches M.kernel USER_STACK_VIRT := by
    refine ⟨h.directory, ?_⟩
    rw [h.absent, if_neg Bool.false_ne_true, h.none]
    exact nofun
  obtain ⟨⟨ok, k₃⟩, hmap, -⟩ := hp.mapPageUser 0 (show USER_STACK_VIRT < 4294967296 by decide) hmapping
    fun _ => freshTable_of_marked hp.marked
  have hst : Stages s 0x50000 (Elf.number image 24 4) M.kernel M.kernel k₃ 0 ok := ⟨hload, halloc, hmap⟩
  have honly : ∀ {entry k₁ k₂ k phys ok}, Stages s 0x50000 entry k₁ k₂ k phys ok →
      k₁ = M.kernel ∧ k = k₃ := by
    intro entry k₁ k₂ k phys ok hst'
    obtain ⟨-, rfl⟩ := Prod.mk.inj (Except.ok.inj (hst'.loads.symm.trans hload))
    obtain ⟨rfl, rfl⟩ := Prod.mk.inj (Except.ok.inj (hst'.takes.symm.trans halloc))
    exact ⟨rfl, (Prod.mk.inj (Except.ok.inj (hst'.maps.symm.trans hmap))).2⟩
  obtain ⟨hs₃, ht₃⟩ := hs.carried ht (hst.carries hp (hall _)).2
  obtain ⟨hblock, M₁, m₁, hmalloc, hs₁⟩ := hs₃.split_second ht₃ (show 1 ≤ SIZEOF_TASK + STACK_SIZE by decide)
    (by decide)
  have hnot : ¬StackBacked M.kernel := by
    intro hbacked
    exact ((hst.stackBacked_iff hp).mp hbacked).1 rfl
  refine ⟨⟨g, h₀, frame, _, hs, ht⟩, ⟨hall _, hall _, fun hst' hbit => ?_, fun hst' => ?_⟩, ?_,
    _, hload, hnot⟩
  · obtain ⟨rfl, -⟩ := honly hst'
    rw [Kernel.pte_of_absent h.absent] at hbit
    cases hbit
  · obtain ⟨-, rfl⟩ := honly hst'
    exact hblock
  -- the block is in the heap
  have hend : KERNEL_HEAP_START + 12288 = h₀.heapEnd := ht.chain.extent_eq
  have hmem : KERNEL_HEAP_START + extent 12 [⟨4128, false⟩] + 12 = KERNEL_HEAP_START + 4152 := by decide
  rw [hmem] at hmalloc
  obtain ⟨M₂, M₃, m, hfields, hstack, -⟩ := putTask_ok hs₁ ht₃.heapEnd_lt
    (Nat.le_add_right _ _) (show KERNEL_HEAP_START + 4152 + 4128 ≤ h₀.heapEnd by omega)
    (fun m => storeTask m (KERNEL_HEAP_START + 4152) s.scheduler.nextTaskId
      (BitVec.ofNat 32 (Elf.number image 24 4)))
    (fun m => setupStack sampleCode m (u32 (KERNEL_HEAP_START + 4152 + STACK_SIZE)))
  have happend : s.scheduler.createUserTask (KERNEL_HEAP_START + 4152)
      (BitVec.ofNat 32 (Elf.number image 24 4)) = .ok _ := rfl
  exact ⟨KERNEL_HEAP_START + 4152, _, hst.run hmalloc hfields hstack happend⟩

end Sample

end UserTask

end ToyKernel
