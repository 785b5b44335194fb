import ToyKernel.Heap.Ring
import ToyKernel.Heap.Tiling
import ToyKernel.Scheduler

namespace ToyKernel.Heap

open Library ByteMemory BlockList Client

def USER_STACK_VIRT : Nat := 0x600000

-- One heap for the kernel and for ring 3: the blocks that the kernel holds for its tasks,
-- and the pointers that SYS_MALLOC has returned to ring 3, with their sizes.
structure System where
  heap : Heap
  tasks : List Nat
  returned : List (Nat × Nat)

namespace System

-- The statics at the start
def start (kernel : Kernel) (bytes : Memory) : System where
  heap := { kernel, bytes, mallocListHead := 0, mallocPhysAddress := 0, totalMallocPages := 0 }
  tasks := []
  returned := []

-- How HAL_Initialize fills the list of tasks: init_task or create_task, and
-- create_user_task_from_elf for an image.
inductive Creation where
  | task
  | userTask (data : Nat)

-- `malloc(sizeof(Task) + STACK_SIZE)`, which is a SYS_MALLOC like any other
def newTask (s : System) : Except Stuck System := do
  let (mem, heap) ← s.heap.syscallMalloc (SIZEOF_TASK + STACK_SIZE)
  return { s with heap, tasks := mem :: s.tasks }

-- Of the user stack neither the frame nor the mapping is checked.
def createUserTask (s : System) (data : Nat) : Except Stuck System := do
  let (result, kernel) ← fault (s.heap.kernel.run (Elf.elfLoad data))
  match result with
  | .ok _ => do
      let (stackPhys, kernel) ← fault (kernel.allocateBlock 1)
      let (_, kernel) ← fault (kernel.mapPageUser stackPhys USER_STACK_VIRT)
      newTask { s with heap := { s.heap with kernel } }
  | _ => return { s with heap := { s.heap with kernel } }

def create (s : System) : Creation → Except Stuck System
  | .task => s.newTask
  | .userTask data => s.createUserTask data

-- The system calls of ring 3, with EBX as it comes
inductive Call where
  | malloc (ebx : BitVec 32)
  | free (ebx : BitVec 32)

def call (s : System) : Call → Except Stuck System
  | .malloc ebx => do
      let (ptr, heap) ← s.heap.syscallMalloc ebx.toNat
      return { s with heap, returned := (ptr, ebx.toNat) :: s.returned }
  | .free ebx => do
      let heap ← s.heap.syscallFree ebx.toNat
      return { s with heap }

-- An image is not loaded over the kernel's pages: the heap is made of them.
def ImageKeepsOut (s : System) : Creation → Prop
  | .task => True
  | .userTask data => (Elf.elfLoad data).Meets KeepsOut s.heap.kernel

end System

-- The addresses that ring 3 was given with a pointer and a size; they are 32 bits wide.
def InRange (x : Nat × Nat) (a : Nat) : Prop := ∃ i < x.2, a = u32 (x.1 + i)

-- A size with room for a header that the search finds no slack for, and no pointer of the
-- kernel's. A size of 0 does no harm.
def CallOk (s : System) : System.Call → Prop
  | .malloc ebx =>
      ebx.toNat = 0 ∨ ebx.toNat + SIZEOF_BLOCK < 4294967296 ∧ ¬Slack s.heap ebx.toNat
  | .free ebx => ebx.toNat ∉ s.tasks

section Used

variable {k : Kernel}

-- The memory managers count frames up, and past 32768 only by the block that crosses it.
def CountsUp (_ : Prop) (k k' : Kernel) : Prop := k.used ≤ k'.used ∧ k'.used ≤ max k.used 32768

theorem CountsUp.composes : Composes CountsUp where
  refl k := ⟨Nat.le_refl _, Nat.le_max_left ..⟩
  trans := by
    intro p q k mid k' h h'
    unfold CountsUp at *
    omega

theorem used_mapPageUser {phys virt : Nat} {r : Bool × Kernel}
    (hr : k.mapPageUser phys virt = .ok r) : CountsUp True k r.2 :=
  Kernel.used_of_taken (Kernel.mapPageUser_result hr).1

theorem used_copyPage {data phdr filesz pageOff phys : Nat} {r : Unit × Kernel}
    (hr : k.run (Elf.copyPage data phdr filesz pageOff phys) = .ok r) : r.2.pmm = k.pmm := by
  unfold Elf.copyPage at hr
  split at hr
  · obtain ⟨-, hcopy⟩ := Elf.exists_of_field hr
    obtain ⟨k₁, hsource, hwrite⟩ := exists_of_bind (run_copy hcopy)
    obtain ⟨-, rfl⟩ := Kernel.access_ok hsource
    obtain ⟨-, hdone⟩ := Kernel.access_ok hwrite
    rw [hdone]
  · cases hr
    rfl

theorem loadPage_countsUp (P : Kernel → BitVec 32 → BitVec 32 → Prop) (data phdr vaddr filesz page : Nat) :
    Relates P CountsUp (Elf.loadPage data phdr vaddr filesz page) := by
  intro k r h hr
  refine ⟨(Elf.loadPage_keeps h hr).1, ?_⟩
  obtain ⟨⟨phys, k₁⟩, halloc, hrest⟩ := exists_of_run_bind hr
  have hused := Kernel.used_allocateBlock (show 1 ≤ 1048576 by omega) (run_allocate halloc)
  by_cases hz : phys = 0
  · simp only [if_pos hz] at hrest
    cases hrest
    change k.used ≤ k₁.used ∧ k₁.used ≤ max k.used 32768
    simp only at hused
    omega
  · simp only [if_neg hz] at hrest
    obtain ⟨⟨⟨⟩, k₂⟩, hcopy, hrest⟩ := exists_of_run_bind hrest
    obtain ⟨⟨ok, k₃⟩, hmap, hdone⟩ := exists_of_run_bind hrest
    cases hdone
    have hcopied := Kernel.used_of_pmm (used_copyPage hcopy)
    have hmapped := used_mapPageUser (run_mapPageUser hmap)
    change k₂.used ≤ k₃.used ∧ k₃.used ≤ max k₂.used 32768 at hmapped
    change k.used ≤ k₃.used ∧ k₃.used ≤ max k.used 32768
    simp only at hused hcopied
    omega

end Used

variable {h h' : Heap} {s s' : System} {blocks before after : List Block}

section Boot

-- The frames may be counted up outside the heap.
theorem Stands.counting (hs : Stands h blocks) {k : Kernel} (hcount : CountsUp True h.kernel k) :
    Stands { h with kernel := k } blocks where
  head_eq := hs.head_eq
  chain := hs.chain
  counted := Nat.le_trans hs.counted hcount.1
  bounded := hs.bounded
  head_pos := hs.head_pos

-- Behind the tasks there is one free block, and it never has just the size of a task.
def Rest (r : Nat) : Prop := r < 4128 ∨ r = 8136 ∨ r = 12276

-- While all other blocks are the tasks', a new task gets the first bytes of the last block.
theorem taskBlock_stands {r : Nat} {x : Nat × Heap} (hs : Stands h (before ++ [⟨r, true⟩]))
    (hused : ∀ c ∈ before, c.free = false) (hr : Rest r) (hx : h.syscallMalloc 4128 = .ok x) :
    ∃ r', Rest r' ∧ x.1 = KERNEL_HEAP_START + extent 12 before + 12 ∧
      Stands x.2 (before ++ [⟨4128, false⟩] ++ [⟨r', true⟩]) := by
  have hbefore := not_fits_of_used hused 4128
  have hfound := hs.search hbefore (Or.inr rfl)
  rw [syscallMalloc_eq hs (by omega) hfound] at hx
  obtain ⟨h₁, htake, hrest⟩ := exists_of_bind hx
  obtain ⟨h₂, hmerge, hdone⟩ := exists_of_bind hrest
  obtain rfl := Except.ok.inj hdone
  have htaken : ∃ r', Rest r' ∧ Stands h₁ (before ++ [⟨4128, false⟩, ⟨r', true⟩]) := by
    unfold Rest at *
    by_cases hlarge : 4128 + 12 < r
    · obtain ⟨m, hsplit, hs'⟩ := takeBlock_split hs (by omega) hlarge
      obtain rfl := Except.ok.inj (hsplit.symm.trans htake)
      exact ⟨r - 4128 - 12, by omega, hs'⟩
    · have hgrow := takeBlock_grow hs (show 4128 + 12 < 4294967296 by omega) (by simp only; omega)
        (by simp only; omega)
      cases hcount : numPages (Block.size ⟨r, true⟩) 4128 with
      | none =>
          rw [hgrow, hcount] at htake
          cases htake
      | some count =>
          have htwo := numPages_le hcount (show 1 ≤ 2 by omega)
            (by rw [u32_of_lt, u32_of_lt] <;> simp only [SIZEOF_BLOCK, PAGE_SIZE] <;> omega)
          have hone : 44 ≤ r → count ≤ 1 := fun hle => numPages_le hcount (Nat.le_refl 1)
            (by rw [u32_of_lt, u32_of_lt] <;> simp only [SIZEOF_BLOCK, PAGE_SIZE] <;> omega)
          rw [hgrow, hcount] at htake
          obtain ⟨h₀, hpages, hdone⟩ := exists_of_bind htake
          obtain ⟨m, htook, hs'⟩ := takeBlock_grown hs (by omega) (show 4128 + 12 < 4294967296 by omega)
            (by simp only; omega) (by simp only; omega) hcount hpages
          rw [hgrow, hcount] at htook
          obtain rfl := Except.ok.inj (htook.symm.trans htake)
          exact ⟨_, Or.inl (by simp only; omega), hs'⟩
  obtain ⟨r', hr', hs'⟩ := htaken
  have hmerged := mergeFreeBlocks_stands hs' hmerge
  rw [show before ++ [⟨4128, false⟩, ⟨r', true⟩] = before ++ [⟨4128, false⟩] ++ [⟨r', true⟩] by simp,
    mergePass_of_used] at hmerged
  · refine ⟨r', hr', ?_, hmerged⟩
    rw [hs.head_eq] at *
    exact pointer_eq hs
  · intro c hc
    rcases List.mem_append.mp hc with hc | hc
    · exact hused c hc
    · rw [List.mem_singleton.mp hc]

-- While HAL_Initialize runs: the blocks of the tasks come first, and ring 3 has none.
structure Seated (s : System) (before : List Block) : Prop where
  paged : Paged s.heap.kernel
  stands : ∃ r, Rest r ∧ Stands s.heap (before ++ [⟨r, true⟩])
  used : ∀ c ∈ before, c.free = false
  task : ∀ t ∈ s.tasks, ∃ p, t = p + 12 ∧ (p, ⟨4128, false⟩) ∈ placed 12 KERNEL_HEAP_START before
  returned : s.returned = []

theorem Seated.newTask (h : Seated s before) (hnew : s.newTask = .ok s') :
    Seated s' (before ++ [⟨4128, false⟩]) := by
  obtain ⟨⟨mem, heap⟩, hmalloc, hdone⟩ := exists_of_bind hnew
  obtain rfl := Except.ok.inj hdone
  obtain ⟨r, hr, hs⟩ := h.stands
  obtain ⟨r', hr', hmem, hs'⟩ := taskBlock_stands hs h.used hr hmalloc
  refine ⟨(syscallMalloc_sameUsers h.paged hmalloc).paged, ⟨r', hr', hs'⟩, fun c hc => ?_,
    fun t ht => ?_, h.returned⟩
  · rcases List.mem_append.mp hc with hc | hc
    · exact h.used c hc
    · rw [List.mem_singleton.mp hc]
  · rw [placed_append]
    rcases List.mem_cons.mp ht with rfl | ht
    · exact ⟨_, hmem, List.mem_append_right _ (List.mem_singleton_self _)⟩
    · obtain ⟨p, hp, hplaced⟩ := h.task t ht
      exact ⟨p, hp, List.mem_append_left _ hplaced⟩

theorem Seated.counting (h : Seated s before) {k : Kernel} (hpaged : Paged k)
    (hcount : CountsUp True s.heap.kernel k) :
    Seated { s with heap := { s.heap with kernel := k } } before := by
  obtain ⟨r, hr, hs⟩ := h.stands
  exact ⟨hpaged, ⟨r, hr, hs.counting hcount⟩, h.used, h.task, h.returned⟩

theorem Seated.createUserTask (h : Seated s before) {data : Nat}
    (hnew : s.createUserTask data = .ok s') : ∃ before', Seated s' before' := by
  obtain ⟨⟨result, k₁⟩, hload, hrest⟩ := exists_of_bind hnew
  obtain ⟨hpaged, hcount⟩ := Elf.elfLoad_relates CountsUp.composes
    (loadPage_countsUp (fun _ _ _ => True) data) _ _ h.paged (ok_of_fault hload)
  have hloaded := h.counting hpaged hcount
  cases result with
  | ok entry =>
      obtain ⟨⟨stackPhys, k₂⟩, halloc, hrest⟩ := exists_of_bind hrest
      obtain ⟨⟨ok, k₃⟩, hmap, hrest⟩ := exists_of_bind hrest
      have hblock := Kernel.used_allocateBlock (show 1 ≤ 1048576 by omega) (ok_of_fault halloc)
      have hpaged₂ := (hpaged.allocateBlock_ok (ok_of_fault halloc)).1.paged
      have hcount₂ : CountsUp True k₁ k₂ := by
        change k₁.used ≤ k₂.used ∧ k₂.used ≤ max k₁.used 32768
        simp only at hblock
        omega
      have hmapped := ok_of_fault hmap
      obtain ⟨htrue, hfalse⟩ := hpaged₂.mapPageUser_ok hpaged₂.marked (by decide) hmapped
      have hpaged₃ : Paged k₃ := by
        cases ok with
        | true => exact ⟨(htrue rfl).walkable, (htrue rfl).marked hpaged₂.marked⟩
        | false => exact ((hfalse rfl).undisturbed hpaged₂.marked).paged
      exact ⟨_, ((hloaded.counting hpaged₂ hcount₂).counting hpaged₃ (used_mapPageUser hmapped)).newTask
        hrest⟩
  | _ =>
      obtain rfl := Except.ok.inj hrest
      exact ⟨before, hloaded⟩

theorem Seated.create (h : Seated s before) {c : System.Creation} (hc : s.create c = .ok s') :
    ∃ before', Seated s' before' := by
  cases c with
  | task => exact ⟨_, h.newTask hc⟩
  | userTask data => exact h.createUserTask hc

end Boot

section Calls

-- While ring 3 calls: every task has its block, which is never the last one, and nothing
-- that was returned reaches into it.
structure Intact (s : System) (blocks : List Block) : Prop where
  stands : Stands s.heap blocks
  task : ∀ t ∈ s.tasks, ∃ p, t = p + 12 ∧
    (p, ⟨4128, false⟩) ∈ placed 12 KERNEL_HEAP_START blocks ∧ t + 4128 < s.heap.heapEnd
  returned_le : ∀ x ∈ s.returned, x.1 + x.2 ≤ 4294967296
  apart : ∀ t ∈ s.tasks, ∀ x ∈ s.returned, t + 4128 ≤ x.1 ∨ x.1 + x.2 ≤ t

theorem Seated.intact (h : Seated s before) : ∃ blocks, Intact s blocks := by
  obtain ⟨r, -, hs⟩ := h.stands
  refine ⟨_, hs, fun t ht => ?_, fun x hx => ?_, fun t _ x hx => ?_⟩
  · obtain ⟨p, rfl, hplaced⟩ := h.task t ht
    have hbounds := placed_bounds hplaced
    have hextent := hs.chain.extent_eq
    rw [extent_append] at hextent
    simp only [extent] at hextent hbounds
    refine ⟨p, rfl, ?_, by omega⟩
    rw [placed_append]
    exact List.mem_append_left _ hplaced
  all_goals
    rw [h.returned] at hx
    cases hx

-- Blocks that are not the tasks' may be cut anew.
theorem Intact.replace {b : Block} (middle : List Block) (h : Intact s (before ++ b :: after))
    (hs' : Stands h' (mergePass 12 (before ++ (middle ++ after)))) (hpos : 0 < extent 12 middle)
    (hextent : after ≠ [] → extent 12 middle = extent 12 [b])
    (hne : ∀ t ∈ s.tasks, t ≠ KERNEL_HEAP_START + extent 12 before + 12) :
    ∀ t ∈ s.tasks, ∃ p, t = p + 12 ∧
      (p, ⟨4128, false⟩) ∈ placed 12 KERNEL_HEAP_START (before ++ (middle ++ after)) ∧
        t + 4128 < h'.heapEnd := by
  intro t ht
  obtain ⟨p, rfl, hplaced, hlast⟩ := h.task t ht
  have hcur : p ≠ KERNEL_HEAP_START + extent 12 before := fun he =>
    hne _ ht (congrArg (· + 12) he)
  refine ⟨p, rfl, mem_placed_replace middle hplaced hcur hextent, ?_⟩
  have hend := hs'.chain.extent_eq
  have hold := h.stands.chain.extent_eq
  rw [extent_mergePass, extent_append, extent_append] at hend
  rw [extent_append] at hold
  simp only [extent] at hold
  cases after with
  | nil =>
      -- the block was the last one, so the task's stands before it
      simp only [extent] at hend hold
      rcases placed_apart hplaced (mem_placed_middle KERNEL_HEAP_START before [] b) with he | hlo | hhi
      · exact absurd (congrArg Prod.fst he) hcur
      · simp only at hlo
        omega
      · simp only at hhi
        omega
  | cons c after =>
      have hsame := hextent (List.cons_ne_nil c after)
      simp only [extent] at hsame hend hold
      omega

theorem Intact.malloc (h : Intact s blocks) {ebx : BitVec 32} (hok : CallOk s (.malloc ebx))
    (hcall : s.call (.malloc ebx) = .ok s') : ∃ blocks', Intact s' blocks' := by
  obtain ⟨⟨ptr, heap⟩, hmalloc, hdone⟩ := exists_of_bind hcall
  obtain rfl := Except.ok.inj hdone
  by_cases hzero : ebx.toNat = 0
  · rw [hzero] at hmalloc ⊢
    obtain ⟨hptr, hs', hend⟩ := syscallMalloc_zero h.stands hmalloc
    refine ⟨_, hs', fun t ht => ?_, fun x hx => ?_, fun t ht x hx => ?_⟩
    · obtain ⟨p, hp, hplaced, hlast⟩ := h.task t ht
      exact ⟨p, hp, used_mergePass rfl hplaced, Nat.lt_of_lt_of_eq hlast hend.symm⟩
    · rcases List.mem_cons.mp hx with rfl | hx
      · simp only at hptr ⊢
        omega
      · exact h.returned_le x hx
    · rcases List.mem_cons.mp hx with rfl | hx
      · simp only at hptr ⊢
        omega
      · exact h.apart t ht x hx
  · obtain ⟨hroom, hslack⟩ := hok.resolve_left hzero
    obtain ⟨before, b, after, extra, rfl, hfound, hptr, hs', hcarved⟩ :=
      syscallMalloc_stands h.stands (by omega) hroom hslack hmalloc
    -- the search stops at a free block or at the last one, and a task's is neither
    have hne : ∀ t ∈ s.tasks, t ≠ KERNEL_HEAP_START + extent 12 before + 12 := by
      intro t ht he
      obtain ⟨p, rfl, hplaced, hlast⟩ := h.task t ht
      have hend := h.stands.chain.extent_eq
      rw [extent_append] at hend
      simp only [extent] at hend
      rcases placed_apart hplaced (mem_placed_middle KERNEL_HEAP_START before after b) with hb | hlo | hhi
      · obtain rfl : (⟨4128, false⟩ : Block) = b := congrArg Prod.snd hb
        rcases hcarved.stop with hfits | rfl
        · cases hfits.2
        · simp only [extent] at hend
          omega
      · simp only at hlo
        omega
      · simp only at hhi
        omega
    have htask := h.replace (⟨ebx.toNat, false⟩ :: extra) hs'
      (by simp only [extent]; omega) hcarved.extent_eq hne
    have hnew : (KERNEL_HEAP_START + extent 12 before, ⟨ebx.toNat, false⟩) ∈ placed 12 KERNEL_HEAP_START
        (before ++ ⟨ebx.toNat, false⟩ :: (extra ++ after)) := mem_placed_middle _ before _ _
    refine ⟨_, hs', fun t ht => ?_, fun x hx => ?_, fun t ht x hx => ?_⟩
    · obtain ⟨p, hp, hplaced, hlast⟩ := htask t ht
      exact ⟨p, hp, used_mergePass rfl hplaced, hlast⟩
    · rcases List.mem_cons.mp hx with rfl | hx
      · have hbounds := placed_bounds hnew
        have hend := hs'.chain.extent_eq
        have hlt := hs'.heapEnd_lt
        rw [extent_mergePass] at hend
        simp only at hbounds hptr ⊢
        omega
      · exact h.returned_le x hx
    · rcases List.mem_cons.mp hx with rfl | hx
      · obtain ⟨p, rfl, hplaced, -⟩ := htask t ht
        rcases placed_apart hplaced hnew with he | hlo | hhi
        · exact absurd (congrArg (fun y => y.1 + 12) he) (hne _ ht)
        · simp only at hlo hptr ⊢
          omega
        · simp only at hhi hptr ⊢
          omega
      · exact h.apart t ht x hx

theorem Intact.free (h : Intact s blocks) {ebx : BitVec 32} (hok : CallOk s (.free ebx))
    (hcall : s.call (.free ebx) = .ok s') : ∃ blocks', Intact s' blocks' := by
  obtain ⟨heap, hfree, hdone⟩ := exists_of_bind hcall
  obtain rfl := Except.ok.inj hdone
  rcases syscallFree_stands h.stands hfree with rfl | ⟨before, b, after, rfl, hptr, hs'⟩
  · exact ⟨blocks, h⟩
  · have htask := h.replace [⟨b.size, true⟩] hs' (by simp only [extent]; omega)
      (fun _ => rfl) fun t ht he => hok (hptr.trans he.symm ▸ ht)
    refine ⟨_, hs', fun t ht => ?_, h.returned_le, h.apart⟩
    obtain ⟨p, hp, hplaced, hlast⟩ := htask t ht
    exact ⟨p, hp, used_mergePass rfl hplaced, hlast⟩

end Calls

section Sample

-- A free block at the end of the heap is split.
theorem syscallMalloc_split {size r : Nat} (hs : Stands h (before ++ [⟨r, true⟩]))
    (hused : ∀ c ∈ before, c.free = false) (hpos : 0 < size) (hlarge : size + 12 < r) :
    ∃ m, h.syscallMalloc size = .ok (KERNEL_HEAP_START + extent 12 before + 12, { h with bytes := m }) ∧
      Stands { h with bytes := m } (before ++ [⟨size, false⟩, ⟨r - size - 12, true⟩]) := by
  have hbefore := not_fits_of_used hused size
  obtain ⟨m₁, htake, hs₁⟩ := takeBlock_split hs hpos hlarge
  obtain ⟨m, hmerge, hs'⟩ := mergeFreeBlocks_ok hs₁
  refine ⟨m, ?_, ?_⟩
  · rw [syscallMalloc_eq hs hpos (hs.search hbefore (Or.inr rfl)), htake]
    simp only [Kernel.ok_bind, hmerge, pointer_eq hs]
    rfl
  · have hmerged : mergePass 12 (before ++ [⟨size, false⟩] ++ [⟨r - size - 12, true⟩]) =
        before ++ [⟨size, false⟩] ++ [⟨r - size - 12, true⟩] := by
      apply mergePass_of_used
      intro c hc
      rcases List.mem_append.mp hc with hc | hc
      · exact hused c hc
      · rw [List.mem_singleton.mp hc]
    simp only [List.append_assoc, List.singleton_append] at hmerged
    rw [← hmerged]
    exact hs'

theorem call_malloc {size : Nat} {ebx : BitVec 32} (hebx : ebx.toNat = size) {ptr : Nat}
    (hm : s.heap.syscallMalloc size = .ok (ptr, h)) :
    s.call (.malloc ebx) = .ok { s with heap := h, returned := (ptr, size) :: s.returned } := by
  unfold System.call
  simp only [hebx, hm]
  rfl

end Sample

end ToyKernel.Heap
