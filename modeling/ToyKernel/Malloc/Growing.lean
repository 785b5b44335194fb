import ToyKernel.Malloc.Shows
import ToyKernel.Malloc.Tables

namespace ToyKernel

open Library ByteMemory BlockList

section Abstract

open Heap (fault)

variable {h : Heap} {phys cur virt : Nat} {k₁ k₂ : Kernel}

-- malloc_init and a page of growth on the abstract heap, with the frames and the mappings there
theorem Heap.mallocInit_eq {bytes : Nat}
    (halloc : h.kernel.allocateBlock (Heap.initialPages bytes) = .ok (phys, k₁)) (hblock : phys ≠ 0)
    (hmaps : (List.range (Heap.initialPages bytes)).foldlM (fun k i =>
      Heap.mapInitialPage k (u32 (phys + i * PAGE_SIZE)) (u32 (KERNEL_HEAP_START + i * PAGE_SIZE))) k₁ =
        .ok k₂) :
    h.mallocInit bytes = .ok
      { kernel := k₂
        bytes := setNext (setFree (setSize (fill h.bytes KERNEL_HEAP_START (Heap.initialPages bytes * PAGE_SIZE) 0)
          KERNEL_HEAP_START (u32Sub (Heap.initialPages bytes * PAGE_SIZE) SIZEOF_BLOCK)) KERNEL_HEAP_START true)
          KERNEL_HEAP_START 0
        mallocListHead := KERNEL_HEAP_START
        mallocPhysAddress := phys
        totalMallocPages := Heap.initialPages bytes } := by
  unfold Heap.mallocInit
  rw [show u32 (bytes + PAGE_SIZE - 1) / PAGE_SIZE + (if bytes % PAGE_SIZE > 0 then 1 else 0) =
    Heap.initialPages bytes from rfl]
  simp only [halloc, fault, Except.mapError, Kernel.ok_bind, if_neg hblock, hmaps]
  rfl

theorem Heap.growPage_eq (halloc : h.kernel.allocateBlock 1 = .ok (phys, k₁)) (hne : phys ≠ 0)
    (hmap : k₁.mapPage phys virt = .ok (true, k₂)) :
    h.growPage cur virt = .ok { h with
      kernel := k₂
      bytes := setSize (fill h.bytes virt PAGE_SIZE 0) cur
        (u32 (sizeOf (fill h.bytes virt PAGE_SIZE 0) cur + PAGE_SIZE))
      totalMallocPages := u32 (h.totalMallocPages + 1) } := by
  unfold Heap.growPage
  simp only [halloc, fault, Except.mapError, Kernel.ok_bind, if_neg hne]
  rw [show k₁.mapPage phys virt = .ok (true, k₂) from hmap]
  rfl

end Abstract

namespace Malloc

open Heap (fault ok_of_fault LIST_STEPS)

variable {g : Ground} {M M' : Malloc} {h : Heap} {frame : Nat → Nat} {before after : List Block} {b : Block}

section Init

variable {k k' : Kernel}

-- One page of the initial heap, which the abstract heap maps the same way
theorem mapInitialPage_backed {stop f count n : Nat} (hb : Backed g k frame stop)
    (hlo : KERNEL_HEAP_START ≤ stop) (hend : stop + 4096 ≤ 4294967296) (hf : Owned k f)
    (hlt : f < 1048576) (hpos : f ≠ 0) (hnew : ∀ a, KERNEL_HEAP_START ≤ a → a < stop → frame (a / 4096) ≠ f)
    (hkept : f ∉ g.kept) (hsupplies : k.pmm.Supplies (n + k.tablesMissing stop (count + 1)))
    (hm : mapInitialPage k (4096 * f) stop = .ok k') :
    Backed g k' (Function.update frame (stop / 4096) f) (stop + 4096) ∧ Keeps k k' ∧
      k'.pmm.Supplies (n + k'.tablesMissing (stop + 4096) count) ∧
      Heap.mapInitialPage k (4096 * f) stop = .ok k' := by
  obtain ⟨⟨ok, k₁⟩, hmap, hrest⟩ := exists_of_bind hm
  obtain ⟨page, hpage, hupdate⟩ := exists_of_bind hrest
  obtain ⟨htrue, hsupplies₁⟩ := hsupplies.mapPage hb.paged (by omega) hmap
  obtain rfl : ok = true := htrue
  have hmapped := (hb.paged.mapPage_ok hb.paged.marked (by omega) hmap).1 rfl
  obtain ⟨hb₁, -⟩ := hb.mapped hend hf hlt hpos hnew hkept hlo hmapped
    (Kernel.mapPage_current hmap)
  have hold : Heap.mapInitialPage k (4096 * f) stop = .ok k' := by
    unfold Heap.mapInitialPage
    rw [hmap]
    change (fault (k₁.getPage stop) >>= fun page => _) = _
    rw [show k₁.getPage stop = .ok page from hpage]
    change fault (k₁.update32 page _) = _
    rw [hupdate]
    rfl
  obtain ⟨entry, hread, hdone⟩ := exists_of_bind hpage
  obtain ⟨-, rfl⟩ := Kernel.access_ok hread
  obtain rfl := Except.ok.inj hdone
  obtain ⟨-, rfl⟩ := Kernel.access_ok hupdate
  have hplaced := hmapped.walkable.placed (by omega) hmapped.present
    (load32 k₁.memory (k₁.tableAt (PD_INDEX stop) + 4 * PT_INDEX stop) ||| PTE_READ_WRITE)
  obtain ⟨hb', -⟩ := hb₁.flagged hlo (by omega) (show PTE_READ_WRITE.toNat < 4096 by decide)
    (by rw [Kernel.pte_of_present hmapped.present]) hplaced
  refine ⟨hb', hmapped.keeps.trans hplaced.keeps, ?_, hold⟩
  rw [← Kernel.tablesMissing_congr hplaced.pde] at hsupplies₁
  exact hsupplies₁

-- The frame of a page of the initial heap, which is on one block of frames
def initialFrame (base page : Nat) : Nat := base + (page - KERNEL_HEAP_START / 4096)

theorem initialFrame_eq (base i : Nat) : initialFrame base ((KERNEL_HEAP_START + i * 4096) / 4096) = base + i := by
  change base + ((3506438144 + i * 4096) / 4096 - 3506438144 / 4096) = base + i
  omega

theorem mapInitialPages_backed {base i count more n : Nat} (hpos : base ≠ 0)
    (hbase : base + (i + count) ≤ 1048576)
    (hend : KERNEL_HEAP_START + (i + count) * 4096 ≤ 4294967296)
    (hb : Backed g k (initialFrame base) (KERNEL_HEAP_START + i * 4096))
    (howned : ∀ j, i ≤ j → j < i + count → Owned k (base + j))
    (hkept : ∀ j, i ≤ j → j < i + count → base + j ∉ g.kept)
    (hsupplies : k.pmm.Supplies (n + k.tablesMissing (KERNEL_HEAP_START + i * 4096) (count + more)))
    (hm : mapInitialPages (4096 * base) (List.range' i count) k = .ok k') :
    Backed g k' (initialFrame base) (KERNEL_HEAP_START + (i + count) * 4096) ∧ Keeps k k' ∧
      k'.pmm.Supplies (n + k'.tablesMissing (KERNEL_HEAP_START + (i + count) * 4096) more) ∧
      (List.range' i count).foldlM (fun k i => Heap.mapInitialPage k (u32 (4096 * base + i * PAGE_SIZE))
        (u32 (KERNEL_HEAP_START + i * PAGE_SIZE))) k = .ok k' := by
  induction count generalizing i k with
  | zero =>
      obtain rfl := Except.ok.inj hm
      rw [Nat.zero_add] at hsupplies
      exact ⟨hb, Keeps.refl k, hsupplies, rfl⟩
  | succ count ih =>
      rw [List.range'_succ] at hm ⊢
      obtain ⟨k₁, hfirst, hrest⟩ := exists_of_bind hm
      have hshift : i + (count + 1) = i + 1 + count := by omega
      rw [hshift] at hbase hend howned hkept ⊢
      have hvirt : u32 (KERNEL_HEAP_START + i * PAGE_SIZE) = KERNEL_HEAP_START + i * 4096 :=
        u32_of_lt (by
          change KERNEL_HEAP_START + i * 4096 < _
          omega)
      have hphys : u32 (4096 * base + i * PAGE_SIZE) = 4096 * (base + i) := by
        rw [u32_of_lt] <;> unfold PAGE_SIZE <;> omega
      rw [hvirt, hphys] at hfirst
      rw [Nat.add_right_comm] at hsupplies
      have hnew : ∀ a, KERNEL_HEAP_START ≤ a → a < KERNEL_HEAP_START + i * 4096 →
          initialFrame base (a / 4096) ≠ base + i := by
        intro a hlo hhi
        change base + (a / 4096 - 3506438144 / 4096) ≠ base + i
        change 3506438144 ≤ a at hlo
        change a < 3506438144 + i * 4096 at hhi
        omega
      obtain ⟨hb₁, hkeeps₁, hsupplies₁, hold₁⟩ := mapInitialPage_backed hb (Nat.le_add_right _ _)
        (by omega) (howned i (Nat.le_refl i) (by omega)) (by omega) (by omega) hnew
        (hkept i (Nat.le_refl i) (by omega)) hsupplies hfirst
      rw [show KERNEL_HEAP_START + i * 4096 + 4096 = KERNEL_HEAP_START + (i + 1) * 4096 by
        rw [Nat.succ_mul, Nat.add_assoc]] at hb₁ hsupplies₁
      rw [← initialFrame_eq base i, Function.update_eq_self] at hb₁
      obtain ⟨hb', hkeeps', hsupplies', hold'⟩ := ih hbase hend hb₁
        (fun j hlo hhi => (hkeeps₁ _ (howned j (by omega) hhi)).1) (fun j hlo hhi => hkept j (by omega) hhi)
        hsupplies₁ hrest
      refine ⟨hb', hkeeps₁.trans hkeeps', hsupplies', ?_⟩
      rw [List.foldlM_cons, hvirt, hphys, hold₁]
      exact hold'

-- The heap before malloc_init has no pages. Those that are mapped on one block of frames are
-- its pages, and they are empty.
theorem initialPages_shows {pages more n phys : Nat} {k₁ k₂ : Kernel}
    (hb : Backed g k frame KERNEL_HEAP_START) (hpages : 1 ≤ pages) (hend : pages ≤ 192511)
    (halloc : k.allocateBlock pages = .ok (phys, k₁)) (hblock : phys ≠ 0)
    (hsupplies : k₁.pmm.Supplies (n + k.tablesMissing KERNEL_HEAP_START (pages + more)))
    (hmap : mapInitialPages phys (List.range pages) k₁ = .ok k₂) :
    (∃ frame', Shows g ⟨k₂, KERNEL_HEAP_START, phys, pages⟩
        ⟨k₂, fill (fun _ => 0) KERNEL_HEAP_START (pages * PAGE_SIZE) 0, KERNEL_HEAP_START, phys, pages⟩ frame') ∧
      k₂.pmm.Supplies (n + k₂.tablesMissing (KERNEL_HEAP_START + pages * 4096) more) ∧
      (List.range pages).foldlM (fun k i => Heap.mapInitialPage k (u32 (phys + i * PAGE_SIZE))
        (u32 (KERNEL_HEAP_START + i * PAGE_SIZE))) k₁ = .ok k₂ := by
  obtain ⟨hundisturbed, base, hphys, hframes, hfresh, hzeros⟩ :=
    hb.paged.allocateBlock_many (by omega) halloc hblock
  change phys = 4096 * base at hphys
  subst hphys
  obtain ⟨hb₁, -⟩ := hb.undisturbed hundisturbed
  have hbare : Backed g k₁ (initialFrame base) (KERNEL_HEAP_START + 0 * 4096) := by
    rw [Nat.zero_mul, Nat.add_zero]
    exact ⟨hb₁.paged, hb₁.bounded, hb₁.aligned, fun a hlo hhi => by omega, fun a hlo hhi => by omega,
      fun a b hlo hhi => by omega, hb₁.vacant, fun a hlo hhi => by omega, hb₁.ground,
      fun f hf a hlo hhi => by omega⟩
  rw [← Kernel.tablesMissing_congr hundisturbed.pde, show KERNEL_HEAP_START = KERNEL_HEAP_START + 0 * 4096 from rfl]
    at hsupplies
  rw [List.range_eq_range'] at hmap ⊢
  obtain ⟨hb₂, hkeeps, hsupplies₂, hfold⟩ := mapInitialPages_backed (by omega) (by omega)
    (by change 3506438144 + _ ≤ _; omega) hbare (fun j _ hj => (hfresh j (by omega)).owned)
    (fun j _ hj hkept => (hfresh j (by omega)).ne (hb.ground.kept _ hkept).1 rfl) hsupplies hmap
  rw [Nat.zero_add] at hb₂ hsupplies₂
  refine ⟨⟨initialFrame base, hb₂, rfl, fun a ha ha' => ?_, rfl, rfl⟩, hsupplies₂, hfold⟩
  -- the frames were cleared when they were taken, and no mapping has written to them
  change k₂.memory (k₂.physical a) = fill (fun _ => 0) _ _ 0 a
  rw [hb₂.physical_eq ha ha']
  change 3506438144 ≤ a at ha
  change a < 3506438144 + pages * 4096 at ha'
  obtain ⟨i, hpage, hi⟩ : ∃ i, initialFrame base (a / 4096) = base + i ∧ i < pages :=
    ⟨a / 4096 - 3506438144 / 4096, rfl, by omega⟩
  rw [hpage, (hkeeps _ (hfresh i hi).owned).2 _ (by omega), hzeros _ (by omega) (by omega)]
  unfold fill
  split <;> rfl

-- With a block of frames that are mapped the rest of malloc_init comes to its end.
theorem mallocInit_of_maps {bytes more n phys : Nat} {k₁ k₂ : Kernel}
    (hb : Backed g M.kernel frame KERNEL_HEAP_START) (hlo : 1 ≤ bytes) (hhi : bytes < 4294967296)
    (hend : Heap.initialPages bytes ≤ 192511)
    (halloc : M.kernel.allocateBlock (Heap.initialPages bytes) = .ok (phys, k₁)) (hblock : phys ≠ 0)
    (hsupplies : k₁.pmm.Supplies
      (n + M.kernel.tablesMissing KERNEL_HEAP_START (Heap.initialPages bytes + more)))
    (hmap : mapInitialPages phys (List.range (Heap.initialPages bytes)) k₁ = .ok k₂) :
    ∃ M' h' frame', M.mallocInit bytes = .ok M' ∧ Shows g M' h' frame' ∧
      Heap.Tidy h' [⟨Heap.initialPages bytes * 4096 - 12, true⟩] ∧
      M'.kernel.pmm.Supplies (n + M'.kernel.tablesMissing h'.heapEnd more) := by
  have hpages := Heap.initialPages_pos hlo hhi
  obtain ⟨⟨frame', hs₂⟩, hsupplies₂, hfold⟩ :=
    initialPages_shows hb hpages hend halloc hblock hsupplies hmap
  -- the same steps on the abstract heap
  have hold := Heap.mallocInit_eq (h := ⟨M.kernel, fun _ => 0, 0, 0, 0⟩) halloc hblock hfold
  have hst := Heap.mallocInit_stands hlo hhi hend hold
  have hhead : KERNEL_HEAP_START + 12 ≤ KERNEL_HEAP_START + Heap.initialPages bytes * PAGE_SIZE := by
    change 3506438144 + 12 ≤ 3506438144 + Heap.initialPages bytes * 4096
    omega
  have hbytes : u32 (Heap.initialPages bytes * PAGE_SIZE) = Heap.initialPages bytes * PAGE_SIZE := u32_of_lt (by
    change Heap.initialPages bytes * 4096 < _
    omega)
  obtain ⟨M₃, M₄, M', hsize, hfree, hnext, hs', hsame⟩ := hs₂.putHeader (Nat.le_refl _) hhead
    (u32Sub (Heap.initialPages bytes * PAGE_SIZE) SIZEOF_BLOCK) true 0
  have hflags : Heap.Flagged (setNext (setFree (setSize
      (fill (fun _ => 0) KERNEL_HEAP_START (Heap.initialPages bytes * PAGE_SIZE) 0) KERNEL_HEAP_START
      (u32Sub (Heap.initialPages bytes * PAGE_SIZE) SIZEOF_BLOCK)) KERNEL_HEAP_START true) KERNEL_HEAP_START 0)
      KERNEL_HEAP_START [⟨Heap.initialPages bytes * 4096 - 12, true⟩] :=
    Heap.Flagged.cons (fun _ => Heap.flag_setNext ..) fun x hx => absurd hx List.not_mem_nil
  refine ⟨M', _, frame', ?_, hs', ⟨hst, hflags⟩, ?_⟩
  · unfold mallocInit
    rw [show u32 (bytes + PAGE_SIZE - 1) / PAGE_SIZE + (if bytes % PAGE_SIZE > 0 then 1 else 0) =
      Heap.initialPages bytes from rfl]
    simp only [halloc, hmap, hbytes, hsize, hfree, hnext, fault, Except.mapError, Kernel.ok_bind]
  · rw [← hs'.pmm, Kernel.tablesMissing_congr hsame.pde]
    exact hsupplies₂

theorem mallocInit_shows {bytes more n : Nat} (hb : Backed g M.kernel frame KERNEL_HEAP_START)
    (hlo : 1 ≤ bytes) (hhi : bytes < 4294967296) (hend : Heap.initialPages bytes ≤ 192511)
    (hblock : (M.kernel.pmm.allocateBlock (Heap.initialPages bytes)).1 ≠ 0)
    (hsupplies : (M.kernel.pmm.allocateBlock (Heap.initialPages bytes)).2.Supplies
      (n + M.kernel.tablesMissing KERNEL_HEAP_START (Heap.initialPages bytes + more)))
    (hi : M.mallocInit bytes = .ok M') :
    ∃ h' frame', Shows g M' h' frame' ∧
      Heap.Tidy h' [⟨Heap.initialPages bytes * 4096 - 12, true⟩] ∧
      M'.kernel.pmm.Supplies (n + M'.kernel.tablesMissing h'.heapEnd more) := by
  have hrun := hi
  obtain ⟨⟨phys, k₁⟩, halloc, hrest⟩ := exists_of_bind hi
  obtain ⟨k₂, hmap, -⟩ := exists_of_bind hrest
  have halloc := ok_of_fault halloc
  rw [show M.kernel.pmm.allocateBlock (Heap.initialPages bytes) = (phys, k₁.pmm) from
    Kernel.allocateBlock_result halloc] at hblock hsupplies
  obtain ⟨M₁, h', frame', hinit, hs', hst', hsupplies'⟩ :=
    mallocInit_of_maps hb hlo hhi hend halloc hblock hsupplies (ok_of_fault hmap)
  obtain rfl := Except.ok.inj (hinit.symm.trans hrun)
  exact ⟨h', frame', hs', hst', hsupplies'⟩

end Init

section Growth

-- What a write does is no matter of the page count.
theorem put_pages {address count : Nat} {change : Memory → Memory} (pages : Nat)
    (hput : M.put address count change = .ok M') :
    { M with totalMallocPages := pages }.put address count change =
      .ok { M' with totalMallocPages := pages } := by
  unfold put at hput ⊢
  obtain ⟨k', hpoke, hdone⟩ := exists_of_bind hput
  obtain rfl := Except.ok.inj hdone
  simp only [hpoke]
  rfl

theorem growPage_eq {cur virt temp size : Nat} {k₁ k₂ : Kernel} {ok : Bool} {pages : Nat}
    (halloc : M.kernel.allocateBlock 1 = .ok (temp, k₁)) (hmap : k₁.mapPage temp virt = .ok (ok, k₂))
    (hpages : pages = u32 (M.totalMallocPages + 1))
    (hsize : { M with kernel := k₂, totalMallocPages := pages }.sizeAt cur = .ok size)
    (hput : { M with kernel := k₂, totalMallocPages := pages }.putSize cur (u32 (size + PAGE_SIZE)) =
      .ok M') (htotal : M'.totalMallocPages = pages) : M.growPage cur virt = .ok M' := by
  have hput' := put_pages M.totalMallocPages hput
  unfold growPage
  rw [halloc]
  change (fault (k₁.mapPage temp virt) >>= _) = _
  rw [hmap]
  change (({ M with kernel := k₂ } : Malloc).sizeAt cur >>= _) = _
  rw [show ({ M with kernel := k₂ } : Malloc).sizeAt cur = .ok size from hsize]
  change (({ M with kernel := k₂ } : Malloc).putSize cur _ >>= _) = _
  rw [show ({ M with kernel := k₂ } : Malloc).putSize cur (u32 (size + PAGE_SIZE)) =
    .ok { M' with totalMallocPages := M.totalMallocPages } from hput']
  change Except.ok { M' with totalMallocPages := u32 (M.totalMallocPages + 1) } = _
  rw [← hpages, ← htotal]

-- What the processor sees with another page: the old bytes, and an empty page behind them
theorem Shows.page {phys : Nat} {k₁ k₂ : Kernel} (hs : Shows g M h frame) (hlo : KERNEL_HEAP_START ≤ h.heapEnd)
    (hend : KERNEL_HEAP_START + u32 (h.totalMallocPages + 1) * PAGE_SIZE = h.heapEnd + 4096)
    (hlt : h.heapEnd + 4096 < 4294967296) (halloc : M.kernel.allocateBlock 1 = .ok (phys, k₁)) (hne : phys ≠ 0)
    (hmap : k₁.mapPage phys h.heapEnd = .ok (true, k₂)) :
    ∃ frame', Shows g { M with kernel := k₂, totalMallocPages := u32 (M.totalMallocPages + 1) }
      { h with
        kernel := k₂
        bytes := fill h.bytes h.heapEnd PAGE_SIZE 0
        totalMallocPages := u32 (h.totalMallocPages + 1) } frame' := by
  -- the frame is the heap's own
  obtain ⟨hundisturbed, hfresh⟩ := hs.backed.paged.allocateBlock_ok halloc
  obtain ⟨f, hphys, hfresh, hzeros⟩ := hfresh hne
  change phys = 4096 * f at hphys
  subst hphys
  obtain ⟨hbacked₁, hsame₁⟩ := hs.backed.undisturbed hundisturbed
  have hmapped := (hundisturbed.paged.mapPage_ok hundisturbed.paged.marked (by omega) hmap).1 rfl
  obtain ⟨hbacked₂, hsame₂⟩ := hbacked₁.mapped (by omega) hfresh.owned hfresh.lt (by omega)
    (fun a ha ha' => hfresh.ne (hs.backed.owned a ha ha'))
    (fun hkept => hfresh.ne (hs.backed.ground.kept f hkept).1 rfl) hlo hmapped (Kernel.mapPage_current hmap)
  have hsame := hsame₁.trans hsame₂
  refine ⟨Function.update frame (h.heapEnd / 4096) f, ?_, rfl, fun a ha ha' => ?_, hs.head,
    congrArg (fun n => u32 (n + 1)) hs.pages⟩
  · change Backed g k₂ _ (KERNEL_HEAP_START + u32 (h.totalMallocPages + 1) * PAGE_SIZE)
    rw [hend]
    exact hbacked₂
  · change a < KERNEL_HEAP_START + u32 (h.totalMallocPages + 1) * PAGE_SIZE at ha'
    rw [hend] at ha'
    change k₂.view a = fill h.bytes h.heapEnd 4096 0 a
    by_cases hin : a < h.heapEnd
    · rw [fill_of_apart (Or.inl hin), hsame a ha hin]
      exact hs.bytes a ha hin
    · have haligned := hs.backed.aligned
      have hpage : a / 4096 = h.heapEnd / 4096 := by omega
      change k₂.memory (k₂.physical a) = _
      rw [hbacked₂.physical_eq ha ha', hpage, Function.update_self,
        (hmapped.keeps f hfresh.owned).2 _ (by omega), hzeros _ (by omega)]
      exact (if_pos (by omega)).symm

-- Another page, with a frame and a mapping for it
theorem growPage_of_map {phys : Nat} {k₁ k₂ : Kernel} (hs : Shows g M h frame)
    (hst : Heap.Tidy h (before ++ [b])) (halloc : M.kernel.allocateBlock 1 = .ok (phys, k₁))
    (hne : phys ≠ 0) (hmap : k₁.mapPage phys h.heapEnd = .ok (true, k₂)) :
    ∃ M' h' frame', M.growPage (KERNEL_HEAP_START + extent 12 before) h.heapEnd = .ok M' ∧
      Shows g M' h' frame' ∧ Heap.Tidy h' (before ++ [⟨b.size + 4096, b.free⟩]) ∧
      h'.heapEnd = h.heapEnd + 4096 ∧ M'.kernel.pmm = k₂.pmm ∧ SameEntries k₂ M'.kernel := by
  obtain ⟨hlo, hhi⟩ := node_inside hst
  -- the abstract heap grows by the same page
  have hold : Heap.growPage { h with kernel := M.kernel } (KERNEL_HEAP_START + extent 12 before) h.heapEnd = _ :=
    Heap.growPage_eq halloc hne hmap
  obtain ⟨hst', hend⟩ := Heap.growPage_stands ((tidy_kernel hs hst).toStands) hold
  have hlt := hst'.heapEnd_lt
  change KERNEL_HEAP_START + u32 (h.totalMallocPages + 1) * PAGE_SIZE = h.heapEnd + 4096 at hend
  change KERNEL_HEAP_START + u32 (h.totalMallocPages + 1) * PAGE_SIZE < _ at hlt
  rw [hend] at hlt
  obtain ⟨frame', hs₂⟩ := hs.page (by omega) hend hlt halloc hne hmap
  -- and the size is written
  have hflags : Heap.Flagged (setSize (fill h.bytes h.heapEnd PAGE_SIZE 0) (KERNEL_HEAP_START + extent 12 before)
      (u32 (sizeOf (fill h.bytes h.heapEnd PAGE_SIZE 0) (KERNEL_HEAP_START + extent 12 before) + PAGE_SIZE)))
      KERNEL_HEAP_START (before ++ [⟨b.size + 4096, b.free⟩]) :=
    hst.flags.grow _ fun c hc hout => by
      rw [setSize, store32_of_ne hout]
      exact fill_of_apart (Or.inl (by omega)) 0
  have hhi' : KERNEL_HEAP_START + extent 12 before + 12 ≤
      KERNEL_HEAP_START + u32 (h.totalMallocPages + 1) * PAGE_SIZE := by omega
  obtain ⟨M₃, hput, hs₃⟩ := hs₂.putSize hlo hhi'
    (u32 (sizeOf (fill h.bytes h.heapEnd PAGE_SIZE 0) (KERNEL_HEAP_START + extent 12 before) + PAGE_SIZE))
  exact ⟨M₃, _, frame', growPage_eq halloc hmap rfl (hs₂.sizeAt hlo hhi') hput
    (hs₃.pages.symm.trans (congrArg (fun n => u32 (n + 1)) hs.pages)), hs₃, ⟨hst', hflags⟩, hend, hs₃.pmm.symm,
    put_same hs₂ hlo (Nat.le_trans (Nat.add_le_add_left (by omega) _) hhi') hput⟩

-- The PMM has a frame for it, and one for its table where that is missing.
theorem growPage_shows {count n : Nat} (hs : Shows g M h frame) (hst : Heap.Tidy h (before ++ [b]))
    (hsupplies : M.kernel.pmm.Supplies (n + 1 + M.kernel.tablesMissing h.heapEnd (count + 1)))
    (hg : M.growPage (KERNEL_HEAP_START + extent 12 before) h.heapEnd = .ok M') :
    ∃ h' frame', Shows g M' h' frame' ∧ Heap.Tidy h' (before ++ [⟨b.size + 4096, b.free⟩]) ∧
      h'.heapEnd = h.heapEnd + 4096 ∧ M'.kernel.pmm.Supplies (n + M'.kernel.tablesMissing h'.heapEnd count) := by
  have hrun := hg
  obtain ⟨⟨phys, k₁⟩, halloc, hrest⟩ := exists_of_bind hg
  obtain ⟨⟨ok, k₂⟩, hmap, -⟩ := exists_of_bind hrest
  have halloc := ok_of_fault halloc
  have hmap := ok_of_fault hmap
  have hundisturbed := (hs.backed.paged.allocateBlock_ok halloc).1
  rw [Nat.add_right_comm] at hsupplies
  obtain ⟨hne, hsupplies₁⟩ := hsupplies.allocateBlock halloc
  rw [← Kernel.tablesMissing_congr hundisturbed.pde] at hsupplies₁
  obtain ⟨htrue, hsupplies₂⟩ := hsupplies₁.mapPage hundisturbed.paged hst.heapEnd_lt hmap
  obtain rfl : ok = true := htrue
  obtain ⟨M₁, h', frame', hgrow, hs', hst', hend, hpmm, hsame⟩ := growPage_of_map hs hst halloc hne hmap
  obtain rfl := Except.ok.inj (hgrow.symm.trans hrun)
  refine ⟨h', frame', hs', hst', hend, ?_⟩
  rw [hpmm, hend, Kernel.tablesMissing_congr hsame.pde]
  exact hsupplies₂

theorem growPages_shows {count : Nat} (hs : Shows g M h frame) (hst : Heap.Tidy h (before ++ [b]))
    (hsupplies : M.kernel.pmm.Supplies (count + M.kernel.tablesMissing h.heapEnd count))
    (hg : growPages count M (KERNEL_HEAP_START + extent 12 before) h.heapEnd = .ok M') :
    ∃ h' frame', Shows g M' h' frame' ∧ Heap.Tidy h' (before ++ [⟨b.size + count * 4096, b.free⟩]) := by
  induction count generalizing M h frame b with
  | zero =>
      obtain rfl := Except.ok.inj hg
      exact ⟨h, frame, hs, by simpa using hst⟩
  | succ count ih =>
      obtain ⟨M₁, hfirst, hrest⟩ := exists_of_bind hg
      obtain ⟨h₁, frame₁, hs₁, hst₁, hend, hsupplies₁⟩ := growPage_shows hs hst hsupplies hfirst
      have hvirt : u32 (h.heapEnd + PAGE_SIZE) = h₁.heapEnd := by
        rw [hend]
        apply u32_of_lt
        change h.heapEnd + 4096 < _
        rw [← hend]
        exact hst₁.heapEnd_lt
      rw [hvirt] at hrest
      obtain ⟨h', frame', hs', hst'⟩ := ih hs₁ hst₁ hsupplies₁ hrest
      refine ⟨h', frame', hs', ?_⟩
      simp only [Nat.succ_mul, Nat.add_assoc, Nat.add_comm 4096] at hst' ⊢
      exact hst'

end Growth

end Malloc

end ToyKernel
