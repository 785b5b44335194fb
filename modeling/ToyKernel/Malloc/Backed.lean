import ToyKernel.Client.Steps
import ToyKernel.Malloc

namespace ToyKernel

open Library ByteMemory FirstFit

section Written

variable {k : Kernel} {m : Memory} {address count : Nat}

theorem Kernel.written_of_ne {b : Nat} (h : ∀ i < count, k.physical (address + i) ≠ b) :
    k.written address m count b = k.memory b := by
  induction count with
  | zero => rfl
  | succ count ih =>
      have hne : b ≠ k.physical (address + count) := (h count (by omega)).symm
      rw [Kernel.written, store8_of_ne hne, ih fun i hi => h i (by omega)]

-- Bytes that are at places of their own are all written.
theorem Kernel.written_self {i : Nat} (hi : i < count)
    (hapart : ∀ j < count, j ≠ i → k.physical (address + j) ≠ k.physical (address + i)) :
    k.written address m count (k.physical (address + i)) = m (address + i) := by
  induction count with
  | zero => omega
  | succ count ih =>
      rw [Kernel.written]
      by_cases he : i = count
      · rw [he]
        exact store8_self ..
      · have hne : k.physical (address + i) ≠ k.physical (address + count) :=
          (hapart count (by omega) (Ne.symm he)).symm
        rw [store8_of_ne hne]
        exact ih (by omega) fun j hj => hapart j (by omega)

end Written

section Directory

variable {k k' : Kernel}

theorem Kernel.allocateBlock_current {size : Nat} {r : Nat × Kernel} (hr : k.allocateBlock size = .ok r) :
    r.2.currentPageDirectory = k.currentPageDirectory := by
  unfold Kernel.allocateBlock at hr
  split at hr
  · obtain rfl := Except.ok.inj hr
    rfl
  · obtain ⟨k₁, hzero, hdone⟩ := exists_of_bind hr
    obtain ⟨-, rfl⟩ := Kernel.access_ok hzero
    obtain rfl := Except.ok.inj hdone
    rfl

theorem Kernel.newTable_current {pde : Nat} {attributes : BitVec 32} {r : Bool × Kernel}
    (hr : k.newTable pde attributes = .ok r) : r.2.currentPageDirectory = k.currentPageDirectory := by
  obtain ⟨⟨table, k₁⟩, halloc, hrest⟩ := exists_of_bind hr
  have hcurrent := Kernel.allocateBlock_current halloc
  by_cases hz : table = 0
  · simp only [hz, ite_true] at hrest
    obtain rfl := Except.ok.inj hrest
    exact hcurrent
  · simp only [hz, ite_false] at hrest
    obtain ⟨k₂, hzero, hrest⟩ := exists_of_bind hrest
    obtain ⟨k₃, hupdate, hdone⟩ := exists_of_bind hrest
    obtain ⟨-, rfl⟩ := Kernel.access_ok hzero
    obtain ⟨-, rfl⟩ := Kernel.access_ok hupdate
    obtain rfl := Except.ok.inj hdone
    exact hcurrent

theorem Kernel.setPage_current {virt phys : Nat} {attributes : BitVec 32}
    (h : k.setPage virt attributes phys = .ok k') : k'.currentPageDirectory = k.currentPageDirectory := by
  obtain ⟨entry, -, hupdate⟩ := exists_of_bind h
  obtain ⟨-, rfl⟩ := Kernel.access_ok hupdate
  rfl

theorem Kernel.mapPage_current {phys virt : Nat} {r : Bool × Kernel} (hr : k.mapPage phys virt = .ok r) :
    r.2.currentPageDirectory = k.currentPageDirectory := by
  obtain ⟨entry, hread, -⟩ := exists_of_bind hr
  by_cases hpresent : isPresent entry = true
  · rw [Kernel.mapPage_of_present hread hpresent] at hr
    obtain ⟨k', hset, hdone⟩ := exists_of_bind hr
    obtain rfl := Except.ok.inj hdone
    exact Kernel.setPage_current hset
  · rw [Kernel.mapPage_of_absent hread (Bool.eq_false_iff.mpr hpresent)] at hr
    obtain ⟨⟨ok, k₁⟩, hnew, hrest⟩ := exists_of_bind hr
    have hcurrent := Kernel.newTable_current hnew
    cases ok with
    | false =>
        obtain rfl := Except.ok.inj hrest
        exact hcurrent
    | true =>
        obtain ⟨k', hset, hdone⟩ := exists_of_bind hrest
        obtain rfl := Except.ok.inj hdone
        exact (Kernel.setPage_current hset).trans hcurrent

end Directory

-- What the heap is not to touch: the pages below it as they are in `kernel`, and some frames
-- that are in use.
structure Ground where
  kernel : Kernel
  kept : Set Nat

-- All that is in use, while there is no heap
def Kernel.ground (k : Kernel) : Ground := ⟨k, {f | Owned k f}⟩

structure OnGround (g : Ground) (k : Kernel) : Prop where
  current : k.currentPageDirectory = g.kernel.currentPageDirectory
  pde : ∀ i < PD_INDEX KERNEL_HEAP_START, k.pde i = g.kernel.pde i
  pte : ∀ a < KERNEL_HEAP_START, k.pte a = g.kernel.pte a
  kept : ∀ f ∈ g.kept, KeepsFrame g.kernel k f

section Ground

variable {g : Ground} {k k' : Kernel} {virt : Nat}

theorem Kernel.onGround (k : Kernel) : OnGround k.ground k :=
  ⟨rfl, fun _ _ => rfl, fun _ _ => rfl, fun _ hf => ⟨hf, fun _ _ => rfl⟩⟩

theorem index_le_of_heap (h : KERNEL_HEAP_START ≤ virt) : PD_INDEX KERNEL_HEAP_START ≤ PD_INDEX virt :=
  Nat.div_le_div_right h

theorem OnGround.same (h : OnGround g k) (hsame : SameEntries k k')
    (hkept : ∀ f ∈ g.kept, KeepsFrame k k' f) : OnGround g k' where
  current := hsame.current.trans h.current
  pde i hi := (hsame.pde i (Nat.lt_trans hi (by decide))).trans (h.pde i hi)
  pte a ha := (hsame.pte a (Nat.lt_trans ha (by decide))).trans (h.pte a ha)
  kept f hf := (h.kept f hf).trans (hkept f hf)

theorem OnGround.mapped (h : OnGround g k) (hlo : KERNEL_HEAP_START ≤ virt) {phys : Nat}
    {attributes : BitVec 32} {user : Bool} (hm : Mapped k k' phys virt attributes user)
    (hcurrent : k'.currentPageDirectory = k.currentPageDirectory) : OnGround g k' where
  current := hcurrent.trans h.current
  pde i hi := by
    have hle := index_le_of_heap hlo
    rw [hm.pde_other i (Nat.lt_trans hi (by decide)) (by omega)]
    exact h.pde i hi
  pte a ha := by
    have hle : KERNEL_HEAP_START / 4096 ≤ virt / 4096 := Nat.div_le_div_right hlo
    have hstart : KERNEL_HEAP_START = 4096 * (KERNEL_HEAP_START / 4096) := rfl
    rw [hm.pte_other a (Nat.lt_trans ha (by decide)) (by omega)]
    exact h.pte a ha
  kept f hf := (h.kept f hf).trans (hm.keeps f (h.kept f hf).1)

theorem OnGround.placed (h : OnGround g k) (hlo : KERNEL_HEAP_START ≤ virt) {value : BitVec 32}
    (hp : Placed k k' virt value) : OnGround g k' where
  current := hp.current.trans h.current
  pde i hi := (hp.pde i (Nat.lt_trans hi (by decide))).trans (h.pde i hi)
  pte a ha := by
    have hle : KERNEL_HEAP_START / 4096 ≤ virt / 4096 := Nat.div_le_div_right hlo
    have hstart : KERNEL_HEAP_START = 4096 * (KERNEL_HEAP_START / 4096) := rfl
    rw [hp.pte_other a (Nat.lt_trans ha (by decide)) (by omega)]
    exact h.pte a ha
  kept f hf := (h.kept f hf).trans (hp.keeps f (h.kept f hf).1)

end Ground

-- The heap's pages up to `stop` are on frames of their own, none follow, and the rest is on
-- the ground `g`.
structure Backed (g : Ground) (k : Kernel) (frame : Nat → Nat) (stop : Nat) : Prop where
  paged : Paged k
  bounded : stop ≤ 4294967296
  aligned : stop % 4096 = 0
  walks : ∀ a, KERNEL_HEAP_START ≤ a → a < stop →
    k.translate a = some (4096 * frame (a / 4096) + a % 4096)
  owned : ∀ a, KERNEL_HEAP_START ≤ a → a < stop → Owned k (frame (a / 4096))
  distinct : ∀ a b, KERNEL_HEAP_START ≤ a → a < stop → KERNEL_HEAP_START ≤ b → b < stop →
    frame (a / 4096) = frame (b / 4096) → a / 4096 = b / 4096
  vacant : ∀ a, stop ≤ a → a < 4294967296 → k.pte a = 0#32
  pos : ∀ a, KERNEL_HEAP_START ≤ a → a < stop → frame (a / 4096) ≠ 0
  ground : OnGround g k
  apart : ∀ f ∈ g.kept, ∀ a, KERNEL_HEAP_START ≤ a → a < stop → frame (a / 4096) ≠ f

-- The same bytes in the heap's pages
def SameBytes (k k' : Kernel) (stop : Nat) : Prop :=
  ∀ a, KERNEL_HEAP_START ≤ a → a < stop → k'.view a = k.view a

theorem SameBytes.trans {k mid k' : Kernel} {stop : Nat} (h : SameBytes k mid stop)
    (h' : SameBytes mid k' stop) : SameBytes k k' stop :=
  fun a hlo hhi => (h' a hlo hhi).trans (h a hlo hhi)

namespace Backed

variable {g : Ground} {k k' : Kernel} {frame : Nat → Nat} {stop address count : Nat}

theorem physical_eq (h : Backed g k frame stop) {a : Nat} (hlo : KERNEL_HEAP_START ≤ a) (hhi : a < stop) :
    k.physical a = 4096 * frame (a / 4096) + a % 4096 := by
  unfold Kernel.physical
  rw [h.walks a hlo hhi]
  rfl

-- Two addresses of the heap are two places in memory.
theorem physical_inj (h : Backed g k frame stop) {a b : Nat} (ha : KERNEL_HEAP_START ≤ a) (ha' : a < stop)
    (hb : KERNEL_HEAP_START ≤ b) (hb' : b < stop) (he : k.physical a = k.physical b) : a = b := by
  rw [h.physical_eq ha ha', h.physical_eq hb hb'] at he
  have hpage := h.distinct a b ha ha' hb hb' (by omega)
  omega

theorem present (h : Backed g k frame stop) (hlo : KERNEL_HEAP_START ≤ address)
    (hhi : address + count ≤ stop) : k.Present address count := by
  have hbounded := h.bounded
  refine ⟨by omega, fun i hi => ?_⟩
  rw [h.walks _ (by omega) (by omega)]
  rfl

-- The pages stay where the entries do.
theorem same (h : Backed g k frame stop) (hsame : SameEntries k k') (hpaged : Paged k')
    (howned : ∀ f, Owned k f → Owned k' f) (hkept : ∀ f ∈ g.kept, KeepsFrame k k' f) :
    Backed g k' frame stop where
  paged := hpaged
  bounded := h.bounded
  aligned := h.aligned
  walks a hlo hhi := by
    have hbounded := h.bounded
    rw [hpaged.translate_eq, hsame.pte a (by omega), ← h.paged.translate_eq]
    exact h.walks a hlo hhi
  owned a hlo hhi := howned _ (h.owned a hlo hhi)
  distinct := h.distinct
  vacant a hlo hhi := (hsame.pte a hhi).trans (h.vacant a hlo hhi)
  pos := h.pos
  ground := h.ground.same hsame hkept
  apart := h.apart

theorem sameBytes {g' : Ground} (h : Backed g k frame stop) (h' : Backed g' k' frame stop)
    (hkeeps : ∀ a, KERNEL_HEAP_START ≤ a → a < stop → KeepsFrame k k' (frame (a / 4096))) :
    SameBytes k k' stop := by
  intro a hlo hhi
  change k'.memory (k'.physical a) = k.memory (k.physical a)
  rw [h.physical_eq hlo hhi, h'.physical_eq hlo hhi]
  exact (hkeeps a hlo hhi).2 _ (by omega)

theorem undisturbed (h : Backed g k frame stop) (hu : Undisturbed k k') :
    Backed g k' frame stop ∧ SameBytes k k' stop := by
  have h' := h.same hu.toSameEntries hu.paged (fun f hf => (hu.keeps f hf).1)
    fun f hf => hu.keeps f (h.ground.kept f hf).1
  exact ⟨h', h.sameBytes h' fun a hlo hhi => hu.keeps _ (h.owned a hlo hhi)⟩

-- A write to the heap changes the bytes it is for and no others.
theorem poke (h : Backed g k frame stop) (hlo : KERNEL_HEAP_START ≤ address)
    (hhi : address + count ≤ stop) (change : Memory → Memory) :
    ∃ k', k.poke address count change = .ok k' ∧ Backed g k' frame stop ∧ SameEntries k k' ∧ k'.pmm = k.pmm ∧
      ∀ a, KERNEL_HEAP_START ≤ a → a < stop →
        k'.view a = if address ≤ a ∧ a < address + count then change k.view a else k.view a := by
  let k' : Kernel := { k with memory := k.written address (change k.view) count }
  have hframes : ∀ b, ¬Spare k (4096 * (b / 4096)) → k'.memory b = k.memory b := by
    intro b hb
    apply Kernel.written_of_ne
    rintro i hi rfl
    have hown := h.owned (address + i) (by omega) (by omega)
    rw [h.physical_eq (by omega) (by omega), show (4096 * frame ((address + i) / 4096) +
      (address + i) % 4096) / 4096 = frame ((address + i) / 4096) by omega] at hb
    exact hb hown.2
  obtain ⟨hwalk, hsame⟩ : Walkable k' ∧ SameEntries k k' := h.paged.toWalkable.writingFrames hframes k.pmm
  have howned : ∀ f, Owned k f → Owned k' f :=
    fun f hf => ⟨hf.1, hf.2.of_directory hsame.current hsame.pde⟩
  have hkept : ∀ f ∈ g.kept, KeepsFrame k k' f := by
    refine fun f hf => ⟨howned f (h.ground.kept f hf).1, fun b hb => Kernel.written_of_ne ?_⟩
    rintro i hi rfl
    have hne := h.apart f hf (address + i) (by omega) (by omega)
    rw [h.physical_eq (by omega) (by omega)] at hb
    omega
  have h' : Backed g k' frame stop :=
    h.same hsame ⟨hwalk, h.paged.marked.keep hsame fun _ hm => hm⟩ howned hkept
  refine ⟨k', if_pos (h.present hlo hhi), h', hsame, rfl, fun a ha ha' => ?_⟩
  change k'.memory (k'.physical a) = _
  rw [h'.physical_eq ha ha', ← h.physical_eq ha ha']
  split
  · rename_i hin
    obtain ⟨i, rfl⟩ := Nat.exists_eq_add_of_le hin.1
    apply Kernel.written_self (by omega)
    intro j hj hne he
    have heq := h.physical_inj (by omega) (by omega) ha ha' he
    omega
  · rename_i hout
    apply Kernel.written_of_ne
    intro i hi he
    have heq := h.physical_inj (by omega) (by omega) ha ha' he
    omega

-- One more page, on a frame that is none of the others'
theorem mapped (h : Backed g k frame stop) (hend : stop + 4096 ≤ 4294967296)
    {f : Nat} (hf : Owned k f) (hlt : f < 1048576)
    (hpos : f ≠ 0) (hnew : ∀ a, KERNEL_HEAP_START ≤ a → a < stop → frame (a / 4096) ≠ f)
    (hkept : f ∉ g.kept) (hlo : KERNEL_HEAP_START ≤ stop) (hm : Mapped k k' (4096 * f) stop PTE_PRESENT false)
    (hcurrent : k'.currentPageDirectory = k.currentPageDirectory) :
    Backed g k' (Function.update frame (stop / 4096) f) (stop + 4096) ∧ SameBytes k k' stop := by
  have haligned := h.aligned
  have hzero := h.vacant stop (Nat.le_refl _) (by omega)
  have hentry : k'.pte stop = SET_FRAME (0#32 ||| PTE_PRESENT) (4096 * f) := by rw [hm.pte, hzero]
  have hwalk : ∀ a, stop ≤ a → a < stop + 4096 → k'.translate a = some (4096 * f + a % 4096) := by
    intro a hlo hhi
    rw [hm.walkable.translate_eq, Kernel.pte_page (show a / 4096 = stop / 4096 by omega), hentry,
      if_pos (isPresent_SET_FRAME _ _ (isPresent_or _ _ (by decide))),
      frame_entry (by decide) (by decide) hlt]
  have hold : ∀ a, KERNEL_HEAP_START ≤ a → a < stop →
      Function.update frame (stop / 4096) f (a / 4096) = frame (a / 4096) :=
    fun a _ hhi => Function.update_of_ne (by omega) ..
  have hself : ∀ a, stop ≤ a → a < stop + 4096 →
      Function.update frame (stop / 4096) f (a / 4096) = f := by
    intro a hlo hhi
    rw [show a / 4096 = stop / 4096 by omega]
    exact Function.update_self ..
  have h' : Backed g k' (Function.update frame (stop / 4096) f) (stop + 4096) := by
    refine ⟨⟨hm.walkable, hm.marked h.paged.marked⟩, hend, by omega, fun a hlo hhi => ?_,
      fun a hlo hhi => ?_, fun a b ha ha' hb hb' he => ?_, fun a hlo hhi => ?_, fun a hlo hhi => ?_,
      h.ground.mapped hlo hm hcurrent, fun f' hf' a hlo hhi => ?_⟩
    · by_cases hin : a < stop
      · rw [hold a hlo hin, hm.walkable.translate_eq, hm.pte_other a (by omega) (by omega),
          ← h.paged.translate_eq]
        exact h.walks a hlo hin
      · rw [hself a (by omega) hhi]
        exact hwalk a (by omega) hhi
    · by_cases hin : a < stop
      · rw [hold a hlo hin]
        exact (hm.keeps _ (h.owned a hlo hin)).1
      · rw [hself a (by omega) hhi]
        exact (hm.keeps _ hf).1
    · by_cases hin : a < stop <;> by_cases hin' : b < stop
      · rw [hold a ha hin, hold b hb hin'] at he
        exact h.distinct a b ha hin hb hin' he
      · rw [hold a ha hin, hself b (by omega) hb'] at he
        exact absurd he (hnew a ha hin)
      · rw [hold b hb hin', hself a (by omega) ha'] at he
        exact absurd he.symm (hnew b hb hin')
      · omega
    · rw [hm.pte_other a hhi (by omega)]
      exact h.vacant a (by omega) hhi
    · by_cases hin : a < stop
      · rw [hold a hlo hin]
        exact h.pos a hlo hin
      · rwa [hself a (by omega) hhi]
    · by_cases hin : a < stop
      · rw [hold a hlo hin]
        exact h.apart f' hf' a hlo hin
      · rw [hself a (by omega) hhi]
        exact fun he => hkept (he ▸ hf')
  refine ⟨h', fun a hlo hhi => ?_⟩
  change k'.memory (k'.physical a) = k.memory (k.physical a)
  rw [h.physical_eq hlo hhi, h'.physical_eq hlo (by omega), hold a hlo hhi]
  exact (hm.keeps _ (h.owned a hlo hhi)).2 _ (by omega)

-- The entry of a page may be given more flags.
theorem flagged (h : Backed g k frame stop) {virt : Nat} (hlo : KERNEL_HEAP_START ≤ virt) (hhi : virt < stop)
    {attributes value : BitVec 32} (hattributes : attributes.toNat < 4096)
    (hvalue : value = k.pte virt ||| attributes) (hp : Placed k k' virt value) :
    Backed g k' frame stop ∧ SameBytes k k' stop := by
  subst hvalue
  have hbounded := h.bounded
  have haligned := h.aligned
  have hpaged : Paged k' := ⟨hp.walkable, hp.marked h.paged.marked⟩
  have hpresent : isPresent (k.pte virt) = true := by
    have hwalk := h.walks virt hlo hhi
    rw [h.paged.translate_eq] at hwalk
    by_contra habsent
    rw [if_neg habsent] at hwalk
    cases hwalk
  have hwalk : ∀ a, KERNEL_HEAP_START ≤ a → a < stop → k'.translate a = k.translate a := by
    intro a _ ha
    rw [hpaged.translate_eq, h.paged.translate_eq]
    by_cases hpage : a / 4096 = virt / 4096
    · rw [Kernel.pte_page hpage, Kernel.pte_page hpage, hp.pte, PAGE_PHYS_ADDRESS_or _ _ hattributes,
        isPresent_or_left _ _ hpresent, hpresent]
    · rw [hp.pte_other a (by omega) hpage]
  have h' : Backed g k' frame stop := by
    refine ⟨hpaged, hbounded, haligned, fun a ha ha' => (hwalk a ha ha').trans (h.walks a ha ha'),
      fun a ha ha' => (hp.keeps _ (h.owned a ha ha')).1, h.distinct, fun a ha ha' => ?_, h.pos,
      h.ground.placed hlo hp, h.apart⟩
    rw [hp.pte_other a ha' (by omega)]
    exact h.vacant a ha ha'
  exact ⟨h', h.sameBytes h' fun a ha ha' => hp.keeps _ (h.owned a ha ha')⟩

end Backed

end ToyKernel
