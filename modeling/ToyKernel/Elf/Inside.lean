import ToyKernel.Elf.Protected

namespace ToyKernel

open Library ByteMemory

namespace Client

section Reads

variable {α β : Type} (P : Nat → Nat → Prop)

-- `P` holds of the place of every read of a run, the last one included if that faults.
def Reads : Client α → Kernel → Prop
  | done _, _ => True
  | read address count next, k =>
      P address count ∧
        ∀ value, k.access address count (k.bytesAt address count) = .ok value → Reads (next value) k
  | copy phys source count next, k =>
      P source count ∧ ∀ k', k.copyBytes phys source count = .ok k' → Reads (next ()) k'
  | allocate a next, k => ∀ r, k.allocate a = .ok r → Reads (next r.1) r.2
  | getPage virt next, k => ∀ page, k.getPage virt.toNat = .ok page → Reads (next page) k
  | mapPage phys virt next, k => ∀ r, k.mapPage phys.toNat virt.toNat = .ok r → Reads (next r.1) r.2
  | mapPageUser phys virt next, k =>
      ∀ r, k.mapPageUser phys.toNat virt.toNat = .ok r → Reads (next r.1) r.2

variable {P}

theorem reads_bind (c : Client α) (f : α → Client β) (k : Kernel) :
    (c >>= f).Reads P k ↔ c.Reads P k ∧ ∀ r, k.run c = .ok r → (f r.1).Reads P r.2 := by
  change (c.bind f).Reads P k ↔ _
  induction c generalizing k with
  | done a => simp [Client.bind, Reads, Kernel.run]
  | read address count next ih =>
      simp only [Client.bind, Reads, ih, Kernel.run, and_assoc]
      exact and_congr_right fun _ => forall_ok_bind
  | copy phys source count next ih =>
      simp only [Client.bind, Reads, ih, Kernel.run, and_assoc]
      exact and_congr_right fun _ => forall_ok_bind
  | allocate a next ih =>
      simp only [Client.bind, Reads, ih, Kernel.run]
      exact forall_ok_bind
  | getPage virt next ih =>
      simp only [Client.bind, Reads, ih, Kernel.run]
      exact forall_ok_bind
  | mapPage phys virt next ih =>
      simp only [Client.bind, Reads, ih, Kernel.run]
      exact forall_ok_bind
  | mapPageUser phys virt next ih =>
      simp only [Client.bind, Reads, ih, Kernel.run]
      exact forall_ok_bind

theorem reads_bind_ok {c : Client α} {k : Kernel} {mid : α × Kernel} (h : k.run c = .ok mid)
    (f : α → Client β) : (c >>= f).Reads P k ↔ c.Reads P k ∧ (f mid.1).Reads P mid.2 := by
  rw [reads_bind]
  refine and_congr_right fun _ => ⟨fun hr => hr mid h, fun hmid r hr => ?_⟩
  obtain rfl := Except.ok.inj (h.symm.trans hr)
  exact hmid

end Reads

end Client

namespace Elf

open Client

-- The bytes read are bytes of the `size` from `data` on.
def InImage (data size address count : Nat) : Prop := data ≤ address ∧ address + count ≤ data + size

-- A check of elf_load: where a field is, of how many bytes, what it must be
structure Check where
  offset : Nat
  count : Nat
  expected : Nat
  err : Result

def checks : List Check :=
  [⟨0, 1, ELFMAG0, .errMagic⟩, ⟨1, 1, ELFMAG1, .errMagic⟩, ⟨2, 1, ELFMAG2, .errMagic⟩,
    ⟨3, 1, ELFMAG3, .errMagic⟩, ⟨4, 1, ELFCLASS32, .errClass⟩, ⟨16, 2, ET_EXEC, .errType⟩]

-- The checks of a list, one after the other, before `next`
def checkAll (data : Nat) (next : Client Result) : List Check → Client Result
  | [] => next
  | check :: checks => do
      if (← field data check.offset check.count) ≠ check.expected then return check.err
      checkAll data next checks

theorem elfLoad_eq (data : Nat) :
    elfLoad data = checkAll data (loadSegments data 65536 0 0 >>= finish data) checks := rfl

section File

variable (file : Nat → BitVec 8) (size : Nat)

-- An offset counts modulo 2^32.
def fieldOf (offset count : Nat) : Nat := number file (u32 offset) count

def FieldInside (offset count : Nat) : Prop := u32 offset + count ≤ size

-- What is read of the file for the page at `pageOff` of a segment
def PageInside (phdr filesz pageOff : Nat) : Prop :=
  pageOff < filesz → FieldInside size (phdr + 4) 4 ∧
    FieldInside size (fieldOf file (phdr + 4) 4 + pageOff) (min (filesz - pageOff) PAGE_SIZE)

-- A program header, and the pages of a segment
def SegmentInside (i : Nat) : Prop :=
  FieldInside size (phdrOffset file i) 4 ∧
    (fieldOf file (phdrOffset file i) 4 = PT_LOAD →
      FieldInside size (phdrOffset file i + 8) 4 ∧ FieldInside size (phdrOffset file i + 16) 4 ∧
        FieldInside size (phdrOffset file i + 20) 4 ∧
        ∀ page < u32 (fieldOf file (phdrOffset file i + 20) 4 + PAGE_SIZE - 1) / PAGE_SIZE,
          PageInside file size (phdrOffset file i) (fieldOf file (phdrOffset file i + 16) 4)
            (u32 (page * PAGE_SIZE)))

-- They go on to the first that fails; if none does, `rest` is asked.
def ChecksInside (rest : Prop) : List Check → Prop
  | [] => rest
  | check :: checks =>
      check.offset + check.count ≤ size ∧
        (number file check.offset check.count = check.expected → ChecksInside rest checks)

instance (offset count : Nat) : Decidable (FieldInside size offset count) :=
  inferInstanceAs (Decidable (_ ≤ _))

instance (phdr filesz pageOff : Nat) : Decidable (PageInside file size phdr filesz pageOff) :=
  inferInstanceAs (Decidable (_ → _ ∧ _))

instance (i : Nat) : Decidable (SegmentInside file size i) :=
  inferInstanceAs (Decidable (_ ∧ (_ → _ ∧ _ ∧ _ ∧ _)))

instance decidableChecksInside (rest : Prop) [Decidable rest] :
    (checks : List Check) → Decidable (ChecksInside file size rest checks)
  | [] => inferInstanceAs (Decidable rest)
  | _ :: checks =>
      have := decidableChecksInside rest checks
      inferInstanceAs (Decidable (_ ∧ (_ → ChecksInside file size rest checks)))

-- The fields that lead the loader from one read to the next keep it inside the file.
def ImageInside : Prop :=
  ChecksInside file size (46 ≤ size ∧ ∀ i < phnum file, SegmentInside file size i) checks

instance : Decidable (ImageInside file size) := inferInstanceAs (Decidable (ChecksInside ..))

end File

variable {k k' : Kernel} {data size : Nat} {file : Nat → BitVec 8}

section Field

variable {offset count : Nat}

theorem inImage_iff (hfits : data + size ≤ 4294967296) (hpos : 0 < count) :
    InImage data size (u32 (data + offset)) count ↔ FieldInside size offset count := by
  unfold InImage FieldInside u32
  omega

-- Inside the file a field is read from the file.
theorem Staged.bytesAt_field (h : Staged k data file size) (hpos : 0 < count) (hin : FieldInside size offset count) :
    k.bytesAt (u32 (data + offset)) count = fieldOf file offset count := by
  have hsame : u32 (data + offset) = u32 (data + u32 offset) := by
    unfold u32
    omega
  rw [hsame, h.bytesAt hpos hin, fieldOf]

theorem Staged.reads_field (h : Staged k data file size) {α : Type} {f : Nat → Client α} (hpos : 0 < count)
    (hin : FieldInside size offset count) (hf : (f (fieldOf file offset count)).Reads (InImage data size) k) :
    (field data offset count >>= f).Reads (InImage data size) k := by
  refine (reads_bind _ f k).mpr ⟨⟨(inImage_iff h.fits hpos).mpr hin, fun _ _ => trivial⟩, fun r hr => ?_⟩
  obtain rfl := Elf.field_ok hr
  rwa [h.bytesAt_field hpos hin]

-- The other way round, for a run that ends
theorem Staged.of_reads_field (h : Staged k data file size) {α : Type} {f : Nat → Client α} {r : α × Kernel}
    (hpos : 0 < count) (hr : k.run (field data offset count >>= f) = .ok r)
    (hreads : (field data offset count >>= f).Reads (InImage data size) k) :
    FieldInside size offset count ∧ (f (fieldOf file offset count)).Reads (InImage data size) k ∧
      k.run (f (fieldOf file offset count)) = .ok r := by
  obtain ⟨hfield, hrest⟩ := exists_of_field hr
  obtain ⟨hread, hreads⟩ := (reads_bind_ok hfield f).mp hreads
  have hin := (inImage_iff h.fits hpos).mp hread.1
  rw [h.bytesAt_field hpos hin] at hrest hreads
  exact ⟨hin, hreads, hrest⟩

end Field

section Page

variable {phdr vaddr filesz page : Nat}

theorem copyPage_reads (h : Staged k data file size) {pageOff phys : Nat}
    (hin : PageInside file size phdr filesz pageOff) :
    (copyPage data phdr filesz pageOff phys).Reads (InImage data size) k := by
  unfold copyPage
  by_cases hlt : pageOff < filesz
  · obtain ⟨hfield, hbytes⟩ := hin hlt
    rw [if_pos hlt]
    refine h.reads_field (by omega) hfield ⟨?_, fun _ _ => trivial⟩
    have hpos : 0 < min (filesz - pageOff) PAGE_SIZE := by
      unfold PAGE_SIZE
      omega
    rw [Nat.add_assoc]
    exact (inImage_iff h.fits hpos).mpr hbytes
  · rw [if_neg hlt]
    trivial

theorem pageInside_of_copyPage (h : Staged k data file size) {pageOff phys : Nat} {r : Unit × Kernel}
    (hr : k.run (copyPage data phdr filesz pageOff phys) = .ok r)
    (hreads : (copyPage data phdr filesz pageOff phys).Reads (InImage data size) k) :
    PageInside file size phdr filesz pageOff := by
  intro hlt
  unfold copyPage at hr hreads
  rw [if_pos hlt] at hr hreads
  obtain ⟨hfield, hreads, -⟩ := h.of_reads_field (by omega) hr hreads
  have hpos : 0 < min (filesz - pageOff) PAGE_SIZE := by
    unfold PAGE_SIZE
    omega
  have hsource := hreads.1
  rw [Nat.add_assoc] at hsource
  exact ⟨hfield, (inImage_iff h.fits hpos).mp hsource⟩

theorem loadPage_reads (hp : Paged k) (h : Staged k data file size)
    (hin : PageInside file size phdr filesz (u32 (page * PAGE_SIZE))) :
    (loadPage data phdr vaddr filesz page).Reads (InImage data size) k := by
  refine (reads_bind _ _ k).mpr ⟨fun _ _ => trivial, fun mid hmid => ?_⟩
  have hstaged := h.keep (hp.allocateBlock_ok (run_allocate hmid)).1.keeps
  by_cases hz : mid.1 = 0
  · rw [if_pos hz]
    trivial
  · rw [if_neg hz]
    refine (reads_bind _ _ _).mpr ⟨copyPage_reads hstaged hin, fun _ _ => ?_⟩
    exact fun _ _ => trivial

theorem pageInside_of_loadPage (hp : Paged k) (h : Staged k data file size)
    (hr : k.run (loadPage data phdr vaddr filesz page) = .ok (true, k'))
    (hreads : (loadPage data phdr vaddr filesz page).Reads (InImage data size) k) :
    PageInside file size phdr filesz (u32 (page * PAGE_SIZE)) := by
  obtain ⟨mid, halloc, hrest⟩ := exists_of_run_bind hr
  have hstaged := h.keep (hp.allocateBlock_ok (run_allocate halloc)).1.keeps
  obtain ⟨-, hreads⟩ := (reads_bind_ok halloc _).mp hreads
  by_cases hz : mid.1 = 0
  · rw [if_pos hz] at hrest
    cases hrest
  · rw [if_neg hz] at hrest hreads
    obtain ⟨copied, hcopy, -⟩ := exists_of_run_bind hrest
    exact pageInside_of_copyPage hstaged hcopy ((reads_bind_ok hcopy _).mp hreads).1

end Page

section Segments

variable {phdr vaddr filesz rounds i loaded : Nat} {pages : List Nat}

theorem loadPages_reads (hp : Paged k) (h : Staged k data file size)
    (hin : ∀ page ∈ pages, PageInside file size phdr filesz (u32 (page * PAGE_SIZE))) :
    (loadPages data phdr vaddr filesz pages).Reads (InImage data size) k := by
  induction pages generalizing k with
  | nil => trivial
  | cons page pages ih =>
      obtain ⟨hpage, hpages⟩ := List.forall_mem_cons.mp hin
      refine (reads_bind _ _ k).mpr ⟨loadPage_reads hp h hpage, fun mid hmid => ?_⟩
      obtain ⟨hp', hkeeps⟩ := loadPage_keeps hp hmid
      split
      · exact ih hp' (h.keep hkeeps) hpages
      · trivial

-- Frames in use are kept, whatever is loaded.
theorem keeps_composes : Composes fun _ k k' => Keeps k k' := ⟨Keeps.refl, Keeps.trans⟩

theorem loadPage_relates (data phdr vaddr filesz page : Nat) :
    Relates (fun _ _ _ => True) (fun _ k k' => Keeps k k') (loadPage data phdr vaddr filesz page) :=
  fun _ _ hp hr => loadPage_keeps hp hr

theorem loadPages_keeps (hp : Paged k) {r : Bool × Kernel}
    (hr : k.run (loadPages data phdr vaddr filesz pages) = .ok r) : Paged r.2 ∧ Keeps k r.2 :=
  loadPages_relates keeps_composes (loadPage_relates data) phdr vaddr filesz pages k r hp hr

theorem loadSegments_keeps (hp : Paged k) {r : Option Nat × Kernel}
    (hr : k.run (loadSegments data rounds i loaded) = .ok r) : Paged r.2 ∧ Keeps k r.2 :=
  loadSegments_relates keeps_composes (loadPage_relates data) rounds i loaded k r hp hr

theorem pageInside_of_loadPages (hp : Paged k) (h : Staged k data file size)
    (hr : k.run (loadPages data phdr vaddr filesz pages) = .ok (true, k'))
    (hreads : (loadPages data phdr vaddr filesz pages).Reads (InImage data size) k) :
    ∀ page ∈ pages, PageInside file size phdr filesz (u32 (page * PAGE_SIZE)) := by
  induction pages generalizing k with
  | nil => exact List.forall_mem_nil _
  | cons page pages ih =>
      obtain ⟨⟨complete, mid⟩, hpage, hrest⟩ := exists_of_run_bind hr
      obtain ⟨hp', hkeeps⟩ := loadPage_keeps hp hpage
      obtain ⟨hfirst, hreads⟩ := (reads_bind_ok hpage _).mp hreads
      cases complete with
      | false => cases hrest
      | true =>
          exact List.forall_mem_cons.mpr
            ⟨pageInside_of_loadPage hp h hpage hfirst, ih hp' (h.keep hkeeps) hrest hreads⟩

theorem fieldOf_low {offset count : Nat} (hlt : offset < 4294967296) :
    fieldOf file offset count = number file offset count := by
  rw [fieldOf, u32_of_lt hlt]

theorem loadSegments_reads (hp : Paged k) (h : Staged k data file size) (hsize : 46 ≤ size)
    (hin : ∀ j, i ≤ j → j < phnum file → SegmentInside file size j) :
    (loadSegments data rounds i loaded).Reads (InImage data size) k := by
  induction rounds generalizing k i loaded with
  | zero => trivial
  | succ rounds ih =>
      have hafter : ∀ j, i + 1 ≤ j → j < phnum file → SegmentInside file size j :=
        fun j hj => hin j (Nat.le_of_succ_le hj)
      refine h.reads_field (by omega) (show FieldInside size 44 2 from hsize) ?_
      rw [fieldOf_low (by omega)]
      by_cases hend : i ≥ number file 44 2
      · rw [if_pos hend]
        trivial
      rw [if_neg hend]
      obtain ⟨htype, hload⟩ := hin i (Nat.le_refl i) (Nat.not_le.mp hend)
      refine h.reads_field (by omega) (show FieldInside size 28 4 from Nat.le_trans (by decide) hsize) ?_
      refine h.reads_field (by omega) (show FieldInside size 42 2 from Nat.le_trans (by decide) hsize) ?_
      rw [fieldOf_low (by omega), fieldOf_low (by omega)]
      refine h.reads_field (by omega) htype ?_
      change (if fieldOf file (phdrOffset file i) 4 ≠ PT_LOAD then loadSegments data rounds (i + 1) loaded
        else _).Reads (InImage data size) k
      by_cases hskip : fieldOf file (phdrOffset file i) 4 ≠ PT_LOAD
      · rw [if_pos hskip]
        exact ih hp h hafter
      rw [if_neg hskip]
      obtain ⟨hvaddr, hfilesz, hmemsz, hpages⟩ := hload (not_not.mp hskip)
      refine h.reads_field (by omega) hvaddr ?_
      refine h.reads_field (by omega) hfilesz ?_
      refine h.reads_field (by omega) hmemsz ?_
      refine (reads_bind _ _ k).mpr ⟨loadPages_reads hp h fun page hpage => ?_, fun mid hmid => ?_⟩
      · exact hpages page (List.mem_range.mp hpage)
      · obtain ⟨hp', hkeeps⟩ := loadPages_keeps hp hmid
        split
        · exact ih hp' (h.keep hkeeps) hafter
        · trivial

-- A loop that is over without running out of memory has come to every header.
theorem segmentInside_of_reads (hp : Paged k) (h : Staged k data file size) {count : Nat}
    (hr : k.run (loadSegments data rounds i loaded) = .ok (some count, k'))
    (hreads : (loadSegments data rounds i loaded).Reads (InImage data size) k) :
    (0 < rounds → 46 ≤ size) ∧ ∀ j, i ≤ j → j < i + rounds → j < phnum file → SegmentInside file size j := by
  induction rounds generalizing k i loaded with
  | zero => exact ⟨nofun, fun j hle hlt => by omega⟩
  | succ rounds ih =>
      obtain ⟨hsize, hreads, hr⟩ := h.of_reads_field (by omega) hr hreads
      refine ⟨fun _ => hsize, fun j hle hlt hj => ?_⟩
      rw [fieldOf_low (by omega)] at hreads hr
      by_cases hend : i ≥ number file 44 2
      · exact absurd (Nat.lt_of_lt_of_le hj hend) (Nat.not_lt.mpr hle)
      rw [if_neg hend] at hreads hr
      obtain ⟨-, hreads, hr⟩ := h.of_reads_field (by omega) hr hreads
      obtain ⟨-, hreads, hr⟩ := h.of_reads_field (by omega) hr hreads
      rw [fieldOf_low (by omega), fieldOf_low (by omega)] at hreads hr
      obtain ⟨htype, hreads, hr⟩ := h.of_reads_field (by omega) hr hreads
      change (if fieldOf file (phdrOffset file i) 4 ≠ PT_LOAD then loadSegments data rounds (i + 1) loaded
        else _).Reads (InImage data size) k at hreads
      change k.run (if fieldOf file (phdrOffset file i) 4 ≠ PT_LOAD then
        loadSegments data rounds (i + 1) loaded else _) = _ at hr
      by_cases hskip : fieldOf file (phdrOffset file i) 4 ≠ PT_LOAD
      · rw [if_pos hskip] at hreads hr
        rcases Nat.lt_or_ge i j with hlater | hnow
        · exact (ih hp h hr hreads).2 j hlater (by omega) hj
        · obtain rfl := Nat.le_antisymm hnow hle
          exact ⟨htype, fun hload => absurd hload hskip⟩
      rw [if_neg hskip] at hreads hr
      obtain ⟨hvaddr, hreads, hr⟩ := h.of_reads_field (by omega) hr hreads
      obtain ⟨hfilesz, hreads, hr⟩ := h.of_reads_field (by omega) hr hreads
      obtain ⟨hmemsz, hreads, hr⟩ := h.of_reads_field (by omega) hr hreads
      obtain ⟨⟨complete, mid⟩, hpages, hrest⟩ := exists_of_run_bind hr
      obtain ⟨hfirst, hreads⟩ := (reads_bind_ok hpages _).mp hreads
      cases complete with
      | false => cases hrest
      | true =>
          obtain ⟨hp', hkeeps⟩ := loadPages_keeps hp hpages
          rcases Nat.lt_or_ge i j with hlater | hnow
          · exact (ih hp' (h.keep hkeeps) hrest hreads).2 j hlater (by omega) hj
          · obtain rfl := Nat.le_antisymm hnow hle
            refine ⟨htype, fun _ => ⟨hvaddr, hfilesz, hmemsz, fun page hpage => ?_⟩⟩
            exact pageInside_of_loadPages hp h hpages hfirst page (List.mem_range.mpr hpage)

end Segments

section Load

variable {next : Client Result} {rest : Prop} {list : List Check}

theorem checkAll_reads (h : Staged k data file size)
    (hlist : ∀ check ∈ list, check.offset < 4294967296 ∧ 0 < check.count)
    (hin : ChecksInside file size rest list) (hnext : rest → next.Reads (InImage data size) k) :
    (checkAll data next list).Reads (InImage data size) k := by
  induction list with
  | nil => exact hnext hin
  | cons check list ih =>
      obtain ⟨⟨hlow, hpos⟩, hlist⟩ := List.forall_mem_cons.mp hlist
      obtain ⟨hfield, hrest⟩ := hin
      refine h.reads_field hpos (by rwa [FieldInside, u32_of_lt hlow]) ?_
      rw [fieldOf_low hlow]
      by_cases hfail : number file check.offset check.count ≠ check.expected
      · rw [if_pos hfail]
        trivial
      · rw [if_neg hfail]
        exact ih hlist (hrest (not_not.mp hfail))

theorem checksInside_of_reads (h : Staged k data file size)
    (hlist : ∀ check ∈ list, check.offset < 4294967296 ∧ 0 < check.count) {r : Result × Kernel}
    (hr : k.run (checkAll data next list) = .ok r)
    (hreads : (checkAll data next list).Reads (InImage data size) k)
    (hrest : next.Reads (InImage data size) k → k.run next = .ok r → rest) :
    ChecksInside file size rest list := by
  induction list with
  | nil => exact hrest hreads hr
  | cons check list ih =>
      obtain ⟨⟨hlow, hpos⟩, hlist⟩ := List.forall_mem_cons.mp hlist
      obtain ⟨hfield, hreads, hr⟩ := h.of_reads_field hpos hr hreads
      rw [fieldOf_low hlow] at hreads hr
      refine ⟨by rwa [FieldInside, u32_of_lt hlow] at hfield, fun hpass => ?_⟩
      rw [if_neg (not_not_intro hpass)] at hreads hr
      exact ih hlist hr hreads

theorem checks_low : ∀ check ∈ checks, check.offset < 4294967296 ∧ 0 < check.count := by
  decide

theorem elfLoad_reads (hp : Paged k) (h : Staged k data file size) (hin : ImageInside file size) :
    (elfLoad data).Reads (InImage data size) k := by
  rw [elfLoad_eq]
  refine checkAll_reads h checks_low hin fun ⟨hsize, hsegments⟩ => ?_
  refine (reads_bind _ _ k).mpr ⟨loadSegments_reads hp h hsize fun j _ => hsegments j, fun mid hmid => ?_⟩
  obtain ⟨-, hkeeps⟩ := loadSegments_keeps hp hmid
  match mid.1 with
  | none => trivial
  | some 0 => trivial
  | some (_ + 1) =>
      exact (h.keep hkeeps).reads_field (by omega)
        (show FieldInside size 24 4 from Nat.le_trans (by decide) hsize) trivial

theorem imageInside_of_reads (hp : Paged k) (h : Staged k data file size) {result : Result}
    (hr : k.run (elfLoad data) = .ok (result, k')) (hoom : result ≠ .errOom)
    (hreads : (elfLoad data).Reads (InImage data size) k) : ImageInside file size := by
  rw [elfLoad_eq] at hr hreads
  refine checksInside_of_reads h checks_low hr hreads fun hreads hr => ?_
  obtain ⟨⟨loaded, mid⟩, hloop, hfinish⟩ := exists_of_run_bind hr
  cases loaded with
  | none =>
      cases hfinish
      exact absurd rfl hoom
  | some loaded =>
      obtain ⟨hsize, hsegments⟩ := segmentInside_of_reads hp h hloop ((reads_bind_ok hloop _).mp hreads).1
      have hphnum := phnum_lt file
      exact ⟨hsize (by omega), fun i hi => hsegments i (Nat.zero_le i) (by omega) hi⟩

-- The size of the module is not known to the loader. It stays inside the image if the fields
-- of the image keep it there; and no run that comes to its end with the memory it asked for
-- stays inside otherwise.
theorem elfLoad_reads_iff (hp : Paged k) (h : Staged k data file size) :
    (ImageInside file size → (elfLoad data).Reads (InImage data size) k) ∧
      ∀ result k', k.run (elfLoad data) = .ok (result, k') → result ≠ .errOom →
        ((elfLoad data).Reads (InImage data size) k ↔ ImageInside file size) :=
  ⟨elfLoad_reads hp h, fun _ _ hr hoom => ⟨imageInside_of_reads hp h hr hoom, elfLoad_reads hp h⟩⟩

end Load

section Sample

theorem elfLoad_reads_iff_sample :
    (ImageInside (sampleFile 0x400000 0 84) 84 →
        (elfLoad 0x50000).Reads (InImage 0x50000 84) (sampleKernel (sampleFile 0x400000 0 84))) ∧
      ∀ result k', (sampleKernel (sampleFile 0x400000 0 84)).run (elfLoad 0x50000) = .ok (result, k') →
        result ≠ .errOom →
        ((elfLoad 0x50000).Reads (InImage 0x50000 84) (sampleKernel (sampleFile 0x400000 0 84)) ↔
          ImageInside (sampleFile 0x400000 0 84) 84) := by
  obtain ⟨directory, low, high, hl, -, -, hst⟩ := kernel_sample (sampleFile 0x400000 0 84)
  exact elfLoad_reads_iff (paged_sample _) hst

theorem Staged.mono {size' : Nat} (h : Staged k data file size) (hle : size' ≤ size) :
    Staged k data file size' :=
  ⟨by have hfits := h.fits; omega, fun i hi => h.bytes i (by omega), fun i hi => h.owned i (by omega)⟩

-- A module of 60 bytes, which are the start of that file: the loader takes the rest of the
-- program header, and of the segment, from behind it.
theorem not_elfLoad_reads_truncated :
    Staged (sampleKernel (sampleFile 0x400000 0 84)) 0x50000 (sampleFile 0x400000 0 84) 60 ∧ ∃ k',
      (sampleKernel (sampleFile 0x400000 0 84)).run (elfLoad 0x50000) = .ok (.ok 0x400000, k') ∧
        ¬(elfLoad 0x50000).Reads (InImage 0x50000 60) (sampleKernel (sampleFile 0x400000 0 84)) := by
  obtain ⟨directory, low, high, hl, -, -, hst⟩ := kernel_sample (sampleFile 0x400000 0 84)
  have hvaddr : (phdr (sampleFile 0x400000 0 84) 0).vaddr = 0x400000 := by decide +kernel
  have hentry : number (sampleFile 0x400000 0 84) 24 4 = 0x400000 := by decide +kernel
  obtain ⟨k', hrun, -⟩ := load_sample onePage_sample (by rw [hvaddr]; decide) (by rw [hvaddr]; decide)
  rw [hentry] at hrun
  have hstaged := hst.mono (show 60 ≤ 84 by omega)
  refine ⟨hstaged, k', hrun, fun hreads => ?_⟩
  have hin := imageInside_of_reads (paged_sample _) hstaged hrun nofun hreads
  have hno : ¬ImageInside (sampleFile 0x400000 0 84) 60 := by decide +kernel
  exact hno hin

end Sample

end Elf

end ToyKernel
