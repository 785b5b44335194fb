import ToyKernel.Elf

namespace ToyKernel

namespace Client

variable {α β : Type}

-- The pages of a block that was handed out.
def pagesOf (a : Pmm.Allocation) (phys : Nat) : List Nat :=
  if phys = 0 then [] else
    match a with
    | .block size => (List.range size).map fun i => phys + i * PAGE_SIZE
    | _ => []

@[simp] theorem pagesOf_zero (a : Pmm.Allocation) : pagesOf a 0 = [] := if_pos rfl

@[simp] theorem pagesOf_chunk (phys : Nat) : pagesOf .chunk phys = [] := by simp [pagesOf]

@[simp] theorem pagesOf_byte (size phys : Nat) : pagesOf (.byte size) phys = [] := by simp [pagesOf]

-- A client that copies only into the pages `held` or into blocks it was handed itself.
def WritesOwn : List Nat → Client α → Prop
  | _, done _ => True
  | held, read _ _ next => ∀ value, WritesOwn held (next value)
  | held, copy phys _ count next =>
      (∃ page ∈ held, page ≤ phys ∧ phys + count ≤ page + PAGE_SIZE) ∧ WritesOwn held (next ())
  | held, allocate a next => ∀ phys, WritesOwn (pagesOf a phys ++ held) (next phys)
  | held, getPage _ next => ∀ page, WritesOwn held (next page)
  | held, mapPage _ _ next => ∀ ok, WritesOwn held (next ok)
  | held, mapPageUser _ _ next => ∀ ok, WritesOwn held (next ok)

theorem WritesOwn.bind {held : List Nat} {c : Client α} {f : α → Client β} (h : WritesOwn held c)
    (hf : ∀ held' a, held ⊆ held' → WritesOwn held' (f a)) : WritesOwn held (c >>= f) := by
  induction c generalizing held with
  | done a => exact hf held a fun _ hp => hp
  | read address count next ih => exact fun value => ih value (h value) hf
  | copy phys source count next ih => exact ⟨h.1, ih () h.2 hf⟩
  | allocate a next ih =>
      intro phys
      apply ih phys (h phys)
      intro held' value hsub
      exact hf held' value fun p hp => hsub (List.mem_append_right _ hp)
  | getPage virt next ih => exact fun page => ih page (h page) hf
  | mapPage phys virt next ih => exact fun ok => ih ok (h ok) hf
  | mapPageUser phys virt next ih => exact fun ok => ih ok (h ok) hf

theorem WritesOwn.ite {held : List Nat} {p : Prop} [Decidable p] {c d : Client α}
    (hc : p → WritesOwn held c) (hd : ¬p → WritesOwn held d) :
    WritesOwn held (if p then c else d) := by
  split
  · exact hc ‹p›
  · exact hd ‹¬p›

end Client

namespace Elf

open Client

-- Reading a field writes nothing.
theorem writesOwn_field {held : List Nat} {α : Type} {f : Nat → Client α}
    (h : ∀ value, WritesOwn held (f value)) (data offset count : Nat) :
    WritesOwn held (field data offset count >>= f) := h

theorem copyPage_writesOwn {held : List Nat} {phys : Nat} (hphys : phys ∈ held)
    (data phdr filesz pageOff : Nat) : WritesOwn held (copyPage data phdr filesz pageOff phys) := by
  apply WritesOwn.ite
  · intro _ offset
    exact ⟨⟨phys, hphys, Nat.le_refl _, Nat.add_le_add_left (Nat.min_le_right _ _) phys⟩, trivial⟩
  · intro _
    trivial

-- The loader fills the frame it has just been given, and no more than one page of it.
theorem loadPage_writesOwn (held : List Nat) (data phdr vaddr filesz page : Nat) :
    WritesOwn held (loadPage data phdr vaddr filesz page) := by
  intro phys
  apply WritesOwn.ite
  · intro _
    trivial
  · intro hz
    have hphys : phys ∈ pagesOf (.block 1) phys ++ held := by simp [pagesOf, hz]
    apply (copyPage_writesOwn hphys data phdr filesz _).bind
    intro held' _ _ ok
    trivial

theorem loadPages_writesOwn (held : List Nat) (data phdr vaddr filesz : Nat) (pages : List Nat) :
    WritesOwn held (loadPages data phdr vaddr filesz pages) := by
  induction pages generalizing held with
  | nil => trivial
  | cons page pages ih =>
      apply (loadPage_writesOwn held data phdr vaddr filesz page).bind
      intro held' loaded _
      apply WritesOwn.ite
      · intro _
        exact ih held'
      · intro _
        trivial

theorem loadSegments_writesOwn (held : List Nat) (data rounds i loaded : Nat) :
    WritesOwn held (loadSegments data rounds i loaded) := by
  induction rounds generalizing held i loaded with
  | zero => trivial
  | succ rounds ih =>
      apply writesOwn_field
      intro phnum
      apply WritesOwn.ite
      · intro _
        trivial
      intro _ phoff phentsize type
      apply WritesOwn.ite
      · intro _
        exact ih held (i + 1) loaded
      · intro _ vaddr filesz memsz
        apply (loadPages_writesOwn held data _ vaddr filesz _).bind
        intro held' complete _
        apply WritesOwn.ite
        · intro _
          exact ih held' (i + 1) (loaded + 1)
        · intro _
          trivial

theorem elfLoad_writesOwn (held : List Nat) (data : Nat) : WritesOwn held (elfLoad data) := by
  unfold elfLoad
  -- the checks of the header
  repeat
    apply writesOwn_field
    intro value
    apply WritesOwn.ite
    · intro _
      trivial
    intro _
  apply (loadSegments_writesOwn held data 65536 0 0).bind
  intro held' result _
  match result with
  | none => trivial
  | some 0 => trivial
  | some (_ + 1) =>
      intro entry
      trivial

end Elf

end ToyKernel
