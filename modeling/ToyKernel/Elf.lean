import ToyKernel.Client

namespace ToyKernel.Elf

open Client

def ELFMAG0 : Nat := 0x7F
def ELFMAG1 : Nat := 0x45
def ELFMAG2 : Nat := 0x4C
def ELFMAG3 : Nat := 0x46
def ELFCLASS32 : Nat := 1
def ET_EXEC : Nat := 2
def PT_LOAD : Nat := 1

-- The return codes of elf_load; a success comes with the entry point.
inductive Result where
  | ok (entry : Nat)
  | errMagic
  | errClass
  | errType
  | errNoLoad
  | errOom
  deriving DecidableEq

-- A field of the image at `data`. The image is read anew wherever the source does so:
-- the loader writes memory in between.
def field (data offset count : Nat) : Client Nat := read (u32 (data + offset)) count done

-- The bytes that the file has for the page of a segment at `pageOff`.
def copyPage (data phdr filesz pageOff phys : Nat) : Client Unit :=
  if pageOff < filesz then do
    let offset ← field data (phdr + 4) 4
    copy phys (u32 (data + offset + pageOff)) (min (filesz - pageOff) PAGE_SIZE) done
  else return ()

-- One page of a segment: a fresh frame, its bytes from the file, and the mapping, whose
-- result is not looked at. `false` is "out of physical memory".
def loadPage (data phdr vaddr filesz page : Nat) : Client Bool := do
  let phys ← allocate (.block 1) done
  if phys = 0 then return false
  let pageOff := u32 (page * PAGE_SIZE)
  copyPage data phdr filesz pageOff phys
  let _ ← mapPageUser (BitVec.ofNat 32 phys) (BitVec.ofNat 32 (vaddr + pageOff)) done
  return true

def loadPages (data phdr vaddr filesz : Nat) : List Nat → Client Bool
  | [] => return true
  | page :: pages => do
      if ← loadPage data phdr vaddr filesz page then loadPages data phdr vaddr filesz pages
      else return false

-- The loop over the program headers from header `i` on, with `loaded` segments done;
-- `none` is a failure. There are at most 65535 headers.
def loadSegments (data : Nat) : (rounds i loaded : Nat) → Client (Option Nat)
  | 0, _, loaded => return some loaded
  | rounds + 1, i, loaded => do
      let phnum ← field data 44 2
      if i ≥ phnum then return some loaded
      let phoff ← field data 28 4
      let phentsize ← field data 42 2
      let phdr := phoff + i * phentsize
      let type ← field data phdr 4
      if type ≠ PT_LOAD then loadSegments data rounds (i + 1) loaded
      else
        let vaddr ← field data (phdr + 8) 4
        let filesz ← field data (phdr + 16) 4
        let memsz ← field data (phdr + 20) 4
        let numPages := u32 (memsz + PAGE_SIZE - 1) / PAGE_SIZE
        if ← loadPages data phdr vaddr filesz (List.range numPages) then
          loadSegments data rounds (i + 1) (loaded + 1)
        else return none

def elfLoad (data : Nat) : Client Result := do
  if (← field data 0 1) ≠ ELFMAG0 then return .errMagic
  if (← field data 1 1) ≠ ELFMAG1 then return .errMagic
  if (← field data 2 1) ≠ ELFMAG2 then return .errMagic
  if (← field data 3 1) ≠ ELFMAG3 then return .errMagic
  if (← field data 4 1) ≠ ELFCLASS32 then return .errClass
  if (← field data 16 2) ≠ ET_EXEC then return .errType
  match ← loadSegments data 65536 0 0 with
  | none => return .errOom
  | some 0 => return .errNoLoad
  | some _ => return .ok (← field data 24 4)

end ToyKernel.Elf
