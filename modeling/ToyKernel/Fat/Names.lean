import ToyKernel.Fat
import Mathlib.Data.List.Basic

namespace ToyKernel.Fat

-- A byte that may stand in an 8.3 name: no lower-case letter, space, dot or NUL
def IsPlain (c : UInt8) : Prop := ¬(0x61 ≤ c ∧ c ≤ 0x7A) ∧ c ≠ SPACE ∧ c ≠ DOT ∧ c ≠ 0

structure ShortName where
  base : List UInt8
  ext : List UInt8
  base_pos : 1 ≤ base.length
  base_le : base.length ≤ 8
  ext_le : ext.length ≤ 3
  base_plain : ∀ c ∈ base, IsPlain c
  ext_plain : ∀ c ∈ ext, IsPlain c

section Padding

variable {width : Nat} {bytes : List UInt8}

theorem length_padTo (h : bytes.length ≤ width) : (padTo width bytes).length = width := by
  rw [padTo, List.length_append, List.length_replicate]
  omega

-- A loop that stops at a space stops where the padding begins.
theorem takeWhile_padTo (h : ∀ c ∈ bytes, IsPlain c) : (padTo width bytes).takeWhile (· ≠ SPACE) = bytes := by
  have hpass : ∀ c ∈ bytes, decide (c ≠ SPACE) = true := fun c hc => decide_eq_true (h c hc).2.1
  have hstop : decide (SPACE ≠ SPACE) = false := by decide
  rw [padTo, List.takeWhile_append_of_pos hpass, List.takeWhile_replicate, hstop]
  exact List.append_nil bytes

theorem map_toupper (h : ∀ c ∈ bytes, IsPlain c) : bytes.map toupper = bytes :=
  (List.map_congr_left fun c hc => if_neg (h c hc).1).trans (List.map_id bytes)

end Padding

namespace ShortName

variable (n : ShortName)

-- The eleven bytes of the directory entry, and the text for them
def onDisk : List UInt8 := padTo 8 n.base ++ padTo 3 n.ext

def text : List UInt8 := n.base ++ DOT :: n.ext

theorem dot_notMem_base : DOT ∉ n.base := fun h => (n.base_plain DOT h).2.2.1 rfl

theorem zero_notMem_text : 0 ∉ n.text := by
  intro h
  rcases List.mem_append.mp h with hbase | htail
  · exact (n.base_plain 0 hbase).2.2.2 rfl
  · rcases List.mem_cons.mp htail with hdot | hext
    · exact absurd hdot (by decide)
    · exact (n.ext_plain 0 hext).2.2.2 rfl

-- The printing loops run up to the padding of either field.
theorem listing_eq {entry : DirectoryEntry} (hname : entry.name = n.onDisk)
    (hfile : entry.attributes &&& FAT_ATTRIBUTE_DIRECTORY = 0) :
    State.listing entry = n.text ++ [0x0A] := by
  have hbase : entry.name.take 8 = padTo 8 n.base := by
    rw [hname]
    exact List.take_left' (length_padTo n.base_le)
  have hext : (entry.name.drop 8).take 3 = padTo 3 n.ext := by
    rw [hname, onDisk, List.drop_left' (length_padTo n.base_le)]
    exact List.take_of_length_le (Nat.le_of_eq (length_padTo n.ext_le))
  rw [State.listing, if_pos hfile, hbase, hext, takeWhile_padTo n.base_plain, takeWhile_padTo n.ext_plain,
    text]

-- The dot is found behind the base, which is never eleven bytes long.
theorem fatName_text : fatName n.text = n.onDisk := by
  have hmem : DOT ∈ n.text := List.mem_append_right _ List.mem_cons_self
  have hidx : n.text.idxOf DOT = n.base.length := by
    rw [text, List.idxOf_append_of_notMem n.dot_notMem_base, List.idxOf_cons_self, Nat.add_zero]
  have hle := n.base_le
  have hbase : n.text.take (min 8 n.base.length) = n.base := by
    rw [Nat.min_eq_right hle]
    exact List.take_left
  have hext : (n.text.drop (n.base.length + 1)).take 3 = n.ext := by
    rw [text, ← List.drop_drop, List.drop_left, List.drop_one, List.tail_cons]
    exact List.take_of_length_le n.ext_le
  unfold fatName
  simp only [if_pos hmem, hidx, hbase, hext, if_pos (show n.base.length ≠ 11 by omega),
    map_toupper n.base_plain, map_toupper n.ext_plain]
  rfl

end ShortName

-- The line printed for a file is a C string that FAT_FindFile turns into the bytes of the entry.
theorem fatName_listing (n : ShortName) (entry : DirectoryEntry) (hname : entry.name = n.onDisk)
    (hfile : entry.attributes &&& FAT_ATTRIBUTE_DIRECTORY = 0) :
    ∃ text, State.listing entry = text ++ [0x0A] ∧ 0 ∉ text ∧ fatName text = entry.name :=
  ⟨n.text, n.listing_eq hname hfile, n.zero_notMem_text, n.fatName_text.trans hname.symm⟩

section Sample

-- "AB.C"
def shortSample : ShortName where
  base := [0x41, 0x42]
  ext := [0x43]
  base_pos := by decide
  base_le := by decide
  ext_le := by decide
  base_plain := by unfold IsPlain; decide +kernel
  ext_plain := by unfold IsPlain; decide +kernel

def shortEntry : DirectoryEntry where
  name := shortSample.onDisk
  attributes := 0x20
  firstClusterHigh := 0
  firstClusterLow := 2
  size := 0

theorem fatName_listing_sample :
    ∃ text, State.listing shortEntry = text ++ [0x0A] ∧ 0 ∉ text ∧ fatName text = shortEntry.name :=
  fatName_listing shortSample shortEntry rfl (by decide)

end Sample

end ToyKernel.Fat
