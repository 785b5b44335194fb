import ToyKernel.Fat.Area
import ToyKernel.Fat.Walk

namespace ToyKernel.Fat

-- The loop of FAT_Read, where what stands behind the area changes with the transfers: it is not the
-- driver's, and the bytes that are read may go there.
def Reader.readLoopIn (memory : Nat → Behind) (v : Volume) (handle : Handle) :
    (rounds byteCount : Nat) → Reader → List UInt8 × Reader
  | 0, _, r => ([], r)
  | rounds + 1, byteCount, r =>
      if byteCount = 0 then ([], r)
      else
        let take := min byteCount r.leftInBuffer
        let bytes := r.copy take
        let (goOn, r') :=
          if r.leftInBuffer = take then (r.skip take).nextSector (v.inMemory (memory r.calls)) handle
          else (true, r.skip take)
        if goOn then
          let (rest, r'') := readLoopIn memory v handle rounds (byteCount - take) r'
          (bytes ++ rest, r'')
        else (bytes, r')

def State.readIn (memory : Nat → Behind) (s : State) (handle : Handle) (byteCount : Nat) :
    List UInt8 × State :=
  let fd := s.file handle
  let count := fd.clamp byteCount
  let (bytes, r) := Reader.readLoopIn memory s.volume handle count count { fd, calls := s.calls }
  (bytes, { s.setFile handle r.fd with calls := r.calls })

-- The record stands in the first sector of its file, and `t` transfers have been made.
structure Reader.AtFirst (t : Nat) (r : Reader) : Prop where
  sector : r.fd.currentSectorInCluster = 0
  position : r.fd.position < 512
  calls : r.calls = t

-- The file has come to its end right behind its first sector.
structure FileData.Ended (fd : FileData) : Prop where
  size : fd.size = 512
  position : fd.position = 512

-- The FAT is read in the driver's memory from here on, except perhaps once, after `t` transfers.
def Reader.Settled (t : Nat) (r : Reader) : Prop :=
  InArea r.fd.currentCluster ∨ r.AtFirst t ∨ r.fd.Ended

section Reader

variable {memory : Nat → Behind} {v w : Volume} {slot : Fin 10} {rounds count t : Nat} {r : Reader}

theorem FileData.Ended.clamp {fd : FileData} (h : fd.Ended) (byteCount : Nat) : fd.clamp byteCount = 0 := by
  have hsize : fd.size ≠ 0 := by
    rw [h.size]
    decide
  rw [FileData.clamp, if_pos (.inr hsize), h.size, h.position]
  exact Nat.min_zero byteCount

theorem Reader.readLoopIn_zero (rounds : Nat) (r : Reader) :
    Reader.readLoopIn memory v (.file slot) rounds 0 r = ([], r) := by
  cases rounds <;> simp [Reader.readLoopIn]

theorem Reader.readLoopIn_inside (rounds : Nat) (r : Reader) (hpos : 0 < count) (hin : count < r.leftInBuffer) :
    Reader.readLoopIn memory v (.file slot) (rounds + 1) count r = (r.copy count, r.skip count) := by
  have hz : count ≠ 0 := by omega
  have hne : r.leftInBuffer ≠ count := by omega
  simp only [Reader.readLoopIn, hz, hne, ite_false, Nat.min_eq_left (Nat.le_of_lt hin), ite_true,
    Nat.sub_self, Reader.readLoopIn_zero, List.append_nil]

theorem Reader.readLoopIn_across (rounds : Nat) (r r' : Reader) (goOn : Bool) (hpos : 0 < r.leftInBuffer)
    (hout : r.leftInBuffer ≤ count)
    (hn : (r.skip r.leftInBuffer).nextSector (v.inMemory (memory r.calls)) (.file slot) = (goOn, r')) :
    Reader.readLoopIn memory v (.file slot) (rounds + 1) count r =
      if goOn then
        (r.copy r.leftInBuffer ++
            (Reader.readLoopIn memory v (.file slot) rounds (count - r.leftInBuffer) r').1,
          (Reader.readLoopIn memory v (.file slot) rounds (count - r.leftInBuffer) r').2)
      else (r.copy r.leftInBuffer, r') := by
  have hz : count ≠ 0 := by omega
  simp only [Reader.readLoopIn, hz, ite_false, Nat.min_eq_right hout, ite_true, hn]

theorem nextSector_sameArea (harea : SameArea v w) (hin : InArea r.fd.currentCluster) :
    r.nextSector v (.file slot) = r.nextSector w (.file slot) := by
  unfold Reader.nextSector Reader.load
  simp only [harea.bootSector, harea.nextCluster hin, harea.clusterToLba, harea.disk]

theorem nextSector_inArea (v : Volume) (slot : Fin 10) (r : Reader) (hin : InArea r.fd.currentCluster) :
    InArea (r.nextSector v (.file slot)).2.fd.currentCluster := by
  have hnext := inArea_nextCluster v r.fd.currentCluster
  unfold Reader.nextSector
  dsimp only
  split
  · split <;> exact hnext
  · split <;> exact hin

-- Any step leads into the area, or to the end of the file.
theorem nextSector_lands (v : Volume) (slot : Fin 10) (r : Reader) :
    InArea (r.nextSector v (.file slot)).2.fd.currentCluster ∨
      ((r.nextSector v (.file slot)).1 = false ∧ (r.nextSector v (.file slot)).2.fd.size = r.fd.position ∧
        (r.nextSector v (.file slot)).2.fd.position = r.fd.position) := by
  obtain ⟨p, -, hnext⟩ := nextSector_advance v slot r
  rw [hnext]
  by_cases hend : p.cluster ≥ 0xFF8
  · rw [if_pos hend]
    exact .inr ⟨rfl, rfl, rfl⟩
  · rw [if_neg hend]
    exact .inl (inArea_of_lt (by change p.cluster < 4096; omega))

theorem Reader.AtFirst.nextSector (h : r.AtFirst t) (v : Volume) (slot : Fin 10) :
    InArea ((r.skip r.leftInBuffer).nextSector v (.file slot)).2.fd.currentCluster ∨
      (((r.skip r.leftInBuffer).nextSector v (.file slot)).1 = false ∧
        ((r.skip r.leftInBuffer).nextSector v (.file slot)).2.fd.Ended) := by
  have hposition := h.position
  have hend : (r.skip r.leftInBuffer).fd.position = 512 := by
    change u32 (r.fd.position + (512 - r.fd.position % 512)) = 512
    rw [Nat.mod_eq_of_lt hposition, u32_of_lt (by omega)]
    omega
  rcases nextSector_lands v slot (r.skip r.leftInBuffer) with hin | ⟨hstop, hsize, hstays⟩
  · exact .inl hin
  · exact .inr ⟨hstop, hsize.trans hend, hstays.trans hend⟩

-- Inside a sector the record stays as it was in this.
theorem skip_kept (h : InArea r.fd.currentCluster ∨ r.AtFirst t) (hinside : count < r.leftInBuffer) :
    InArea (r.skip count).fd.currentCluster ∨ (r.skip count).AtFirst t := by
  rcases h with hin | hfirst
  · exact .inl hin
  · have hposition : (r.skip count).fd.position < 512 := by
      have hbefore := hfirst.position
      rw [Reader.leftInBuffer_eq] at hinside
      rw [Reader.skip_position r (by omega)]
      omega
    exact .inr ⟨hfirst.sector, hposition, hfirst.calls⟩

-- A step to the next sector is taken in the memory of its time, which matters for the first one
-- alone, and leads into the area or to the end.
theorem nextSector_settled (v : Volume) (h : InArea r.fd.currentCluster ∨ r.AtFirst t) {goOn : Bool} {r' : Reader}
    (hn : (r.skip r.leftInBuffer).nextSector (v.inMemory (memory t)) (.file slot) = (goOn, r')) :
    (r.skip r.leftInBuffer).nextSector (v.inMemory (memory r.calls)) (.file slot) = (goOn, r') ∧
      (InArea r'.fd.currentCluster ∨ (goOn = false ∧ r'.fd.Ended)) := by
  rcases h with hin | hfirst
  · have hnext := nextSector_inArea (v.inMemory (memory t)) slot (r.skip r.leftInBuffer) hin
    rw [hn] at hnext
    rw [← hn]
    exact ⟨nextSector_sameArea ((SameArea.refl v).inMemory _ _) hin, .inl hnext⟩
  · have hnext := hfirst.nextSector (v.inMemory (memory t)) slot
    rw [hn] at hnext
    rw [hfirst.calls]
    exact ⟨hn, hnext⟩

theorem readLoopIn_eq (h : InArea r.fd.currentCluster ∨ r.AtFirst t) (rounds count : Nat) :
    Reader.readLoopIn memory v (.file slot) rounds count r =
        Reader.readLoop (v.inMemory (memory t)) (.file slot) rounds count r ∧
      (Reader.readLoopIn memory v (.file slot) rounds count r).2.Settled t := by
  induction rounds generalizing count r with
  | zero => exact ⟨rfl, h.imp_right .inl⟩
  | succ rounds ih =>
      by_cases hz : count = 0
      · rw [hz, Reader.readLoopIn_zero, Reader.readLoop_zero]
        exact ⟨rfl, h.imp_right .inl⟩
      by_cases hinside : count < r.leftInBuffer
      · rw [Reader.readLoopIn_inside rounds r (by omega) hinside,
          Reader.readLoop_inside rounds count r (by omega) hinside]
        exact ⟨rfl, (skip_kept h hinside).imp_right .inl⟩
      · have hpos : 0 < r.leftInBuffer := by
          rw [Reader.leftInBuffer_eq]
          omega
        cases hn : (r.skip r.leftInBuffer).nextSector (v.inMemory (memory t)) (.file slot) with
        | mk goOn r' =>
        obtain ⟨hsame, hlands⟩ := nextSector_settled v h hn
        rw [Reader.readLoopIn_across rounds r r' goOn hpos (by omega) hsame,
          Reader.readLoop_across rounds count r r' goOn hpos (by omega) hn]
        cases goOn with
        | false =>
            simp only [Bool.false_eq_true, if_false]
            rcases hlands with hin | ⟨-, hended⟩
            · exact ⟨trivial, .inl hin⟩
            · exact ⟨trivial, .inr (.inr hended)⟩
        | true =>
            obtain ⟨hrest, hsettled⟩ := ih (.inl (hlands.resolve_right fun hended => nomatch hended.1))
              (count - r.leftInBuffer)
            simp only [ite_true]
            rw [hrest] at hsettled ⊢
            exact ⟨rfl, hsettled⟩

end Reader

section Calls

variable {memory : Nat → Behind} {s s' : State} {slot : Fin 10} {t : Nat}

def State.Settled (slot : Fin 10) (t : Nat) (s : State) : Prop :=
  Reader.Settled t { fd := s.file (.file slot), calls := s.calls }

-- Reading in a memory that changes is reading in the one that stood there after `t` transfers.
theorem State.Settled.readIn (h : s.Settled slot t) (memory : Nat → Behind) (byteCount : Nat) :
    (s.readIn memory (.file slot) byteCount).1 =
        ((s.inMemory (memory t)).read (.file slot) byteCount).1 ∧
      (s.readIn memory (.file slot) byteCount).2.inMemory (memory t) =
        ((s.inMemory (memory t)).read (.file slot) byteCount).2 ∧
      (s.readIn memory (.file slot) byteCount).2.Settled slot t := by
  have hloop : Reader.readLoopIn memory s.volume (.file slot) ((s.file (.file slot)).clamp byteCount)
        ((s.file (.file slot)).clamp byteCount) { fd := s.file (.file slot), calls := s.calls } =
      Reader.readLoop (s.volume.inMemory (memory t)) (.file slot) ((s.file (.file slot)).clamp byteCount)
        ((s.file (.file slot)).clamp byteCount) { fd := s.file (.file slot), calls := s.calls } ∧
      (Reader.readLoopIn memory s.volume (.file slot) ((s.file (.file slot)).clamp byteCount)
        ((s.file (.file slot)).clamp byteCount)
        { fd := s.file (.file slot), calls := s.calls }).2.Settled t := by
    rcases h with hin | hfirst | hended
    · exact readLoopIn_eq (.inl hin) _ _
    · exact readLoopIn_eq (.inr hfirst) _ _
    · have hnothing : (s.file (.file slot)).clamp byteCount = 0 := hended.clamp byteCount
      rw [hnothing, Reader.readLoopIn_zero, Reader.readLoop_zero]
      exact ⟨rfl, .inr (.inr hended)⟩
  obtain ⟨heq, hsettled⟩ := hloop
  have hfile : (s.readIn memory (.file slot) byteCount).2.file (.file slot) =
      (Reader.readLoopIn memory s.volume (.file slot) ((s.file (.file slot)).clamp byteCount)
        ((s.file (.file slot)).clamp byteCount) { fd := s.file (.file slot), calls := s.calls }).2.fd :=
    file_setFile s (.file slot) _
  refine ⟨?_, ?_, ?_⟩
  · unfold State.readIn
    dsimp only
    rw [heq]
    rfl
  · unfold State.readIn
    dsimp only
    rw [heq]
    rfl
  · unfold State.Settled
    rw [hfile]
    exact hsettled

end Calls

end ToyKernel.Fat
