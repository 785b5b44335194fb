import ToyKernel.Fat.Read
import ToyKernel.Library.Walk
import Mathlib.Data.Fintype.Prod

namespace ToyKernel.Fat

open Library

section Places

-- Where a record stands
structure Place where
  cluster : Nat
  sector : Nat
  deriving DecidableEq

def FileData.place (fd : FileData) : Place := ⟨fd.currentCluster, fd.currentSectorInCluster⟩

def FileData.goTo (fd : FileData) (p : Place) : FileData :=
  { fd with currentCluster := p.cluster, currentSectorInCluster := p.sector }

-- The next sector, which is there until the chain comes to an end mark. The root directory goes on
-- without one.
def Volume.advance (v : Volume) : Handle → Place → Option Place
  | .root, p => some ⟨u32 (p.cluster + 1), p.sector⟩
  | .file _, p =>
      let sector := u32 (p.sector + 1)
      let p' : Place :=
        if sector ≥ v.bootSector.sectorsPerCluster.toNat then ⟨v.nextCluster p.cluster, 0⟩
        else ⟨p.cluster, sector⟩
      if p'.cluster ≥ 0xFF8 then none else some p'

def Volume.lba (v : Volume) : Handle → Place → Nat
  | .root, p => p.cluster
  | .file _, p => u32 (v.clusterToLba p.cluster + p.sector)

variable {v : Volume} {handle : Handle} {r : Reader}

-- The step of FAT_Read in an opened file, which comes to an end mark or goes on
theorem nextSector_advance (v : Volume) (slot : Fin 10) (r : Reader) :
    ∃ p : Place, v.advance (.file slot) r.fd.place = (if p.cluster ≥ 0xFF8 then none else some p) ∧
      r.nextSector v (.file slot) =
        if p.cluster ≥ 0xFF8 then (false, { r with fd := { r.fd.goTo p with size := r.fd.position } })
        else Reader.load { r with fd := r.fd.goTo p } v (v.lba (.file slot) p) := by
  unfold Volume.advance FileData.place Reader.nextSector
  by_cases hnext : u32 (r.fd.currentSectorInCluster + 1) ≥ v.bootSector.sectorsPerCluster.toNat
  · simp only [if_pos hnext]
    exact ⟨⟨v.nextCluster r.fd.currentCluster, 0⟩, rfl, rfl⟩
  · simp only [if_neg hnext]
    exact ⟨⟨r.fd.currentCluster, u32 (r.fd.currentSectorInCluster + 1)⟩, rfl, rfl⟩

theorem nextSector_some {p : Place} (h : v.advance handle r.fd.place = some p) :
    r.nextSector v handle = Reader.load { r with fd := r.fd.goTo p } v (v.lba handle p) := by
  cases handle with
  | root =>
      obtain rfl := Option.some.inj h
      rfl
  | file slot =>
      obtain ⟨p', hadvance, hnext⟩ := nextSector_advance v slot r
      rw [hadvance] at h
      split at h
      · cases h
      rename_i hgo
      obtain rfl := Option.some.inj h
      rw [hnext, if_neg hgo]

theorem nextSector_goes {p : Place} (h : v.advance handle r.fd.place = some p) :
    ∃ goOn r', r.nextSector v handle = (goOn, r') ∧ r'.fd.place = p ∧
      r'.fd.position = r.fd.position ∧ r'.fd.size = r.fd.size ∧
      r'.fd.isDirectory = r.fd.isDirectory :=
  ⟨_, _, nextSector_some h, rfl, rfl, rfl, rfl⟩

theorem nextSector_none (h : v.advance handle r.fd.place = none) :
    ∃ p, r.nextSector v handle = (false, { r with fd := { r.fd.goTo p with size := r.fd.position } }) := by
  cases handle with
  | root => cases h
  | file slot =>
      obtain ⟨p, hadvance, hnext⟩ := nextSector_advance v slot r
      rw [hadvance] at h
      split at h
      · rename_i hend
        exact ⟨p, hnext.trans (if_pos hend)⟩
      · cases h

-- Reading does not touch the mark of an open record.
theorem nextSector_opened (v : Volume) (handle : Handle) (r : Reader) :
    (r.nextSector v handle).2.fd.opened = r.fd.opened := by
  cases h : v.advance handle r.fd.place with
  | none =>
      obtain ⟨p, hnext⟩ := nextSector_none h
      rw [hnext]
      rfl
  | some p => rw [nextSector_some h]; rfl

theorem readLoop_opened (v : Volume) (handle : Handle) (rounds count : Nat) (r : Reader) :
    (Reader.readLoop v handle rounds count r).2.fd.opened = r.fd.opened := by
  induction rounds generalizing count r with
  | zero => rfl
  | succ rounds ih =>
      by_cases hz : count = 0
      · subst hz
        rw [Reader.readLoop_zero]
      by_cases hin : count < r.leftInBuffer
      · rw [Reader.readLoop_inside rounds count r (by omega) hin]
        rfl
      have hleft := r.leftInBuffer_eq
      have hmid := nextSector_opened v handle (r.skip r.leftInBuffer)
      cases hnext : (r.skip r.leftInBuffer).nextSector v handle with
      | mk goOn r' =>
      rw [hnext] at hmid
      rw [Reader.readLoop_across rounds count r r' goOn (by omega) (by omega) hnext]
      cases goOn with
      | false => exact hmid
      | true => exact (ih (count - r.leftInBuffer) r').trans hmid

-- The places there are behind the first one
theorem advance_bounds {slot : Fin 10} {p p' : Place} (h : v.advance (.file slot) p = some p') :
    p'.cluster < 0xFF8 ∧ p'.sector < 256 := by
  have hspc := v.bootSector.sectorsPerCluster.toNat_lt
  unfold Volume.advance at h
  by_cases hnext : u32 (p.sector + 1) ≥ v.bootSector.sectorsPerCluster.toNat
  · simp only [if_pos hnext] at h
    split at h
    · cases h
    rename_i hgo
    obtain rfl := Option.some.inj h
    exact ⟨Nat.lt_of_not_ge hgo, by change 0 < 256; decide⟩
  · simp only [if_neg hnext] at h
    split at h
    · cases h
    rename_i hgo
    obtain rfl := Option.some.inj h
    exact ⟨Nat.lt_of_not_ge hgo, by change u32 _ < _; omega⟩

-- A chain that ends has no sector twice.
theorem lasts_le {slot : Fin 10} {p : Place} {n : Nat} (h : Lasts (v.advance (.file slot)) p n) :
    n ≤ 1046529 := by
  let code : Place → Fin 4088 × Fin 256 := fun p => (Fin.ofNat 4088 p.cluster, Fin.ofNat 256 p.sector)
  have hle := h.le_card code fun b c b' c' hc hc' hsame => by
    obtain ⟨hcluster, hsector⟩ := advance_bounds hc
    obtain ⟨hcluster', hsector'⟩ := advance_bounds hc'
    obtain ⟨hfirst, hsecond⟩ := Prod.mk.inj hsame
    have hclusters := congrArg Fin.val hfirst
    have hsectors := congrArg Fin.val hsecond
    rw [Fin.val_ofNat, Fin.val_ofNat, Nat.mod_eq_of_lt hcluster, Nat.mod_eq_of_lt hcluster'] at hclusters
    rw [Fin.val_ofNat, Fin.val_ofNat, Nat.mod_eq_of_lt hsector, Nat.mod_eq_of_lt hsector'] at hsectors
    cases c
    cases c'
    simp only at hclusters hsectors
    rw [hclusters, hsectors]
  rwa [Fintype.card_prod, Fintype.card_fin, Fintype.card_fin] at hle

end Places

section Moves

variable {v : Volume} {handle : Handle}

-- What reading `n` bytes makes of a record on any disk: it goes on from sector to sector, and at
-- the end of the chain the size becomes the position.
structure Moves (v : Volume) (handle : Handle) (fd : FileData) (n : Nat) (fd' : FileData) : Prop where
  position : fd'.position = u32 (fd.position + n)
  isDirectory : fd'.isDirectory = fd.isDirectory
  place : (walk (v.advance handle) ((fd.position % 512 + n) / 512) fd.place = some fd'.place ∧
      fd'.size = fd.size) ∨
    (Lasts (v.advance handle) fd.place ((fd.position % 512 + n) / 512) ∧
      (fd.position % 512 + n) % 512 = 0 ∧ fd'.size = fd'.position)

theorem Moves.refl {fd : FileData} (hposition : fd.position < 4294967296) : Moves v handle fd 0 fd := by
  refine ⟨(u32_of_lt hposition).symm, rfl, .inl ⟨?_, rfl⟩⟩
  rw [show (fd.position % 512 + 0) / 512 = 0 by omega]
  rfl

-- Induction on the rounds: the reading ends inside the sector, at the end of the chain, with a
-- failed transfer, or goes on in the next sector.
theorem readLoop_moves (rounds count : Nat) (r : Reader) (hposition : r.fd.position < 4294967296)
    (hrounds : count ≤ rounds) :
    ∃ n, (Reader.readLoop v handle rounds count r).1.length = n ∧ n ≤ count ∧ (0 < count → 0 < n) ∧
      Moves v handle r.fd n (Reader.readLoop v handle rounds count r).2.fd := by
  induction rounds generalizing count r with
  | zero =>
      obtain rfl : count = 0 := by omega
      exact ⟨0, rfl, Nat.le_refl 0, id, .refl hposition⟩
  | succ rounds ih =>
      have hleft := r.leftInBuffer_eq
      by_cases hz : count = 0
      · subst hz
        rw [Reader.readLoop_zero]
        exact ⟨0, rfl, Nat.le_refl 0, id, .refl hposition⟩
      by_cases hin : count < r.leftInBuffer
      · rw [Reader.readLoop_inside rounds count r (by omega) hin]
        refine ⟨count, r.length_copy (Nat.le_of_lt hin), Nat.le_refl _, id, rfl, rfl, .inl ⟨?_, rfl⟩⟩
        rw [show (r.fd.position % 512 + count) / 512 = 0 by omega]
        rfl
      cases hadvance : v.advance handle r.fd.place with
      | none =>
          obtain ⟨p, hnext⟩ := nextSector_none (r := r.skip r.leftInBuffer) hadvance
          have hacross := Reader.readLoop_across rounds count r _ false (by omega) (by omega) hnext
          rw [if_neg Bool.false_ne_true] at hacross
          rw [hacross]
          refine ⟨r.leftInBuffer, r.length_copy (Nat.le_refl _), by omega, fun _ => by omega, rfl, rfl,
            .inr ⟨?_, by omega, rfl⟩⟩
          rw [show (r.fd.position % 512 + r.leftInBuffer) / 512 = 1 by omega]
          refine ⟨fun i hi => ?_, hadvance⟩
          obtain rfl : i = 0 := by omega
          exact Option.some_ne_none _
      | some p =>
          have hone : walk (v.advance handle) 1 r.fd.place = some p := hadvance
          obtain ⟨goOn, r', hnext, hp, hr, hsize, hdir⟩ :=
            nextSector_goes (r := r.skip r.leftInBuffer) hadvance
          rw [Reader.readLoop_across rounds count r r' goOn (by omega) (by omega) hnext]
          have hr' : r'.fd.position = u32 (r.fd.position + r.leftInBuffer) := hr
          cases goOn with
          | false =>
              rw [if_neg Bool.false_ne_true]
              refine ⟨r.leftInBuffer, r.length_copy (Nat.le_refl _), by omega, fun _ => by omega, hr', hdir,
                .inl ⟨?_, hsize⟩⟩
              rw [show (r.fd.position % 512 + r.leftInBuffer) / 512 = 1 by omega, hp]
              exact hone
          | true =>
              rw [if_pos rfl]
              have hzero : r'.fd.position % 512 = 0 := by
                rw [hr', u32]
                omega
              obtain ⟨n, hlength, hle, -, hmoves⟩ := ih (count - r.leftInBuffer) r'
                (hr' ▸ u32_lt _) (by omega)
              have hplace := hmoves.place
              rw [hzero, Nat.zero_add, hp] at hplace
              refine ⟨r.leftInBuffer + n, ?_, by omega, fun _ => by omega, ?_,
                hmoves.isDirectory.trans hdir, ?_⟩
              · rw [List.length_append, r.length_copy (Nat.le_refl _), hlength]
              · rw [hmoves.position, hr', u32_add, Nat.add_assoc]
              · rw [show (r.fd.position % 512 + (r.leftInBuffer + n)) / 512 = 1 + n / 512 by omega]
                rcases hplace with ⟨hwalk, hsize'⟩ | ⟨hlasts, hend, hsize'⟩
                · refine .inl ⟨?_, hsize'.trans hsize⟩
                  rw [walk_add_of_some hone]
                  exact hwalk
                · exact .inr ⟨hlasts.cons hadvance, by omega, hsize'⟩

theorem read_moves {s : State} (handle : Handle) (byteCount : Nat)
    (hposition : (s.file handle).position < 4294967296) :
    ∃ n, (s.read handle byteCount).1.length = n ∧ n ≤ (s.file handle).clamp byteCount ∧
      (0 < (s.file handle).clamp byteCount → 0 < n) ∧
      Moves s.volume handle (s.file handle) n ((s.read handle byteCount).2.file handle) := by
  rw [file_read]
  exact readLoop_moves ((s.file handle).clamp byteCount) ((s.file handle).clamp byteCount)
    { fd := s.file handle, calls := s.calls } hposition (Nat.le_refl _)

end Moves

section Left

-- FAT_Read goes by the size of the record, but for a directory that records none.
def FileData.Sized (fd : FileData) : Prop := fd.isDirectory = false ∨ fd.size ≠ 0

-- What is left to read from a record: up to its size, or to the end of its chain where that comes
-- first
structure Left (v : Volume) (handle : Handle) (fd : FileData) (n : Nat) : Prop where
  position_lt : fd.position + n < 4294967296
  size_lt : fd.size < 4294967296
  le : fd.Sized → fd.position + n ≤ fd.size
  sectors : ∀ i, 512 * i < fd.position % 512 + n → walk (v.advance handle) i fd.place ≠ none
  ends : (fd.Sized ∧ fd.position + n = fd.size) ∨
    ∃ m, fd.position % 512 + n = 512 * m ∧ walk (v.advance handle) m fd.place = none

variable {v : Volume} {handle : Handle} {fd fd' : FileData} {n k m : Nat}

theorem walk_pos (h : walk (v.advance handle) m fd.place = none) : 0 < m := by
  cases m with
  | zero => cases h
  | succ m => exact Nat.succ_pos m

theorem Left.clamp_le (h : Left v handle fd n) (byteCount : Nat) :
    fd.clamp byteCount ≤ byteCount ∧ (fd.Sized → fd.clamp byteCount ≤ fd.size - fd.position) ∧
      (0 < byteCount → 0 < n → 0 < fd.clamp byteCount) := by
  by_cases hsized : fd.Sized
  · have hle := h.le hsized
    have hclamp := FileData.clamp_eq hsized (by omega) h.size_lt byteCount
    exact ⟨by omega, fun _ => by omega, fun _ _ => by omega⟩
  · have hclamp : fd.clamp byteCount = byteCount := if_neg hsized
    exact ⟨by omega, fun hs => absurd hs hsized, fun hpos _ => by omega⟩

-- Reading takes from what is left, and the end of the chain leaves nothing.
theorem Left.moves (h : Left v handle fd n) (hmoves : Moves v handle fd k fd')
    (hk : fd.Sized → k ≤ fd.size - fd.position) : k ≤ n ∧ Left v handle fd' (n - k) := by
  have hposition_lt := h.position_lt
  -- the sectors that are gone through have all been there
  have hle : k ≤ n := by
    by_contra hgt
    rcases h.ends with ⟨hsized, hsize⟩ | ⟨m, hm, hwalk⟩
    · have hbound := hk hsized
      omega
    · rcases hmoves.place with ⟨hplace, -⟩ | ⟨hlasts, hend, -⟩
      · rw [walk_none_of_le hwalk (by omega)] at hplace
        cases hplace
      · exact hlasts.goes m (by omega) hwalk
  have hposition : fd'.position = fd.position + k := by
    rw [hmoves.position, u32_of_lt (by omega)]
  refine ⟨hle, ?_⟩
  rcases hmoves.place with ⟨hplace, hsize⟩ | ⟨hlasts, hend, hsize⟩
  · have hsized : fd'.Sized ↔ fd.Sized := by
      unfold FileData.Sized
      rw [hmoves.isDirectory, hsize]
    refine ⟨by omega, by rw [hsize]; exact h.size_lt, fun hs => ?_, fun i hi => ?_, ?_⟩
    · have := h.le (hsized.mp hs)
      omega
    · rw [← walk_add_of_some hplace]
      exact h.sectors _ (by omega)
    · rcases h.ends with ⟨hs, hlast⟩ | ⟨m, hm, hwalk⟩
      · exact .inl ⟨hsized.mpr hs, by omega⟩
      · have hlt : (fd.position % 512 + k) / 512 ≤ m := by
          by_contra hgt
          rw [walk_none_of_le hwalk (by omega)] at hplace
          cases hplace
        refine .inr ⟨m - (fd.position % 512 + k) / 512, by omega, ?_⟩
        rw [← walk_add_of_some hplace, Nat.add_sub_cancel' hlt]
        exact hwalk
  · have hpos := walk_pos hlasts.ends
    have hall : n = k := by
      by_contra hne
      exact h.sectors _ (by omega) hlasts.ends
    have hsized : fd'.Sized := .inr (by omega)
    refine ⟨by omega, by omega, fun _ => by omega, fun i hi => by omega, .inl ⟨hsized, by omega⟩⟩

-- One call of FAT_Read on any disk
theorem Left.read {s : State} (h : Left s.volume handle (s.file handle) n) (byteCount : Nat) :
    ∃ k, (s.read handle byteCount).1.length = k ∧ k ≤ n ∧ k ≤ byteCount ∧
      (0 < byteCount → 0 < n → 0 < k) ∧
      Left s.volume handle ((s.read handle byteCount).2.file handle) (n - k) := by
  have hposition := h.position_lt
  obtain ⟨k, hlength, hclamp, hpos, hmoves⟩ := read_moves (s := s) handle byteCount (by omega)
  obtain ⟨hcount, hsize, hsome⟩ := h.clamp_le byteCount
  obtain ⟨hk, hleft⟩ := h.moves hmoves fun hsized => Nat.le_trans hclamp (hsize hsized)
  exact ⟨k, hlength, hk, Nat.le_trans hclamp hcount, fun hb hn => hpos (hsome hb hn), hleft⟩

-- A record with a size, and one without whose chain ends, have something left or nothing.
theorem exists_left_of_sized (hsized : fd.Sized) (hle : fd.position ≤ fd.size)
    (hlt : fd.size < 4294967296) : ∃ n, Left v handle fd n := by
  by_cases hshort : ∃ m, 512 * m < fd.position % 512 + (fd.size - fd.position) ∧
      walk (v.advance handle) m fd.place = none
  · obtain ⟨m, hm, hwalk⟩ := hshort
    obtain ⟨l, hl, hlasts⟩ := exists_lasts hwalk
    have hpos := walk_pos hlasts.ends
    exact ⟨512 * l - fd.position % 512, by omega, hlt, fun _ => by omega,
      fun i hi => hlasts.goes i (by omega), .inr ⟨l, by omega, hlasts.ends⟩⟩
  · exact ⟨fd.size - fd.position, by omega, hlt, fun _ => by omega,
      fun i hi hwalk => hshort ⟨i, hi, hwalk⟩, .inl ⟨hsized, by omega⟩⟩

theorem exists_left_of_ends {slot : Fin 10} (hsized : ¬fd.Sized) (hstart : fd.position = 0)
    (hwalk : walk (v.advance (.file slot)) m fd.place = none) : ∃ n, Left v (.file slot) fd n := by
  obtain ⟨l, -, hlasts⟩ := exists_lasts hwalk
  have hle := lasts_le hlasts
  have hsize : fd.size = 0 := by
    by_contra hne
    exact hsized (.inr hne)
  exact ⟨512 * l, by omega, by omega, fun hs => absurd hs hsized,
    fun i hi => hlasts.goes i (by omega), .inr ⟨l, by omega, hlasts.ends⟩⟩

-- From the beginning of a file: at most `512 * count` bytes, by the size or by the chain
theorem Left.le_iff (h : Left v handle fd n) (hstart : fd.position = 0) (count : Nat) :
    n ≤ 512 * count ↔ (fd.Sized ∧ fd.size ≤ 512 * count) ∨
      walk (v.advance handle) count fd.place = none := by
  constructor
  · intro hn
    rcases h.ends with ⟨hsized, hsize⟩ | ⟨m, hm, hwalk⟩
    · exact .inl ⟨hsized, by omega⟩
    · exact .inr (walk_none_of_le hwalk (by omega))
  · rintro (⟨hsized, hsize⟩ | hwalk)
    · have hle := h.le hsized
      omega
    · by_contra hgt
      exact h.sectors count (by omega) hwalk

-- A directory without a size, along a chain that never comes to an end mark
structure Endless (v : Volume) (handle : Handle) (fd : FileData) : Prop where
  position_lt : fd.position < 4294967296
  unsized : ¬fd.Sized
  goes : ∀ i, walk (v.advance handle) i fd.place ≠ none

theorem Endless.moves (h : Endless v handle fd) (hmoves : Moves v handle fd k fd') :
    Endless v handle fd' := by
  rcases hmoves.place with ⟨hplace, hsize⟩ | ⟨hlasts, -, -⟩
  · refine ⟨hmoves.position ▸ u32_lt _, ?_, fun i => ?_⟩
    · unfold FileData.Sized
      rw [hmoves.isDirectory, hsize]
      exact h.unsized
    · rw [← walk_add_of_some hplace]
      exact h.goes _
  · exact absurd hlasts.ends (h.goes _)

-- Every call of FAT_Read gives something there.
theorem Endless.read {s : State} (h : Endless s.volume handle (s.file handle)) {byteCount : Nat}
    (hcount : 0 < byteCount) :
    0 < (s.read handle byteCount).1.length ∧
      Endless s.volume handle ((s.read handle byteCount).2.file handle) := by
  obtain ⟨n, hlength, -, hpos, hmoves⟩ := read_moves (s := s) handle byteCount h.position_lt
  have hclamp : (s.file handle).clamp byteCount = byteCount := if_neg h.unsized
  rw [hclamp] at hpos
  exact ⟨hlength ▸ hpos hcount, h.moves hmoves⟩

theorem root_goes (m : Nat) (p : Place) : walk (v.advance .root) m p ≠ none := by
  induction m generalizing p with
  | zero => exact Option.some_ne_none p
  | succ m ih =>
      rw [Nat.add_comm, walk_add_of_some (show walk (v.advance .root) 1 p = some _ from rfl)]
      exact ih _

-- At the beginning of a file there is one or the other.
theorem left_or_endless (hstart : fd.position = 0) (hlt : fd.size < 4294967296) :
    (∃ n, Left v handle fd n) ∨ Endless v handle fd := by
  by_cases hsized : fd.Sized
  · exact .inl (exists_left_of_sized hsized (by omega) hlt)
  by_cases hends : ∃ m, walk (v.advance handle) m fd.place = none
  · obtain ⟨m, hwalk⟩ := hends
    cases handle with
    | root => exact absurd hwalk (root_goes m fd.place)
    | file slot => exact .inl (exists_left_of_ends hsized hstart hwalk)
  · exact .inr ⟨by omega, hsized, fun i hwalk => hends ⟨i, hwalk⟩⟩

end Left

end ToyKernel.Fat
