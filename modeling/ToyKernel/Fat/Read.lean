import ToyKernel.Fat
import Mathlib.Data.List.Basic

namespace ToyKernel.Fat

@[simp] theorem Sector.length_bytes (sector : Sector) : sector.bytes.length = 512 :=
  List.length_ofFn

-- No call fails, and what a call delivers is what stands on the disk.
structure Reliable (disk : Disk) (content : Nat → Sector) : Prop where
  ok : ∀ call lba sectors, (disk call lba sectors).ok = true
  data : ∀ call lba sectors i, i < sectors → (disk call lba sectors).data i = content (lba + i)

theorem Reader.load_eq {v : Volume} {content : Nat → Sector} (h : Reliable v.disk content)
    (r : Reader) (lba : Nat) :
    r.load v lba = (true, { fd := { r.fd with buffer := content lba }, calls := r.calls + 1 }) := by
  have hd := h.data r.calls lba 1 0 (by omega)
  rw [Nat.add_zero] at hd
  simp only [Reader.load, h.ok, hd]

-- The bytes of a row of sectors.
def sectorBytes (content : Nat → Sector) (lbas : List Nat) : List UInt8 :=
  lbas.flatMap fun lba => (content lba).bytes

theorem length_sectorBytes (content : Nat → Sector) (lbas : List Nat) :
    (sectorBytes content lbas).length = 512 * lbas.length := by
  induction lbas with
  | nil => rfl
  | cons lba lbas ih =>
      rw [sectorBytes, List.flatMap_cons, List.length_append, Sector.length_bytes]
      change 512 + (sectorBytes content lbas).length = _
      rw [ih, List.length_cons]
      omega

-- A file record that stands in a row of sectors: its buffer holds the first one, and
-- the step to the next sector moves along the row.
structure Stream (v : Volume) (handle : Handle) (content : Nat → Sector)
    (Ahead : FileData → List Nat → Prop) : Prop where
  buffer : ∀ fd lba rest, Ahead fd (lba :: rest) → fd.buffer = content lba
  position : ∀ fd lbas p, Ahead fd lbas → Ahead { fd with position := p } lbas
  next : ∀ (r : Reader) lba lba' rest, Ahead r.fd (lba :: lba' :: rest) →
    ∃ r' : Reader, r.nextSector v handle = (true, r') ∧ Ahead r'.fd (lba' :: rest) ∧
      r'.fd.position = r.fd.position ∧ r'.fd.size = r.fd.size ∧
      r'.fd.isDirectory = r.fd.isDirectory
  last : ∀ (r : Reader) lba, Ahead r.fd [lba] →
    (r.nextSector v handle).2.fd.position = r.fd.position ∧
      ((r.nextSector v handle).2.fd.size = r.fd.size ∨
        (r.nextSector v handle).2.fd.size = r.fd.position) ∧
      (r.nextSector v handle).2.fd.isDirectory = r.fd.isDirectory

-- `data` is what the file still has to give, with whatever stands behind its end.
structure Cursor (content : Nat → Sector) (Ahead : FileData → List Nat → Prop) (fd : FileData)
    (data : List UInt8) : Prop where
  position_le : fd.position ≤ fd.size
  size_lt : fd.size < 4294967296
  enough : fd.size - fd.position ≤ data.length
  ahead : fd.position = fd.size ∨ ∃ lbas, lbas ≠ [] ∧ Ahead fd lbas ∧
    data = (sectorBytes content lbas).drop (fd.position % 512)

section Loop

variable {v : Volume} {handle : Handle} {content : Nat → Sector}
  {Ahead : FileData → List Nat → Prop}

@[simp] theorem Reader.readLoop_zero (rounds : Nat) (r : Reader) :
    Reader.readLoop v handle rounds 0 r = ([], r) := by
  cases rounds <;> simp [Reader.readLoop]

theorem Reader.readLoop_inside (rounds count : Nat) (r : Reader) (hpos : 0 < count)
    (hin : count < r.leftInBuffer) :
    Reader.readLoop v handle (rounds + 1) count r = (r.copy count, r.skip count) := by
  have hz : count ≠ 0 := by omega
  have hne : r.leftInBuffer ≠ count := by omega
  simp only [Reader.readLoop, hz, hne, ite_false, Nat.min_eq_left (Nat.le_of_lt hin), ite_true,
    Nat.sub_self, Reader.readLoop_zero, List.append_nil]

theorem Reader.readLoop_across (rounds count : Nat) (r r' : Reader) (goOn : Bool)
    (hpos : 0 < r.leftInBuffer) (hout : r.leftInBuffer ≤ count)
    (hn : (r.skip r.leftInBuffer).nextSector v handle = (goOn, r')) :
    Reader.readLoop v handle (rounds + 1) count r =
      if goOn then
        (r.copy r.leftInBuffer ++ (Reader.readLoop v handle rounds (count - r.leftInBuffer) r').1,
          (Reader.readLoop v handle rounds (count - r.leftInBuffer) r').2)
      else (r.copy r.leftInBuffer, r') := by
  have hz : count ≠ 0 := by omega
  simp only [Reader.readLoop, hz, ite_false, Nat.min_eq_right hout, ite_true, hn]

theorem Reader.leftInBuffer_eq (r : Reader) : r.leftInBuffer = 512 - r.fd.position % 512 := rfl

theorem Reader.skip_position (r : Reader) {count : Nat} (h : r.fd.position + count < 4294967296) :
    (r.skip count).fd.position = r.fd.position + count :=
  u32_of_lt h

theorem Reader.length_copy (r : Reader) {count : Nat} (hcount : count ≤ r.leftInBuffer) :
    (r.copy count).length = count := by
  rw [r.leftInBuffer_eq] at hcount
  rw [Reader.copy, List.length_take, List.length_drop, Sector.length_bytes]
  exact Nat.min_eq_left hcount

-- The buffer gives the next bytes of the sector it should hold.
theorem Reader.copy_eq {r : Reader} {lba : Nat} (hbuffer : r.fd.buffer = content lba) {count : Nat}
    (hcount : count ≤ r.leftInBuffer) (behind : List UInt8) :
    r.copy count = ((content lba).bytes.drop (r.fd.position % 512) ++ behind).take count := by
  rw [r.leftInBuffer_eq] at hcount
  rw [Reader.copy, hbuffer, List.take_append_of_le_length]
  · rfl
  · rw [List.length_drop, Sector.length_bytes]
    exact hcount

-- A cursor before the end: the rest of its sector, then the sectors behind it.
theorem Cursor.split {fd : FileData} {data : List UInt8} (hc : Cursor content Ahead fd data)
    (hlt : fd.position < fd.size) :
    ∃ lba rest, Ahead fd (lba :: rest) ∧
      data = (content lba).bytes.drop (fd.position % 512) ++ sectorBytes content rest := by
  obtain ⟨lbas, hne, hahead, hdata⟩ := hc.ahead.resolve_left (by omega)
  cases lbas with
  | nil => exact absurd rfl hne
  | cons lba rest =>
      refine ⟨lba, rest, hahead, ?_⟩
      rw [hdata, sectorBytes, List.flatMap_cons, List.drop_append_of_le_length]
      · rfl
      · rw [Sector.length_bytes]
        omega

-- A record on its way along a row of sectors whose reads may fail: whatever the buffer
-- holds, the step to the next sector moves along the row, and it ends the loop when the
-- sector is lost.
structure Track (v : Volume) (handle : Handle) (content : Nat → Sector)
    (Ahead : FileData → List Nat → Prop) (Lost : Prop) : Prop where
  position : ∀ fd lbas p, Ahead fd lbas → Ahead { fd with position := p } lbas
  next : ∀ (r : Reader) lba lba' rest, Ahead r.fd (lba :: lba' :: rest) →
    ∃ goOn, ∃ r' : Reader, r.nextSector v handle = (goOn, r') ∧ Ahead r'.fd (lba' :: rest) ∧
      (goOn = true → r'.fd.buffer = content lba') ∧ (goOn = false → Lost) ∧
      r'.fd.position = r.fd.position ∧ r'.fd.size = r.fd.size ∧
      r'.fd.isDirectory = r.fd.isDirectory
  last : ∀ (r : Reader) lba, Ahead r.fd [lba] →
    (r.nextSector v handle).2.fd.position = r.fd.position ∧
      ((r.nextSector v handle).2.fd.size = r.fd.size ∨
        (r.nextSector v handle).2.fd.size = r.fd.position) ∧
      (r.nextSector v handle).2.fd.isDirectory = r.fd.isDirectory

theorem Stream.track (h : Stream v handle content Ahead) : Track v handle content Ahead False where
  position := h.position
  next r lba lba' rest hahead := by
    obtain ⟨r', hnext, hahead', hsame⟩ := h.next r lba lba' rest hahead
    exact ⟨true, r', hnext, hahead', fun _ => h.buffer _ _ _ hahead', nofun, hsame⟩
  last := h.last

-- What a piece of the loop has done when it gave `n` bytes: the first of them come from the
-- buffer as it was, the others from `data`, and the record stands behind them.
structure Yields (content : Nat → Sector) (Ahead : FileData → List Nat → Prop) (r : Reader)
    (data : List UInt8) (count n : Nat) (result : List UInt8 × Reader) : Prop where
  le : n ≤ count
  first : min count r.leftInBuffer ≤ n
  bytes : result.1 =
    r.copy (min count r.leftInBuffer) ++ (data.take n).drop (min count r.leftInBuffer)
  cursor : Cursor content Ahead result.2.fd (data.drop n)
  position : result.2.fd.position = r.fd.position + n
  size : result.2.fd.size = r.fd.size
  isDirectory : result.2.fd.isDirectory = r.fd.isDirectory

theorem Yields.zero {r : Reader} {data : List UInt8} (hc : Cursor content Ahead r.fd data) :
    Yields content Ahead r data 0 0 ([], r) := by
  refine ⟨Nat.le_refl 0, ?_, ?_, hc, rfl, rfl, rfl⟩ <;> simp [Reader.copy]

-- All of them come from `data` exactly if those from the buffer do.
theorem Yields.bytes_iff {r : Reader} {data : List UInt8} {count n : Nat}
    {result : List UInt8 × Reader} (h : Yields content Ahead r data count n result) :
    result.1 = data.take n ↔
      r.copy (min count r.leftInBuffer) = data.take (min count r.leftInBuffer) := by
  have hsplit := List.take_append_drop (min count r.leftInBuffer) (data.take n)
  rw [List.take_take, Nat.min_eq_left h.first] at hsplit
  have hcancel : ∀ first second tail : List UInt8,
      first ++ tail = second ++ tail ↔ first = second := fun _ _ tail => List.append_left_inj tail
  have hboth := hcancel (r.copy (min count r.leftInBuffer)) (data.take (min count r.leftInBuffer))
    ((data.take n).drop (min count r.leftInBuffer))
  rwa [hsplit, ← h.bytes] at hboth

theorem Yields.length {r : Reader} {data : List UInt8} {count n : Nat}
    {result : List UInt8 × Reader} (h : Yields content Ahead r data count n result)
    (hn : n ≤ data.length) : result.1.length = n := by
  have hfirst := h.first
  rw [h.bytes, List.length_append, r.length_copy (Nat.min_le_right count _), List.length_drop,
    List.length_take, Nat.min_eq_left hn]
  omega

-- The reading stops inside the sector.
theorem Track.readLoop_inside {Lost : Prop} (h : Track v handle content Ahead Lost) (rounds count : Nat)
    (r : Reader) (data : List UInt8) (hc : Cursor content Ahead r.fd data) (hpos : 0 < count)
    (hcount : r.fd.position + count ≤ r.fd.size) (hin : count < r.leftInBuffer) :
    Yields content Ahead r data count count (Reader.readLoop v handle (rounds + 1) count r) := by
  have hsize := hc.size_lt
  have henough := hc.enough
  have hleft := r.leftInBuffer_eq
  rw [Reader.readLoop_inside rounds count r hpos hin]
  have hp : (r.skip count).fd.position = r.fd.position + count := r.skip_position (by omega)
  refine ⟨Nat.le_refl _, Nat.min_le_left _ _, ?_, ⟨?_, hsize, ?_, ?_⟩, hp, rfl, rfl⟩
  · rw [Nat.min_eq_left (by omega), List.drop_eq_nil_of_le, List.append_nil]
    rw [List.length_take]
    omega
  · rw [hp]
    exact hcount
  · rw [hp, List.length_drop]
    change r.fd.size - _ ≤ _
    omega
  · obtain ⟨lbas, hne, ha, he⟩ := hc.ahead.resolve_left (by omega)
    refine Or.inr ⟨lbas, hne, h.position _ _ _ ha, ?_⟩
    rw [hp, he, List.drop_drop]
    congr 1
    omega

-- It stops at the end of the last sector.
theorem Track.readLoop_last {Lost : Prop} (h : Track v handle content Ahead Lost) (rounds count : Nat)
    (r : Reader) (data : List UInt8) (hc : Cursor content Ahead r.fd data) {lba : Nat}
    (hahead : Ahead r.fd [lba]) (hlast : data.length = r.leftInBuffer)
    (hcount : r.fd.position + count ≤ r.fd.size) (hout : r.leftInBuffer ≤ count) :
    Yields content Ahead r data count count (Reader.readLoop v handle (rounds + 1) count r) := by
  have hsize := hc.size_lt
  have henough := hc.enough
  have hleft := r.leftInBuffer_eq
  have hexact : count = r.leftInBuffer := by omega
  have hp : (r.skip r.leftInBuffer).fd.position = r.fd.position + r.leftInBuffer :=
    r.skip_position (by omega)
  obtain ⟨hp', hs', hd'⟩ := h.last (r.skip r.leftInBuffer) lba (h.position _ _ _ hahead)
  cases hn : (r.skip r.leftInBuffer).nextSector v handle with
  | mk goOn r' =>
      rw [hn] at hp' hs' hd'
      have hposition : r'.fd.position = r.fd.position + count := by
        have he : r'.fd.position = (r.skip r.leftInBuffer).fd.position := hp'
        omega
      have hsame : r'.fd.size = r.fd.size := by
        rcases hs' with hs' | hs'
        · exact hs'
        · have he : r'.fd.size = (r.skip r.leftInBuffer).fd.position := hs'
          omega
      have hcursor : Cursor content Ahead r'.fd (data.drop count) :=
        ⟨by omega, by omega, by omega, Or.inl (by omega)⟩
      have hloop : Reader.readLoop v handle (rounds + 1) count r = (r.copy r.leftInBuffer, r') := by
        rw [Reader.readLoop_across rounds count r r' goOn (by omega) hout hn,
          show count - r.leftInBuffer = 0 by omega, Reader.readLoop_zero, List.append_nil, ite_self]
      rw [hloop]
      refine ⟨Nat.le_refl _, Nat.min_le_left _ _, ?_, hcursor, hposition, hsame, hd'⟩
      rw [Nat.min_eq_right hout, List.drop_eq_nil_of_le (by rw [List.length_take]; omega), List.append_nil]

-- Or it goes on to the next sector, which stands in the buffer or is lost.
theorem Track.nextSector {Lost : Prop} (h : Track v handle content Ahead Lost) {r : Reader}
    {data : List UInt8} (hc : Cursor content Ahead r.fd data) {lba lba' : Nat} {rest : List Nat}
    (hahead : Ahead r.fd (lba :: lba' :: rest))
    (hdata : data.length = r.leftInBuffer + 512 * (lba' :: rest).length)
    (hin : r.fd.position + r.leftInBuffer ≤ r.fd.size) :
    ∃ goOn r', (r.skip r.leftInBuffer).nextSector v handle = (goOn, r') ∧
      Cursor content Ahead r'.fd (sectorBytes content (lba' :: rest)) ∧
      (goOn = true → r'.fd.buffer = content lba') ∧ (goOn = false → Lost) ∧
      r'.fd.position = r.fd.position + r.leftInBuffer ∧ r'.fd.size = r.fd.size ∧
      r'.fd.isDirectory = r.fd.isDirectory := by
  have hsize := hc.size_lt
  have henough := hc.enough
  have hleft := r.leftInBuffer_eq
  have hp : (r.skip r.leftInBuffer).fd.position = r.fd.position + r.leftInBuffer :=
    r.skip_position (by omega)
  obtain ⟨goOn, r', hn, ha, hbuffer, hlost, hp', hs', hd'⟩ :=
    h.next (r.skip r.leftInBuffer) lba lba' rest (h.position _ _ _ hahead)
  have hposition : r'.fd.position = r.fd.position + r.leftInBuffer := hp'.trans hp
  have hsame : r'.fd.size = r.fd.size := hs'
  refine ⟨goOn, r', hn, ⟨?_, ?_, ?_, Or.inr ⟨lba' :: rest, List.cons_ne_nil _ _, ha, ?_⟩⟩, hbuffer, hlost,
    hposition, hsame, hd'⟩
  · omega
  · omega
  · rw [length_sectorBytes]
    omega
  · rw [show r'.fd.position % 512 = 0 by omega, List.drop_zero]

-- Induction on the rounds: inside the sector, to the end of the last one, or on to the next one.
theorem Track.readLoop {Lost : Prop} (h : Track v handle content Ahead Lost) (rounds count : Nat)
    (r : Reader) (data : List UInt8) (hc : Cursor content Ahead r.fd data) (hrounds : count ≤ rounds)
    (hcount : r.fd.position + count ≤ r.fd.size) :
    ∃ n, Yields content Ahead r data count n (Reader.readLoop v handle rounds count r) ∧
      (n = count ∨ Lost) := by
  induction rounds generalizing count r data with
  | zero =>
      obtain rfl : count = 0 := by omega
      rw [Reader.readLoop_zero]
      exact ⟨0, .zero hc, .inl rfl⟩
  | succ rounds ih =>
      by_cases hz : count = 0
      · subst hz
        rw [Reader.readLoop_zero]
        exact ⟨0, .zero hc, .inl rfl⟩
      by_cases hin : count < r.leftInBuffer
      · exact ⟨count, h.readLoop_inside rounds count r data hc (by omega) hcount hin, .inl rfl⟩
      have hout := Nat.not_lt.mp hin
      have hleft := r.leftInBuffer_eq
      obtain ⟨lba, rest, hahead, hdata⟩ := hc.split (by omega)
      have hfirst : ((content lba).bytes.drop (r.fd.position % 512)).length = r.leftInBuffer := by
        rw [List.length_drop, Sector.length_bytes]
        rfl
      have htotal : data.length = r.leftInBuffer + 512 * rest.length := by
        rw [hdata, List.length_append, hfirst, length_sectorBytes]
      have hmin : min count r.leftInBuffer = r.leftInBuffer := Nat.min_eq_right hout
      have hbehind : data.drop r.leftInBuffer = sectorBytes content rest := by
        rw [hdata, ← hfirst, List.drop_left]
      cases rest with
      | nil => exact ⟨count, h.readLoop_last rounds count r data hc hahead htotal hcount hout, .inl rfl⟩
      | cons lba' rest =>
          obtain ⟨goOn, r', hn, hcursor, hbuffer, hlost, hposition, hsame, hd'⟩ :=
            h.nextSector hc hahead htotal (by omega)
          rw [Reader.readLoop_across rounds count r r' goOn (by omega) hout hn]
          cases goOn with
          | false =>
              rw [if_neg Bool.false_ne_true]
              refine ⟨r.leftInBuffer, ⟨hout, by omega, ?_, ?_, hposition, hsame, hd'⟩, .inr (hlost rfl)⟩
              · rw [hmin, List.drop_eq_nil_of_le (by rw [List.length_take]; omega), List.append_nil]
              · rw [hbehind]
                exact hcursor
          | true =>
              rw [if_pos rfl]
              obtain ⟨n, hy, hn'⟩ := ih (count - r.leftInBuffer) r' _ hcursor (by omega) (by omega)
              have hle := hy.le
              have hpos := hy.position
              -- the next sector has come into the buffer, so what it gives is `data` again
              have hfresh : (Reader.readLoop v handle rounds (count - r.leftInBuffer) r').1 =
                  (sectorBytes content (lba' :: rest)).take n := by
                have hcopy := Reader.copy_eq (hbuffer rfl)
                  (Nat.min_le_right (count - r.leftInBuffer) r'.leftInBuffer)
                  (sectorBytes content rest)
                rw [show r'.fd.position % 512 = 0 by omega, List.drop_zero] at hcopy
                exact hy.bytes_iff.mpr hcopy
              refine ⟨r.leftInBuffer + n, ⟨by omega, by omega, ?_, ?_, ?_, hy.size.trans hsame,
                hy.isDirectory.trans hd'⟩, ?_⟩
              · rw [hmin, hfresh, ← hbehind, List.drop_take, Nat.add_sub_cancel_left]
              · rw [← List.drop_drop, hbehind]
                exact hy.cursor
              · change (Reader.readLoop v handle rounds _ r').2.fd.position = _
                omega
              · rcases hn' with rfl | hlost
                · exact .inl (by omega)
                · exact .inr hlost

-- What a piece of the loop has done: it gave the next `count` bytes of `data`, and the
-- record stands behind them.
structure Gives (content : Nat → Sector) (Ahead : FileData → List Nat → Prop) (fd : FileData)
    (data : List UInt8) (count : Nat) (result : List UInt8 × Reader) : Prop where
  bytes : result.1 = data.take count
  cursor : Cursor content Ahead result.2.fd (data.drop count)
  position : result.2.fd.position = fd.position + count
  size : result.2.fd.size = fd.size
  isDirectory : result.2.fd.isDirectory = fd.isDirectory

theorem Stream.readLoop (h : Stream v handle content Ahead) (rounds count : Nat) (r : Reader)
    (data : List UInt8) (hc : Cursor content Ahead r.fd data) (hrounds : count ≤ rounds)
    (hcount : r.fd.position + count ≤ r.fd.size) :
    Gives content Ahead r.fd data count (Reader.readLoop v handle rounds count r) := by
  obtain ⟨n, hy, hn⟩ := h.track.readLoop rounds count r data hc hrounds hcount
  obtain rfl : n = count := hn.resolve_right id
  have henough := hc.enough
  refine ⟨hy.bytes_iff.mpr ?_, hy.cursor, hy.position, hy.size, hy.isDirectory⟩
  by_cases hlt : r.fd.position < r.fd.size
  · obtain ⟨lba, rest, hahead, hdata⟩ := hc.split hlt
    rw [hdata]
    exact Reader.copy_eq (h.buffer _ _ _ hahead) (Nat.min_le_right _ _) _
  · obtain rfl : n = 0 := by omega
    simp [Reader.copy]

end Loop

section Calls

variable {handle : Handle} {content : Nat → Sector} {Ahead : FileData → List Nat → Prop}

theorem volume_setFile (s : State) (handle : Handle) (fd : FileData) :
    (s.setFile handle fd).volume = s.volume := by
  cases handle <;> rfl

theorem file_setFile (s : State) (handle : Handle) (fd : FileData) : (s.setFile handle fd).file handle = fd := by
  cases handle with
  | root => rfl
  | file slot => exact Function.update_self slot fd s.openedFiles

theorem file_read (s : State) (handle : Handle) (byteCount : Nat) :
    (s.read handle byteCount).2.file handle =
      (Reader.readLoop s.volume handle ((s.file handle).clamp byteCount)
        ((s.file handle).clamp byteCount) { fd := s.file handle, calls := s.calls }).2.fd :=
  file_setFile s handle _

theorem volume_read (s : State) (handle : Handle) (byteCount : Nat) :
    (s.read handle byteCount).2.volume = s.volume :=
  volume_setFile s handle _

-- What every FAT_ReadEntry keeps is kept by the scans.
theorem findFile_keeps {P : State → Prop} (hread : ∀ s, P s → P (s.readEntry handle).2)
    {name : List UInt8} {rounds : Nat} {s s' : State} {found : Option DirectoryEntry}
    (h : State.findFile handle name rounds s = .ok (found, s')) (hs : P s) : P s' := by
  induction rounds generalizing s with
  | zero => cases h
  | succ rounds ih =>
      have hmid := hread s hs
      unfold State.findFile at h
      cases hentry : s.readEntry handle with
      | mk entry mid =>
      rw [hentry] at h hmid
      cases entry with
      | none =>
          cases h
          exact hmid
      | some entry =>
          simp only at h
          split at h
          · cases h
            exact hmid
          · exact ih h hmid

theorem listLoop_keeps {P : State → Prop} (hread : ∀ s, P s → P (s.readEntry handle).2)
    {rounds : Nat} {s s' : State} {text : List UInt8}
    (h : State.listLoop handle rounds s = .ok (text, s')) (hs : P s) : P s' := by
  induction rounds generalizing s text with
  | zero => cases h
  | succ rounds ih =>
      have hmid := hread s hs
      unfold State.listLoop at h
      cases hentry : s.readEntry handle with
      | mk entry mid =>
      rw [hentry] at h hmid
      cases entry with
      | none =>
          cases h
          exact hmid
      | some entry =>
          simp only at h
          split at h
          · cases h
            exact hmid
          split at h
          · exact ih h hmid
          split at h
          · exact ih h hmid
          cases hrec : State.listLoop handle rounds mid with
          | error e =>
              rw [hrec] at h
              cases h
          | ok result =>
              obtain ⟨text', last⟩ := result
              rw [hrec] at h
              cases h
              exact ih hrec hmid

theorem FileData.clamp_eq {fd : FileData} (hsized : fd.isDirectory = false ∨ fd.size ≠ 0)
    (hle : fd.position ≤ fd.size) (hlt : fd.size < 4294967296) (byteCount : Nat) :
    fd.clamp byteCount = min byteCount (fd.size - fd.position) := by
  have hleft : u32 (fd.size + 4294967296 - fd.position) = fd.size - fd.position := by
    unfold u32
    omega
  rw [clamp, if_pos hsized, hleft]

-- One call of FAT_Read on a record that stands in its sectors.
theorem read_gives {s : State} (h : Stream s.volume handle content Ahead)
    (hsized : (s.file handle).isDirectory = false ∨ (s.file handle).size ≠ 0) {data : List UInt8}
    (hc : Cursor content Ahead (s.file handle) data) (byteCount : Nat) :
    ∃ r, (s.read handle byteCount).2.file handle = r ∧
      Gives content Ahead (s.file handle) data
        (min byteCount ((s.file handle).size - (s.file handle).position))
        ((s.read handle byteCount).1, { fd := r, calls := (s.read handle byteCount).2.calls }) := by
  have hle := hc.position_le
  have hclamp := FileData.clamp_eq hsized hle hc.size_lt byteCount
  refine ⟨_, file_read s handle byteCount, ?_⟩
  rw [hclamp]
  have hg := h.readLoop _ (min byteCount ((s.file handle).size - (s.file handle).position))
    { fd := s.file handle, calls := s.calls } data hc (Nat.le_refl _) (by
      change (s.file handle).position + _ ≤ (s.file handle).size
      omega)
  refine ⟨?_, hg.cursor, hg.position, hg.size, hg.isDirectory⟩
  unfold State.read
  simp only [hclamp]
  exact hg.bytes

-- What a sequence of calls returns.
def State.reads (s : State) (handle : Handle) : List Nat → List (List UInt8)
  | [] => []
  | byteCount :: counts =>
      (s.read handle byteCount).1 :: ((s.read handle byteCount).2.reads handle counts)

-- The lengths of the pieces when `left` bytes are left of the file.
def served (left : Nat) : List Nat → List Nat
  | [] => []
  | byteCount :: counts => min byteCount left :: served (left - min byteCount left) counts

-- Every call gives as much as is asked for and left, and the pieces make up a prefix of
-- `data`.
def Delivers (results : List (List UInt8)) (size : Nat) (counts : List Nat) (data : List UInt8) : Prop :=
  results.map List.length = served size counts ∧
    results.flatten = data.take results.flatten.length

theorem reads_deliver {s : State} (h : Stream s.volume handle content Ahead)
    (hsized : (s.file handle).isDirectory = false ∨ (s.file handle).size ≠ 0) {data : List UInt8}
    (hc : Cursor content Ahead (s.file handle) data) (counts : List Nat) :
    Delivers (s.reads handle counts) ((s.file handle).size - (s.file handle).position) counts data := by
  induction counts generalizing s data with
  | nil => exact ⟨rfl, rfl⟩
  | cons byteCount counts ih =>
      have hle := hc.position_le
      have henough := hc.enough
      obtain ⟨fd, hfile, hg⟩ := read_gives h hsized hc byteCount
      have hvolume := volume_read s handle byteCount
      have hpos : fd.position = (s.file handle).position + _ := hg.position
      have hsize : fd.size = (s.file handle).size := hg.size
      have hdir : fd.isDirectory = (s.file handle).isDirectory := hg.isDirectory
      have hbytes : (s.read handle byteCount).1 = data.take _ := hg.bytes
      have hlen : (s.read handle byteCount).1.length =
          min byteCount ((s.file handle).size - (s.file handle).position) := by
        rw [hbytes, List.length_take]
        omega
      have hrest := @ih (s.read handle byteCount).2 (by rw [hvolume]; exact h)
        (by rw [hfile, hdir, hsize]; exact hsized) _ (by rw [hfile]; exact hg.cursor)
      rw [hfile, hsize, hpos, Nat.sub_add_eq] at hrest
      refine ⟨?_, ?_⟩
      · rw [State.reads, List.map_cons, hlen, hrest.1, served]
      · rw [State.reads, List.flatten_cons, List.length_append, hlen, List.take_add, hbytes]
        congr 1
        exact hrest.2

end Calls

end ToyKernel.Fat
