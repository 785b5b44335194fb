import ToyKernel.Fat.Area
import ToyKernel.Fat.Path

namespace ToyKernel.Fat

-- Handles that FAT_Read treats alike.
def SameKind : Handle → Handle → Prop
  | .root, .root => True
  | .file _, .file _ => True
  | _, _ => False

section Readers

variable {v w : Volume} {content : Nat → Sector} {handle other : Handle}

theorem SameArea.reliable (harea : SameArea v w) (hdisk : Reliable v.disk content) :
    Reliable w.disk content := by
  rw [← harea.disk]
  exact hdisk

-- A record whose cluster has its bytes in the area goes on to one that has them there too.
theorem nextSector_agree (hdisk : Reliable v.disk content) (harea : SameArea v w)
    (hkind : SameKind handle other) {r r' : Reader} (hfd : r.fd = r'.fd)
    (hin : handle ≠ .root → InArea r.fd.currentCluster) :
    (r.nextSector v handle).1 = (r'.nextSector w other).1 ∧
      (r.nextSector v handle).2.fd = (r'.nextSector w other).2.fd ∧
      (handle ≠ .root → InArea (r.nextSector v handle).2.fd.currentCluster) := by
  have hdisk' := harea.reliable hdisk
  cases handle with
  | root =>
      cases other with
      | root =>
          refine ⟨?_, ?_, fun hne => absurd rfl hne⟩ <;>
            simp only [Reader.nextSector, Reader.load_eq hdisk, Reader.load_eq hdisk', hfd]
      | file slot => exact absurd hkind id
  | file slot =>
      cases other with
      | root => exact absurd hkind id
      | file slot' =>
          have hcluster := hin (by simp)
          rw [hfd] at hcluster
          simp only [Reader.nextSector, Reader.load_eq hdisk, Reader.load_eq hdisk', hfd,
            ← harea.bootSector, ← harea.clusterToLba, ← harea.nextCluster hcluster]
          by_cases hnext : u32 (r'.fd.currentSectorInCluster + 1) ≥
              v.bootSector.sectorsPerCluster.toNat
          · have hin' := inArea_nextCluster v r'.fd.currentCluster
            simp only [hnext, ite_true]
            split <;> exact ⟨rfl, rfl, fun _ => hin'⟩
          · simp only [hnext, ite_false]
            split <;> exact ⟨rfl, rfl, fun _ => hcluster⟩

-- On a disk that does not fail, what is read depends on the record and the driver's memory alone.
theorem readLoop_agree (hdisk : Reliable v.disk content) (harea : SameArea v w)
    (hkind : SameKind handle other) (rounds count : Nat) {r r' : Reader} (hfd : r.fd = r'.fd)
    (hin : handle ≠ .root → InArea r.fd.currentCluster) :
    (Reader.readLoop v handle rounds count r).1 = (Reader.readLoop w other rounds count r').1 ∧
      (Reader.readLoop v handle rounds count r).2.fd =
        (Reader.readLoop w other rounds count r').2.fd ∧
      (handle ≠ .root → InArea (Reader.readLoop v handle rounds count r).2.fd.currentCluster) := by
  induction rounds generalizing count r r' with
  | zero => exact ⟨rfl, hfd, hin⟩
  | succ rounds ih =>
      by_cases hz : count = 0
      · subst hz
        rw [Reader.readLoop_zero, Reader.readLoop_zero]
        exact ⟨rfl, hfd, hin⟩
      have hleft : r.leftInBuffer = r'.leftInBuffer := by
        unfold Reader.leftInBuffer
        rw [hfd]
      have hcopy : ∀ n, r.copy n = r'.copy n := by
        intro n
        unfold Reader.copy
        rw [hfd]
      have hskip : ∀ n, (r.skip n).fd = (r'.skip n).fd := by
        intro n
        unfold Reader.skip
        rw [hfd]
      by_cases hinside : count < r.leftInBuffer
      · rw [Reader.readLoop_inside rounds count r (by omega) hinside,
          Reader.readLoop_inside rounds count r' (by omega) (by omega)]
        exact ⟨hcopy count, hskip count, hin⟩
      · have hpos : 0 < r.leftInBuffer := by
          rw [Reader.leftInBuffer_eq]
          omega
        obtain ⟨hgo, hnext, hin'⟩ := nextSector_agree hdisk harea hkind (hskip r.leftInBuffer) hin
        rw [hleft] at hgo hnext hin'
        cases hn : (r.skip r.leftInBuffer).nextSector v handle with
        | mk goOn t =>
        cases hn' : (r'.skip r'.leftInBuffer).nextSector w other with
        | mk goOn' t' =>
        rw [← hleft, hn, hleft, hn'] at hgo hnext
        rw [← hleft, hn] at hin'
        simp only at hgo hnext hin'
        subst hgo
        rw [Reader.readLoop_across rounds count r t goOn hpos (by omega) hn,
          Reader.readLoop_across rounds count r' t' goOn (by omega) (by omega) hn', hleft]
        have hrest := ih (count - r'.leftInBuffer) hnext hin'
        cases goOn with
        | true => exact ⟨by simp only [ite_true, hcopy, hrest.1], hrest.2⟩
        | false => exact ⟨hcopy _, hnext, hin'⟩

end Readers

-- Two states that show the same file under two handles, in memories that agree on what is the
-- driver's.
structure Agree (s t : State) (handle other : Handle) : Prop where
  area : SameArea s.volume t.volume
  kind : SameKind handle other
  file : s.file handle = t.file other
  bounded : handle ≠ .root → (s.file handle).Bounded

-- Reads between which anyone may write behind the area
def State.readsIn (handle : Handle) : State → List (Behind × Nat) → List (List UInt8)
  | _, [] => []
  | s, (memory, byteCount) :: reads =>
      ((s.inMemory memory).read handle byteCount).1 ::
        readsIn handle ((s.inMemory memory).read handle byteCount).2 reads

section Calls

variable {s t : State} {handle other : Handle} {content : Nat → Sector}

theorem Agree.inMemory (h : Agree s t handle other) (memory memory' : Behind) :
    Agree (s.inMemory memory) (t.inMemory memory') handle other := by
  refine ⟨h.area.inMemory memory memory', h.kind, ?_, ?_⟩
  · rw [file_inMemory, file_inMemory]
    exact h.file
  · rw [file_inMemory]
    exact h.bounded

-- Nothing is read of a record that has nothing left.
theorem read_of_clamp_zero {byteCount : Nat} (h : (s.file handle).clamp byteCount = 0) :
    (s.read handle byteCount).1 = [] ∧ (s.read handle byteCount).2.file handle = s.file handle := by
  rw [file_read]
  unfold State.read
  simp only [h, Reader.readLoop_zero, and_self]

theorem read_agree (hdisk : Reliable s.volume.disk content) (h : Agree s t handle other)
    (byteCount : Nat) :
    (s.read handle byteCount).1 = (t.read other byteCount).1 ∧
      Agree (s.read handle byteCount).2 (t.read other byteCount).2 handle other := by
  have harea : SameArea (s.read handle byteCount).2.volume (t.read other byteCount).2.volume := by
    rw [volume_read, volume_read]
    exact h.area
  by_cases hnothing : (s.file handle).clamp byteCount = 0
  · obtain ⟨hbytes, hfile⟩ := read_of_clamp_zero hnothing
    obtain ⟨hbytes', hfile'⟩ := read_of_clamp_zero (h.file ▸ hnothing)
    refine ⟨hbytes.trans hbytes'.symm, harea, h.kind, ?_, ?_⟩
    · rw [hfile, hfile', h.file]
    · rw [hfile]
      exact h.bounded
  · have hin : handle ≠ .root → InArea (s.file handle).currentCluster := fun hne =>
      (h.bounded hne).resolve_right fun hall => hnothing (hall byteCount)
    obtain ⟨hbytes, hfd, hin'⟩ := readLoop_agree hdisk h.area h.kind ((s.file handle).clamp byteCount)
      ((s.file handle).clamp byteCount)
      (show ({ fd := s.file handle, calls := s.calls } : Reader).fd =
        ({ fd := t.file other, calls := t.calls } : Reader).fd from h.file) hin
    refine ⟨?_, harea, h.kind, ?_, fun hne => .inl ?_⟩
    · unfold State.read
      rw [h.file] at hbytes ⊢
      exact hbytes
    · rw [file_read, file_read]
      rw [h.file] at hfd ⊢
      exact hfd
    · rw [file_read]
      exact hin' hne

theorem reads_agree (hdisk : Reliable s.volume.disk content) (h : Agree s t handle other)
    (counts : List Nat) : s.reads handle counts = t.reads other counts := by
  induction counts generalizing s t with
  | nil => rfl
  | cons byteCount counts ih =>
      obtain ⟨hbytes, hagree⟩ := read_agree hdisk h byteCount
      rw [State.reads, State.reads, hbytes, ih (by rw [volume_read]; exact hdisk) hagree]

theorem readsIn_agree (hdisk : Reliable s.volume.disk content) (h : Agree s t handle other)
    {reads reads' : List (Behind × Nat)} (hcounts : reads.map Prod.snd = reads'.map Prod.snd) :
    s.readsIn handle reads = t.readsIn other reads' := by
  induction reads generalizing s t reads' with
  | nil =>
      rw [List.map_nil] at hcounts
      rw [List.map_eq_nil_iff.mp hcounts.symm]
      rfl
  | cons first reads ih =>
      obtain ⟨memory, byteCount⟩ := first
      obtain ⟨⟨memory', byteCount'⟩, rest', rfl, hcount, hrest⟩ := List.map_eq_cons_iff.mp hcounts.symm
      cases hcount
      have hdisk' : Reliable (s.inMemory memory).volume.disk content := hdisk
      obtain ⟨hbytes, hagree⟩ := read_agree hdisk' (h.inMemory memory memory') byteCount
      have hrest' := ih (by rw [volume_read]; exact hdisk) hagree hrest.symm
      rw [State.readsIn, State.readsIn, hbytes, hrest']

theorem readEntry_agree (hdisk : Reliable s.volume.disk content) (h : Agree s t handle other) :
    (s.readEntry handle).1 = (t.readEntry other).1 ∧
      Agree (s.readEntry handle).2 (t.readEntry other).2 handle other := by
  obtain ⟨hbytes, hagree⟩ := read_agree hdisk h DIRECTORY_ENTRY_SIZE
  refine ⟨?_, hagree⟩
  unfold State.readEntry
  simp only [hbytes]

-- Two searches come out alike.
def SameSearch (handle other : Handle) :
    Except Stuck (Option DirectoryEntry × State) → Except Stuck (Option DirectoryEntry × State) → Prop
  | .error e, .error e' => e = e'
  | .ok (found, s), .ok (found', t) => found = found' ∧ Agree s t handle other
  | _, _ => False

theorem findFile_agree (hdisk : Reliable s.volume.disk content) (h : Agree s t handle other)
    (name : List UInt8) (rounds : Nat) :
    SameSearch handle other (State.findFile handle name rounds s)
      (State.findFile other name rounds t) := by
  induction rounds generalizing s t with
  | zero => exact rfl
  | succ rounds ih =>
      have hentry := readEntry_agree hdisk h
      have hvolume : (s.readEntry handle).2.volume = s.volume := volume_read s handle _
      unfold State.findFile
      cases hs : s.readEntry handle with
      | mk found s' =>
      cases ht : t.readEntry other with
      | mk found' t' =>
      rw [hs, ht] at hentry
      rw [hs] at hvolume
      obtain ⟨rfl, hagree⟩ := hentry
      cases found with
      | none => exact ⟨rfl, hagree⟩
      | some entry =>
          simp only
          by_cases hmatch : fatName name = entry.name
          · rw [if_pos hmatch, if_pos hmatch]
            exact ⟨rfl, hagree⟩
          · rw [if_neg hmatch, if_neg hmatch]
            exact ih (by rw [hvolume]; exact hdisk) hagree

end Calls

section Open

variable {s t : State} {content : Nat → Sector}

theorem freeHandle_eq_none_iff (s : State) :
    s.freeHandle = none ↔ ∀ slot, (s.openedFiles slot).opened = true := by
  simp [State.freeHandle]

-- What FAT_OpenEntry makes of the entry
theorem bounded_of_entry {fd : FileData} {entry : DirectoryEntry} (h : entry.Bounded)
    (hdir : fd.isDirectory = (entry.attributes &&& FAT_ATTRIBUTE_DIRECTORY != 0)) (hposition : fd.position = 0)
    (hsize : fd.size = entry.size.toNat) (hcluster : fd.currentCluster = entry.firstCluster) : fd.Bounded := by
  rcases h with hin | ⟨hfile, hempty⟩
  · exact .inl (hcluster ▸ hin)
  · refine .inr fun byteCount => ?_
    have hnot : fd.isDirectory = false := by
      rw [hdir, hfile]
      rfl
    rw [FileData.clamp, if_pos (.inl hnot), hposition, hsize, hempty]
    exact Nat.min_zero byteCount

theorem openEntry_agree (hdisk : Reliable s.volume.disk content) (harea : SameArea s.volume t.volume)
    (hs : s.freeHandle ≠ none) (ht : t.freeHandle ≠ none) {entry : DirectoryEntry} (hentry : entry.Bounded) :
    ∃ slot slot', (s.openEntry entry).1 = some (.file slot) ∧
      (t.openEntry entry).1 = some (.file slot') ∧
      Agree (s.openEntry entry).2 (t.openEntry entry).2 (.file slot) (.file slot') := by
  have hdisk' := harea.reliable hdisk
  obtain ⟨slot, hslot⟩ := Option.ne_none_iff_exists'.mp hs
  obtain ⟨slot', hslot'⟩ := Option.ne_none_iff_exists'.mp ht
  have hopen : s.openEntry entry = (some (.file slot), (s.openEntry entry).2) := by
    simp only [State.openEntry, hslot, Reader.load_eq hdisk, ite_true]
  have hopen' : t.openEntry entry = (some (.file slot'), (t.openEntry entry).2) := by
    simp only [State.openEntry, hslot', Reader.load_eq hdisk', ite_true]
  obtain ⟨_, _, _, hv, hfile⟩ := openEntry_some hdisk hopen
  obtain ⟨_, _, _, hv', hfile'⟩ := openEntry_some hdisk' hopen'
  refine ⟨slot, slot', by rw [hopen], by rw [hopen'], ?_, trivial, ?_, fun _ => ?_⟩
  · rw [hv, hv']
    exact harea
  · rw [hfile, hfile', harea.clusterToLba]
  · apply bounded_of_entry hentry <;> rw [hfile]

-- Two calls of FAT_Open come out alike: they end in the same way, and a file they open
-- has the same record and yields the same bytes, whatever is written behind the area meanwhile.
def SameOutcome :
    Except Stuck (Option Handle × State) → Except Stuck (Option Handle × State) → Prop
  | .error e, .error e' => e = e'
  | .ok (none, _), .ok (none, _) => True
  | .ok (some handle, s), .ok (some other, t) =>
      s.file handle = t.file other ∧ ∀ reads reads' : List (Behind × Nat),
        reads.map Prod.snd = reads'.map Prod.snd → s.readsIn handle reads = t.readsIn other reads'
  | _, _ => False

-- A reading call changes the record it reads and no other.
theorem openedFiles_read (s : State) (byteCount : Nat) :
    (s.read .root byteCount).2.openedFiles = s.openedFiles := rfl

theorem findFile_openedFiles {name : List UInt8} {rounds : Nat} {s s' : State}
    {found : Option DirectoryEntry} (h : State.findFile .root name rounds s = .ok (found, s')) :
    s'.openedFiles = s.openedFiles :=
  findFile_keeps (P := fun t => t.openedFiles = s.openedFiles)
    (fun t ht => (openedFiles_read t DIRECTORY_ENTRY_SIZE).trans ht) h rfl

theorem findFile_volume {handle : Handle} {name : List UInt8} {rounds : Nat} {s s' : State}
    {found : Option DirectoryEntry} (h : State.findFile handle name rounds s = .ok (found, s')) :
    s'.volume = s.volume :=
  findFile_keeps (P := fun t => t.volume = s.volume)
    (fun t ht => (volume_read t handle DIRECTORY_ENTRY_SIZE).trans ht) h rfl

theorem volume_close (s : State) (handle : Handle) : (s.close handle).volume = s.volume := by
  cases handle <;> rfl

-- Closing what was searched leaves a handle to open the next entry with.
theorem freeHandle_close {handle : Handle} {name : List UInt8} {rounds : Nat} {s s' : State}
    {found : Option DirectoryEntry} (h : State.findFile handle name rounds s = .ok (found, s'))
    (hfree : handle = .root → s.freeHandle ≠ none) : (s'.close handle).freeHandle ≠ none := by
  intro hnone
  have hall := (freeHandle_eq_none_iff _).mp hnone
  cases handle with
  | root =>
      apply hfree rfl
      rw [freeHandle_eq_none_iff, ← findFile_openedFiles h]
      exact hall
  | file slot =>
      have hslot := hall slot
      simp [State.close, State.setFile] at hslot

theorem openLoop_agree {handle other : Handle} (hdisk : Reliable s.volume.disk content)
    (h : Agree s t handle other) (hs : handle = .root → s.freeHandle ≠ none)
    (ht : other = .root → t.freeHandle ≠ none) (rounds length : Nat) {path : List UInt8}
    (hnames : ∀ entry, Names entry path other t → entry.Bounded) :
    SameOutcome (State.openLoop rounds length path (some handle) s)
      (State.openLoop rounds length path (some other) t) := by
  induction length generalizing s t handle other path with
  | zero => exact ⟨h.file, fun _ _ => readsIn_agree hdisk h⟩
  | succ length ih =>
      by_cases hpath : path = []
      · rw [hpath, openLoop_nil, openLoop_nil]
        exact ⟨h.file, fun _ _ => readsIn_agree hdisk h⟩
      by_cases hlong : MAX_PATH_SIZE ≤ (component path).length
      · rw [openLoop_tooLong hpath hlong, openLoop_tooLong hpath hlong]
        exact rfl
      have hfits := Nat.not_le.mp hlong
      rw [openLoop_succ hpath hfits, openLoop_succ hpath hfits]
      have hsearch := findFile_agree hdisk h (component path) rounds
      cases hfs : State.findFile handle (component path) rounds s with
      | error e =>
          cases hft : State.findFile other (component path) rounds t with
          | error e' =>
              rw [hfs, hft] at hsearch
              exact hsearch
          | ok _ =>
              rw [hfs, hft] at hsearch
              exact absurd hsearch id
      | ok result =>
          cases hft : State.findFile other (component path) rounds t with
          | error e =>
              rw [hfs, hft] at hsearch
              exact absurd hsearch id
          | ok result' =>
              obtain ⟨found, s'⟩ := result
              obtain ⟨found', t'⟩ := result'
              rw [hfs, hft] at hsearch
              obtain ⟨rfl, hagree⟩ := hsearch
              cases found with
              | none => exact trivial
              | some entry =>
                  have hsv := findFile_volume hfs
                  have hdisk' : Reliable (s'.close handle).volume.disk content := by
                    rw [volume_close, hsv]
                    exact hdisk
                  have harea : SameArea (s'.close handle).volume (t'.close other).volume := by
                    rw [volume_close, volume_close]
                    exact hagree.area
                  have henters : ∀ opened, ((t'.close other).openEntry entry).1 = opened →
                      Enters path other t entry opened ((t'.close other).openEntry entry).2 :=
                    fun _ ho => ⟨hpath, hfits, t', ⟨rounds, hft⟩, Prod.ext ho rfl⟩
                  obtain ⟨slot, slot', hos, hot, hopened⟩ := openEntry_agree hdisk' harea
                    (freeHandle_close hfs hs) (freeHandle_close hft ht) (hnames entry (.here (henters _ rfl)))
                  simp only [hos, hot]
                  refine ih ?_ hopened (fun he => by cases he) (fun he => by cases he)
                    fun found hfound => hnames found (.later (henters _ hot) hfound)
                  obtain ⟨_, _, _, hv, _⟩ := openEntry_some hdisk' (Prod.ext hos rfl)
                  rw [hv]
                  exact hdisk'

end Open

end ToyKernel.Fat
