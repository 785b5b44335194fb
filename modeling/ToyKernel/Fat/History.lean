import ToyKernel.Fat.Agree
import ToyKernel.Library.Run

namespace ToyKernel.Fat

open Library

-- The calls a user of the driver can make.
inductive Call where
  | openFile (path : List UInt8)
  | read (handle : Handle) (byteCount : Nat)
  | readEntry (handle : Handle)
  | listDirectory (dir : Handle)
  | close (handle : Handle)

-- A call with at most `rounds` entries read in each directory.
def State.call (rounds : Nat) (s : State) : Call → Except Stuck State
  | .openFile path => (s.openFile rounds path).map Prod.snd
  | .read handle byteCount => .ok (s.read handle byteCount).2
  | .readEntry handle => .ok (s.readEntry handle).2
  | .listDirectory dir => (s.listDirectory rounds dir).map Prod.snd
  | .close handle => .ok (s.close handle)

-- The same with what stands behind the driver's area by then
def State.callIn (rounds : Nat) (s : State) (c : Behind × Call) : Except Stuck State :=
  (s.inMemory c.1).call rounds c.2

-- FAT_Open does with the path in `s` what it does in `start`, whatever stands behind the area.
def HistoryFree (start s : State) (path : List UInt8) : Prop :=
  ∀ (rounds : Nat) (memory memory' : Behind),
    SameOutcome ((s.inMemory memory).openFile rounds path) ((start.inMemory memory').openFile rounds path)

-- The FAT is never read behind the driver's area along the path.
def BoundedPath (start : State) (path : List UInt8) : Prop :=
  ∀ (memory : Behind) (entry : DirectoryEntry),
    Names entry (State.skipSlash path) .root (start.inMemory memory) → entry.Bounded

section Condition

-- A scan of the directory from the current position on ends inside the sector that is
-- in the buffer: it meets an entry to stop at, or the directory is shorter than that.
def ScanStays (stop : DirectoryEntry → Prop) (fd : FileData) : Prop :=
  (fd.size ≠ 0 ∧ fd.size < 512) ∨
    ∃ k, fd.position + 32 * (k + 1) < 512 ∧
      (fd.size = 0 ∨ fd.position + 32 * (k + 1) ≤ fd.size) ∧
      stop (DirectoryEntry.ofBytes ((fd.buffer.bytes.drop (fd.position + 32 * k)).take 32))

-- The call does not carry the root handle past the first sector.
def StaysNear (s : State) : Call → Prop
  | .openFile path =>
      State.skipSlash path = [] ∨
        ScanStays (fun entry => fatName ((State.skipSlash path).takeWhile (· ≠ SLASH)) = entry.name)
          s.rootDirectory
  | .read .root byteCount =>
      s.rootDirectory.position + s.rootDirectory.clamp byteCount < 512
  | .readEntry .root =>
      s.rootDirectory.position + s.rootDirectory.clamp DIRECTORY_ENTRY_SIZE < 512
  | .listDirectory .root =>
      ScanStays (fun entry => entry.name.head? = some 0x00) (s.rootDirectory.seek 0)
  | _ => True

end Condition

-- The root handle as FAT_Initialize leaves it.
structure Fresh (start : State) : Prop where
  isDirectory : start.rootDirectory.isDirectory = true
  position : start.rootDirectory.position = 0
  size_lt : start.rootDirectory.size < 4294967296
  cluster : start.rootDirectory.currentCluster = start.rootDirectory.firstCluster

theorem fatInitialize_fresh {disk : Disk} {slots : Fin 10 → FileData} {ram : Nat → UInt8}
    {start : State} (h : fatInitialize disk slots ram = .ok start) : Fresh start := by
  obtain ⟨_, _, _, hroot⟩ := fatInitialize_ok h
  have hentries := start.volume.bootSector.dirEntryCount.toNat_lt
  refine ⟨by rw [hroot], by rw [hroot], ?_, by rw [hroot]⟩
  rw [hroot]
  change 32 * start.volume.bootSector.dirEntryCount.toNat < _
  omega

-- `s` has the volume of `start`, as far as it is the driver's, and its root handle differs in the
-- position alone, which is still in the first sector.
structure Near (start s : State) : Prop where
  area : SameArea s.volume start.volume
  root : s.rootDirectory = start.rootDirectory.seek s.rootDirectory.position
  position_lt : s.rootDirectory.position < 512
  position_le : s.rootDirectory.size = 0 ∨ s.rootDirectory.position ≤ s.rootDirectory.size

section Root

variable {start s s' : State}

theorem Near.size (h : Near start s) : s.rootDirectory.size = start.rootDirectory.size := by
  rw [h.root]
  rfl

-- Two records that are one record at two positions.
theorem Near.seek (h : Near start s) (position : Nat) :
    s.rootDirectory.seek position = start.rootDirectory.seek position := by
  rw [h.root]
  rfl

theorem near_start (hfresh : Fresh start) : Near start start := by
  refine ⟨SameArea.refl _, rfl, ?_, Or.inr ?_⟩
  · rw [hfresh.position]
    decide
  · rw [hfresh.position]
    exact Nat.zero_le _

theorem Near.inMemory (h : Near start s) (memory : Behind) : Near start (s.inMemory memory) :=
  ⟨(sameArea_inMemory s.volume memory).trans h.area, h.root, h.position_lt, h.position_le⟩

-- Nothing but the position moves as long as the sector is not read to its end.
theorem readLoop_short (v : Volume) (handle : Handle) {rounds count : Nat} {r : Reader}
    (hrounds : count ≤ rounds) (hshort : r.fd.position + count < 512) :
    Reader.readLoop v handle rounds count r = (r.copy count, r.skip count) := by
  by_cases hz : count = 0
  · subst hz
    have hu : u32 (r.fd.position + 0) = r.fd.position := u32_of_lt (by omega)
    rw [Reader.readLoop_zero, Reader.skip, hu]
    simp [Reader.copy]
  · cases rounds with
    | zero => omega
    | succ rounds =>
        refine Reader.readLoop_inside rounds count r (by omega) ?_
        rw [Reader.leftInBuffer_eq]
        omega

-- What is read from the root handle while it stays in the first sector.
theorem Near.read (hfresh : Fresh start) (h : Near start s) (byteCount : Nat)
    (hshort : s.rootDirectory.position + s.rootDirectory.clamp byteCount < 512) :
    Near start (s.read .root byteCount).2 ∧
      (s.read .root byteCount).2.rootDirectory.position =
        s.rootDirectory.position + s.rootDirectory.clamp byteCount ∧
      (s.read .root byteCount).1 =
        (s.rootDirectory.buffer.bytes.drop s.rootDirectory.position).take
          (s.rootDirectory.clamp byteCount) := by
  have hsize := h.size
  have hlt := hfresh.size_lt
  have hloop := readLoop_short s.volume .root (r := { fd := s.rootDirectory, calls := s.calls })
    (Nat.le_refl (s.rootDirectory.clamp byteCount)) hshort
  have hu : u32 (s.rootDirectory.position + s.rootDirectory.clamp byteCount) =
      s.rootDirectory.position + s.rootDirectory.clamp byteCount := u32_of_lt (by omega)
  have hposition : (s.read .root byteCount).2.rootDirectory =
      s.rootDirectory.seek (s.rootDirectory.position + s.rootDirectory.clamp byteCount) := by
    unfold State.read
    simp only [State.file, hloop, Reader.skip, hu]
    rfl
  refine ⟨⟨h.area, ?_, ?_, ?_⟩, by rw [hposition]; rfl, ?_⟩
  · rw [hposition, h.seek]
    rfl
  · rw [hposition]
    exact hshort
  · rw [hposition]
    rcases h.position_le with hz | hle
    · exact Or.inl hz
    · by_cases hz : s.rootDirectory.size = 0
      · exact Or.inl hz
      · have hclamp := FileData.clamp_eq (Or.inr hz) hle (by omega) byteCount
        refine Or.inr ?_
        change _ + s.rootDirectory.clamp byteCount ≤ s.rootDirectory.size
        omega
  · unfold State.read
    simp only [State.file, hloop, Reader.copy, SECTOR_SIZE, Nat.mod_eq_of_lt h.position_lt]

-- An entry that ends within the directory is read whole.
theorem Near.clamp_entry (hfresh : Fresh start) (h : Near start s)
    (havail : s.rootDirectory.size = 0 ∨ s.rootDirectory.position + 32 ≤ s.rootDirectory.size) :
    s.rootDirectory.clamp DIRECTORY_ENTRY_SIZE = 32 := by
  have hsize := h.size
  have hlt := hfresh.size_lt
  by_cases hz : s.rootDirectory.size = 0
  · have hdir : s.rootDirectory.isDirectory = true := by
      rw [h.root]
      exact hfresh.isDirectory
    simp [FileData.clamp, hz, hdir, DIRECTORY_ENTRY_SIZE]
  · have hle := havail.resolve_left hz
    rw [FileData.clamp_eq (.inr hz) (by omega) (by omega)]
    change min 32 (s.rootDirectory.size - s.rootDirectory.position) = 32
    omega

-- What is read then stands in the buffer at the position.
theorem Near.readEntry_eq (hfresh : Fresh start) (h : Near start s)
    (hclamp : s.rootDirectory.clamp DIRECTORY_ENTRY_SIZE = 32) (hshort : s.rootDirectory.position + 32 < 512)
    {entry : DirectoryEntry} (hentry : (s.readEntry .root).1 = some entry) :
    entry = DirectoryEntry.ofBytes
      ((s.rootDirectory.buffer.bytes.drop s.rootDirectory.position).take 32) := by
  obtain ⟨-, -, hbytes⟩ := h.read hfresh DIRECTORY_ENTRY_SIZE (by omega)
  rw [hclamp] at hbytes
  rw [← hbytes]
  unfold State.readEntry at hentry
  simp only [Option.ite_none_right_eq_some, Option.some.injEq] at hentry
  exact hentry.2.symm

-- One entry of a scan that stays: the handle stays near, and so does what is left of
-- the scan unless this was the entry to stop at.
theorem Near.readEntry (hfresh : Fresh start) (h : Near start s) {stop : DirectoryEntry → Prop}
    (hstays : ScanStays stop s.rootDirectory) :
    Near start (s.readEntry .root).2 ∧
      ∀ entry, (s.readEntry .root).1 = some entry → ¬stop entry →
        ScanStays stop (s.readEntry .root).2.rootDirectory := by
  have hsize := h.size
  have hlt := hfresh.size_lt
  rcases hstays with ⟨hne, hsmall⟩ | ⟨k, hend, havail, hstop⟩
  · have hle := h.position_le.resolve_left hne
    have hclamp := FileData.clamp_eq (.inr hne) hle (by omega) DIRECTORY_ENTRY_SIZE
    obtain ⟨hnear, -, -⟩ := h.read hfresh DIRECTORY_ENTRY_SIZE (by omega)
    have hsame : (s.readEntry .root).2.rootDirectory.size = s.rootDirectory.size :=
      hnear.size.trans hsize.symm
    refine ⟨hnear, fun entry _ _ => .inl ?_⟩
    rw [hsame]
    exact ⟨hne, hsmall⟩
  · have hclamp := h.clamp_entry hfresh (by omega)
    obtain ⟨hnear, hposition, -⟩ := h.read hfresh DIRECTORY_ENTRY_SIZE (by omega)
    rw [hclamp] at hposition
    have hafter : (s.readEntry .root).2.rootDirectory = s.rootDirectory.seek (s.rootDirectory.position + 32) := by
      change (s.read .root DIRECTORY_ENTRY_SIZE).2.rootDirectory = _
      rw [hnear.root, hposition, h.seek]
    refine ⟨hnear, fun entry hentry hnot => .inr ?_⟩
    have hparsed := h.readEntry_eq hfresh hclamp (by omega) hentry
    cases k with
    | zero =>
        rw [hparsed] at hnot
        exact absurd hstop hnot
    | succ k =>
        rw [hafter]
        have hplace : s.rootDirectory.position + 32 + 32 * k = s.rootDirectory.position + 32 * (k + 1) := by omega
        refine ⟨k, ?_, ?_, ?_⟩
        · change s.rootDirectory.position + 32 + _ < _
          omega
        · change s.rootDirectory.size = 0 ∨ s.rootDirectory.position + 32 + _ ≤ s.rootDirectory.size
          omega
        · change stop (DirectoryEntry.ofBytes
            ((s.rootDirectory.buffer.bytes.drop (s.rootDirectory.position + 32 + 32 * k)).take 32))
          rw [hplace]
          exact hstop

theorem Near.findFile (hfresh : Fresh start) (h : Near start s) {name : List UInt8} {rounds : Nat}
    {found : Option DirectoryEntry}
    (hstays : ScanStays (fun entry => fatName name = entry.name) s.rootDirectory)
    (hfind : State.findFile .root name rounds s = .ok (found, s')) : Near start s' := by
  induction rounds generalizing s with
  | zero => cases hfind
  | succ rounds ih =>
      obtain ⟨hnear, hnext⟩ := h.readEntry hfresh hstays
      unfold State.findFile at hfind
      cases hs : s.readEntry .root with
      | mk entry mid =>
      rw [hs] at hfind hnear hnext
      cases entry with
      | none =>
          cases hfind
          exact hnear
      | some entry =>
          simp only at hfind
          by_cases hmatch : fatName name = entry.name
          · rw [if_pos hmatch] at hfind
            cases hfind
            exact hnear
          · rw [if_neg hmatch] at hfind
            exact ih hnear (hnext entry rfl hmatch) hfind

theorem Near.listLoop (hfresh : Fresh start) (h : Near start s) {rounds : Nat} {text : List UInt8}
    (hstays : ScanStays (fun entry => entry.name.head? = some 0x00) s.rootDirectory)
    (hlist : State.listLoop .root rounds s = .ok (text, s')) : Near start s' := by
  induction rounds generalizing s text with
  | zero => cases hlist
  | succ rounds ih =>
      obtain ⟨hnear, hnext⟩ := h.readEntry hfresh hstays
      unfold State.listLoop at hlist
      cases hs : s.readEntry .root with
      | mk entry mid =>
      rw [hs] at hlist hnear hnext
      cases entry with
      | none =>
          cases hlist
          exact hnear
      | some entry =>
          simp only at hlist
          by_cases hend : entry.name.head? = some 0x00
          · rw [if_pos hend] at hlist
            cases hlist
            exact hnear
          · have hrest := hnext entry rfl hend
            rw [if_neg hend] at hlist
            split at hlist
            · exact ih hnear hrest hlist
            split at hlist
            · exact ih hnear hrest hlist
            cases hrec : State.listLoop .root rounds mid with
            | error e =>
                rw [hrec] at hlist
                cases hlist
            | ok result =>
                obtain ⟨text', last⟩ := result
                rw [hrec] at hlist
                cases hlist
                exact ih hnear hrest hrec

theorem Near.close (hfresh : Fresh start) (h : Near start s) : Near start (s.close .root) := by
  have hfirst : s.rootDirectory.firstCluster = s.rootDirectory.currentCluster := by
    rw [h.root]
    exact hfresh.cluster.symm
  have hroot : (s.close .root).rootDirectory = s.rootDirectory.seek 0 := by
    change { s.rootDirectory with position := 0, currentCluster := s.rootDirectory.firstCluster } = _
    rw [hfirst]
    rfl
  refine ⟨h.area, ?_, ?_, Or.inr ?_⟩ <;> rw [hroot]
  · exact h.seek 0
  · change 0 < 512
    decide
  · exact Nat.zero_le _

end Root

section Files

-- The state of the root handle is the business of calls on the root handle.
structure Keeps (s s' : State) : Prop where
  volume : s'.volume = s.volume
  root : s'.rootDirectory = s.rootDirectory

variable {start s s' mid : State}

theorem Keeps.refl (s : State) : Keeps s s := ⟨rfl, rfl⟩

theorem Keeps.trans (h : Keeps s mid) (h' : Keeps mid s') : Keeps s s' :=
  ⟨h'.volume.trans h.volume, h'.root.trans h.root⟩

theorem Near.keeps (h : Near start s) (hkeeps : Keeps s s') : Near start s' := by
  refine ⟨?_, ?_, ?_, ?_⟩
  · rw [hkeeps.volume]
    exact h.area
  all_goals rw [hkeeps.root]
  · exact h.root
  · exact h.position_lt
  · exact h.position_le

theorem keeps_read (s : State) (slot : Fin 10) (byteCount : Nat) :
    Keeps s (s.read (.file slot) byteCount).2 := ⟨rfl, rfl⟩

theorem keeps_openEntry (s : State) (entry : DirectoryEntry) :
    Keeps s (s.openEntry entry).2 ∧ (s.openEntry entry).1 ≠ some .root := by
  unfold State.openEntry
  cases s.freeHandle with
  | none => exact ⟨Keeps.refl s, by simp⟩
  | some slot =>
      simp only
      split
      · exact ⟨⟨rfl, rfl⟩, by simp⟩
      · exact ⟨⟨rfl, rfl⟩, by simp⟩

theorem keeps_findFile {slot : Fin 10} {name : List UInt8} {rounds : Nat}
    {found : Option DirectoryEntry}
    (h : State.findFile (.file slot) name rounds s = .ok (found, s')) : Keeps s s' :=
  findFile_keeps (fun t ht => ht.trans (keeps_read t slot DIRECTORY_ENTRY_SIZE)) h (Keeps.refl s)

theorem keeps_listLoop {slot : Fin 10} {rounds : Nat} {text : List UInt8}
    (h : State.listLoop (.file slot) rounds s = .ok (text, s')) : Keeps s s' :=
  listLoop_keeps (fun t ht => ht.trans (keeps_read t slot DIRECTORY_ENTRY_SIZE)) h (Keeps.refl s)

-- Below the root FAT_Open works on its file handles only.
theorem keeps_openLoop {rounds length : Nat} {path : List UInt8} {current result : Option Handle}
    (hcurrent : current ≠ some .root)
    (h : State.openLoop rounds length path current s = .ok (result, s')) : Keeps s s' := by
  induction length generalizing s path current with
  | zero =>
      cases h
      exact Keeps.refl _
  | succ length ih =>
      by_cases hempty : path = []
      · rw [hempty, openLoop_nil] at h
        cases h
        exact Keeps.refl _
      obtain ⟨handle, found, mid, rfl, -, hfind, hround⟩ := openLoop_inv hempty h
      cases handle with
      | root => exact absurd rfl hcurrent
      | file slot =>
          have hmid := keeps_findFile hfind
          have hclose : Keeps mid (mid.close (.file slot)) := ⟨rfl, rfl⟩
          rcases hround with ⟨-, -, rfl⟩ | ⟨entry, -, hrest⟩
          · exact hmid.trans hclose
          · obtain ⟨hopen, hnot⟩ := keeps_openEntry (mid.close (.file slot)) entry
            exact hmid.trans (hclose.trans (hopen.trans (ih hnot hrest)))

end Files

section Steps

variable {start s s' : State}

theorem Near.openFile (hfresh : Fresh start) (h : Near start s) {rounds : Nat} {path : List UInt8}
    {result : Option Handle} (hstays : StaysNear s (.openFile path))
    (hopen : s.openFile rounds path = .ok (result, s')) : Near start s' := by
  unfold State.openFile at hopen
  cases hlen : path.length with
  | zero =>
      rw [hlen] at hopen
      cases hopen
      exact h
  | succ length =>
      rw [hlen] at hopen
      by_cases hempty : State.skipSlash path = []
      · rw [hempty, openLoop_nil] at hopen
        cases hopen
        exact h
      obtain ⟨handle, found, mid, hroot, -, hfind, hround⟩ := openLoop_inv hempty hopen
      cases hroot
      have hmid := h.findFile hfresh (hstays.resolve_left hempty) hfind
      have hclose := hmid.close hfresh
      rcases hround with ⟨-, -, rfl⟩ | ⟨entry, -, hrest⟩
      · exact hclose
      · obtain ⟨hkeeps, hnot⟩ := keeps_openEntry (mid.close .root) entry
        exact hclose.keeps (hkeeps.trans (keeps_openLoop hnot hrest))

-- One call.
theorem Near.call (hfresh : Fresh start) {rounds : Nat} (c : Call) (h : Near start s)
    (hstays : StaysNear s c) (hcall : s.call rounds c = .ok s') : Near start s' := by
  cases c with
  | openFile path =>
      simp only [State.call] at hcall
      cases hopen : s.openFile rounds path with
      | error e =>
          rw [hopen] at hcall
          cases hcall
      | ok result =>
          rw [hopen] at hcall
          cases hcall
          exact h.openFile hfresh hstays hopen
  | read handle byteCount =>
      cases hcall
      cases handle with
      | root => exact (h.read hfresh byteCount hstays).1
      | file slot => exact h.keeps (keeps_read s slot byteCount)
  | readEntry handle =>
      cases hcall
      cases handle with
      | root => exact (h.read hfresh DIRECTORY_ENTRY_SIZE hstays).1
      | file slot => exact h.keeps (keeps_read s slot DIRECTORY_ENTRY_SIZE)
  | listDirectory dir =>
      simp only [State.call, State.listDirectory] at hcall
      cases hlist : State.listLoop dir rounds
          (s.setFile dir ((s.file dir).seek 0)) with
      | error e =>
          rw [hlist] at hcall
          cases hcall
      | ok result =>
          rw [hlist] at hcall
          cases hcall
          cases dir with
          | root =>
              have hrewind : Near start (s.setFile .root (s.rootDirectory.seek 0)) :=
                ⟨h.area, h.seek 0, by change 0 < 512; decide, Or.inr (Nat.zero_le _)⟩
              exact hrewind.listLoop hfresh hstays hlist
          | file slot =>
              have hrewind : Keeps s
                  (s.setFile (.file slot) ((s.file (.file slot)).seek 0)) := ⟨rfl, rfl⟩
              exact h.keeps (hrewind.trans (keeps_listLoop hlist))
  | close handle =>
      cases hcall
      cases handle with
      | root => exact h.close hfresh
      | file slot => exact h.keeps ⟨rfl, rfl⟩

end Steps

-- For a path of one component it is enough to look at what the search finds.
theorem boundedPath_of_last {start : State} {content : Nat → Sector} {path : List UInt8} {rounds : Nat}
    {found : Option DirectoryEntry} {mid : State} (hdisk : Reliable start.volume.disk content)
    (hlast : behind (State.skipSlash path) = [])
    (hfind : State.findFile .root (component (State.skipSlash path)) rounds start = .ok (found, mid))
    (hfound : ∀ entry, found = some entry → entry.Bounded) : BoundedPath start path := by
  intro memory entry hnames
  have hagree : Agree (start.inMemory memory) start .root .root :=
    ⟨sameArea_inMemory _ _, trivial, rfl, fun hne => absurd rfl hne⟩
  have hdisk' : Reliable (start.inMemory memory).volume.disk content := hdisk
  have henters : ∃ opened s', Enters (State.skipSlash path) .root (start.inMemory memory) entry opened s' := by
    cases hnames with
    | here h => exact ⟨_, _, h⟩
    | later h hrest =>
        rw [hlast] at hrest
        cases hrest with
        | here h' => exact absurd rfl h'.nonempty
        | later h' _ => exact absurd rfl h'.nonempty
  obtain ⟨opened, s', henters⟩ := henters
  obtain ⟨mid', ⟨rounds', hsearch⟩, -⟩ := henters.opens
  have hsame := findFile_agree hdisk' hagree (component (State.skipSlash path)) (max rounds rounds')
  rw [findFile_mono hsearch (Nat.le_max_right _ _), findFile_mono hfind (Nat.le_max_left _ _)] at hsame
  exact hfound entry hsame.1.symm

-- A history that never carries the root handle past its first sector leaves FAT_Open as
-- it was, as long as the root handle has been put back to its start, for every path along which
-- the FAT is read in the driver's area.
theorem openFile_historyFree {disk : Disk} {content : Nat → Sector} (hdisk : Reliable disk content)
    {slots : Fin 10 → FileData} {ram : Nat → UInt8} {start s : State}
    (hinit : fatInitialize disk slots ram = .ok start) (rounds : Nat) (history : List (Behind × Call))
    (hstays : AllMet (State.callIn rounds) (fun s c => StaysNear s c.2) start history)
    (hrun : run (State.callIn rounds) start history = .ok s) (hfree : s.freeHandle ≠ none)
    (hrewound : s.rootDirectory.position = 0) (path : List UInt8) (hpath : BoundedPath start path) :
    HistoryFree start s path := by
  have hfresh := fatInitialize_fresh hinit
  obtain ⟨hd, _, hclosed, _⟩ := fatInitialize_ok hinit
  have hnear : Near start s := run_invariant (Near start)
    (fun _ c _ h hs hc => (h.inMemory c.1).call hfresh c.2 hs hc) (near_start hfresh) hstays hrun
  have hroot : s.rootDirectory = start.rootDirectory := by
    rw [hnear.root, hrewound, ← hfresh.position]
    rfl
  have hagree : Agree s start .root .root := ⟨hnear.area, trivial, hroot, fun hne => absurd rfl hne⟩
  have hreliable (memory : Behind) : Reliable (s.inMemory memory).volume.disk content := by
    change Reliable s.volume.disk content
    rw [hnear.area.disk, hd]
    exact hdisk
  intro rounds' memory memory'
  unfold State.openFile
  refine openLoop_agree (hreliable memory) (hagree.inMemory memory memory') (fun _ => hfree) ?_ rounds' path.length
    (hpath memory')
  intro _ hnone
  have hall := (freeHandle_eq_none_iff start).mp hnone 0
  rw [hclosed 0] at hall
  cases hall

-- On the sample disk: a file found in the first sector, read and closed again while the memory
-- behind the area is used.
def sampleHistory : List (Behind × Call) :=
  [(fun _ => 0x11, .openFile [0x41]), (fun _ => 0x22, .read (.file 0) 700), (fun _ => 0x33, .close (.file 0))]

theorem sampleState_reliable : Reliable sampleState.volume.disk sampleContent := sampleDisk_reliable

theorem boundedPath_sample : BoundedPath sampleState [0x41] := by
  have hsearch : (State.findFile .root [0x41] 1 sampleState).toOption.map
      (fun found => found.1.map DirectoryEntry.firstCluster) = some (some 2) := by decide +kernel
  obtain ⟨⟨found, mid⟩, hfind, hcluster⟩ := Option.map_eq_some_iff.mp hsearch
  refine boundedPath_of_last sampleState_reliable rfl (eq_ok_of_toOption hfind) ?_
  rintro entry rfl
  have hfirst : entry.firstCluster = 2 := Option.some.inj hcluster
  exact .inl (inArea_of_lt (by omega))

theorem openFile_historyFree_sample :
    ∃ s, run (State.callIn 40) sampleState sampleHistory = .ok s ∧ HistoryFree sampleState s [0x41] := by
  have hstays : AllMet (State.callIn 40) (fun s c => StaysNear s c.2) sampleState sampleHistory :=
    ⟨Or.inr (Or.inr ⟨0, by decide, by decide, by decide +kernel⟩),
      fun _ _ => ⟨trivial, fun _ _ => ⟨trivial, fun _ _ => trivial⟩⟩⟩
  have hend : (run (State.callIn 40) sampleState sampleHistory).toOption.map
      (fun s => (s.freeHandle, s.rootDirectory.position)) = some (some 0, 0) := by decide +kernel
  cases hrun : run (State.callIn 40) sampleState sampleHistory with
  | error e =>
      rw [hrun] at hend
      cases hend
  | ok s =>
      rw [hrun] at hend
      obtain ⟨hfree, hposition⟩ := Prod.ext_iff.mp (Option.some.inj hend)
      simp only at hfree hposition
      exact ⟨s, rfl, openFile_historyFree sampleDisk_reliable fatInitialize_sample 40 sampleHistory
        hstays hrun (by rw [hfree]; simp) hposition [0x41] boundedPath_sample⟩

-- A search for a file that does not exist runs through both sectors of the directory and
-- leaves the sector after them in the buffer.
def searchHistory : List (Behind × Call) := [(fun _ => 0, .openFile [0x42])]

theorem not_historyFree_sample :
    fatInitialize sampleDisk sampleSlots (fun _ => 0) = .ok sampleState ∧ BoundedPath sampleState [0x41] ∧
      ∃ s, run (State.callIn 40) sampleState searchHistory = .ok s ∧ s.freeHandle ≠ none ∧
        ¬HistoryFree sampleState s [0x41] := by
  refine ⟨fatInitialize_sample, boundedPath_sample, ?_⟩
  have hend : (run (State.callIn 40) sampleState searchHistory).toOption.map
      (fun s => (s.freeHandle, ((s.inMemory fun _ => 0).openFile 40 [0x41]).toOption.map Prod.fst)) =
        some (some 0, some none) := by decide +kernel
  have hfirst : ((sampleState.inMemory fun _ => 0).openFile 40 [0x41]).toOption.map Prod.fst =
      some (some (.file 0)) := by decide +kernel
  cases hrun : run (State.callIn 40) sampleState searchHistory with
  | error e =>
      rw [hrun] at hend
      cases hend
  | ok s =>
      rw [hrun] at hend
      obtain ⟨hfree, hsecond⟩ := Prod.ext_iff.mp (Option.some.inj hend)
      simp only at hfree hsecond
      refine ⟨s, rfl, by rw [hfree]; simp, fun h => ?_⟩
      have hsame := h 40 (fun _ => 0) (fun _ => 0)
      cases hopen : (s.inMemory fun _ => 0).openFile 40 [0x41] with
      | error e =>
          rw [hopen] at hsecond
          cases hsecond
      | ok second =>
          cases hopen' : (sampleState.inMemory fun _ => 0).openFile 40 [0x41] with
          | error e =>
              rw [hopen'] at hfirst
              cases hfirst
          | ok first =>
              obtain ⟨found, t⟩ := second
              obtain ⟨found', t'⟩ := first
              rw [hopen] at hsecond
              rw [hopen'] at hfirst
              cases hsecond
              cases hfirst
              rw [hopen, hopen'] at hsame
              exact hsame

end ToyKernel.Fat
