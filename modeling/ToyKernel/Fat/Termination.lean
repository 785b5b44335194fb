import ToyKernel.Fat.Opening

namespace ToyKernel.Fat

open Library

-- Reading entry after entry comes to a short read, or to an entry that stops it.
inductive Ends (stop : DirectoryEntry → Prop) (handle : Handle) : State → Prop
  | short {s} (h : (s.readEntry handle).1 = none) : Ends stop handle s
  | stops {s entry} (h : (s.readEntry handle).1 = some entry) (hstop : stop entry) : Ends stop handle s
  | goesOn {s entry} (h : (s.readEntry handle).1 = some entry)
      (hrest : Ends stop handle (s.readEntry handle).2) : Ends stop handle s

-- FAT_FindFile looks for the name, FAT_ListDirectory stops at the end mark.
def Named (name : List UInt8) (entry : DirectoryEntry) : Prop := fatName name = entry.name
def IsEndMark (entry : DirectoryEntry) : Prop := entry.name.head? = some 0x00

-- A loop over the entries that `stop` ends
structure Loops (stop : DirectoryEntry → Prop) (handle : Handle) (comesBack : Nat → State → Prop) :
    Prop where
  zero : ∀ s, ¬comesBack 0 s
  succ : ∀ rounds s, comesBack (rounds + 1) s ↔ (s.readEntry handle).1 = none ∨
    ∃ entry, (s.readEntry handle).1 = some entry ∧
      (stop entry ∨ comesBack rounds (s.readEntry handle).2)

section Scans

variable {s : State} {handle : Handle} {n : Nat} {stop : DirectoryEntry → Prop}

theorem Loops.iff_ends {comesBack : Nat → State → Prop} (h : Loops stop handle comesBack) (s : State) :
    (∃ rounds, comesBack rounds s) ↔ Ends stop handle s := by
  constructor
  · rintro ⟨rounds, hback⟩
    induction rounds generalizing s with
    | zero => exact absurd hback (h.zero s)
    | succ rounds ih =>
        rcases (h.succ rounds s).mp hback with hshort | ⟨entry, hentry, hstop | hrest⟩
        · exact .short hshort
        · exact .stops hentry hstop
        · exact .goesOn hentry (ih _ hrest)
  · intro hends
    induction hends with
    | short hshort => exact ⟨1, (h.succ 0 _).mpr (.inl hshort)⟩
    | stops hentry hstop => exact ⟨1, (h.succ 0 _).mpr (.inr ⟨_, hentry, .inl hstop⟩)⟩
    | goesOn hentry _ ih =>
        obtain ⟨rounds, hrest⟩ := ih
        exact ⟨rounds + 1, (h.succ rounds _).mpr (.inr ⟨_, hentry, .inr hrest⟩)⟩

theorem findFile_loops (handle : Handle) (name : List UInt8) :
    Loops (Named name) handle fun rounds s =>
      ∃ result, State.findFile handle name rounds s = .ok result := by
  refine ⟨fun s ⟨_, h⟩ => (nomatch h), fun rounds s => ?_⟩
  rw [State.findFile]
  cases s.readEntry handle with
  | mk entry mid =>
  cases entry with
  | none => simp
  | some entry =>
      by_cases hname : fatName name = entry.name
      · simp [Named, hname]
      · simp [Named, hname]

theorem listLoop_loops (handle : Handle) :
    Loops IsEndMark handle fun rounds s => ∃ result, State.listLoop handle rounds s = .ok result := by
  refine ⟨fun s ⟨_, h⟩ => (nomatch h), fun rounds s => ?_⟩
  rw [State.listLoop]
  cases s.readEntry handle with
  | mk entry mid =>
  cases entry with
  | none => simp
  | some entry =>
      by_cases hmark : entry.name.head? = some 0x00
      · simp [IsEndMark, hmark]
      by_cases hdeleted : entry.name.head? = some 0xE5
      · simp [IsEndMark, hdeleted]
      by_cases hlabel : entry.attributes &&& FAT_ATTRIBUTE_VOLUME_ID ≠ 0
      · simp [IsEndMark, hmark, hdeleted, hlabel]
      cases hrest : State.listLoop handle rounds mid with
      | error e => simp [IsEndMark, hmark, hdeleted, hlabel, hrest]
      | ok result => simp [IsEndMark, hmark, hdeleted, hlabel, hrest]

-- What is left of a file is used up by its entries.
theorem Left.scan_ends (h : Left s.volume handle (s.file handle) n) : Ends stop handle s := by
  induction n using Nat.strongRecOn generalizing s with
  | ind n ih =>
      obtain ⟨k, hlength, hk, -, hpos, hleft⟩ := h.read DIRECTORY_ENTRY_SIZE
      by_cases hfull : k = DIRECTORY_ENTRY_SIZE
      · have hentry : (s.readEntry handle).1 =
            some (.ofBytes (s.read handle DIRECTORY_ENTRY_SIZE).1) := if_pos (hlength.trans hfull)
        refine .goesOn hentry (ih (n - k) ?_ ?_)
        · have : DIRECTORY_ENTRY_SIZE = 32 := rfl
          omega
        · rw [← volume_read s handle DIRECTORY_ENTRY_SIZE] at hleft
          exact hleft
      · exact .short (if_neg fun hlong => hfull (hlength.symm.trans hlong))

end Scans

section Endless

-- The sector that stands in the buffer after `k` transfers, and the `i`-th entry from the beginning
-- of a directory
def sectorAhead (v : Volume) (handle : Handle) (fd : FileData) (calls : Nat) : Nat → Option Sector
  | 0 => some fd.buffer
  | k + 1 => (walk (v.advance handle) (k + 1) fd.place).map fun p =>
      (v.disk (calls + k) (v.lba handle p) 1).data 0

def entryAhead (v : Volume) (handle : Handle) (fd : FileData) (calls i : Nat) : Option DirectoryEntry :=
  (sectorAhead v handle fd calls (i / 16)).map fun sector =>
    .ofBytes ((sector.bytes.drop (32 * (i % 16))).take 32)

variable {v : Volume} {handle : Handle} {fd : FileData} {calls i : Nat} {s : State}
  {stop : DirectoryEntry → Prop}

-- An entry stands within a sector, and what follows its last byte is the next sector.
theorem readLoop_entry {r : Reader} (halign : r.fd.position % 32 = 0)
    (hgoes : v.advance handle r.fd.place ≠ none) :
    ∃ r', Reader.readLoop v handle 32 32 r = (r.copy 32, r') ∧
      r'.fd.position = u32 (r.fd.position + 32) ∧ ((r.fd.position % 512 < 480 ∧ r' = r.skip 32) ∨
        r.fd.position % 512 = 480 ∧ ∃ p, v.advance handle r.fd.place = some p ∧
          r' = (Reader.load { r.skip 32 with fd := (r.skip 32).fd.goTo p } v (v.lba handle p)).2) := by
  have hleft := r.leftInBuffer_eq
  by_cases hin : 32 < r.leftInBuffer
  · exact ⟨_, Reader.readLoop_inside 31 32 r (by decide) hin, rfl, .inl ⟨by omega, rfl⟩⟩
  have hfull : r.leftInBuffer = 32 := by omega
  obtain ⟨p, hp⟩ := Option.ne_none_iff_exists'.mp hgoes
  have hnext := nextSector_some (r := r.skip 32) hp
  rw [← hfull] at hnext
  have hacross := Reader.readLoop_across 31 32 r _ _ (by omega) (by omega) hnext
  rw [hfull, Nat.sub_self, Reader.readLoop_zero, List.append_nil] at hacross
  refine ⟨_, hacross.trans ?_, rfl, .inr ⟨by omega, p, hp, rfl⟩⟩
  split <;> rfl

-- The state after `i` entries of a directory that began as `fd`
structure After (v : Volume) (handle : Handle) (fd : FileData) (calls i : Nat) (s : State) : Prop where
  volume : s.volume = v
  endless : Endless v handle (s.file handle)
  position : (s.file handle).position % 512 = 32 * (i % 16)
  place : walk (v.advance handle) (i / 16) fd.place = some (s.file handle).place
  calls_eq : s.calls = calls + i / 16
  buffer : sectorAhead v handle fd calls (i / 16) = some (s.file handle).buffer

theorem After.start (h : Endless s.volume handle (s.file handle))
    (hstart : (s.file handle).position = 0) : After s.volume handle (s.file handle) s.calls 0 s :=
  ⟨rfl, h, by rw [hstart], rfl, rfl, rfl⟩

theorem After.readEntry (h : After v handle fd calls i s) :
    ∃ entry, entryAhead v handle fd calls i = some entry ∧ (s.readEntry handle).1 = some entry ∧
      After v handle fd calls (i + 1) (s.readEntry handle).2 := by
  obtain ⟨rfl, hendless, hposition, hplace, hcalls, hbuffer⟩ := h
  have hclamp : (s.file handle).clamp DIRECTORY_ENTRY_SIZE = 32 := if_neg hendless.unsized
  have halign : (s.file handle).position % 32 = 0 := by omega
  obtain ⟨r', hread, hmoved, hcases⟩ :=
    readLoop_entry (r := { fd := s.file handle, calls := s.calls }) halign (hendless.goes 1)
  have hbytes : (s.read handle DIRECTORY_ENTRY_SIZE).1 =
      ((s.file handle).buffer.bytes.drop (32 * (i % 16))).take 32 := by
    unfold State.read
    simp only [hclamp, hread]
    rw [← hposition]
    rfl
  have hfile : (s.read handle DIRECTORY_ENTRY_SIZE).2.file handle = r'.fd := by
    rw [file_read, hclamp, hread]
  have hcalls' : (s.read handle DIRECTORY_ENTRY_SIZE).2.calls = r'.calls := by
    unfold State.read
    simp only [hclamp, hread]
  have hlength : (s.read handle DIRECTORY_ENTRY_SIZE).1.length = 32 := by
    rw [hbytes, List.length_take, List.length_drop, Sector.length_bytes]
    omega
  obtain ⟨-, hendless'⟩ := hendless.read (show 0 < DIRECTORY_ENTRY_SIZE by decide)
  refine ⟨.ofBytes (s.read handle DIRECTORY_ENTRY_SIZE).1, ?_, if_pos hlength, ?_⟩
  · rw [entryAhead, hbuffer, hbytes]
    rfl
  have hvolume := volume_read s handle DIRECTORY_ENTRY_SIZE
  have hposition' : ((s.read handle DIRECTORY_ENTRY_SIZE).2.file handle).position % 512 =
      32 * ((i + 1) % 16) := by
    change r'.fd.position = u32 ((s.file handle).position + 32) at hmoved
    rw [hfile, hmoved, u32]
    omega
  rcases hcases with ⟨hin, rfl⟩ | ⟨hlast, p, hp, rfl⟩
  · change (s.file handle).position % 512 < 480 at hin
    have hsector : (i + 1) / 16 = i / 16 := by omega
    refine ⟨hvolume, hvolume.symm ▸ hendless', hposition', ?_, ?_, ?_⟩
    · change _ = some ((s.read handle DIRECTORY_ENTRY_SIZE).2.file handle).place
      rw [hfile, hsector]
      exact hplace
    · exact hcalls'.trans (by rw [hsector]; exact hcalls)
    · change _ = some ((s.read handle DIRECTORY_ENTRY_SIZE).2.file handle).buffer
      rw [hfile, hsector]
      exact hbuffer
  · change (s.file handle).position % 512 = 480 at hlast
    have hsector : (i + 1) / 16 = i / 16 + 1 := by omega
    have hnext : walk (s.volume.advance handle) (i / 16 + 1) fd.place = some p := by
      rw [walk_add_of_some hplace]
      exact hp
    refine ⟨hvolume, hvolume.symm ▸ hendless', hposition', ?_, ?_, ?_⟩
    · change _ = some ((s.read handle DIRECTORY_ENTRY_SIZE).2.file handle).place
      rw [hfile, hsector]
      exact hnext
    · exact hcalls'.trans (by rw [hsector, ← Nat.add_assoc, ← hcalls]; rfl)
    · change _ = some ((s.read handle DIRECTORY_ENTRY_SIZE).2.file handle).buffer
      rw [hfile, hsector, sectorAhead, hnext, ← hcalls]
      rfl

-- Along a chain without an end only an entry that stops it ends the scan.
theorem After.ends_iff (h : After v handle fd calls i s) :
    Ends stop handle s ↔ ∃ j, i ≤ j ∧ ∃ entry, entryAhead v handle fd calls j = some entry ∧ stop entry := by
  constructor
  · intro hends
    induction hends generalizing i with
    | short hshort =>
        obtain ⟨entry, -, hentry, -⟩ := h.readEntry
        rw [hshort] at hentry
        cases hentry
    | stops hentry hstop =>
        obtain ⟨entry, hahead, hsome, -⟩ := h.readEntry
        obtain rfl := Option.some.inj (hentry.symm.trans hsome)
        exact ⟨i, Nat.le_refl i, _, hahead, hstop⟩
    | goesOn hentry _ ih =>
        obtain ⟨entry, -, -, hnext⟩ := h.readEntry
        obtain ⟨j, hj, hstop⟩ := ih hnext
        exact ⟨j, Nat.le_of_succ_le hj, hstop⟩
  · rintro ⟨j, hj, entry, hahead, hstop⟩
    induction hd : j - i generalizing i s with
    | zero =>
        obtain rfl : j = i := by omega
        obtain ⟨entry', hahead', hentry, -⟩ := h.readEntry
        obtain rfl := Option.some.inj (hahead.symm.trans hahead')
        exact .stops hentry hstop
    | succ d ih =>
        obtain ⟨entry', -, hentry, hnext⟩ := h.readEntry
        exact .goesOn hentry (ih hnext (by omega) (by omega))

end Endless

section Bounds

-- A record at its beginning, where FAT_OpenEntry, FAT_Close and FAT_ListDirectory put it, or one
-- with a size that has been read up to some place
structure Ready (fd : FileData) : Prop where
  size_lt : fd.size < 4294967296
  position : fd.position = 0 ∨ fd.Sized ∧ fd.position ≤ fd.size

-- What bounds a scan: the recorded size, the end of the chain, or an entry that stops it
def Bounded (stop : DirectoryEntry → Prop) (handle : Handle) (s : State) : Prop :=
  (s.file handle).Sized ∨ (∃ m, walk (s.volume.advance handle) m (s.file handle).place = none) ∨
    ∃ i entry, entryAhead s.volume handle (s.file handle) s.calls i = some entry ∧ stop entry

-- FAT_Open comes to a directory whose search has no bound.
inductive Hangs : List UInt8 → Handle → State → Prop
  | here {path handle s} (hnonempty : path ≠ []) (hfits : (component path).length < MAX_PATH_SIZE)
      (hscan : ¬Bounded (Named (component path)) handle s) : Hangs path handle s
  | later {path handle s found opened s'} (h : Enters path handle s found (some opened) s')
      (hrest : Hangs (behind path) opened s') : Hangs path handle s

variable {s s' : State} {handle : Handle} {stop : DirectoryEntry → Prop} {path : List UInt8}
  {entry : DirectoryEntry} {opened : Option Handle}

theorem Ready.ends_iff (h : Ready (s.file handle)) : Ends stop handle s ↔ Bounded stop handle s := by
  rcases h.position with hstart | ⟨hsized, hle⟩
  case inr =>
    obtain ⟨n, hleft⟩ : ∃ n, Left s.volume handle (s.file handle) n :=
      exists_left_of_sized hsized hle h.size_lt
    exact iff_of_true hleft.scan_ends (.inl hsized)
  rcases left_or_endless (v := s.volume) hstart h.size_lt with ⟨n, hleft⟩ | hendless
  · refine iff_of_true hleft.scan_ends ?_
    rcases hleft.ends with ⟨hsized, -⟩ | ⟨m, -, hwalk⟩
    · exact .inl hsized
    · exact .inr (.inl ⟨m, hwalk⟩)
  · rw [(After.start hendless hstart).ends_iff]
    constructor
    · rintro ⟨i, -, hstop⟩
      exact .inr (.inr ⟨i, hstop⟩)
    · rintro (hsized | ⟨m, hwalk⟩ | ⟨i, hstop⟩)
      · exact absurd hsized hendless.unsized
      · exact absurd hwalk (hendless.goes m)
      · exact ⟨i, Nat.zero_le i, hstop⟩

theorem Ready.findFile_iff (h : Ready (s.file handle)) (name : List UInt8) :
    (∃ rounds result, State.findFile handle name rounds s = .ok result) ↔
      Bounded (Named name) handle s :=
  ((findFile_loops handle name).iff_ends s).trans h.ends_iff

-- FAT_ListDirectory rewinds the directory, which is scanned from where its record stands.
theorem listDirectory_iff (hsize : (s.file handle).size < 4294967296) :
    (∃ rounds result, s.listDirectory rounds handle = .ok result) ↔ Bounded IsEndMark handle s := by
  have hfile := file_setFile s handle ((s.file handle).seek 0)
  have hready : Ready ((s.setFile handle ((s.file handle).seek 0)).file handle) := by
    rw [hfile]
    exact ⟨hsize, .inl rfl⟩
  have hbounded : Bounded IsEndMark handle (s.setFile handle ((s.file handle).seek 0)) ↔
      Bounded IsEndMark handle s := by
    unfold Bounded
    rw [hfile, volume_setFile]
    cases handle <;> rfl
  exact (((listLoop_loops handle).iff_ends _).trans hready.ends_iff).trans hbounded

theorem Enters.ready {handle' : Handle} (h : Enters path handle s entry (some handle') s') :
    Ready (s'.file handle') := by
  obtain ⟨mid, -, hopen⟩ := h.opens
  obtain ⟨slot, -, -, -, hfile⟩ := openEntry_record hopen
  rw [hfile]
  exact ⟨entry.size.toNat_lt, .inl rfl⟩

-- In a round with too few entries read the loop gives up, and otherwise it goes on.
theorem Enters.openLoop_or (h : Enters path handle s entry opened s') (rounds length : Nat) :
    State.openLoop rounds (length + 1) path (some handle) s = .error .outOfRounds ∨
      State.openLoop rounds (length + 1) path (some handle) s =
        State.openLoop rounds length (behind path) opened s' := by
  obtain ⟨mid, ⟨least, hfound⟩, hopen⟩ := h.opens
  rw [openLoop_succ h.nonempty h.fits]
  cases hfind : State.findFile handle (component path) rounds s with
  | error e =>
      obtain rfl := findFile_error hfind
      exact .inl rfl
  | ok result =>
      obtain ⟨found, mid'⟩ := result
      have hsame := findFile_mono hfind (Nat.le_max_left rounds least)
      rw [findFile_mono hfound (Nat.le_max_right rounds least)] at hsame
      obtain ⟨rfl, rfl⟩ := Prod.mk.inj (Except.ok.inj hsame)
      refine .inr ?_
      simp only [hopen]

theorem Hangs.openLoop_eq (h : Hangs path handle s) (hready : Ready (s.file handle)) {length : Nat}
    (hlength : path.length ≤ length) (rounds : Nat) :
    State.openLoop rounds length path (some handle) s = .error .outOfRounds := by
  induction h generalizing length with
  | @here path handle s hnonempty hfits hscan =>
      have hbehind := length_behind hnonempty
      obtain ⟨n, rfl⟩ := Nat.exists_eq_succ_of_ne_zero (show length ≠ 0 by omega)
      rw [openLoop_succ hnonempty hfits]
      cases hfind : State.findFile handle (component path) rounds s with
      | error e =>
          obtain rfl := findFile_error hfind
          rfl
      | ok result => exact absurd ((hready.findFile_iff _).mp ⟨rounds, result, hfind⟩) hscan
  | @later path _ _ _ _ _ henters _ ih =>
      have hbehind := length_behind henters.nonempty
      obtain ⟨n, rfl⟩ := Nat.exists_eq_succ_of_ne_zero (show length ≠ 0 by omega)
      rcases henters.openLoop_or rounds n with hgivesUp | hgoesOn
      · exact hgivesUp
      · rw [hgoesOn]
        exact ih henters.ready (by omega)

theorem openLoop_null_ne (rounds length : Nat) :
    State.openLoop rounds length path none s ≠ .error .outOfRounds := by
  intro hround
  cases length with
  | zero => cases hround
  | succ length =>
      by_cases hpath : path = []
      · rw [hpath, openLoop_nil] at hround
        cases hround
      · obtain ⟨e, hne, herror⟩ := openLoop_null rounds length s hpath
        exact hne (Except.error.inj (herror.symm.trans hround))

-- Induction on the path: where the search of a component has a bound, the loop takes its result and
-- goes on with the rest.
theorem openLoop_finishes (hready : Ready (s.file handle)) {length : Nat}
    (hlength : path.length ≤ length) (h : ¬Hangs path handle s) :
    ∃ least, ∀ rounds, least ≤ rounds →
      State.openLoop rounds length path (some handle) s ≠ .error .outOfRounds := by
  induction length generalizing path handle s with
  | zero => exact ⟨0, fun rounds _ => nofun⟩
  | succ length ih =>
      by_cases hpath : path = []
      · refine ⟨0, fun rounds _ => ?_⟩
        rw [hpath, openLoop_nil]
        exact nofun
      by_cases hlong : MAX_PATH_SIZE ≤ (component path).length
      · refine ⟨0, fun rounds _ => ?_⟩
        rw [openLoop_tooLong hpath hlong]
        exact nofun
      have hfits := Nat.not_le.mp hlong
      have hbehind := length_behind hpath
      have hbounded : Bounded (Named (component path)) handle s := by
        by_contra hscan
        exact h (.here hpath hfits hscan)
      obtain ⟨least, ⟨found, mid⟩, hfind⟩ := (hready.findFile_iff (component path)).mpr hbounded
      cases found with
      | none =>
          refine ⟨least, fun rounds hle => ?_⟩
          rw [openLoop_succ hpath hfits, findFile_mono hfind hle]
          exact nofun
      | some entry =>
          cases hopen : (mid.close handle).openEntry entry with
          | mk opened last =>
          have henters : Enters path handle s entry opened last := ⟨hpath, hfits, mid, ⟨least, hfind⟩, hopen⟩
          obtain ⟨least', hround⟩ := henters.openLoop_eq length
          cases opened with
          | none =>
              refine ⟨least', fun rounds hle => ?_⟩
              rw [hround rounds hle]
              exact openLoop_null_ne rounds length
          | some opened =>
              obtain ⟨least'', hrest⟩ := ih henters.ready (by omega) fun hhangs => h (.later henters hhangs)
              refine ⟨max least' least'', fun rounds hle => ?_⟩
              rw [hround rounds (by omega)]
              exact hrest rounds (by omega)

-- FAT_Open comes to its end exactly when each search on its way does.
theorem openFile_iff (hready : Ready (s.file .root)) (path : List UInt8) :
    (∃ rounds, s.openFile rounds path ≠ .error .outOfRounds) ↔ ¬Hangs (State.skipSlash path) .root s := by
  constructor
  · rintro ⟨rounds, hends⟩ hhangs
    exact hends (hhangs.openLoop_eq hready (length_skipSlash_le path) rounds)
  · intro hstays
    obtain ⟨least, hends⟩ := openLoop_finishes hready (length_skipSlash_le path) hstays
    exact ⟨least, hends least (Nat.le_refl least)⟩

-- A search comes to its end exactly when something bounds it, and FAT_Open when each of its
-- searches does.
theorem scans_end_iff (s : State) (handle : Handle) (name path : List UInt8) :
    (Ready (s.file handle) →
      ((∃ rounds result, State.findFile handle name rounds s = .ok result) ↔
        Bounded (Named name) handle s)) ∧
    ((s.file handle).size < 4294967296 →
      ((∃ rounds result, s.listDirectory rounds handle = .ok result) ↔ Bounded IsEndMark handle s)) ∧
    (Ready (s.file .root) →
      ((∃ rounds, s.openFile rounds path ≠ .error .outOfRounds) ↔
        ¬Hangs (State.skipSlash path) .root s)) :=
  ⟨fun hready => hready.findFile_iff name, listDirectory_iff, fun hroot => openFile_iff hroot path⟩

end Bounds

section Sample

theorem scans_end_iff_sample :
    ((∃ rounds result, State.findFile .root [0x41] rounds sampleState = .ok result) ↔
      Bounded (Named [0x41]) .root sampleState) ∧
    ((∃ rounds result, sampleState.listDirectory rounds .root = .ok result) ↔
      Bounded IsEndMark .root sampleState) ∧
    ((∃ rounds, sampleState.openFile rounds [0x41] ≠ .error .outOfRounds) ↔
      ¬Hangs [0x41] .root sampleState) := by
  have hroot : Ready (sampleState.file .root) := ⟨by decide, .inl rfl⟩
  obtain ⟨hfind, hlist, hopen⟩ := scans_end_iff sampleState .root [0x41] [0x41]
  exact ⟨hfind hroot, hlist hroot.size_lt, hopen hroot⟩

-- A disk full of entries for one directory D without a size, whose only cluster is followed by itself
def cyclicSector : Sector := fun i =>
  [0x44, 32, 32, 32, 32, 32, 32, 32, 32, 32, 32, 0x10, 0, 0, 0, 0, 0, 0, 0, 0, 0, 0, 0, 0, 0, 0, 2].getD
    (i % 32) 0

def cyclicState : State :=
  { sampleState with
    volume :=
      { sampleState.volume with
        disk := fun _ _ _ => { ok := true, data := fun _ => cyclicSector }
        fat := fun i => if i = 3 then 2 else 0 }
    rootDirectory := { sampleState.rootDirectory with buffer := cyclicSector } }

def cyclicEntry : DirectoryEntry where
  name := [0x44, 32, 32, 32, 32, 32, 32, 32, 32, 32, 32]
  attributes := 0x10
  firstClusterHigh := 0
  firstClusterLow := 2
  size := 0

theorem cyclic_unbounded (s : State) {slot : Fin 10} {stop : DirectoryEntry → Prop}
    (hvolume : s.volume = cyclicState.volume) (hunsized : ¬(s.file (.file slot)).Sized)
    (hplace : (s.file (.file slot)).place = ⟨2, 0⟩) (hbuffer : (s.file (.file slot)).buffer = cyclicSector)
    (hstop : ∀ entry, entry.name = cyclicEntry.name → ¬stop entry) : ¬Bounded stop (.file slot) s := by
  have hwalk : ∀ m, walk (cyclicState.volume.advance (.file slot)) m ⟨2, 0⟩ = some ⟨2, 0⟩ := by
    intro m
    induction m with
    | zero => rfl
    | succ m ih =>
        rw [walk, ih]
        rfl
  have hname : ∀ k < 16, (DirectoryEntry.ofBytes ((cyclicSector.bytes.drop (32 * k)).take 32)).name =
      cyclicEntry.name := by
    decide +kernel
  unfold Bounded
  rw [hvolume, hplace]
  rintro (hsized | ⟨m, hend⟩ | ⟨i, entry, hahead, hstops⟩)
  · exact hunsized hsized
  · rw [hwalk] at hend
    cases hend
  · have hsector : sectorAhead cyclicState.volume (.file slot) (s.file (.file slot)) s.calls (i / 16) =
        some cyclicSector := by
      cases i / 16 with
      | zero => exact congrArg some hbuffer
      | succ k =>
          rw [sectorAhead, hplace, hwalk]
          rfl
    rw [entryAhead, hsector] at hahead
    obtain rfl := Option.some.inj hahead
    exact hstop _ (hname (i % 16) (Nat.mod_lt _ (by decide))) hstops

theorem not_named_cyclic (entry : DirectoryEntry) (hname : entry.name = cyclicEntry.name) :
    ¬Named [0x41] entry :=
  fun hnamed => absurd (hnamed.trans hname) (by decide)

-- FAT_Open enters D, and looks for A in it.
theorem cyclicState_hangs : Hangs [0x44, SLASH, 0x41] .root cyclicState := by
  have hfirst : ((State.findFile .root [0x44] 1 cyclicState).toOption.bind fun r => r.1.map fun entry =>
      (((r.2.close .root).openEntry entry).1, entry.attributes, entry.size, entry.firstCluster)) =
        some (some (.file 0), 0x10, 0, 2) := by
    decide +kernel
  obtain ⟨⟨found, mid⟩, hfind, hrest⟩ := Option.bind_eq_some_iff.mp hfirst
  obtain ⟨entry, rfl, hsame⟩ := Option.map_eq_some_iff.mp hrest
  simp only [Prod.mk.injEq] at hsame
  obtain ⟨hopened, hattributes, hentry, hcluster⟩ := hsame
  have henters : Enters [0x44, SLASH, 0x41] .root cyclicState entry (some (.file 0))
      ((mid.close .root).openEntry entry).2 :=
    ⟨by decide, by decide, mid, ⟨1, eq_ok_of_toOption hfind⟩, Prod.ext hopened rfl⟩
  obtain ⟨slot, hslot, -, hvolume, hfile⟩ := openEntry_record (Prod.ext hopened rfl)
  obtain rfl := Handle.file.inj hslot
  rw [volume_close, findFile_volume (eq_ok_of_toOption hfind)] at hvolume hfile
  refine .later henters (.here (by decide) (by decide) (cyclic_unbounded _ hvolume ?_ ?_ ?_ not_named_cyclic))
  · rw [hfile, hattributes, hentry]
    rintro (hfile | hsize)
    · exact absurd (show (true : Bool) = false from hfile) (by decide)
    · exact hsize rfl
  · rw [hfile, hcluster]
    rfl
  · rw [hfile]
    rfl

-- No search of D but the one for D comes to its end, and neither does FAT_Open of "/D/A".
theorem not_scans_end_cyclic :
    (¬∃ rounds result, State.findFile (.file 0) [0x41] rounds (cyclicState.openEntry cyclicEntry).2 =
      .ok result) ∧
    (¬∃ rounds result, (cyclicState.openEntry cyclicEntry).2.listDirectory rounds (.file 0) = .ok result) ∧
    ¬∃ rounds, cyclicState.openFile rounds [SLASH, 0x44, SLASH, 0x41] ≠ .error .outOfRounds := by
  have hunsized : ¬((cyclicState.openEntry cyclicEntry).2.file (.file 0)).Sized := by
    rintro (hfile | hsize)
    · exact absurd hfile (by decide)
    · exact hsize rfl
  have hready : Ready ((cyclicState.openEntry cyclicEntry).2.file (.file 0)) :=
    ⟨by decide, .inl rfl⟩
  have hunbounded (stop : DirectoryEntry → Prop)
      (hstop : ∀ entry, entry.name = cyclicEntry.name → ¬stop entry) :
      ¬Bounded stop (.file 0) (cyclicState.openEntry cyclicEntry).2 :=
    cyclic_unbounded (cyclicState.openEntry cyclicEntry).2 rfl hunsized rfl rfl hstop
  refine ⟨fun hends => ?_, fun hends => ?_, fun hends => ?_⟩
  · exact hunbounded _ not_named_cyclic ((hready.findFile_iff _).mp hends)
  · refine hunbounded _ (fun entry hname hmark => ?_) ((listDirectory_iff hready.size_lt).mp hends)
    rw [IsEndMark, hname] at hmark
    exact absurd hmark (by decide)
  · exact (openFile_iff ⟨by decide, .inl rfl⟩ _).mp hends cyclicState_hangs

end Sample

end ToyKernel.Fat
