import ToyKernel.Fat.Delivery
import ToyKernel.Fat.Path
import ToyKernel.Library.Run

namespace ToyKernel.Fat

open Library

section Test

-- `!isLast && entry.Attributes & FAT_ATTRIBUTE_DIRECTORY == 0`, where `==` binds tighter
def notADirectory (isLast : Bool) (attributes : UInt8) : Bool :=
  !isLast && attributes &&& (if FAT_ATTRIBUTE_DIRECTORY = 0 then 1 else 0) != 0

theorem notADirectory_never (isLast : Bool) (attributes : UInt8) : notADirectory isLast attributes = false := by
  have hmask : (if FAT_ATTRIBUTE_DIRECTORY = 0 then 1 else 0 : UInt8) = 0 := if_neg (by decide)
  rw [notADirectory, hmask, UInt8.and_zero]
  exact Bool.and_false _

-- The loop of FAT_Open with a test that makes it give up on an entry.
def State.openLoopTesting (test : Bool → UInt8 → Bool) (rounds : Nat) : (length : Nat) →
    (path : List UInt8) → Option Handle → State → Except Stuck (Option Handle × State)
  | 0, _, current, s => .ok (current, s)
  | length + 1, path, current, s =>
      if path = [] then .ok (current, s)
      else
        let name := path.takeWhile (· ≠ SLASH)
        let rest := path.drop (name.length + 1)
        let isLast : Bool := SLASH ∉ path
        if name.length ≥ MAX_PATH_SIZE then .error .nameOverflow
        else match current with
          | none => .error .nullFile
          | some handle =>
              match findFile handle name rounds s with
              | .error e => .error e
              | .ok (none, s) => .ok (none, s.close handle)
              | .ok (some entry, s) =>
                  if test isLast entry.attributes then .ok (none, s.close handle)
                  else
                    let (opened, s) := (s.close handle).openEntry entry
                    openLoopTesting test rounds length rest opened s

-- The test that is there never stops the loop.
theorem openLoopTesting_notADirectory (rounds length : Nat) (path : List UInt8) (current : Option Handle)
    (s : State) : State.openLoopTesting notADirectory rounds length path current s =
      State.openLoop rounds length path current s := by
  induction length generalizing path current s with
  | zero => rfl
  | succ length ih =>
      unfold State.openLoopTesting State.openLoop
      by_cases hpath : path = []
      · rw [if_pos hpath, if_pos hpath]
      rw [if_neg hpath, if_neg hpath]
      by_cases hlong : MAX_PATH_SIZE ≤ (component path).length
      · exact (if_pos hlong).trans (if_pos hlong).symm
      refine (if_neg hlong).trans (Eq.trans ?_ (if_neg hlong).symm)
      cases current with
      | none => rfl
      | some handle =>
          dsimp only
          cases State.findFile handle (path.takeWhile (· ≠ SLASH)) rounds s with
          | error e => rfl
          | ok found =>
              obtain ⟨found, mid⟩ := found
              cases found with
              | none => rfl
              | some entry =>
                  have hgoesOn := notADirectory_never (SLASH ∉ path) entry.attributes
                  exact (if_neg (Bool.eq_false_iff.mp hgoesOn)).trans (ih _ _ _)

end Test

-- The first component of the path names no entry.
structure Missing (path : List UInt8) (handle : Handle) (s : State) : Prop where
  nonempty : path ≠ []
  fits : (component path).length < MAX_PATH_SIZE
  searched : ∃ mid, Finds s handle (component path) none mid

-- A component that is not the last one names the entry.
inductive GoesThrough (entry : DirectoryEntry) : List UInt8 → Handle → State → Prop
  | here {path handle s opened s'} (h : Enters path handle s entry opened s') (hslash : SLASH ∈ path) :
      GoesThrough entry path handle s
  | later {path handle s found opened s'} (h : Enters path handle s found (some opened) s')
      (hrest : GoesThrough entry (behind path) opened s') : GoesThrough entry path handle s

-- Some component names no entry, or the entry of the last one cannot be opened.
inductive Unresolved : List UInt8 → Handle → State → Prop
  | missing {path handle s} (h : Missing path handle s) : Unresolved path handle s
  | closed {path handle s found s'} (h : Enters path handle s found none s') (hlast : behind path = []) :
      Unresolved path handle s
  | later {path handle s found opened s'} (h : Enters path handle s found (some opened) s')
      (hrest : Unresolved (behind path) opened s') : Unresolved path handle s

-- FAT_Open comes back with this result.
def Returns (s : State) (path : List UInt8) (result : Option Handle) : Prop :=
  ∃ rounds s', s.openFile rounds path = .ok (result, s')

def DirectoryEntry.IsDirectory (entry : DirectoryEntry) : Prop :=
  entry.attributes &&& FAT_ATTRIBUTE_DIRECTORY ≠ 0

-- A handle is returned for directories on the way only, and a path through anything else
-- yields NULL.
structure DescendsOnly (s : State) (path : List UInt8) : Prop where
  directories : ∀ handle, Returns s path (some handle) →
    ∀ entry, GoesThrough entry (State.skipSlash path) .root s → entry.IsDirectory
  yieldsNull : ∀ entry, GoesThrough entry (State.skipSlash path) .root s → ¬entry.IsDirectory →
    Returns s path none

section Rounds

variable {rounds rounds' : Nat} {s s' : State}

-- More rounds do not change what the loop comes back with.
theorem openLoop_mono {length : Nat} {path : List UInt8} {current result : Option Handle}
    (h : State.openLoop rounds length path current s = .ok (result, s')) (hle : rounds ≤ rounds') :
    State.openLoop rounds' length path current s = .ok (result, s') := by
  induction length generalizing path current s with
  | zero => exact h
  | succ length ih =>
      by_cases hempty : path = []
      · rw [hempty, openLoop_nil] at h ⊢
        exact h
      obtain ⟨handle, found, mid, rfl, hfits, hfind, hround⟩ := openLoop_inv hempty h
      rw [openLoop_succ hempty hfits, findFile_mono hfind hle]
      rcases hround with ⟨rfl, rfl, rfl⟩ | ⟨entry, rfl, hrest⟩
      · rfl
      · exact ih hrest

theorem Returns.unique {path : List UInt8} {result other : Option Handle} (h : Returns s path result)
    (h' : Returns s path other) : result = other := by
  obtain ⟨rounds, s₁, h⟩ := h
  obtain ⟨rounds', s₂, h'⟩ := h'
  have hlong := openLoop_mono h (Nat.le_max_left rounds rounds')
  rw [openLoop_mono h' (Nat.le_max_right rounds rounds')] at hlong
  exact (Prod.mk.inj (Except.ok.inj hlong)).1.symm

end Rounds

section Loop

variable {rounds length : Nat} {path : List UInt8} {handle : Handle} {s s' : State}

theorem openLoop_nullFile {result : Option Handle} (hlength : path.length ≤ length) (hpath : path ≠ []) :
    State.openLoop rounds length path none s ≠ .ok (result, s') := by
  cases length with
  | zero => exact fun _ => hpath (List.eq_nil_of_length_eq_zero (Nat.le_zero.mp hlength))
  | succ length =>
      intro hends
      obtain ⟨handle, -, -, hcurrent, -⟩ := openLoop_inv hpath hends
      cases hcurrent

-- It is over, or the entry is found.
theorem Enters.openLoop_eq {entry : DirectoryEntry} {opened : Option Handle}
    (h : Enters path handle s entry opened s') (length : Nat) :
    ∃ least, ∀ rounds, least ≤ rounds → State.openLoop rounds (length + 1) path (some handle) s =
      State.openLoop rounds length (behind path) opened s' := by
  obtain ⟨mid, ⟨least, hfind⟩, hopen⟩ := h.opens
  refine ⟨least, fun rounds hle => ?_⟩
  simp only [openLoop_succ h.nonempty h.fits, findFile_mono hfind hle, hopen]

theorem Missing.openLoop_eq (h : Missing path handle s) :
    ∃ rounds s', State.openLoop rounds (length + 1) path (some handle) s = .ok (none, s') := by
  obtain ⟨mid, rounds, hfind⟩ := h.searched
  exact ⟨rounds, mid.close handle, by simp only [openLoop_succ h.nonempty h.fits, hfind]⟩

-- A round that does not get stuck is one of the two.
theorem openLoop_cases {result : Option Handle} (hpath : path ≠ [])
    (h : State.openLoop rounds (length + 1) path (some handle) s = .ok (result, s')) :
    Missing path handle s ∨ ∃ entry opened mid, Enters path handle s entry opened mid ∧
      State.openLoop rounds length (behind path) opened mid = .ok (result, s') := by
  obtain ⟨_, found, mid, hcurrent, hfits, hfind, hround⟩ := openLoop_inv hpath h
  cases hcurrent
  rcases hround with ⟨rfl, -, -⟩ | ⟨entry, rfl, hrest⟩
  · exact .inl ⟨hpath, hfits, mid, rounds, hfind⟩
  · exact .inr ⟨entry, _, _, ⟨hpath, hfits, mid, ⟨rounds, hfind⟩, rfl⟩, hrest⟩

theorem openLoop_none_iff (hlength : path.length ≤ length) :
    (∃ rounds s', State.openLoop rounds length path (some handle) s = .ok (none, s')) ↔
      Unresolved path handle s := by
  constructor
  · rintro ⟨rounds, s', h⟩
    induction length generalizing path handle s with
    | zero => cases h
    | succ length ih =>
        by_cases hpath : path = []
        · rw [hpath, openLoop_nil] at h
          cases h
        have hbehind : (behind path).length ≤ length :=
          Nat.le_of_lt_succ (Nat.lt_of_lt_of_le (length_behind hpath) hlength)
        rcases openLoop_cases hpath h with hmissing | ⟨entry, opened, mid, henters, hrest⟩
        · exact .missing hmissing
        · cases opened with
          | some opened => exact .later henters (ih hbehind hrest)
          | none =>
              -- a further component would be looked up in a NULL file
              by_cases hlast : behind path = []
              · exact .closed henters hlast
              · exact absurd hrest (openLoop_nullFile hbehind hlast)
  · intro h
    induction h generalizing length with
    | @missing path _ _ h =>
        have hpos := List.length_pos_iff.mpr h.nonempty
        obtain ⟨length, rfl⟩ := Nat.exists_eq_succ_of_ne_zero (show length ≠ 0 by omega)
        exact h.openLoop_eq
    | @closed path _ _ _ s' h hlast =>
        have hpos := List.length_pos_iff.mpr h.nonempty
        obtain ⟨length, rfl⟩ := Nat.exists_eq_succ_of_ne_zero (show length ≠ 0 by omega)
        obtain ⟨least, hround⟩ := h.openLoop_eq length
        exact ⟨least, s', by rw [hround least (Nat.le_refl _), hlast, openLoop_nil]⟩
    | @later path _ _ _ _ _ h _ ih =>
        have hbehind := length_behind h.nonempty
        obtain ⟨length, rfl⟩ := Nat.exists_eq_succ_of_ne_zero (show length ≠ 0 by omega)
        obtain ⟨least, hround⟩ := h.openLoop_eq length
        obtain ⟨rounds, s', hrest⟩ := @ih length (by omega)
        refine ⟨max least rounds, s', ?_⟩
        rw [hround _ (Nat.le_max_left least rounds)]
        exact openLoop_mono hrest (Nat.le_max_right least rounds)

end Loop

theorem returns_none_iff (s : State) (path : List UInt8) :
    Returns s path none ↔ Unresolved (State.skipSlash path) .root s :=
  openLoop_none_iff (length_skipSlash_le path)

-- Nothing keeps FAT_Open from entering a file. The path is resolved as it should be where no
-- file is on the way, or where in the end there is nothing to open.
theorem descendsOnly_iff (s : State) (path : List UInt8) :
    DescendsOnly s path ↔
      (∀ entry, GoesThrough entry (State.skipSlash path) .root s → entry.IsDirectory) ∨
        Unresolved (State.skipSlash path) .root s := by
  rw [← returns_none_iff]
  constructor
  · intro h
    by_cases hall : ∀ entry, GoesThrough entry (State.skipSlash path) .root s → entry.IsDirectory
    · exact .inl hall
    · obtain ⟨entry, hall⟩ := not_forall.mp hall
      obtain ⟨hthrough, hfile⟩ := Classical.not_imp.mp hall
      exact .inr (h.yieldsNull entry hthrough hfile)
  · rintro (hall | hnone)
    · exact ⟨fun _ _ => hall, fun entry hthrough hfile => absurd (hall entry hthrough) hfile⟩
    · exact ⟨fun handle hsome => (nomatch hsome.unique hnone), fun _ _ _ => hnone⟩

-- The sample disk, where the file A begins with the bytes of an entry for a file B.
def nestedContent (lba : Nat) : Sector := fun i =>
  if lba = 4 then if i.val = 0 then 0x42 else if i.val = 26 then 3 else sampleContent 2 i
  else sampleContent lba i

def nestedDisk : Disk := fun _ lba _ => { ok := true, data := fun i => nestedContent (lba + i) }

-- "A/B" is opened.
theorem not_descendsOnly_nested :
    ∃ s, fatInitialize nestedDisk sampleSlots (fun _ => 0) = .ok s ∧
      ¬DescendsOnly s [0x41, SLASH, 0x42] := by
  have hopen : ((fatInitialize nestedDisk sampleSlots (fun _ => 0)).toOption.bind fun s =>
      (s.openFile 1 [0x41, SLASH, 0x42]).toOption.map Prod.fst) = some (some (.file 0)) := by
    decide +kernel
  have hfind : ((fatInitialize nestedDisk sampleSlots (fun _ => 0)).toOption.bind fun s =>
      (State.findFile .root [0x41] 1 s).toOption.bind fun found =>
        found.1.map fun entry => entry.attributes &&& FAT_ATTRIBUTE_DIRECTORY) = some 0 := by
    decide +kernel
  cases hstate : fatInitialize nestedDisk sampleSlots (fun _ => 0) with
  | error e =>
      rw [hstate] at hopen
      cases hopen
  | ok s =>
      rw [hstate] at hopen hfind
      refine ⟨s, rfl, fun hdescends => ?_⟩
      obtain ⟨⟨handle, s'⟩, hreturns, rfl⟩ := Option.map_eq_some_iff.mp hopen
      have hfind' : ((State.findFile .root [0x41] 1 s).toOption.bind fun found =>
          found.1.map fun entry => entry.attributes &&& FAT_ATTRIBUTE_DIRECTORY) = some 0 := hfind
      obtain ⟨⟨found, mid⟩, hsearch, hfile⟩ := Option.bind_eq_some_iff.mp hfind'
      obtain ⟨entry, rfl, hattributes⟩ := Option.map_eq_some_iff.mp hfile
      have hthrough : GoesThrough entry [0x41, SLASH, 0x42] .root s :=
        .here ⟨by decide, by decide, mid, ⟨1, eq_ok_of_toOption hsearch⟩, rfl⟩ (by decide)
      exact hdescends.directories (.file 0) ⟨1, s', eq_ok_of_toOption hreturns⟩ entry hthrough hattributes

end ToyKernel.Fat
