import ToyKernel.Fat.Agree
import ToyKernel.Fat.Descent
import ToyKernel.Fat.Walk
import Mathlib.Data.Set.Insert

namespace ToyKernel.Fat

section Handles

-- The handles that are open
def State.openHandles (s : State) : Set (Fin 10) := {slot | (s.openedFiles slot).opened = true}

-- `handle` is the root, or it is open besides the handles of `base`.
def Holding (base : Set (Fin 10)) (s : State) : Handle → Prop
  | .root => s.openHandles = base
  | .file slot => slot ∉ base ∧ s.openHandles = insert slot base

variable {s s' : State} {base : Set (Fin 10)} {handle : Handle}

-- With another record in a slot only that slot may have come in or gone.
theorem mem_openHandles_update {fd : FileData} {slot : Fin 10}
    (h : s'.openedFiles = Function.update s.openedFiles slot fd) (other : Fin 10) :
    other ∈ s'.openHandles ↔ if other = slot then fd.opened = true else other ∈ s.openHandles := by
  change (s'.openedFiles other).opened = true ↔ _
  rw [h]
  by_cases hsame : other = slot
  · rw [if_pos hsame, hsame, Function.update_self]
  · rw [if_neg hsame, Function.update_of_ne hsame]
    rfl

theorem openHandles_read (s : State) (handle : Handle) (byteCount : Nat) :
    (s.read handle byteCount).2.openHandles = s.openHandles := by
  cases handle with
  | root => rfl
  | file slot =>
      have hopened := readLoop_opened s.volume (.file slot) ((s.openedFiles slot).clamp byteCount)
        ((s.openedFiles slot).clamp byteCount) { fd := s.openedFiles slot, calls := s.calls }
      ext other
      rw [mem_openHandles_update (s := s) rfl other]
      split
      · rename_i hsame
        rw [hsame]
        exact iff_of_eq (congrArg (· = true) hopened)
      · exact Iff.rfl

theorem openHandles_findFile {name : List UInt8} {rounds : Nat} {found : Option DirectoryEntry}
    (h : State.findFile handle name rounds s = .ok (found, s')) : s'.openHandles = s.openHandles :=
  findFile_keeps (P := fun t => t.openHandles = s.openHandles)
    (fun t ht => (openHandles_read t handle DIRECTORY_ENTRY_SIZE).trans ht) h rfl

-- Closing what was held leaves the others.
theorem Holding.close (h : Holding base s handle) : (s.close handle).openHandles = base := by
  cases handle with
  | root => exact h
  | file slot =>
      obtain ⟨hfree, hheld⟩ := h
      ext other
      rw [mem_openHandles_update (s := s) rfl other, hheld]
      split
      · rename_i hsame
        exact iff_of_false Bool.false_ne_true (hsame ▸ hfree)
      · rename_i hother
        exact or_iff_right hother

-- A read error leaves the record filled in but not open.
theorem openEntry_holding (hbase : s.openHandles = base) (entry : DirectoryEntry) :
    (∀ opened, (s.openEntry entry).1 = some opened → Holding base (s.openEntry entry).2 opened ∧
      opened ≠ .root) ∧
    ((s.openEntry entry).1 = none → (s.openEntry entry).2.openHandles = base) := by
  unfold State.openEntry
  cases hfree : s.freeHandle with
  | none => exact ⟨nofun, fun _ => hbase⟩
  | some slot =>
      have hclosed : (s.openedFiles slot).opened = false := by
        have hfound := List.find?_some hfree
        exact (Bool.not_eq_true' _).mp hfound
      have hfresh : slot ∉ base := by
        rw [← hbase]
        exact fun hopen => absurd (hclosed.symm.trans hopen) Bool.false_ne_true
      simp only
      split
      · refine ⟨fun opened hopened => ?_, nofun⟩
        obtain rfl := Option.some.inj hopened
        refine ⟨⟨hfresh, ?_⟩, nofun⟩
        ext other
        rw [mem_openHandles_update (s := s) rfl other, hbase]
        split
        · rename_i hsame
          exact iff_of_true rfl (.inl hsame)
        · rename_i hother
          exact (or_iff_right hother).symm
      · refine ⟨nofun, fun _ => ?_⟩
        ext other
        rw [mem_openHandles_update (s := s) rfl other, hbase]
        split
        · rename_i hsame
          exact iff_of_false (fun hopen => absurd (hclosed.symm.trans hopen) Bool.false_ne_true)
            (hsame ▸ hfresh)
        · exact Iff.rfl

end Handles

section Safety

-- No handle is free for the entry, or its first sector cannot be read.
def CannotOpen (s : State) (entry : DirectoryEntry) : Prop :=
  s.freeHandle = none ∨ (s.volume.disk s.calls (s.volume.clusterToLba entry.firstCluster) 1).ok = false

-- How a call of FAT_Open may end: in nothing, with the handles open that were open before, or with
-- a handle, which is the root's or open besides the others. It may still be searching.
def SafeOutcome (base : Set (Fin 10)) : Except Stuck (Option Handle × State) → Prop
  | .error .outOfRounds => True
  | .error _ => False
  | .ok (none, s') => s'.openHandles = base
  | .ok (some handle, s') => Holding base s' handle

def OpensSafely (s : State) (path : List UInt8) : Prop :=
  ∀ rounds, SafeOutcome s.openHandles (s.openFile rounds path)

-- FAT_Open comes to a component that does not fit `name`, or it cannot open an entry with more of
-- the path behind it.
inductive Derails : List UInt8 → Handle → State → Prop
  | tooLong {path handle s} (hnonempty : path ≠ []) (hlong : MAX_PATH_SIZE ≤ (component path).length) :
      Derails path handle s
  | unopened {path handle s entry mid} (hnonempty : path ≠ [])
      (hfits : (component path).length < MAX_PATH_SIZE)
      (hfound : Finds s handle (component path) (some entry) mid)
      (hclosed : CannotOpen (mid.close handle) entry) (hmore : behind path ≠ []) : Derails path handle s
  | later {path handle s found opened s'} (h : Enters path handle s found (some opened) s')
      (hrest : Derails (behind path) opened s') : Derails path handle s

variable {s s' : State} {base : Set (Fin 10)} {handle : Handle} {path : List UInt8}

theorem openEntry_eq_none_iff (s : State) (entry : DirectoryEntry) :
    (s.openEntry entry).1 = none ↔ CannotOpen s entry := by
  unfold State.openEntry CannotOpen
  cases s.freeHandle with
  | none => simp
  | some slot =>
      cases hok : (s.volume.disk s.calls (s.volume.clusterToLba entry.firstCluster) 1).ok with
      | true =>
          unfold DirectoryEntry.firstCluster at hok
          simp [Reader.load, hok]
      | false =>
          unfold DirectoryEntry.firstCluster at hok
          simp [Reader.load, hok]

theorem findFile_error {name : List UInt8} {rounds : Nat} {e : Stuck}
    (h : State.findFile handle name rounds s = .error e) : e = .outOfRounds := by
  induction rounds generalizing s with
  | zero => exact (Except.error.inj h).symm
  | succ rounds ih =>
      unfold State.findFile at h
      cases hentry : s.readEntry handle with
      | mk entry mid =>
      rw [hentry] at h
      cases entry with
      | none => cases h
      | some entry =>
          simp only at h
          split at h
          · cases h
          · exact ih h

theorem Holding.of_eq (h : Holding base s handle) (hsame : s'.openHandles = s.openHandles) :
    Holding base s' handle := by
  cases handle with
  | root => exact hsame.trans h
  | file slot => exact ⟨h.1, hsame.trans h.2⟩

-- Induction on the path: each component ends the call, derails it, or hands over to the rest with
-- one handle held.
theorem openLoop_safe (rounds : Nat) {length : Nat} (hlength : path.length ≤ length)
    (hholding : Holding base s handle) :
    SafeOutcome base (State.openLoop rounds length path (some handle) s) ∨ Derails path handle s := by
  induction length generalizing path handle s with
  | zero => exact .inl hholding
  | succ length ih =>
      by_cases hpath : path = []
      · rw [hpath, openLoop_nil]
        exact .inl hholding
      have hbehind : (behind path).length ≤ length :=
        Nat.le_of_lt_succ (Nat.lt_of_lt_of_le (length_behind hpath) hlength)
      by_cases hlong : MAX_PATH_SIZE ≤ (component path).length
      · exact .inr (.tooLong hpath hlong)
      have hfits := Nat.not_le.mp hlong
      rw [openLoop_succ hpath hfits]
      cases hfind : State.findFile handle (component path) rounds s with
      | error e =>
          obtain rfl := findFile_error hfind
          exact .inl trivial
      | ok found =>
          obtain ⟨found, mid⟩ := found
          have hclose := (hholding.of_eq (openHandles_findFile hfind)).close
          cases found with
          | none => exact .inl hclose
          | some entry =>
              obtain ⟨hopens, hfails⟩ := openEntry_holding hclose entry
              have hsearch : Finds s handle (component path) (some entry) mid := ⟨rounds, hfind⟩
              simp only
              cases hopen : (mid.close handle).openEntry entry with
              | mk opened last =>
              rw [hopen] at hopens hfails
              cases opened with
              | some opened =>
                  have henters : Enters path handle s entry (some opened) last :=
                    ⟨hpath, hfits, mid, hsearch, hopen⟩
                  exact (ih hbehind (hopens opened rfl).1).imp id (.later henters)
              | none =>
                  by_cases hmore : behind path = []
                  · have hend : State.openLoop rounds length (behind path) none last = .ok (none, last) := by
                      rw [hmore, openLoop_nil]
                    exact .inl (hend ▸ hfails rfl)
                  · have hclosed := (openEntry_eq_none_iff (mid.close handle) entry).mp (by rw [hopen])
                    exact .inr (.unopened hpath hfits hsearch hclosed hmore)

-- A call that derails does something undefined once its searches have ended.
theorem Derails.openLoop_eq (h : Derails path handle s) {length : Nat} (hlength : path.length ≤ length) :
    ∃ least, ∀ rounds, least ≤ rounds → ∃ e, e ≠ .outOfRounds ∧
      State.openLoop rounds length path (some handle) s = .error e := by
  have hsucc : ∀ {path : List UInt8} {length}, path ≠ [] → path.length ≤ length →
      ∃ n, length = n + 1 ∧ (behind path).length ≤ n := by
    intro path length hpath hlength
    have hbehind := length_behind hpath
    exact ⟨length - 1, by omega, by omega⟩
  induction h generalizing length with
  | @tooLong path _ _ hnonempty hlong =>
      obtain ⟨n, rfl, -⟩ := hsucc hnonempty hlength
      exact ⟨0, fun rounds _ => ⟨.nameOverflow, by decide, openLoop_tooLong hnonempty hlong _⟩⟩
  | @unopened path handle s entry mid hnonempty hfits hfound hclosed hmore =>
      obtain ⟨n, rfl, hbehind⟩ := hsucc hnonempty hlength
      have hnone := (openEntry_eq_none_iff (mid.close handle) entry).mpr hclosed
      have henters : Enters path handle s entry none ((mid.close handle).openEntry entry).2 :=
        ⟨hnonempty, hfits, mid, hfound, Prod.ext hnone rfl⟩
      obtain ⟨least, hround⟩ := henters.openLoop_eq n
      refine ⟨least, fun rounds hle => ?_⟩
      rw [hround rounds hle]
      obtain ⟨m, rfl, -⟩ := hsucc hmore hbehind
      exact openLoop_null rounds m _ hmore
  | @later path _ _ _ _ _ henters _ ih =>
      obtain ⟨n, rfl, hbehind⟩ := hsucc henters.nonempty hlength
      obtain ⟨least, hround⟩ := henters.openLoop_eq n
      obtain ⟨least', hrest⟩ := ih hbehind
      refine ⟨max least least', fun rounds hle => ?_⟩
      rw [hround rounds (by omega)]
      exact hrest rounds (by omega)

-- FAT_Open is safe exactly for the paths it does not derail on.
theorem opensSafely_iff (s : State) (path : List UInt8) :
    OpensSafely s path ↔ ¬Derails (State.skipSlash path) .root s := by
  constructor
  · intro hsafe hderails
    obtain ⟨rounds, hstuck⟩ := hderails.openLoop_eq (length_skipSlash_le path)
    obtain ⟨e, hne, hopen⟩ := hstuck rounds (Nat.le_refl rounds)
    have houtcome := hsafe rounds
    rw [State.openFile, hopen] at houtcome
    cases e with
    | outOfRounds => exact hne rfl
    | nullFile | nameOverflow => exact houtcome
  · intro hstays rounds
    have hroot : Holding s.openHandles s .root := rfl
    exact (openLoop_safe rounds (length_skipSlash_le path) hroot).resolve_right hstays

end Safety

section Sample

-- The sample disk with its fourth transfer, the first one of FAT_Open, failing
def unreadableState : State :=
  { sampleState with
    volume := { sampleState.volume with
      disk := fun call lba _ => { ok := call != 3, data := fun i => sampleContent (lba + i) } } }

def goesWrong : Except Stuck (Option Handle × State) → Bool
  | .error e => e != .outOfRounds
  | .ok _ => false

theorem not_opensSafely {s : State} {path : List UInt8} (rounds : Nat)
    (h : goesWrong (s.openFile rounds path) = true) : ¬OpensSafely s path := by
  intro hsafe
  have houtcome := hsafe rounds
  cases hopen : s.openFile rounds path with
  | ok _ => rw [hopen] at h; cases h
  | error e =>
      rw [hopen] at h houtcome
      cases e with
      | outOfRounds => cases h
      | nullFile | nameOverflow => exact houtcome

-- "/A/B" reads through a null pointer when the first sector of A cannot be read, and a component
-- of 256 characters overruns `name`.
theorem not_opensSafely_sample :
    ¬OpensSafely unreadableState [SLASH, 0x41, SLASH, 0x42] ∧
      ¬OpensSafely sampleState (List.replicate 256 0x41) :=
  ⟨not_opensSafely 1 (by decide +kernel), not_opensSafely 0 (by decide +kernel)⟩

end Sample

end ToyKernel.Fat
