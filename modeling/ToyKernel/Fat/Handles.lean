import ToyKernel.Fat.History
import ToyKernel.Fat.Walk

namespace ToyKernel.Fat

open Library

-- How many bytes a call asks of the file behind the handle
def Call.asks (slot : Fin 10) : Call → Option Nat
  | .read handle byteCount => if handle = .file slot then some byteCount else none
  | .readEntry handle => if handle = .file slot then some DIRECTORY_ENTRY_SIZE else none
  | _ => none

-- The call neither closes the handle nor rewinds it, as FAT_ListDirectory does.
def Call.Spares (slot : Fin 10) : Call → Prop
  | .listDirectory dir => dir ≠ .file slot
  | .close handle => handle ≠ .file slot
  | _ => True

-- What a run takes from the handle, for each call how much was asked and what came back, up to a
-- call that does not return
def State.taken (rounds : Nat) (slot : Fin 10) (s : State) : List (Behind × Call) → List (Nat × List UInt8)
  | [] => []
  | c :: calls =>
      match s.callIn rounds c with
      | .error _ => []
      | .ok s' =>
          ((c.2.asks slot).map fun byteCount =>
            (byteCount, ((s.inMemory c.1).read (.file slot) byteCount).1)).toList ++
            s'.taken rounds slot calls

-- Nothing has happened to the file behind the handle.
structure Spared (slot : Fin 10) (s s' : State) : Prop where
  volume : s'.volume = s.volume
  record : s'.openedFiles slot = s.openedFiles slot

section Steps

variable {slot : Fin 10} {handle : Handle} {name : List UInt8} {rounds : Nat} {s s' mid : State}

theorem Spared.refl (slot : Fin 10) (s : State) : Spared slot s s := ⟨rfl, rfl⟩

theorem Spared.trans (h : Spared slot s mid) (h' : Spared slot mid s') : Spared slot s s' :=
  ⟨h'.volume.trans h.volume, h'.record.trans h.record⟩

theorem spared_setFile (hother : handle ≠ .file slot) (s : State) (fd : FileData) :
    Spared slot s (s.setFile handle fd) := by
  cases handle with
  | root => exact ⟨rfl, rfl⟩
  | file i =>
      have hne : slot ≠ i := fun h => hother (congrArg Handle.file h.symm)
      refine ⟨rfl, ?_⟩
      change Function.update s.openedFiles i fd slot = s.openedFiles slot
      rw [Function.update_of_ne hne]

theorem spared_read (hother : handle ≠ .file slot) (s : State) (byteCount : Nat) :
    Spared slot s (s.read handle byteCount).2 :=
  (spared_setFile hother s _).trans ⟨rfl, rfl⟩

theorem spared_close (hother : handle ≠ .file slot) (s : State) : Spared slot s (s.close handle) := by
  cases handle with
  | root => exact ⟨rfl, rfl⟩
  | file i => exact spared_setFile hother s _

theorem spared_findFile {found : Option DirectoryEntry} (hother : handle ≠ .file slot)
    (h : State.findFile handle name rounds s = .ok (found, s')) : Spared slot s s' :=
  findFile_keeps (fun t ht => ht.trans (spared_read hother t DIRECTORY_ENTRY_SIZE)) h (Spared.refl slot s)

theorem spared_listDirectory {text : List UInt8} (hother : handle ≠ .file slot)
    (h : s.listDirectory rounds handle = .ok (text, s')) : Spared slot s s' :=
  (spared_setFile hother s _).trans
    (listLoop_keeps (fun t ht => ht.trans (spared_read hother t DIRECTORY_ENTRY_SIZE)) h
      (Spared.refl slot _))

-- FAT_OpenEntry takes a record that is not in use.
theorem spared_openEntry (hopened : (s.openedFiles slot).opened = true) (entry : DirectoryEntry) :
    Spared slot s (s.openEntry entry).2 ∧ (s.openEntry entry).1 ≠ some (.file slot) := by
  unfold State.openEntry
  cases hfree : s.freeHandle with
  | none => exact ⟨Spared.refl slot s, nofun⟩
  | some i =>
      have hother : Handle.file i ≠ .file slot := by
        intro h
        cases h
        have hclosed := List.find?_some hfree
        rw [hopened] at hclosed
        cases hclosed
      simp only
      split
      · exact ⟨(spared_setFile hother s _).trans ⟨rfl, rfl⟩, fun h => hother (Option.some.inj h)⟩
      · exact ⟨(spared_setFile hother s _).trans ⟨rfl, rfl⟩, nofun⟩

-- Induction on the path: the handle that is searched is another one in every round.
theorem spared_openLoop {length : Nat} {path : List UInt8} {current result : Option Handle}
    (hopened : (s.openedFiles slot).opened = true) (hcurrent : current ≠ some (.file slot))
    (h : State.openLoop rounds length path current s = .ok (result, s')) :
    Spared slot s s' ∧ result ≠ some (.file slot) := by
  induction length generalizing s path current with
  | zero =>
      cases h
      exact ⟨Spared.refl slot _, hcurrent⟩
  | succ length ih =>
      by_cases hempty : path = []
      · rw [hempty, openLoop_nil] at h
        cases h
        exact ⟨Spared.refl slot _, hcurrent⟩
      obtain ⟨handle, found, mid, rfl, -, hfind, hround⟩ := openLoop_inv hempty h
      have hother : handle ≠ .file slot := fun he => hcurrent (congrArg some he)
      have hmid := (spared_findFile hother hfind).trans (spared_close hother mid)
      rcases hround with ⟨-, rfl, rfl⟩ | ⟨entry, -, hrest⟩
      · exact ⟨hmid, nofun⟩
      · have hstill : ((mid.close handle).openedFiles slot).opened = true := by
          rw [hmid.record]
          exact hopened
        obtain ⟨hopen, hnot⟩ := spared_openEntry hstill entry
        have hstill' : (((mid.close handle).openEntry entry).2.openedFiles slot).opened = true := by
          rw [hopen.record]
          exact hstill
        obtain ⟨hlast, hresult⟩ := ih hstill' hnot hrest
        exact ⟨hmid.trans (hopen.trans hlast), hresult⟩

theorem spared_openFile {path : List UInt8} {result : Option Handle}
    (hopened : (s.openedFiles slot).opened = true) (h : s.openFile rounds path = .ok (result, s')) :
    Spared slot s s' ∧ result ≠ some (.file slot) := by
  have hroot : some Handle.root ≠ some (.file slot) := nofun
  exact spared_openLoop hopened hroot h

end Steps

section Runs

variable {slot : Fin 10} {rounds : Nat} {s s' : State} {content : Nat → Sector}
  {calls : List (Behind × Call)}

theorem eq_snd_of_map {ε α : Type} {result : Except ε (α × State)} (h : result.map Prod.snd = .ok s') :
    ∃ a, result = .ok (a, s') := by
  cases result with
  | error e => cases h
  | ok pair =>
      cases h
      exact ⟨pair.1, rfl⟩

-- A call reads from the handle, or leaves its file alone.
theorem call_cases {c : Call} (hopened : (s.openedFiles slot).opened = true) (hspares : c.Spares slot)
    (h : s.call rounds c = .ok s') :
    (∃ byteCount, c.asks slot = some byteCount ∧ s' = (s.read (.file slot) byteCount).2) ∨
      c.asks slot = none ∧ Spared slot s s' := by
  cases c with
  | openFile path =>
      obtain ⟨result, hopen⟩ := eq_snd_of_map h
      exact .inr ⟨rfl, (spared_openFile hopened hopen).1⟩
  | read handle byteCount =>
      cases h
      by_cases hsame : handle = .file slot
      · exact .inl ⟨byteCount, if_pos hsame, by rw [hsame]⟩
      · exact .inr ⟨if_neg hsame, spared_read hsame s byteCount⟩
  | readEntry handle =>
      cases h
      by_cases hsame : handle = .file slot
      · refine .inl ⟨DIRECTORY_ENTRY_SIZE, if_pos hsame, ?_⟩
        rw [hsame]
        rfl
      · exact .inr ⟨if_neg hsame, spared_read hsame s DIRECTORY_ENTRY_SIZE⟩
  | listDirectory dir =>
      obtain ⟨text, hlist⟩ := eq_snd_of_map h
      exact .inr ⟨rfl, spared_listDirectory hspares hlist⟩
  | close handle =>
      cases h
      exact .inr ⟨rfl, spared_close hspares s⟩

theorem call_opened {c : Call} (hopened : (s.openedFiles slot).opened = true) (hspares : c.Spares slot)
    (h : s.call rounds c = .ok s') : (s'.openedFiles slot).opened = true ∧ s'.volume = s.volume := by
  rcases call_cases hopened hspares h with ⟨byteCount, -, rfl⟩ | ⟨-, hspared⟩
  · refine ⟨?_, volume_read s (.file slot) byteCount⟩
    have hfile : (s.read (.file slot) byteCount).2.openedFiles slot =
        ((s.read (.file slot) byteCount).2.file (.file slot)) := rfl
    rw [hfile, file_read, readLoop_opened]
    exact hopened
  · rw [hspared.record]
    exact ⟨hopened, hspared.volume⟩

theorem run_opened (hopened : (s.openedFiles slot).opened = true) (hspares : ∀ c ∈ calls, c.2.Spares slot)
    (h : run (State.callIn rounds) s calls = .ok s') : (s'.openedFiles slot).opened = true := by
  induction calls generalizing s with
  | nil =>
      cases h
      exact hopened
  | cons c calls ih =>
      cases hcall : s.callIn rounds c with
      | error e =>
          unfold run at h
          rw [hcall] at h
          cases h
      | ok mid =>
          rw [run_cons hcall] at h
          exact ih (call_opened (s := s.inMemory c.1) hopened (hspares c List.mem_cons_self) hcall).1
            (fun c' hc' => hspares c' (List.mem_cons_of_mem c hc')) h

-- What a run takes from the handle does not depend on the calls in between, nor on what they leave
-- behind the area.
theorem taken_eq_reads (rounds : Nat) (hdisk : Reliable s.volume.disk content)
    (hopened : (s.openedFiles slot).opened = true) (hbounded : (s.openedFiles slot).Bounded)
    (hspares : ∀ c ∈ calls, c.2.Spares slot) :
    (s.taken rounds slot calls).map Prod.snd =
      s.reads (.file slot) ((s.taken rounds slot calls).map Prod.fst) := by
  induction calls generalizing s with
  | nil => rfl
  | cons c calls ih =>
      unfold State.taken
      cases hcall : s.callIn rounds c with
      | error e => rfl
      | ok s' =>
          have hc := hspares c List.mem_cons_self
          have hrest := fun c' hc' => hspares c' (List.mem_cons_of_mem c hc')
          have hopened' : ((s.inMemory c.1).openedFiles slot).opened = true := hopened
          have hdisk' : Reliable (s.inMemory c.1).volume.disk content := hdisk
          have hsame : Agree (s.inMemory c.1) s (.file slot) (.file slot) :=
            ⟨sameArea_inMemory s.volume c.1, trivial, rfl, fun _ => hbounded⟩
          obtain ⟨hstill, hvolume⟩ := call_opened hopened' hc hcall
          have hreliable : Reliable s'.volume.disk content := by
            rw [hvolume]
            exact hdisk
          simp only
          rcases call_cases hopened' hc hcall with ⟨byteCount, hasks, rfl⟩ | ⟨hasks, hspared⟩
          · obtain ⟨hbytes, hagree⟩ := read_agree hdisk' hsame byteCount
            have htaken := (ih hreliable hstill (hagree.bounded nofun) hrest).trans
              (reads_agree hreliable hagree _)
            simp only [hasks, Option.map_some, hbytes]
            exact congrArg ((s.read (.file slot) byteCount).1 :: ·) htaken
          · have hrecord : s'.openedFiles slot = s.openedFiles slot := hspared.record
            have hagree : Agree s' s (.file slot) (.file slot) := by
              refine ⟨?_, trivial, hrecord, fun _ => ?_⟩
              · rw [hvolume]
                exact hsame.area
              · change (s'.openedFiles slot).Bounded
                rw [hrecord]
                exact hbounded
            rw [hasks]
            exact (ih hreliable hstill (hagree.bounded nofun) hrest).trans (reads_agree hreliable hagree _)

end Runs

section Independent

variable {slot : Fin 10} {rounds : Nat} {s s' : State} {content : Nat → Sector}
  {calls : List (Behind × Call)} {entry : DirectoryEntry}

-- A file that FAT_OpenEntry has opened belongs to its handle until that is closed, whatever the
-- driver is asked to do with the other handles meanwhile and whatever is written behind its memory:
-- the reads of the handle return what they would without the calls in between, as long as the FAT is
-- followed in the driver's memory, the bytes of the file in order, and no FAT_Open gives the handle
-- to another file.
theorem handles_independent (rounds : Nat) (hdisk : Reliable s.volume.disk content)
    (hopen : s.openEntry entry = (some (.file slot), s')) (hspares : ∀ c ∈ calls, c.2.Spares slot) :
    let taken := s'.taken rounds slot calls
    (entry.Bounded → taken.map Prod.snd = s'.reads (.file slot) (taken.map Prod.fst)) ∧
      (∀ before memory path after mid result last, calls = before ++ (memory, .openFile path) :: after →
        run (State.callIn rounds) s' before = .ok mid →
        (mid.inMemory memory).openFile rounds path = .ok (result, last) → result ≠ some (.file slot)) ∧
      ∀ chain, 1 ≤ s.volume.bootSector.sectorsPerCluster.toNat →
        entry.attributes &&& FAT_ATTRIBUTE_DIRECTORY = 0 →
        (entry.size.toNat = 0 ∨ Chain s.volume entry.firstCluster chain) →
        entry.size.toNat ≤ 512 * (s.volume.bootSector.sectorsPerCluster.toNat * chain.length) →
        Delivers (taken.map Prod.snd) entry.size.toNat (taken.map Prod.fst)
          (sectorBytes content (chainSectors s.volume chain)) := by
  obtain ⟨slot', hslot, -, hvolume, hfile⟩ := openEntry_some hdisk hopen
  cases hslot
  have hdisk' : Reliable s'.volume.disk content := by
    rw [hvolume]
    exact hdisk
  have hopened : (s'.openedFiles slot).opened = true := congrArg FileData.opened hfile
  have hreads (hentry : entry.Bounded) : (s'.taken rounds slot calls).map Prod.snd =
      s'.reads (.file slot) ((s'.taken rounds slot calls).map Prod.fst) := by
    have hbounded : (s'.file (.file slot)).Bounded := by
      apply bounded_of_entry hentry <;> rw [hfile]
    exact taken_eq_reads rounds hdisk' hopened hbounded hspares
  refine ⟨hreads, ?_, ?_⟩
  · rintro before memory path after mid result last rfl hrun hpath
    have hbefore := run_opened hopened
      (fun c hc => hspares c (List.mem_append_left _ hc)) hrun
    exact (spared_openFile (s := mid.inMemory memory) hbefore hpath).2
  · intro chain hspc hdir hchain henough
    have hcursor := fileCursor hdisk hspc hopen hchain henough
    have hstream : Stream s'.volume (.file slot) content (FileAhead s.volume content) := by
      rw [hvolume]
      exact fileStream hdisk slot
    have hdelivers := reads_deliver hstream (Or.inl (by rw [hfile]; simp [hdir])) hcursor
      ((s'.taken rounds slot calls).map Prod.fst)
    rw [← hreads (Chain.bounded hdir hchain henough), hfile] at hdelivers
    exact hdelivers

-- The file is opened a second time while the first handle reads it in two pieces.
def sampleCalls (slot other : Fin 10) : List (Behind × Call) :=
  [(fun _ => 0x11, .read (.file slot) 500), (fun _ => 0x22, .openFile [0x41]),
    (fun _ => 0x33, .read (.file other) 600), (fun _ => 0x44, .close (.file other)),
    (fun _ => 0x55, .read (.file slot) 200)]

theorem handles_independent_sample :
    (∀ c ∈ sampleCalls 0 1, c.2.Spares 0) ∧
      Delivers (((sampleState.openEntry sampleEntry).2.taken 5 0 (sampleCalls 0 1)).map Prod.snd) 600
        (((sampleState.openEntry sampleEntry).2.taken 5 0 (sampleCalls 0 1)).map Prod.fst)
        (sectorBytes sampleContent [4, 5]) := by
  have hopen : (sampleState.openEntry sampleEntry).1 = some (.file 0) := by decide +kernel
  have hspares : ∀ c ∈ sampleCalls 0 1, c.2.Spares 0 := by
    intro c hc
    simp only [sampleCalls, List.mem_cons, List.not_mem_nil, or_false] at hc
    rcases hc with rfl | rfl | rfl | rfl | rfl <;> simp [Call.Spares]
  have hchain : Chain sampleState.volume 2 [2, 3] := by
    refine .link (by decide) (by decide) (.link ?_ ?_ (.done ?_)) <;> decide +kernel
  refine ⟨hspares, ?_⟩
  exact (handles_independent 5 sampleDisk_reliable (Prod.ext hopen rfl) hspares).2.2 [2, 3]
    (by decide) (by decide) (Or.inr hchain) (by decide)

end Independent

end ToyKernel.Fat
