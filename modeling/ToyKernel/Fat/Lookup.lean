import ToyKernel.Fat.Delivery

namespace ToyKernel.Fat

section Scan

variable {α : Type*} (stop skip match_ : α → Bool)

-- A scan that ends at the first `stop` and passes over what it skips
def shown (entries : List α) : List α :=
  (entries.takeWhile fun e => !stop e).filter fun e => !skip e

-- The first match is one that the scan shows.
def FirstIsShown (entries : List α) : Prop :=
  ∀ before e after, entries = before ++ e :: after → (∀ b ∈ before, match_ b = false) →
    match_ e = true → (∀ b ∈ before, stop b = false) ∧ stop e = false ∧ skip e = false

variable {stop skip match_} {entries : List α}

theorem mem_of_mem_shown {e : α} (h : e ∈ shown stop skip entries) :
    e ∈ entries ∧ stop e = false ∧ skip e = false := by
  obtain ⟨htaken, hskip⟩ := List.mem_filter.mp h
  have hstop := List.all_eq_true.mp List.all_takeWhile e htaken
  rw [Bool.not_eq_true'] at hskip hstop
  exact ⟨(List.takeWhile_sublist _).subset htaken, hstop, hskip⟩

theorem shown_split {before after : List α} {e : α} (hbefore : ∀ b ∈ before, stop b = false)
    (hstop : stop e = false) (hskip : skip e = false) :
    shown stop skip (before ++ e :: after) = before.filter (fun b => !skip b) ++ e :: shown stop skip after := by
  have hbefore' : ∀ b ∈ before, (!stop b) = true := fun b hb => by rw [hbefore b hb, Bool.not_false]
  unfold shown
  rw [List.takeWhile_append_of_pos hbefore', List.takeWhile_cons_of_pos (by rw [hstop, Bool.not_false]),
    List.filter_append, List.filter_cons_of_pos (by rw [hskip, Bool.not_false])]

theorem shown_cons_of_stop {e : α} (h : stop e = true) (entries : List α) :
    shown stop skip (e :: entries) = [] := by
  rw [shown, List.takeWhile_cons_of_neg (by simp [h]), List.filter_nil]

theorem shown_cons_of_skip {e : α} (hstop : stop e = false) (hskip : skip e = true) (entries : List α) :
    shown stop skip (e :: entries) = shown stop skip entries := by
  rw [shown, List.takeWhile_cons_of_pos (by simp [hstop]), List.filter_cons_of_neg (by simp [hskip]), shown]

theorem shown_cons {e : α} (hstop : stop e = false) (hskip : skip e = false) (entries : List α) :
    shown stop skip (e :: entries) = e :: shown stop skip entries := by
  rw [shown, List.takeWhile_cons_of_pos (by simp [hstop]), List.filter_cons_of_pos (by simp [hskip]), shown]

-- Two searches, one of everything and one of what is shown, come out alike exactly where
-- the first match is shown.
theorem find?_shown_iff :
    entries.find? match_ = (shown stop skip entries).find? match_ ↔
      FirstIsShown stop skip match_ entries := by
  constructor
  · intro hsame before e after hsplit hbefore hmatch
    have hfind : entries.find? match_ = some e := by
      rw [List.find?_eq_some_iff_append]
      exact ⟨hmatch, before, after, hsplit, fun b hb => by rw [hbefore b hb, Bool.not_false]⟩
    have hshown := List.mem_of_find?_eq_some (hsame.symm.trans hfind)
    obtain ⟨-, hstop, hskip⟩ := mem_of_mem_shown hshown
    refine ⟨fun b hb => ?_, hstop, hskip⟩
    -- a stop before the match would end the scan among entries that do not match
    by_contra hstops
    have htaken : (before ++ e :: after).takeWhile (fun e => !stop e) = before.takeWhile fun e => !stop e := by
      rw [List.takeWhile_append, if_neg]
      intro hlength
      have hall := List.all_takeWhile (p := fun e => !stop e) (l := before)
      rw [(List.takeWhile_sublist _).eq_of_length hlength, List.all_eq_true] at hall
      exact hstops ((Bool.not_eq_true' _).mp (hall b hb))
    rw [hsplit] at hshown
    have hin : e ∈ before := by
      have hmem := (List.mem_filter.mp hshown).1
      rw [htaken] at hmem
      exact (List.takeWhile_sublist _).subset hmem
    exact Bool.noConfusion ((hbefore e hin).symm.trans hmatch)
  · intro hfirst
    cases hfind : entries.find? match_ with
    | none =>
        rw [List.find?_eq_none] at hfind
        exact (List.find?_eq_none.mpr fun e he => hfind e (mem_of_mem_shown he).1).symm
    | some e =>
        obtain ⟨hmatch, before, after, rfl, hbefore⟩ := List.find?_eq_some_iff_append.mp hfind
        have hnone : ∀ b ∈ before, match_ b = false := fun b hb => by
          have hb' := hbefore b hb
          rwa [Bool.not_eq_true'] at hb'
        obtain ⟨hpass, hstop, hskip⟩ := hfirst before e after rfl hnone hmatch
        rw [shown_split hpass hstop hskip, List.find?_append, List.find?_cons_of_pos hmatch]
        rw [List.find?_eq_none.mpr fun b hb => by
          rw [hnone b (List.mem_filter.mp hb).1]
          exact Bool.false_ne_true]
        rfl

end Scan

-- What FAT_ReadEntry yields, call after call, until one comes short; `rounds` calls are made
-- at most.
def State.entries (handle : Handle) : (rounds : Nat) → State → Option (List DirectoryEntry)
  | 0, _ => none
  | rounds + 1, s =>
      match s.readEntry handle with
      | (none, _) => some []
      | (some entry, s) => (entries handle rounds s).map (entry :: ·)

def isEnd (entry : DirectoryEntry) : Bool := entry.name.head? == some 0x00

def isPassedOver (entry : DirectoryEntry) : Bool :=
  entry.name.head? == some 0xE5 || entry.attributes &&& FAT_ATTRIBUTE_VOLUME_ID != 0

theorem isPassedOver_iff {entry : DirectoryEntry} : isPassedOver entry = true ↔
    entry.name.head? = some 0xE5 ∨ entry.attributes &&& FAT_ATTRIBUTE_VOLUME_ID ≠ 0 := by
  rw [isPassedOver, Bool.or_eq_true, beq_iff_eq, bne_iff_ne]

-- The entries that FAT_ListDirectory prints
def printed (entries : List DirectoryEntry) : List DirectoryEntry := shown isEnd isPassedOver entries

def hasName (name : List UInt8) (entry : DirectoryEntry) : Bool := fatName name == entry.name

-- FAT_ListDirectory prints the entries it should, and FAT_FindFile finds the first of these
-- that has the 8.3 form of the name, or none.
structure LookupAgrees (s : State) (handle : Handle) (rounds : Nat) (entries : List DirectoryEntry)
    (name : List UInt8) : Prop where
  lists : ∃ s', s.listDirectory rounds handle = .ok ((printed entries).flatMap State.listing, s')
  finds : ∃ s', State.findFile handle name rounds s = .ok ((printed entries).find? (hasName name), s')

-- The first entry of the directory with the 8.3 form of the name is one that is printed.
def FirstIsPrinted (entries : List DirectoryEntry) (name : List UInt8) : Prop :=
  FirstIsShown isEnd isPassedOver (hasName name) entries

section Loops

variable {handle : Handle} {rounds : Nat} {s : State} {entries : List DirectoryEntry}

-- Both scans in terms of the entries they read
theorem findFile_entries (h : s.entries handle rounds = some entries) (name : List UInt8) :
    ∃ s', State.findFile handle name rounds s = .ok (entries.find? (hasName name), s') := by
  induction rounds generalizing s entries with
  | zero => cases h
  | succ rounds ih =>
      unfold State.entries at h
      unfold State.findFile
      cases hread : s.readEntry handle with
      | mk found s' =>
      rw [hread] at h
      cases found with
      | none =>
          obtain rfl := Option.some.inj h
          exact ⟨s', rfl⟩
      | some entry =>
          obtain ⟨rest, hrest, rfl⟩ := Option.map_eq_some_iff.mp h
          simp only
          by_cases hmatch : fatName name = entry.name
          · have hname : hasName name entry = true := beq_iff_eq.mpr hmatch
            rw [if_pos hmatch, List.find?_cons_of_pos hname]
            exact ⟨s', rfl⟩
          · have hname : ¬hasName name entry = true := fun he => hmatch (beq_iff_eq.mp he)
            rw [if_neg hmatch, List.find?_cons_of_neg hname]
            exact ih hrest

theorem listLoop_entries (h : s.entries handle rounds = some entries) :
    ∃ s', State.listLoop handle rounds s = .ok ((printed entries).flatMap State.listing, s') := by
  induction rounds generalizing s entries with
  | zero => cases h
  | succ rounds ih =>
      unfold State.entries at h
      unfold State.listLoop
      cases hread : s.readEntry handle with
      | mk found s' =>
      rw [hread] at h
      cases found with
      | none =>
          obtain rfl := Option.some.inj h
          exact ⟨s', rfl⟩
      | some entry =>
          obtain ⟨rest, hrest, rfl⟩ := Option.map_eq_some_iff.mp h
          obtain ⟨s'', hlist⟩ := ih hrest
          simp only [hlist]
          by_cases hend : entry.name.head? = some 0x00
          · have hstop : isEnd entry = true := beq_iff_eq.mpr hend
            rw [if_pos hend, printed, shown_cons_of_stop hstop]
            exact ⟨s', rfl⟩
          have hstop : isEnd entry = false := beq_eq_false_iff_ne.mpr hend
          rw [if_neg hend, ← ite_or]
          by_cases hskip : isPassedOver entry = true
          · have hprinted : printed (entry :: rest) = printed rest := shown_cons_of_skip hstop hskip rest
            rw [if_pos (isPassedOver_iff.mp hskip), hprinted]
            exact ⟨s'', rfl⟩
          · have hprinted : printed (entry :: rest) = entry :: printed rest :=
              shown_cons hstop (Bool.eq_false_iff.mpr hskip) rest
            rw [if_neg fun h => hskip (isPassedOver_iff.mpr h), hprinted]
            exact ⟨s'', rfl⟩

-- FAT_ListDirectory starts over, which changes nothing at the start.
theorem listDirectory_entries (hstart : (s.file handle).position = 0)
    (h : s.entries handle rounds = some entries) :
    ∃ s', s.listDirectory rounds handle = .ok ((printed entries).flatMap State.listing, s') := by
  have hseek : (s.file handle).seek 0 = s.file handle := by
    unfold FileData.seek
    rw [← hstart]
  have hsame : s.setFile handle (s.file handle) = s := by
    cases handle with
    | root => rfl
    | file slot => simp only [State.setFile, State.file, Function.update_eq_self]
  rw [State.listDirectory, hseek, hsame]
  exact listLoop_entries h

-- A name is looked up among all entries. That agrees with the listing exactly where the first
-- entry with its 8.3 form comes before the end mark, is not deleted and carries no volume label.
theorem lookupAgrees_iff (hstart : (s.file handle).position = 0)
    (h : s.entries handle rounds = some entries) (name : List UInt8) :
    LookupAgrees s handle rounds entries name ↔ FirstIsPrinted entries name := by
  obtain ⟨found, hfound⟩ := findFile_entries h name
  unfold FirstIsPrinted
  rw [← find?_shown_iff]
  constructor
  · rintro ⟨-, s', hfinds⟩
    rw [hfound] at hfinds
    exact (Prod.mk.inj (Except.ok.inj hfinds)).1
  · intro hsame
    exact ⟨listDirectory_entries hstart h, found, by rw [hfound, hsame, printed]⟩

end Loops

theorem lookupAgrees_sample :
    ∃ entries, sampleState.entries .root 40 = some entries ∧
      (LookupAgrees sampleState .root 40 entries [0x41] ↔ FirstIsPrinted entries [0x41]) := by
  have hsome : (sampleState.entries .root 40).isSome = true := by decide +kernel
  obtain ⟨entries, hentries⟩ := Option.isSome_iff_exists.mp hsome
  exact ⟨entries, hentries, lookupAgrees_iff rfl hentries [0x41]⟩

-- A root directory that ends at once; the entry of a file A is left behind the end mark.
def staleContent (lba : Nat) : Sector := fun i =>
  if lba = 2 then if h : 32 ≤ i.val then sampleContent 2 ⟨i.val - 32, by omega⟩ else 0
  else sampleContent lba i

def staleDisk : Disk := fun _ lba _ => { ok := true, data := fun i => staleContent (lba + i) }

-- FAT_FindFile finds that entry, which is not listed.
theorem not_lookupAgrees_stale :
    ∃ s entries, fatInitialize staleDisk sampleSlots (fun _ => 0) = .ok s ∧
      (s.file .root).position = 0 ∧ s.entries .root 40 = some entries ∧
      ¬LookupAgrees s .root 40 entries [0x41] := by
  have hinit : ((fatInitialize staleDisk sampleSlots (fun _ => 0)).toOption.map fun s =>
      (s.file .root).position) = some 0 := by
    decide +kernel
  have hscan : ((fatInitialize staleDisk sampleSlots (fun _ => 0)).toOption.bind fun s =>
      (s.entries .root 40).map fun entries => ((printed entries).find? (hasName [0x41])).isSome) =
        some false := by
    decide +kernel
  have hfind : ((fatInitialize staleDisk sampleSlots (fun _ => 0)).toOption.bind fun s =>
      (State.findFile .root [0x41] 40 s).toOption.map fun found => found.1.isSome) = some true := by
    decide +kernel
  cases hstate : fatInitialize staleDisk sampleSlots (fun _ => 0) with
  | error e =>
      rw [hstate] at hinit
      cases hinit
  | ok s =>
      rw [hstate] at hinit hscan hfind
      obtain ⟨entries, hentries, hnone⟩ := Option.map_eq_some_iff.mp hscan
      obtain ⟨found, hfound, hsome⟩ := Option.map_eq_some_iff.mp hfind
      refine ⟨s, entries, rfl, Option.some.inj hinit, hentries, fun hagrees => ?_⟩
      obtain ⟨s', hfinds⟩ := hagrees.finds
      rw [hfinds] at hfound
      obtain rfl := Option.some.inj hfound
      exact Bool.noConfusion (hnone.symm.trans hsome)

end ToyKernel.Fat
