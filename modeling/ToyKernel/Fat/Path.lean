import ToyKernel.Fat

namespace ToyKernel.Fat

section Path

-- What the loop takes off the path in a round, and what is left of it
def component (path : List UInt8) : List UInt8 := path.takeWhile (· ≠ SLASH)
def behind (path : List UInt8) : List UInt8 := path.drop ((component path).length + 1)

theorem length_behind {path : List UInt8} (h : path ≠ []) : (behind path).length < path.length := by
  have hpos := List.length_pos_iff.mpr h
  rw [behind, List.length_drop]
  omega

theorem length_skipSlash_le (path : List UInt8) : (State.skipSlash path).length ≤ path.length := by
  unfold State.skipSlash
  split
  · rw [List.length_tail]
    omega
  · exact Nat.le_refl _

end Path

section Round

variable {rounds length : Nat} {path : List UInt8} {handle : Handle} {current result : Option Handle}
  {s s' : State}

theorem openLoop_nil (current : Option Handle) :
    State.openLoop rounds length [] current s = .ok (current, s) := by
  cases length <;> rfl

-- A component that does not fit overruns `name`.
theorem openLoop_tooLong (hpath : path ≠ []) (hlong : MAX_PATH_SIZE ≤ (component path).length)
    (current : Option Handle) :
    State.openLoop rounds (length + 1) path current s = .error .nameOverflow := by
  unfold State.openLoop
  rw [if_neg hpath]
  exact if_pos hlong

-- Without a file there is nothing to search.
theorem openLoop_null (rounds length : Nat) (s : State) (hpath : path ≠ []) :
    ∃ e, e ≠ .outOfRounds ∧ State.openLoop rounds (length + 1) path none s = .error e := by
  by_cases hlong : MAX_PATH_SIZE ≤ (component path).length
  · exact ⟨.nameOverflow, by decide, openLoop_tooLong hpath hlong none⟩
  · refine ⟨.nullFile, by decide, ?_⟩
    unfold State.openLoop
    rw [if_neg hpath]
    exact if_neg hlong

-- One round of the loop, for a component that fits `name`
theorem openLoop_succ (hpath : path ≠ []) (hfits : (component path).length < MAX_PATH_SIZE) :
    State.openLoop rounds (length + 1) path (some handle) s =
      match State.findFile handle (component path) rounds s with
      | .error e => .error e
      | .ok (none, mid) => .ok (none, mid.close handle)
      | .ok (some entry, mid) => State.openLoop rounds length (behind path)
          ((mid.close handle).openEntry entry).1 ((mid.close handle).openEntry entry).2 := by
  have hshort : ¬(path.takeWhile (· ≠ SLASH)).length ≥ MAX_PATH_SIZE := Nat.not_le.mpr hfits
  rw [State.openLoop, if_neg hpath]
  exact if_neg hshort

-- All that a round can have done in a call that comes to its end
theorem openLoop_inv (hpath : path ≠ [])
    (h : State.openLoop rounds (length + 1) path current s = .ok (result, s')) :
    ∃ handle found mid, current = some handle ∧ (component path).length < MAX_PATH_SIZE ∧
      State.findFile handle (component path) rounds s = .ok (found, mid) ∧
      ((found = none ∧ result = none ∧ s' = mid.close handle) ∨ ∃ entry, found = some entry ∧
        State.openLoop rounds length (behind path) ((mid.close handle).openEntry entry).1
          ((mid.close handle).openEntry entry).2 = .ok (result, s')) := by
  cases current with
  | none =>
      obtain ⟨e, -, herror⟩ := openLoop_null rounds length s hpath
      cases herror.symm.trans h
  | some handle =>
      by_cases hlong : MAX_PATH_SIZE ≤ (component path).length
      · cases (openLoop_tooLong hpath hlong _).symm.trans h
      have hfits := Nat.not_le.mp hlong
      rw [openLoop_succ hpath hfits] at h
      cases hfind : State.findFile handle (component path) rounds s with
      | error e =>
          rw [hfind] at h
          cases h
      | ok found =>
          obtain ⟨found, mid⟩ := found
          rw [hfind] at h
          refine ⟨handle, found, mid, rfl, hfits, hfind, ?_⟩
          cases found with
          | none =>
              cases h
              exact .inl ⟨rfl, rfl, rfl⟩
          | some entry => exact .inr ⟨entry, rfl, h⟩

end Round

section Rounds

-- More rounds do not change what a search comes back with.
theorem findFile_mono {rounds rounds' : Nat} {s s' : State} {handle : Handle} {name : List UInt8} {found : Option DirectoryEntry}
    (h : State.findFile handle name rounds s = .ok (found, s')) (hle : rounds ≤ rounds') :
    State.findFile handle name rounds' s = .ok (found, s') := by
  induction rounds generalizing rounds' s with
  | zero => cases h
  | succ rounds ih =>
      obtain ⟨rounds', rfl⟩ := Nat.exists_eq_add_of_lt hle
      unfold State.findFile at h ⊢
      cases hread : s.readEntry handle with
      | mk entry mid =>
          rw [hread] at h
          cases entry with
          | none => exact h
          | some entry =>
              simp only at h ⊢
              by_cases hmatch : fatName name = entry.name
              · rwa [if_pos hmatch] at h ⊢
              · rw [if_neg hmatch] at h ⊢
                exact ih h (by omega)

end Rounds

section Entries

-- The search of a directory comes to its end, with these.
def Finds (s : State) (handle : Handle) (name : List UInt8) (found : Option DirectoryEntry) (s' : State) :
    Prop :=
  ∃ rounds, State.findFile handle name rounds s = .ok (found, s')

-- The first component of the path names this entry, which FAT_OpenEntry turns into `opened`.
structure Enters (path : List UInt8) (handle : Handle) (s : State) (entry : DirectoryEntry)
    (opened : Option Handle) (s' : State) : Prop where
  nonempty : path ≠ []
  fits : (component path).length < MAX_PATH_SIZE
  opens : ∃ mid, Finds s handle (component path) (some entry) mid ∧
    (mid.close handle).openEntry entry = (opened, s')

-- A component of the path names the entry.
inductive Names (entry : DirectoryEntry) : List UInt8 → Handle → State → Prop
  | here {path handle s opened s'} (h : Enters path handle s entry opened s') : Names entry path handle s
  | later {path handle s found opened s'} (h : Enters path handle s found (some opened) s')
      (hrest : Names entry (behind path) opened s') : Names entry path handle s

end Entries

end ToyKernel.Fat
