import Mathlib.Data.List.Induction
import ToyKernel.Keyboard

namespace ToyKernel.Keyboard

open Library ByteMemory

section Held

variable {α : Type*} {make release a : α} {codes : List α}

-- The key with these two codes was pressed and has not been released since.
def Held (make release : α) (codes : List α) : Prop :=
  ∃ before after, codes = before ++ make :: after ∧ release ∉ after

theorem not_held_nil : ¬Held make release [] := by
  rintro ⟨before, after, h, -⟩
  exact List.append_ne_nil_of_right_ne_nil before (List.cons_ne_nil make after) h.symm

theorem held_append : Held make release (codes ++ [a]) ↔ a = make ∨ a ≠ release ∧ Held make release codes := by
  constructor
  · rintro ⟨before, after, h, hnot⟩
    cases after using List.reverseRecOn with
    | nil => exact .inl (List.singleton_inj.mp (List.append_inj' h rfl).2)
    | append_singleton after b =>
        rw [← List.cons_append, ← List.append_assoc] at h
        obtain ⟨hcodes, hb⟩ := List.append_inj' h rfl
        obtain rfl := List.singleton_inj.mp hb
        rw [List.mem_append, List.mem_singleton, not_or] at hnot
        exact .inr ⟨fun he => hnot.2 he.symm, before, after, hcodes, hnot.1⟩
  · rintro (rfl | ⟨hne, before, after, rfl, hnot⟩)
    · exact ⟨codes, [], rfl, List.not_mem_nil⟩
    · refine ⟨before, after ++ [a], by simp, fun hmem => ?_⟩
      rcases List.mem_append.mp hmem with hmem | hmem
      · exact hnot hmem
      · exact hne (List.mem_singleton.mp hmem).symm

end Held

section Flag

variable {rodata : Nat → BitVec 8} {m : Memory} {codes : List (BitVec 8)} {code : BitVec 8}

def LeftHeld (codes : List (BitVec 8)) : Prop := Held LSHIFT_MAKE LSHIFT_BREAK codes

def RightHeld (codes : List (BitVec 8)) : Prop := Held RSHIFT_MAKE RSHIFT_BREAK codes

def ShiftHeld (codes : List (BitVec 8)) : Prop := LeftHeld codes ∨ RightHeld codes

def IsShiftMake (code : BitVec 8) : Prop := code = LSHIFT_MAKE ∨ code = RSHIFT_MAKE

def IsShiftBreak (code : BitVec 8) : Prop := code = LSHIFT_BREAK ∨ code = RSHIFT_BREAK

instance : DecidablePred IsShiftMake := fun _ => inferInstanceAs (Decidable (_ ∨ _))
instance : DecidablePred IsShiftBreak := fun _ => inferInstanceAs (Decidable (_ ∨ _))

-- The memory after an interrupt for each code
def typed (rodata : Nat → BitVec 8) (m : Memory) (codes : List (BitVec 8)) : Memory :=
  codes.foldl (keyboardIrq1Handler rodata) m

-- One flag stands for both keys.
theorem keyboardIrq1Handler_shift (rodata : Nat → BitVec 8) (m : Memory) (code : BitVec 8) :
    keyboardIrq1Handler rodata m code SHIFT_ADDRESS =
      if IsShiftMake code then 1 else if IsShiftBreak code then 0 else m SHIFT_ADDRESS := by
  unfold keyboardIrq1Handler
  by_cases hzero : code = 0
  · subst hzero
    rfl
  rw [if_neg hzero]
  change (if IsShiftMake code then store8 m SHIFT_ADDRESS 1
    else if IsShiftBreak code then store8 m SHIFT_ADDRESS 0 else _) SHIFT_ADDRESS = _
  by_cases hmake : IsShiftMake code
  · rw [if_pos hmake, if_pos hmake, store8_self]
  rw [if_neg hmake, if_neg hmake]
  by_cases hbreak : IsShiftBreak code
  · rw [if_pos hbreak, if_pos hbreak, store8_self]
  rw [if_neg hbreak, if_neg hbreak]
  have hctrl : SHIFT_ADDRESS ≠ CTRL_ADDRESS := by decide
  have hkey : SHIFT_ADDRESS ≠ KEY_ADDRESS := by decide
  split
  · exact store8_of_ne hctrl 1
  split
  · exact store8_of_ne hctrl 0
  split
  · exact store8_of_ne hkey _
  · rfl

theorem typed_append (rodata : Nat → BitVec 8) (m : Memory) (codes : List (BitVec 8)) (code : BitVec 8) :
    typed rodata m (codes ++ [code]) = keyboardIrq1Handler rodata (typed rodata m codes) code := by
  rw [typed, List.foldl_append]
  rfl

-- The flag says what the keys are.
def FlagAgrees (rodata : Nat → BitVec 8) (m : Memory) (codes : List (BitVec 8)) : Prop :=
  typed rodata m codes SHIFT_ADDRESS ≠ 0 ↔ ShiftHeld codes

-- Neither shift key is released while the other one is down.
def ReleasesAlone (codes : List (BitVec 8)) (code : BitVec 8) : Prop :=
  (code = LSHIFT_BREAK → ¬RightHeld codes) ∧ (code = RSHIFT_BREAK → ¬LeftHeld codes)

theorem shiftHeld_append : ShiftHeld (codes ++ [code]) ↔
    (code = LSHIFT_MAKE ∨ code ≠ LSHIFT_BREAK ∧ LeftHeld codes) ∨
      (code = RSHIFT_MAKE ∨ code ≠ RSHIFT_BREAK ∧ RightHeld codes) :=
  or_congr held_append held_append

theorem flagAgrees_nil : FlagAgrees rodata m [] ↔ m SHIFT_ADDRESS = 0 := by
  have hnone : ¬ShiftHeld [] := fun h => h.elim not_held_nil not_held_nil
  unfold FlagAgrees
  rw [iff_false_right hnone, not_not]
  rfl

-- What one interrupt does to the agreement
theorem flagAgrees_append : FlagAgrees rodata m (codes ++ [code]) ↔
    ReleasesAlone codes code ∧ (IsShiftMake code ∨ IsShiftBreak code ∨ FlagAgrees rodata m codes) := by
  unfold FlagAgrees
  rw [typed_append, keyboardIrq1Handler_shift, shiftHeld_append]
  by_cases hmake : IsShiftMake code
  · have halone : ReleasesAlone codes code := by
      rcases hmake with rfl | rfl
      · exact ⟨fun h => absurd h (by decide), fun h => absurd h (by decide)⟩
      · exact ⟨fun h => absurd h (by decide), fun h => absurd h (by decide)⟩
    rw [if_pos hmake]
    refine iff_of_true (iff_of_true (by decide) ?_) ⟨halone, .inl hmake⟩
    exact hmake.imp .inl .inl
  rw [if_neg hmake]
  obtain ⟨hleft, hright⟩ := not_or.mp hmake
  by_cases hbreak : IsShiftBreak code
  · rw [if_pos hbreak]
    rcases hbreak with rfl | rfl
    · simp [ReleasesAlone, IsShiftBreak, hleft, hright, show LSHIFT_BREAK ≠ RSHIFT_BREAK by decide]
    · simp [ReleasesAlone, IsShiftBreak, hleft, hright, show RSHIFT_BREAK ≠ LSHIFT_BREAK by decide]
  rw [if_neg hbreak]
  obtain ⟨hleft', hright'⟩ := not_or.mp hbreak
  simp [ReleasesAlone, ShiftHeld, hmake, hbreak, hleft, hright, hleft', hright']

end Flag

section Presses

variable {rodata : Nat → BitVec 8} {m : Memory} {code : BitVec 8}

-- The codes that the handler translates
def IsPress (code : BitVec 8) : Prop :=
  code ≠ 0 ∧ ¬IsShiftMake code ∧ ¬IsShiftBreak code ∧ code ≠ LCTRL_MAKE ∧ code ≠ LCTRL_BREAK ∧
    code &&& 0x80 = 0

instance : DecidablePred IsPress := fun _ => inferInstanceAs (Decidable (_ ∧ _))

def translated (rodata : Nat → BitVec 8) (m : Memory) (code : BitVec 8) : BitVec 8 :=
  if m SHIFT_ADDRESS ≠ 0 then shiftKey (scancodeToAscii rodata code) else scancodeToAscii rodata code

theorem keyboardIrq1Handler_press (h : IsPress code) :
    keyboardIrq1Handler rodata m code KEY_ADDRESS = translated rodata m code := by
  obtain ⟨hzero, hmake, hbreak, hctrl, hctrl', hpress⟩ := h
  obtain ⟨hleft, hright⟩ := not_or.mp hmake
  obtain ⟨hleft', hright'⟩ := not_or.mp hbreak
  unfold keyboardIrq1Handler
  rw [if_neg hzero, if_neg (not_or.mpr ⟨hleft, hright⟩), if_neg (not_or.mpr ⟨hleft', hright'⟩),
    if_neg hctrl, if_neg hctrl', if_pos hpress]
  exact store8_self m KEY_ADDRESS _

theorem keyboardIrq1Handler_quiet (h : ¬IsPress code) :
    keyboardIrq1Handler rodata m code KEY_ADDRESS = m KEY_ADDRESS := by
  have hshift : KEY_ADDRESS ≠ SHIFT_ADDRESS := by decide
  have hctrl : KEY_ADDRESS ≠ CTRL_ADDRESS := by decide
  unfold keyboardIrq1Handler
  by_cases hzero : code = 0
  · rw [if_pos hzero]
  rw [if_neg hzero]
  by_cases hmake : code = LSHIFT_MAKE ∨ code = RSHIFT_MAKE
  · rw [if_pos hmake, store8_of_ne hshift]
  rw [if_neg hmake]
  by_cases hbreak : code = LSHIFT_BREAK ∨ code = RSHIFT_BREAK
  · rw [if_pos hbreak, store8_of_ne hshift]
  rw [if_neg hbreak]
  by_cases hctrlMake : code = LCTRL_MAKE
  · rw [if_pos hctrlMake, store8_of_ne hctrl]
  rw [if_neg hctrlMake]
  by_cases hctrlBreak : code = LCTRL_BREAK
  · rw [if_pos hctrlBreak, store8_of_ne hctrl]
  rw [if_neg hctrlBreak, if_neg fun hbit => h ⟨hzero, hmake, hbreak, hctrlMake, hctrlBreak, hbit⟩]

theorem shiftKey_eq_zero_iff : ∀ key : BitVec 8, shiftKey key = 0 ↔ key = 0 := by
  decide +kernel

-- Shifted or not, a key without a character is delivered as 0.
theorem translated_eq_zero_iff : translated rodata m code = 0 ↔ scancodeToAscii rodata code = 0 := by
  unfold translated
  split
  · exact shiftKey_eq_zero_iff _
  · rfl

end Presses

section Letters

variable {rodata : Nat → BitVec 8} {m : Memory} {codes : List (BitVec 8)} {code : BitVec 8}

def letterOf (code : BitVec 8) : BitVec 8 := (SCANCODE_TO_ASCII[code.toNat]?).getD 0

-- The keys 'a' to 'z'
def IsLetter (code : BitVec 8) : Prop := 0x61 ≤ letterOf code ∧ letterOf code ≤ 0x7A

instance : DecidablePred IsLetter := fun _ => inferInstanceAs (Decidable (_ ∧ _))

theorem isPress_of_isLetter : ∀ code : BitVec 8, IsLetter code →
    IsPress code ∧ code.toNat < SCANCODE_TO_ASCII.length := by
  decide +kernel

theorem keyboardIrq1Handler_letter (h : IsLetter code) (hshift : m SHIFT_ADDRESS ≠ 0) :
    keyboardIrq1Handler rodata m code KEY_ADDRESS = letterOf code - 0x20 := by
  obtain ⟨hpress, hlt⟩ := isPress_of_isLetter code h
  have hascii : scancodeToAscii rodata code = letterOf code := by
    unfold scancodeToAscii letterOf
    rw [List.getElem?_eq_getElem hlt]
    rfl
  rw [keyboardIrq1Handler_press hpress, translated, if_pos hshift, hascii]
  exact if_pos h

-- After every interrupt the flag says whether a shift key is down, and letters are delivered
-- in upper case for as long as one is.
structure TracksShift (rodata : Nat → BitVec 8) (m : Memory) (codes : List (BitVec 8)) : Prop where
  flag : ∀ before code, before ++ [code] <+: codes → FlagAgrees rodata m (before ++ [code])
  letters : ∀ before code, before ++ [code] <+: codes → IsLetter code → ShiftHeld before →
    typed rodata m (before ++ [code]) KEY_ADDRESS = letterOf code - 0x20

-- Nothing initialises `key_info`, so the flag has to be clear by itself or be set first.
def StartsClear (m : Memory) (codes : List (BitVec 8)) : Prop :=
  m SHIFT_ADDRESS = 0 ∨ ∀ code, codes.head? = some code → IsShiftMake code ∨ IsShiftBreak code

theorem flagAgrees_run (rodata : Nat → BitVec 8) (hclear : StartsClear m codes)
    (halone : ∀ before code, before ++ [code] <+: codes → ReleasesAlone before code)
    (before : List (BitVec 8)) (code : BitVec 8) (hpre : before ++ [code] <+: codes) :
    FlagAgrees rodata m (before ++ [code]) := by
  induction before using List.reverseRecOn generalizing code with
  | nil =>
      refine flagAgrees_append.mpr ⟨halone [] code hpre, ?_⟩
      rcases hclear with hclear | hfirst
      · exact .inr (.inr (flagAgrees_nil.mpr hclear))
      · obtain ⟨rest, rfl⟩ := hpre
        exact (hfirst code rfl).imp id .inl
  | append_singleton before last ih =>
      have hbefore : before ++ [last] <+: codes := (List.prefix_append _ [code]).trans hpre
      exact flagAgrees_append.mpr ⟨halone _ code hpre, .inr (.inr (ih last hbefore))⟩

theorem tracksShift_iff (rodata : Nat → BitVec 8) (m : Memory) (codes : List (BitVec 8)) :
    TracksShift rodata m codes ↔ StartsClear m codes ∧
      ∀ before code, before ++ [code] <+: codes → ReleasesAlone before code := by
  constructor
  · intro h
    refine ⟨?_, fun before code hpre => (flagAgrees_append.mp (h.flag before code hpre)).1⟩
    by_contra hnot
    obtain ⟨hset, hfirst⟩ := not_or.mp hnot
    obtain ⟨code, hcode⟩ := not_forall.mp hfirst
    obtain ⟨hhead, hother⟩ := Classical.not_imp.mp hcode
    obtain ⟨hmake, hbreak⟩ := not_or.mp hother
    obtain ⟨rest, rfl⟩ := List.head?_eq_some_iff.mp hhead
    rcases (flagAgrees_append.mp (h.flag [] code ⟨rest, rfl⟩)).2 with hcode | hcode | hcode
    · exact hmake hcode
    · exact hbreak hcode
    · exact hset (flagAgrees_nil.mp hcode)
  · rintro ⟨hclear, halone⟩
    have hflag := flagAgrees_run rodata hclear halone
    refine ⟨hflag, fun before code hpre hletter hheld => ?_⟩
    rw [typed_append]
    apply keyboardIrq1Handler_letter hletter
    cases before using List.reverseRecOn with
    | nil => exact absurd hheld fun h => h.elim not_held_nil not_held_nil
    | append_singleton before last =>
        exact (hflag before last ((List.prefix_append _ [code]).trans hpre)).mpr hheld

-- Both shift keys go down, the left one comes up, and then 'a' is pressed.
theorem not_tracksShift_sample : ¬∀ (rodata : Nat → BitVec 8) (m : Memory) (codes : List (BitVec 8)),
    m SHIFT_ADDRESS = 0 → 0xE0 ∉ codes → TracksShift rodata m codes := by
  intro h
  have htracks := h (fun _ => 0) (fun _ => 0) [LSHIFT_MAKE, RSHIFT_MAKE, LSHIFT_BREAK, 0x1E] rfl (by decide)
  have hheld : ShiftHeld [LSHIFT_MAKE, RSHIFT_MAKE, LSHIFT_BREAK] :=
    .inr ⟨[LSHIFT_MAKE], [LSHIFT_BREAK], rfl, by decide⟩
  have hletter := htracks.letters _ 0x1E (List.prefix_refl _) (by decide) hheld
  exact absurd hletter (by decide)

end Letters

end ToyKernel.Keyboard
