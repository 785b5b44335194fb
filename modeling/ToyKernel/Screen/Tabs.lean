import Mathlib.Logic.Function.Iterate
import ToyKernel.Screen.Refinement

namespace ToyKernel.Screen

open Library Terminal

section Cursor

variable {s : Screen}

def OnScreen (s : Screen) : Prop := s.x < SCREEN_WIDTH ∧ s.y < SCREEN_HEIGHT

-- One step to the right or down at most is made good at the end of `put_c`.
theorem settle_onScreen (hx : s.x ≤ SCREEN_WIDTH) (hy : s.y + s.x / SCREEN_WIDTH ≤ SCREEN_HEIGHT) :
    OnScreen s.settle ∧ s.settle.x = s.x % SCREEN_WIDTH := by
  obtain ⟨⟨hsx, hsy, -⟩, -⟩ := settle_same hx
  change s.settle.x = _ at hsx
  change s.settle.y = _ at hsy
  unfold OnScreen
  rw [hsx, hsy]
  unfold Window.wrap Window.settle Window.scroll
  change s.y + s.x / 80 ≤ 25 at hy
  change s.x ≤ 80 at hx
  by_cases hfull : s.window.x ≥ SCREEN_WIDTH
  · have hx80 : s.x = 80 := Nat.le_antisymm hx hfull
    rw [if_pos hfull]
    dsimp only
    split
    · refine ⟨⟨Nat.zero_lt_succ 79, ?_⟩, by rw [hx80]; rfl⟩
      change s.y + 1 - 1 < 25
      omega
    case isFalse hin => exact ⟨⟨Nat.zero_lt_succ 79, Nat.lt_of_not_le hin⟩, by rw [hx80]; rfl⟩
  · have hlt : s.x < 80 := Nat.lt_of_not_le hfull
    have hmod : s.x = s.x % SCREEN_WIDTH := (Nat.mod_eq_of_lt hlt).symm
    rw [if_neg hfull]
    split
    · refine ⟨⟨hlt, ?_⟩, hmod⟩
      change s.y - 1 < 25
      omega
    case isFalse hin => exact ⟨⟨hlt, Nat.lt_of_not_le hin⟩, hmod⟩

theorem putGlyph_onScreen (hs : OnScreen s) (c : UInt8) : OnScreen (s.putGlyph c) := by
  obtain ⟨hx, hy⟩ := hs
  unfold SCREEN_WIDTH at hx
  unfold SCREEN_HEIGHT at hy
  unfold putGlyph
  split
  · refine (settle_onScreen (Nat.zero_le _) ?_).1
    change s.y + 1 + 0 / 80 ≤ 25
    omega
  split
  · refine (settle_onScreen (Nat.zero_le _) ?_).1
    change s.y + 0 / 80 ≤ 25
    omega
  · refine (settle_onScreen ?_ ?_).1
    · change s.x + 1 ≤ 80
      omega
    · change s.y + (s.x + 1) / 80 ≤ 25
      omega

theorem putGlyph_space (hs : OnScreen s) : (s.putGlyph SPACE).x = (s.x + 1) % SCREEN_WIDTH := by
  obtain ⟨hx, hy⟩ := hs
  unfold SCREEN_WIDTH at hx
  unfold SCREEN_HEIGHT at hy
  refine (settle_onScreen (s := { s.putchr s.x s.y SPACE with x := s.x + 1 }) ?_ ?_).2
  · change s.x + 1 ≤ 80
    omega
  · change s.y + (s.x + 1) / 80 ≤ 25
    omega

end Cursor

section Loop

variable {s : Screen} {putSpace : Screen → Screen}

-- Both drivers put a space this way.
def Advances (putSpace : Screen → Screen) : Prop :=
  ∀ s, OnScreen s → OnScreen (putSpace s) ∧ (putSpace s).x = (s.x + 1) % SCREEN_WIDTH

-- How many spaces a tab puts
def tabBlanks (x : Nat) : Nat := if x % 4 = 2 then 1 else if x % 4 = 3 then 3 else 2

theorem tabBlanks_cases (x : Nat) : x % 4 < 2 ∧ tabBlanks x = 2 ∨ x % 4 = 2 ∧ tabBlanks x = 1 ∨
    x % 4 = 3 ∧ tabBlanks x = 3 := by
  unfold tabBlanks
  by_cases htwo : x % 4 = 2
  · exact .inr (.inl ⟨htwo, if_pos htwo⟩)
  rw [if_neg htwo]
  by_cases hthree : x % 4 = 3
  · exact .inr (.inr ⟨hthree, if_pos hthree⟩)
  · exact .inl ⟨by omega, if_neg hthree⟩

theorem Advances.iterate (h : Advances putSpace) (hs : OnScreen s) (n : Nat) :
    OnScreen (putSpace^[n] s) ∧ (putSpace^[n] s).x = (s.x + n) % SCREEN_WIDTH := by
  induction n with
  | zero => exact ⟨hs, (Nat.mod_eq_of_lt hs.1).symm⟩
  | succ n ih =>
      obtain ⟨hon, hx⟩ := h _ ih.1
      rw [Function.iterate_succ_apply']
      refine ⟨hon, hx.trans ?_⟩
      rw [ih.2, Nat.mod_add_mod, Nat.add_assoc]

theorem tabLoop_iterate (putSpace : Screen → Screen) (s : Screen) (n rounds i : Nat)
    (hgo : ∀ k < n, i + k < 4 - (putSpace^[k] s).x % 4)
    (hstop : ¬i + n < 4 - (putSpace^[n] s).x % 4) :
    tabLoop putSpace (n + rounds) i s = putSpace^[n] s := by
  induction n generalizing i s with
  | zero =>
      cases rounds with
      | zero => rfl
      | succ rounds => exact if_neg hstop
  | succ n ih =>
      have hround : tabLoop putSpace (n + 1 + rounds) i s =
          tabLoop putSpace (n + rounds) (i + 1) (putSpace s) := by
        rw [Nat.add_right_comm]
        exact if_pos (hgo 0 (Nat.succ_pos n))
      rw [hround]
      apply ih
      · intro k hk
        rw [Nat.add_assoc, Nat.add_comm 1 k]
        exact hgo (k + 1) (Nat.succ_lt_succ hk)
      · rw [Nat.add_assoc, Nat.add_comm 1 n]
        exact hstop

-- The bound is read from the column that the spaces are moving: it falls as `i` rises, and jumps
-- back to 4 where a space reaches a tab stop.
theorem Advances.tabLoop_eq (h : Advances putSpace) (hs : OnScreen s) :
    tabLoop putSpace 4 0 s = putSpace^[tabBlanks s.x] s := by
  have hcolumn : ∀ n, (putSpace^[n] s).x % 4 = (s.x + n) % 4 := by
    intro n
    rw [(h.iterate hs n).2]
    exact Nat.mod_mod_of_dvd _ (by decide)
  have hcases := tabBlanks_cases s.x
  have hfour : tabBlanks s.x + (4 - tabBlanks s.x) = 4 := by omega
  have hloop := tabLoop_iterate putSpace s (tabBlanks s.x) (4 - tabBlanks s.x) 0
    (fun k hk => by
      rw [hcolumn]
      omega)
    (by
      rw [hcolumn]
      omega)
  rw [hfour] at hloop
  exact hloop

end Loop

section Reached

variable {s : Screen}

theorem putGlyph_advances : Advances fun s => s.putGlyph SPACE :=
  fun _ hs => ⟨putGlyph_onScreen hs SPACE, putGlyph_space hs⟩

theorem stage2_putGlyph_eq (hs : OnScreen s) (c : UInt8) : Stage2.Screen.putGlyph s c = s.putGlyph c := by
  apply stage2_settle
  split
  · exact Nat.zero_le _
  split
  · exact Nat.zero_le _
  · exact hs.1

theorem stage2_putGlyph_advances : Advances fun s => Stage2.Screen.putGlyph s SPACE := by
  intro s hs
  dsimp only
  rw [stage2_putGlyph_eq hs]
  exact putGlyph_advances s hs

-- The end of `put_c` leaves a cursor on the screen where it is.
theorem settle_of_onScreen (hs : OnScreen s) : OnScreen s.settle ∧ s.settle.x = s.x := by
  obtain ⟨hx, hy⟩ := hs
  have hdiv : s.x / SCREEN_WIDTH = 0 := Nat.div_eq_of_lt hx
  obtain ⟨hon, hcolumn⟩ := settle_onScreen (Nat.le_of_lt hx) (by omega)
  exact ⟨hon, hcolumn.trans (Nat.mod_eq_of_lt hx)⟩

theorem Advances.tab_column {putSpace : Screen → Screen} (h : Advances putSpace) (hs : OnScreen s) :
    OnScreen (tabLoop putSpace 4 0 s).settle ∧
      (tabLoop putSpace 4 0 s).settle.x = (s.x + tabBlanks s.x) % SCREEN_WIDTH := by
  obtain ⟨hon, hx⟩ := h.iterate hs (tabBlanks s.x)
  rw [h.tabLoop_eq hs]
  obtain ⟨hsettled, hcolumn⟩ := settle_of_onScreen hon
  exact ⟨hsettled, hcolumn.trans hx⟩

theorem putC_tab (hs : OnScreen s) :
    OnScreen (s.putC TAB) ∧ (s.putC TAB).x = (s.x + tabBlanks s.x) % SCREEN_WIDTH :=
  putGlyph_advances.tab_column hs

theorem stage2_putc_tab (hs : OnScreen s) :
    OnScreen (Stage2.Screen.putc s TAB) ∧
      (Stage2.Screen.putc s TAB).x = (s.x + tabBlanks s.x) % SCREEN_WIDTH := by
  have hon := (stage2_putGlyph_advances.iterate hs (tabBlanks s.x)).1
  rw [← stage2_putGlyph_advances.tabLoop_eq hs] at hon
  have hsettle : Stage2.Screen.putc s TAB = (tabLoop (fun s => Stage2.Screen.putGlyph s SPACE) 4 0 s).settle :=
    stage2_settle (Nat.le_of_lt hon.1)
  rw [hsettle]
  exact stage2_putGlyph_advances.tab_column hs

theorem putC_onScreen (hs : OnScreen s) (c : UInt8) : OnScreen (s.putC c) := by
  by_cases htab : c = TAB
  · subst htab
    exact (putC_tab hs).1
  · rw [putC, if_neg htab]
    exact putGlyph_onScreen hs c

theorem stage2_putc_onScreen (hs : OnScreen s) (c : UInt8) : OnScreen (Stage2.Screen.putc s c) := by
  by_cases htab : c = TAB
  · subst htab
    exact (stage2_putc_tab hs).1
  · rw [Stage2.Screen.putc, if_neg htab, stage2_putGlyph_eq hs]
    exact putGlyph_onScreen hs c

theorem foldl_onScreen {put : Screen → UInt8 → Screen} (hput : ∀ s c, OnScreen s → OnScreen (put s c))
    (hs : OnScreen s) (text : List UInt8) : OnScreen (text.foldl put s) := by
  induction text generalizing s with
  | nil => exact hs
  | cons c text ih => exact ih (hput s c hs)

end Reached

section Stops

-- The next column that is a multiple of 4, on the next row if that is column 80
def nextStop (x : Nat) : Nat := (x / 4 + 1) * 4

-- A tab puts the spaces up to the next tab stop, and the cursor comes to stand there.
structure TabStop (put : Screen → UInt8 → Screen) (s : Screen) : Prop where
  column : (put s TAB).x = nextStop s.x % SCREEN_WIDTH
  blanks : (put s TAB).window = ((List.replicate (nextStop s.x - s.x) SPACE).foldl put s).window

theorem nextStop_mod (x : Nat) : nextStop x % SCREEN_WIDTH % 4 = 0 := by
  unfold nextStop SCREEN_WIDTH
  omega

-- Two or one short of the tab stop, or two beyond it
theorem tabBlanks_mod (x : Nat) : (x + tabBlanks x) % SCREEN_WIDTH % 4 ≠ 0 := by
  have hcases := tabBlanks_cases x
  unfold SCREEN_WIDTH
  omega

theorem not_tabStop_of_column {put : Screen → UInt8 → Screen} {s : Screen}
    (hcolumn : (put s TAB).x = (s.x + tabBlanks s.x) % SCREEN_WIDTH) : ¬TabStop put s := by
  intro h
  have hmod := congrArg (· % 4) (hcolumn.symm.trans h.column)
  exact tabBlanks_mod s.x (hmod.trans (nextStop_mod s.x))

-- Whatever was put before it, no tab of either driver leaves the cursor at a tab stop.
theorem not_tabStop {start : Screen} (hstart : OnScreen start) (text : List UInt8) :
    ¬TabStop putC (text.foldl putC start) ∧
      ¬TabStop Stage2.Screen.putc (text.foldl Stage2.Screen.putc start) := by
  have hkernel := foldl_onScreen (fun s c hs => putC_onScreen hs c) hstart text
  have hstage2 := foldl_onScreen (fun s c hs => stage2_putc_onScreen hs c) hstart text
  exact ⟨not_tabStop_of_column (putC_tab hkernel).2, not_tabStop_of_column (stage2_putc_tab hstage2).2⟩

theorem not_tabStop_sample :
    ¬TabStop putC ([0x41, NEWLINE].foldl putC darkScreen) ∧
      ¬TabStop Stage2.Screen.putc ([0x41, NEWLINE].foldl Stage2.Screen.putc darkScreen) :=
  not_tabStop ⟨by decide, by decide⟩ [0x41, NEWLINE]

-- At the left margin a tab puts two spaces.
theorem not_tabStop_left : ¬∀ (start : Screen) (text : List UInt8), OnScreen start →
    TabStop putC (text.foldl putC start) ∧
      TabStop Stage2.Screen.putc (text.foldl Stage2.Screen.putc start) := by
  intro h
  have hcolumn : (darkScreen.putC TAB).x = 2 := (putC_tab ⟨by decide, by decide⟩).2
  exact absurd ((h darkScreen [] ⟨by decide, by decide⟩).1.column.symm.trans hcolumn) (by decide)

end Stops

end ToyKernel.Screen
