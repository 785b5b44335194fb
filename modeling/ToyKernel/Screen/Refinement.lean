import Mathlib.Data.List.Range
import ToyKernel.Library.Terminal
import ToyKernel.Screen

namespace ToyKernel

open Library Terminal

-- A cell is a character and its colour.
abbrev Cell := UInt8 × UInt8

def blankCell : Cell := (0, DEFAULT_COLOR)

namespace Screen

def cell (s : Screen) (row column : Nat) : Cell := (s.getchr column row, s.getcolor column row)

def window (s : Screen) : Window Cell := ⟨s.cell, s.x, s.y⟩

-- What a piece of a driver has drawn: the cells are `cells` now, nothing was stored behind the
-- buffer, and the cursor is where it was.
structure Draws (s s' : Screen) (cells : Nat → Nat → Cell) : Prop where
  x : s'.x = s.x
  y : s'.y = s.y
  cells : ∀ row, ∀ column < SCREEN_WIDTH, s'.cell row column = cells row column
  stored : ∀ i ∈ s'.stored, i ∈ s.stored ∨ i < SCREEN_WIDTH * SCREEN_HEIGHT * 2

section Rows

variable {s s' s'' : Screen} {cells cells' : Nat → Nat → Cell} {row column : Nat}

theorem draws_self (s : Screen) : Draws s s s.cell := ⟨rfl, rfl, fun _ _ _ => rfl, fun _ h => .inl h⟩

theorem Draws.trans (h : Draws s s' cells') (h' : Draws s' s'' cells) : Draws s s'' cells where
  x := h'.x.trans h.x
  y := h'.y.trans h.y
  cells := h'.cells
  stored i hi := (h'.stored i hi).elim (h.stored i) .inr

theorem Draws.congr (h : Draws s s' cells)
    (hcells : ∀ row, ∀ column < SCREEN_WIDTH, cells row column = cells' row column) :
    Draws s s' cells' :=
  ⟨h.x, h.y, fun row column hc => (h.cells row column hc).trans (hcells row column hc), h.stored⟩

theorem index_eq_iff (r row : Nat) {k : Nat} (hk : k < SCREEN_WIDTH) (hcolumn : column < SCREEN_WIDTH) :
    r * SCREEN_WIDTH + k = row * SCREEN_WIDTH + column ↔ r = row ∧ k = column := by
  unfold SCREEN_WIDTH at *
  omega

theorem index_lt (hrow : row < SCREEN_HEIGHT) (hcolumn : column < SCREEN_WIDTH) :
    2 * (row * SCREEN_WIDTH + column) + 1 < SCREEN_WIDTH * SCREEN_HEIGHT * 2 := by
  unfold SCREEN_WIDTH SCREEN_HEIGHT at *
  omega

-- A store to either byte of a cell draws that cell alone.
theorem store_draws (hrow : row < SCREEN_HEIGHT) (hcolumn : column < SCREEN_WIDTH) {i : Nat} {value : UInt8}
    (hi : i / 2 = row * SCREEN_WIDTH + column) {cell' : Cell}
    (hself : (s.store i value).cell row column = cell') :
    Draws s (s.store i value) (setCell s.cell row column cell') := by
  refine ⟨rfl, rfl, fun r k hk => ?_, fun j hj => ?_⟩
  · have hsame := index_eq_iff r row hk hcolumn
    by_cases h : r = row ∧ k = column
    · obtain ⟨rfl, rfl⟩ := h
      rw [hself, setCell_self]
    · rw [setCell_of_ne (by omega)]
      exact Prod.ext (if_neg (by omega)) (if_neg (by omega))
  · have hlt := index_lt hrow hcolumn
    rcases List.mem_append.mp hj with hj | hj
    · exact .inl hj
    · obtain rfl := List.mem_singleton.mp hj
      exact .inr (by omega)

theorem putchr_draws (hrow : row < SCREEN_HEIGHT) (hcolumn : column < SCREEN_WIDTH) (c : UInt8) :
    Draws s (s.putchr column row c) (setCell s.cell row column (c, (s.cell row column).2)) :=
  store_draws hrow hcolumn (by omega) (by simp [cell, getchr, getcolor, store])

theorem putcolor_draws (hrow : row < SCREEN_HEIGHT) (hcolumn : column < SCREEN_WIDTH) (color : UInt8) :
    Draws s (s.putcolor column row color) (setCell s.cell row column ((s.cell row column).1, color)) :=
  store_draws hrow hcolumn (by omega) (by simp [cell, getchr, getcolor, store])

-- One cell, its character and then its colour
theorem putcell_draws (hrow : row < SCREEN_HEIGHT) (hcolumn : column < SCREEN_WIDTH) (c color : UInt8) :
    Draws s ((s.putchr column row c).putcolor column row color) (setCell s.cell row column (c, color)) := by
  have hfirst := putchr_draws (s := s) hrow hcolumn c
  refine (hfirst.trans (putcolor_draws hrow hcolumn color)).congr fun r k hk => ?_
  by_cases h : r = row ∧ k = column
  · obtain ⟨rfl, rfl⟩ := h
    rw [setCell_self, setCell_self, hfirst.cells r k hk, setCell_self]
  · rw [setCell_of_ne (by omega), hfirst.cells r k hk, setCell_of_ne (by omega),
      setCell_of_ne (by omega)]

-- The loop over `x`, up to the column `count`
theorem foldl_row_draws (f : Screen → Nat → Screen) (value : Nat → Cell) (hrow : row < SCREEN_HEIGHT)
    (hstep : ∀ s' column, column < SCREEN_WIDTH →
      (∀ r, ∀ k < SCREEN_WIDTH, r ≠ row → s'.cell r k = s.cell r k) →
      Draws s' (f s' column) (setCell s'.cell row column (value column)))
    (count : Nat) (hcount : count ≤ SCREEN_WIDTH) :
    Draws s ((List.range count).foldl f s)
      (fun r k => if r = row ∧ k < count then value k else s.cell r k) := by
  induction count with
  | zero => exact (draws_self s).congr fun r k _ => (if_neg (by omega)).symm
  | succ count ih =>
      have ih := ih (by omega)
      rw [List.range_succ, List.foldl_append, List.foldl_cons, List.foldl_nil]
      have hkept : ∀ r, ∀ k < SCREEN_WIDTH, r ≠ row →
          ((List.range count).foldl f s).cell r k = s.cell r k := fun r k hk hr => by
        rw [ih.cells r k hk, if_neg (fun h => hr h.1)]
      refine (ih.trans (hstep _ count (by omega) hkept)).congr fun r k hk => ?_
      by_cases h : r = row ∧ k = count
      · obtain ⟨rfl, rfl⟩ := h
        rw [setCell_self, if_pos ⟨rfl, Nat.lt_succ_self k⟩]
      · rw [setCell_of_ne (by omega), ih.cells r k hk]
        by_cases hr : r = row
        · by_cases hk' : k < count
          · rw [if_pos ⟨hr, hk'⟩, if_pos ⟨hr, by omega⟩]
          · rw [if_neg (by omega), if_neg (by omega)]
        · rw [if_neg (by omega), if_neg (by omega)]

theorem blankRow_draws (hrow : row < SCREEN_HEIGHT) :
    Draws s (s.blankRow row) (fun r k => if r = row then blankCell else s.cell r k) := by
  have h := foldl_row_draws (s := s) (fun s x => (s.putchr x row 0).putcolor x row DEFAULT_COLOR)
    (fun _ => blankCell) hrow (fun s' column hcolumn _ => putcell_draws hrow hcolumn 0 DEFAULT_COLOR)
    SCREEN_WIDTH (Nat.le_refl _)
  refine h.congr fun r k hk => ?_
  simp only [hk, and_true]

-- A row that is not written to is still what it was when the loop comes to its columns.
theorem copyRow_draws {dst src : Nat} (hdst : dst < SCREEN_HEIGHT) (hne : src ≠ dst) :
    Draws s (s.copyRow dst src) (fun r k => if r = dst then s.cell src k else s.cell r k) := by
  have hstep : ∀ s' column, column < SCREEN_WIDTH →
      (∀ r, ∀ k < SCREEN_WIDTH, r ≠ dst → s'.cell r k = s.cell r k) →
      Draws s' ((s'.putchr column dst (s'.getchr column src)).putcolor column dst
        ((s'.putchr column dst (s'.getchr column src)).getcolor column src))
        (setCell s'.cell dst column (s.cell src column)) := by
    intro s' column hcolumn hkept
    have hsrc := hkept src column hcolumn hne
    have hread := (putchr_draws (s := s') hdst hcolumn (s'.getchr column src)).cells src column hcolumn
    rw [setCell_of_ne (.inl hne)] at hread
    have hcolor : (s'.putchr column dst (s'.getchr column src)).getcolor column src =
        s'.getcolor column src := congrArg Prod.snd hread
    rw [hcolor, ← hsrc]
    exact putcell_draws hdst hcolumn _ _
  have h := foldl_row_draws (s := s) _ (s.cell src) hdst hstep SCREEN_WIDTH (Nat.le_refl _)
  refine h.congr fun r k hk => ?_
  simp only [hk, and_true]

-- The rows from the first one on, blanked one after the other
theorem foldl_blankRow_draws (first count : Nat) (hcount : first + count ≤ SCREEN_HEIGHT) :
    Draws s ((List.range' first count).foldl blankRow s)
      (fun r k => if first ≤ r ∧ r < first + count then blankCell else s.cell r k) := by
  induction count with
  | zero => exact (draws_self s).congr fun r k _ => (if_neg (by omega)).symm
  | succ count ih =>
      have ih := ih (by omega)
      rw [List.range'_1_concat, List.foldl_append, List.foldl_cons, List.foldl_nil]
      refine (ih.trans (blankRow_draws (by omega))).congr fun r k hk => ?_
      rw [ih.cells r k hk]
      by_cases hlast : r = first + count
      · rw [if_pos hlast, if_pos (by omega)]
      · rw [if_neg hlast]
        by_cases hin : first ≤ r ∧ r < first + count
        · rw [if_pos hin, if_pos (by omega)]
        · rw [if_neg hin, if_neg (by omega)]

-- The first rows copied `lines` rows up, each before it is overwritten
theorem foldl_copyRow_draws (lines count : Nat) (hlines : 0 < lines) (hcount : count ≤ SCREEN_HEIGHT) :
    Draws s ((List.range' lines count).foldl (fun s y => s.copyRow (y - lines) y) s)
      (fun r k => if r < count then s.cell (r + lines) k else s.cell r k) := by
  induction count with
  | zero => exact (draws_self s).congr fun r k _ => (if_neg (by omega)).symm
  | succ count ih =>
      have ih := ih (by omega)
      rw [List.range'_1_concat, List.foldl_append, List.foldl_cons, List.foldl_nil,
        Nat.add_sub_cancel_left]
      refine (ih.trans (copyRow_draws (by omega) (by omega))).congr fun r k hk => ?_
      rw [ih.cells r k hk, ih.cells _ k hk, if_neg (show ¬lines + count < count by omega)]
      by_cases hlast : r = count
      · rw [if_pos hlast, if_pos (by omega), hlast, Nat.add_comm]
      · rw [if_neg hlast]
        by_cases hin : r < count
        · rw [if_pos hin, if_pos (by omega)]
        · rw [if_neg hin, if_neg (by omega)]

end Rows

section Steps

variable {start s : Screen} {page : Page Cell}

theorem setcursor_cursor {x y : Nat} (h : y * SCREEN_WIDTH + x < 65536) :
    (s.setcursor x y).cursor = y * SCREEN_WIDTH + x := by
  unfold setcursor
  simp only
  omega

theorem scrollback_same : Same SCREEN_WIDTH SCREEN_HEIGHT s.scrollback.window
    (s.window.scroll SCREEN_HEIGHT blankCell) ∧
      ∀ i ∈ s.scrollback.stored, i ∈ s.stored ∨ i < SCREEN_WIDTH * SCREEN_HEIGHT * 2 := by
  have hcopied := foldl_copyRow_draws (s := s) 1 (SCREEN_HEIGHT - 1) (by decide) (by decide)
  have hlast : SCREEN_HEIGHT - 1 < SCREEN_HEIGHT := by decide
  have hdraws := hcopied.trans (blankRow_draws hlast)
  unfold scrollback
  generalize (List.range' 1 (SCREEN_HEIGHT - 1)).foldl _ s = copied at hcopied hdraws ⊢
  dsimp only
  generalize copied.blankRow (SCREEN_HEIGHT - 1) = s' at hdraws ⊢
  refine ⟨⟨hdraws.x, congrArg (· - 1) hdraws.y, fun r hr k hk => ?_⟩, hdraws.stored⟩
  refine (hdraws.cells r k hk).trans ?_
  change _ = if r + 1 < SCREEN_HEIGHT then s.cell (r + 1) k else blankCell
  by_cases hrow : r = SCREEN_HEIGHT - 1
  · rw [if_pos hrow, if_neg (by omega)]
  · rw [if_neg hrow, hcopied.cells r k hk, if_pos (by omega), if_pos (by omega)]

-- The end of `put_c` moves the cursor of a full row on and scrolls below the last row.
theorem settle_same (hx : s.x ≤ SCREEN_WIDTH) :
    Same SCREEN_WIDTH SCREEN_HEIGHT s.settle.window
        ((s.window.wrap SCREEN_WIDTH).settle SCREEN_HEIGHT blankCell) ∧
      (∀ i ∈ s.settle.stored, i ∈ s.stored ∨ i < SCREEN_WIDTH * SCREEN_HEIGHT * 2) ∧
      s.settle = s.settle.setcursor s.settle.x s.settle.y := by
  let wrapped := if s.x ≥ SCREEN_WIDTH then { s with x := s.x - SCREEN_WIDTH, y := s.y + 1 } else s
  have hwrapped : wrapped.window = s.window.wrap SCREEN_WIDTH ∧ wrapped.stored = s.stored := by
    change Screen.window (if s.x ≥ SCREEN_WIDTH then _ else _) = _ ∧ Screen.stored (if _ then _ else _) = _
    by_cases hfull : s.x ≥ SCREEN_WIDTH
    · have hsub : s.x - SCREEN_WIDTH = 0 := by omega
      rw [if_pos hfull, hsub, Window.wrap_of_le hfull]
      exact ⟨rfl, rfl⟩
    · rw [if_neg hfull, Window.wrap_of_lt (Nat.lt_of_not_le hfull)]
      exact ⟨rfl, rfl⟩
  have hsettle : s.settle = let s := if wrapped.y ≥ SCREEN_HEIGHT then wrapped.scrollback else wrapped
    s.setcursor s.x s.y := rfl
  have hy : wrapped.window.y = wrapped.y := rfl
  rw [hsettle, ← hwrapped.1]
  unfold Window.settle
  by_cases hbelow : wrapped.y ≥ SCREEN_HEIGHT
  · obtain ⟨hsame, hstored⟩ := scrollback_same (s := wrapped)
    simp only [if_pos hbelow, hy]
    rw [← hwrapped.2]
    generalize wrapped.scrollback = scrolled at hsame hstored ⊢
    exact ⟨hsame, hstored, rfl⟩
  · simp only [if_neg hbelow, hy]
    refine ⟨⟨rfl, rfl, fun _ _ _ _ => rfl⟩, fun i hi => .inl ?_, rfl⟩
    rw [← hwrapped.2]
    exact hi

-- What a character other than a tab does on the page
def action (c : UInt8) : Action Cell :=
  if c = NEWLINE then .newline
  else if c = CARRIAGE_RETURN then .carriageReturn
  else .glyph (c, DEFAULT_COLOR)

-- The screen shows the page, with both cursors at its cursor. Since `start` nothing was stored
-- behind the buffer.
structure Displays (start s : Screen) (page : Page Cell) : Prop where
  shows : Shows SCREEN_WIDTH SCREEN_HEIGHT blankCell s.window page
  cursor : s.cursor = s.y * SCREEN_WIDTH + s.x
  color : ∀ row column, (page.cells row column).2 = DEFAULT_COLOR
  stored : ∀ i ∈ s.stored, i ∈ start.stored ∨ i < SCREEN_WIDTH * SCREEN_HEIGHT * 2

theorem Displays.x_lt (h : Displays start s page) : s.x < SCREEN_WIDTH := by
  have hx : s.x = page.column := h.shows.column
  have hlt := h.shows.column_lt
  omega

theorem Displays.y_lt (h : Displays start s page) : s.y < SCREEN_HEIGHT := h.shows.row_lt

theorem clrscr_displays (s : Screen) : Displays s s.clrscr (.empty blankCell) := by
  have hdraws := foldl_blankRow_draws (s := s) 0 SCREEN_HEIGHT (Nat.le_refl _)
  rw [← List.range_eq_range'] at hdraws
  unfold clrscr
  generalize (List.range SCREEN_HEIGHT).foldl blankRow s = s' at hdraws ⊢
  refine ⟨shows_empty (by decide) (by decide) rfl rfl fun r hr k hk => ?_, rfl, fun _ _ => rfl,
    hdraws.stored⟩
  exact (hdraws.cells r k hk).trans (if_pos ⟨Nat.zero_le _, by omega⟩)

-- The `switch` of `put_c`
theorem act_same (h : Displays start s page) (c : UInt8) {s' : Screen}
    (hs' : s' = if c = NEWLINE then { s with x := 0, y := s.y + 1 }
      else if c = CARRIAGE_RETURN then { s with x := 0 }
      else { s.putchr s.x s.y c with x := s.x + 1 }) :
    Same SCREEN_WIDTH SCREEN_HEIGHT s'.window (s.window.act (action c)) ∧ s'.x ≤ SCREEN_WIDTH ∧
      ∀ i ∈ s'.stored, i ∈ s.stored ∨ i < SCREEN_WIDTH * SCREEN_HEIGHT * 2 := by
  unfold action
  by_cases hnewline : c = NEWLINE
  · simp only [if_pos hnewline] at hs' ⊢
    subst hs'
    exact ⟨⟨rfl, rfl, fun _ _ _ _ => rfl⟩, Nat.zero_le _, fun i hi => .inl hi⟩
  simp only [if_neg hnewline] at hs' ⊢
  by_cases hreturn : c = CARRIAGE_RETURN
  · simp only [if_pos hreturn] at hs' ⊢
    subst hs'
    exact ⟨⟨rfl, rfl, fun _ _ _ _ => rfl⟩, Nat.zero_le _, fun i hi => .inl hi⟩
  simp only [if_neg hreturn] at hs' ⊢
  subst hs'
  have hx := h.x_lt
  have hdraws := putchr_draws (s := s) h.y_lt hx c
  refine ⟨⟨rfl, rfl, fun r hr k hk => ?_⟩, hx, hdraws.stored⟩
  -- the colour of the cell is that of every cell
  have hcolor : (s.cell s.y s.x).2 = DEFAULT_COLOR := by
    have hcell := h.shows.cells s.y h.y_lt s.x hx
    change s.cell s.y s.x = _ at hcell
    rw [hcell]
    exact h.color _ _
  rw [hcolor] at hdraws
  exact hdraws.cells r k hk

theorem page_color {c : UInt8} (h : ∀ row column, (page.cells row column).2 = DEFAULT_COLOR)
    (row column : Nat) : ((page.step SCREEN_WIDTH (action c)).cells row column).2 = DEFAULT_COLOR := by
  have hset : ∀ r k, (setCell page.cells r k (c, DEFAULT_COLOR) row column).2 = DEFAULT_COLOR := by
    intro r k
    unfold setCell
    split
    · rfl
    · exact h row column
  unfold action Page.step
  by_cases hnewline : c = NEWLINE
  · simp only [if_pos hnewline]
    exact h row column
  by_cases hreturn : c = CARRIAGE_RETURN
  · simp only [if_neg hnewline, if_pos hreturn]
    exact h row column
  simp only [if_neg hnewline, if_neg hreturn]
  split
  · exact hset _ _
  · exact hset _ _

theorem putGlyph_displays (h : Displays start s page) (c : UInt8) :
    Displays start (s.putGlyph c) (page.step SCREEN_WIDTH (action c)) := by
  obtain ⟨hact, hx, hstored⟩ := act_same h c rfl
  obtain ⟨hsettle, hstored', hcursor⟩ := settle_same hx
  have hshows : Shows SCREEN_WIDTH SCREEN_HEIGHT blankCell (s.putGlyph c).window
      (page.step SCREEN_WIDTH (action c)) :=
    (h.shows.step (action c)).congr (hsettle.trans hact.wrap.settle)
  refine ⟨hshows, ?_, page_color h.color, fun i hi => ?_⟩
  · have hlt : (s.putGlyph c).x < SCREEN_WIDTH := by
      have hcolumn : (s.putGlyph c).x = _ := hshows.column
      have hcolumn_lt := hshows.column_lt
      omega
    have hrow : (s.putGlyph c).y < SCREEN_HEIGHT := hshows.row_lt
    have hindex := index_lt hrow hlt
    have hsize : SCREEN_WIDTH * SCREEN_HEIGHT * 2 = 4000 := rfl
    have hcrtc : s.putGlyph c = (s.putGlyph c).setcursor (s.putGlyph c).x (s.putGlyph c).y := hcursor
    exact (congrArg Screen.cursor hcrtc).trans (setcursor_cursor (by omega))
  · rcases hstored' i hi with hi | hi
    · rcases hstored i hi with hi | hi
      · exact h.stored i hi
      · exact .inr hi
    · exact .inr hi

-- The two copies of the driver agree wherever the cursor is on the screen.
theorem stage2_settle (hx : s.x ≤ SCREEN_WIDTH) : Stage2.Screen.settle s = s.settle := by
  have hscroll : ∀ s, Stage2.Screen.scrollback s 1 = s.scrollback := fun _ => rfl
  unfold Stage2.Screen.settle settle
  simp only [hscroll]
  by_cases hfull : s.x ≥ SCREEN_WIDTH
  · have hsub : s.x - SCREEN_WIDTH = 0 := by omega
    simp only [if_pos hfull, hsub]
  · simp only [if_neg hfull]

theorem stage2_putGlyph (h : Displays start s page) (c : UInt8) :
    Stage2.Screen.putGlyph s c = s.putGlyph c := by
  obtain ⟨-, hx, -⟩ := act_same h c rfl
  exact stage2_settle hx

end Steps

section Text

-- The page that a text without tabs makes
def pageOf (text : List UInt8) : Page Cell :=
  text.foldl (fun page c => page.step SCREEN_WIDTH (action c)) (.empty blankCell)

theorem foldl_displays {start s : Screen} {page : Page Cell} (h : Displays start s page)
    (text : List UInt8) (htab : TAB ∉ text) :
    Displays start (text.foldl putC s)
        (text.foldl (fun page c => page.step SCREEN_WIDTH (action c)) page) ∧
      text.foldl Stage2.Screen.putc s = text.foldl putC s := by
  induction text generalizing s page with
  | nil => exact ⟨h, rfl⟩
  | cons c text ih =>
      obtain ⟨hc, htab⟩ := List.ne_and_not_mem_of_not_mem_cons htab
      have hkernel : s.putC c = s.putGlyph c := if_neg fun he => hc he.symm
      have hstage2 : Stage2.Screen.putc s c = s.putC c := by
        rw [hkernel, ← stage2_putGlyph h c]
        exact if_neg fun he => hc he.symm
      rw [List.foldl_cons, List.foldl_cons, List.foldl_cons, hstage2, hkernel]
      exact ih (putGlyph_displays h c) htab

-- The buffer is made of cells.
theorem buffer_eq_cell (s : Screen) (i : Nat) :
    s.buffer i =
      if i % 2 = 0 then (s.cell (i / 2 / SCREEN_WIDTH) (i / 2 % SCREEN_WIDTH)).1
      else (s.cell (i / 2 / SCREEN_WIDTH) (i / 2 % SCREEN_WIDTH)).2 := by
  unfold cell getchr getcolor
  rw [Nat.div_add_mod']
  split
  · rw [show 2 * (i / 2) = i by omega]
  · rw [show 2 * (i / 2) + 1 = i by omega]

end Text

-- After `clrscr`, either driver shows the last rows of the page, and they fill the buffer
-- alike.
theorem putC_refines_page (start start' : Screen) (text : List UInt8) (htab : TAB ∉ text) :
    Displays start (text.foldl putC start.clrscr) (pageOf text) ∧
      Displays start' (text.foldl Stage2.Screen.putc start'.clrscr) (pageOf text) ∧
      ∀ i < SCREEN_WIDTH * SCREEN_HEIGHT * 2,
        (text.foldl putC start.clrscr).buffer i =
          (text.foldl Stage2.Screen.putc start'.clrscr).buffer i := by
  obtain ⟨hkernel, -⟩ := foldl_displays (clrscr_displays start) text htab
  obtain ⟨hstage2, hsame⟩ := foldl_displays (clrscr_displays start') text htab
  rw [hsame]
  refine ⟨hkernel, hstage2, fun i hi => ?_⟩
  have hr : i / 2 / SCREEN_WIDTH < SCREEN_HEIGHT := by
    unfold SCREEN_WIDTH SCREEN_HEIGHT at *
    omega
  have hk : i / 2 % SCREEN_WIDTH < SCREEN_WIDTH := Nat.mod_lt _ (by decide)
  have hcell := (hkernel.shows.cells _ hr _ hk).trans (hstage2.shows.cells _ hr _ hk).symm
  rw [buffer_eq_cell, buffer_eq_cell]
  exact congrArg (fun cell : Cell => if i % 2 = 0 then cell.1 else cell.2) hcell

-- A screen at power on, for the two lines "A" and "B"
def darkScreen : Screen where
  buffer := fun _ => 0
  x := 0
  y := 0
  cursor := 0
  stored := []

theorem putC_refines_page_sample :
    Displays darkScreen ([0x41, NEWLINE, 0x42].foldl putC darkScreen.clrscr)
      (pageOf [0x41, NEWLINE, 0x42]) :=
  (putC_refines_page darkScreen darkScreen [0x41, NEWLINE, 0x42] (by decide)).1

end Screen

end ToyKernel
