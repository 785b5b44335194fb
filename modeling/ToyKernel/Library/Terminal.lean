import Mathlib.Logic.Basic

namespace Library.Terminal

-- A page of rows without end, and the cursor on it
structure Page (α : Type*) where
  cells : Nat → Nat → α
  row : Nat
  column : Nat

inductive Action (α : Type*) where
  | glyph (a : α)
  | newline
  | carriageReturn

variable {α : Type*}

def setCell (cells : Nat → Nat → α) (row column : Nat) (a : α) : Nat → Nat → α := fun r c =>
  if r = row ∧ c = column then a else cells r c

theorem setCell_self (cells : Nat → Nat → α) (row column : Nat) (a : α) :
    setCell cells row column a row column = a := if_pos ⟨rfl, rfl⟩

theorem setCell_of_ne {cells : Nat → Nat → α} {row column r c : Nat} {a : α}
    (h : r ≠ row ∨ c ≠ column) : setCell cells row column a r c = cells r c :=
  if_neg fun he => h.elim (fun hr => hr he.1) fun hc => hc he.2

namespace Page

def empty (blank : α) : Page α := ⟨fun _ _ => blank, 0, 0⟩

def step (width : Nat) (p : Page α) : Action α → Page α
  | .glyph a =>
      if p.column + 1 < width then
        { p with cells := setCell p.cells p.row p.column a, column := p.column + 1 }
      else ⟨setCell p.cells p.row p.column a, p.row + 1, 0⟩
  | .newline => { p with row := p.row + 1, column := 0 }
  | .carriageReturn => { p with column := 0 }

-- The row at the top of a window of `height` rows that ends at the cursor once it is full
def top (height : Nat) (p : Page α) : Nat := p.row + 1 - height

end Page

section Writing

variable {width : Nat} {p : Page α} {r c : Nat}

-- The cell lies before the cursor in reading order.
def Page.Before (p : Page α) (r c : Nat) : Prop := r < p.row ∨ r = p.row ∧ c < p.column

-- Without carriage returns the cells before the cursor are never written again.
theorem Page.Before.step (h : p.Before r c) {a : Action α} (ha : a ≠ .carriageReturn) :
    (p.step width a).Before r c ∧ (p.step width a).cells r c = p.cells r c := by
  cases a with
  | glyph a =>
      have hcell : setCell p.cells p.row p.column a r c = p.cells r c := by
        rcases h with hr | ⟨-, hc⟩
        · exact setCell_of_ne (.inl (Nat.ne_of_lt hr))
        · exact setCell_of_ne (.inr (Nat.ne_of_lt hc))
      unfold Page.step
      by_cases hin : p.column + 1 < width
      · simp only [if_pos hin]
        exact ⟨h.imp id fun ⟨hr, hc⟩ => ⟨hr, Nat.lt_succ_of_lt hc⟩, hcell⟩
      · simp only [if_neg hin]
        refine ⟨.inl ?_, hcell⟩
        rcases h with hr | ⟨hr, -⟩
        · exact Nat.lt_succ_of_lt hr
        · exact Nat.lt_succ_of_le (Nat.le_of_eq hr)
  | newline =>
      refine ⟨.inl ?_, rfl⟩
      rcases h with hr | ⟨hr, -⟩
      · exact Nat.lt_succ_of_lt hr
      · exact Nat.lt_succ_of_le (Nat.le_of_eq hr)
  | carriageReturn => exact absurd rfl ha

theorem Page.Before.foldl (h : p.Before r c) {actions : List (Action α)}
    (hactions : ∀ a ∈ actions, a ≠ .carriageReturn) :
    (actions.foldl (Page.step width) p).cells r c = p.cells r c := by
  induction actions generalizing p with
  | nil => rfl
  | cons a actions ih =>
      obtain ⟨hbefore, hcell⟩ := h.step (hactions a List.mem_cons_self)
      rw [List.foldl_cons, ih hbefore fun a ha => hactions a (List.mem_cons_of_mem _ ha), hcell]

-- Glyphs that fit on the row
theorem Page.foldl_glyphs (glyphs : List α) (hcolumn : p.column < width)
    (hfit : p.column + glyphs.length ≤ width) :
    (∀ k a, glyphs[k]? = some a →
      ((glyphs.map Action.glyph).foldl (Page.step width) p).cells p.row (p.column + k) = a) ∧
    (∀ r c, r ≠ p.row ∨ c < p.column ∨ p.column + glyphs.length ≤ c →
      ((glyphs.map Action.glyph).foldl (Page.step width) p).cells r c = p.cells r c) ∧
    (p.column + glyphs.length < width →
      ((glyphs.map Action.glyph).foldl (Page.step width) p).row = p.row ∧
        ((glyphs.map Action.glyph).foldl (Page.step width) p).column = p.column + glyphs.length) ∧
    (p.column + glyphs.length = width →
      ((glyphs.map Action.glyph).foldl (Page.step width) p).row = p.row + 1 ∧
        ((glyphs.map Action.glyph).foldl (Page.step width) p).column = 0) := by
  induction glyphs generalizing p with
  | nil =>
      refine ⟨nofun, fun _ _ _ => rfl, fun _ => ⟨rfl, rfl⟩, fun h => ?_⟩
      rw [List.length_nil] at h
      omega
  | cons a glyphs ih =>
      rw [List.length_cons] at hfit ⊢
      rw [List.map_cons, List.foldl_cons]
      by_cases hin : p.column + 1 < width
      · have hstep : p.step width (.glyph a) =
            { p with cells := setCell p.cells p.row p.column a, column := p.column + 1 } := if_pos hin
        rw [hstep]
        obtain ⟨hcells, hothers, hshort, hfull⟩ :=
          ih (p := { p with cells := setCell p.cells p.row p.column a, column := p.column + 1 }) hin
            (by
              change p.column + 1 + glyphs.length ≤ width
              omega)
        simp only at hcells hothers hshort hfull
        refine ⟨fun k b hk => ?_, fun r c h => ?_, fun h => ?_, fun h => hfull (by omega)⟩
        · cases k with
          | zero =>
              rw [hothers _ _ (.inr (.inl (by omega))), Nat.add_zero, setCell_self]
              exact Option.some.inj hk
          | succ k =>
              rw [← hcells k b hk, Nat.add_assoc, Nat.add_comm 1 k]
        · rw [hothers r c (by omega), setCell_of_ne (by omega)]
        · obtain ⟨hrow, hcol⟩ := hshort (by omega)
          exact ⟨hrow, by omega⟩
      · obtain rfl : glyphs = [] := List.eq_nil_of_length_eq_zero (by omega)
        have hstep : p.step width (.glyph a) =
            ⟨setCell p.cells p.row p.column a, p.row + 1, 0⟩ := if_neg hin
        rw [hstep]
        refine ⟨fun k b hk => ?_, fun r c h => ?_, fun h => ?_, fun _ => ⟨rfl, rfl⟩⟩
        · cases k with
          | zero =>
              change setCell p.cells p.row p.column a p.row (p.column + 0) = b
              rw [Nat.add_zero, setCell_self]
              exact Option.some.inj hk
          | succ k => cases hk
        · rw [List.length_nil] at h
          exact setCell_of_ne (by omega)
        · rw [List.length_nil] at h
          omega

-- Glyphs fill the page in reading order.
theorem Page.foldl_glyphs_cursor (glyphs : List α) (hcolumn : p.column < width) :
    ((glyphs.map Action.glyph).foldl (Page.step width) p).row * width +
        ((glyphs.map Action.glyph).foldl (Page.step width) p).column =
      p.row * width + p.column + glyphs.length ∧
    ((glyphs.map Action.glyph).foldl (Page.step width) p).column < width := by
  induction glyphs generalizing p with
  | nil => exact ⟨rfl, hcolumn⟩
  | cons a glyphs ih =>
      rw [List.map_cons, List.foldl_cons, List.length_cons]
      by_cases hin : p.column + 1 < width
      · have hstep : p.step width (.glyph a) =
            { p with cells := setCell p.cells p.row p.column a, column := p.column + 1 } := if_pos hin
        rw [hstep]
        obtain ⟨hcount, hlt⟩ :=
          ih (p := { p with cells := setCell p.cells p.row p.column a, column := p.column + 1 }) hin
        refine ⟨hcount.trans ?_, hlt⟩
        simp only
        omega
      · have hstep : p.step width (.glyph a) =
            ⟨setCell p.cells p.row p.column a, p.row + 1, 0⟩ := if_neg hin
        rw [hstep]
        obtain ⟨hcount, hlt⟩ := ih (p := ⟨setCell p.cells p.row p.column a, p.row + 1, 0⟩)
          (Nat.lt_of_le_of_lt (Nat.zero_le _) hcolumn)
        refine ⟨hcount.trans ?_, hlt⟩
        simp only [Nat.succ_mul]
        omega

end Writing

-- A window of a fixed size, with its own cursor
structure Window (α : Type*) where
  cells : Nat → Nat → α
  x : Nat
  y : Nat

namespace Window

def scroll (height : Nat) (blank : α) (w : Window α) : Window α where
  cells := fun r c => if r + 1 < height then w.cells (r + 1) c else blank
  x := w.x
  y := w.y - 1

def act (w : Window α) : Action α → Window α
  | .glyph a => { w with cells := setCell w.cells w.y w.x a, x := w.x + 1 }
  | .newline => { w with x := 0, y := w.y + 1 }
  | .carriageReturn => { w with x := 0 }

-- The cursor of a full row goes on to the next row,
def wrap (width : Nat) (w : Window α) : Window α :=
  if w.x ≥ width then { w with x := 0, y := w.y + 1 } else w

-- and below the last row the window scrolls.
def settle (height : Nat) (blank : α) (w : Window α) : Window α :=
  if w.y ≥ height then w.scroll height blank else w

def step (width height : Nat) (blank : α) (w : Window α) (a : Action α) : Window α :=
  ((w.act a).wrap width).settle height blank

theorem wrap_of_lt {width : Nat} {w : Window α} (h : w.x < width) : w.wrap width = w :=
  if_neg (by omega)

theorem wrap_of_le {width : Nat} {w : Window α} (h : width ≤ w.x) :
    w.wrap width = { w with x := 0, y := w.y + 1 } := if_pos h

theorem settle_of_lt {height : Nat} {blank : α} {w : Window α} (h : w.y < height) :
    w.settle height blank = w := if_neg (by omega)

end Window

-- The window shows the last rows of the page, with nothing below the cursor's row yet.
structure Shows (width height : Nat) (blank : α) (w : Window α) (p : Page α) : Prop where
  column : w.x = p.column
  column_lt : p.column < width
  row : p.top height + w.y = p.row
  row_lt : w.y < height
  cells : ∀ r < height, ∀ c < width, w.cells r c = p.cells (p.top height + r) c
  below : ∀ r > p.row, ∀ c, p.cells r c = blank

variable {width height : Nat} {blank : α} {w w' : Window α} {p : Page α}

theorem shows_empty (hwidth : 0 < width) (hheight : 0 < height) (hx : w.x = 0) (hy : w.y = 0)
    (hcells : ∀ r < height, ∀ c < width, w.cells r c = blank) :
    Shows width height blank w (.empty blank) where
  column := hx
  column_lt := hwidth
  row := by
    change 0 + 1 - height + w.y = 0
    omega
  row_lt := by omega
  cells := hcells
  below _ _ _ := rfl

-- A window is its cursor and the cells of its own.
structure Same (width height : Nat) (w w' : Window α) : Prop where
  x : w.x = w'.x
  y : w.y = w'.y
  cells : ∀ r < height, ∀ c < width, w.cells r c = w'.cells r c

theorem Same.trans {w'' : Window α} (h : Same width height w w') (h' : Same width height w' w'') :
    Same width height w w'' :=
  ⟨h.x.trans h'.x, h.y.trans h'.y, fun r hr c hc => (h.cells r hr c hc).trans (h'.cells r hr c hc)⟩

theorem Same.wrap (h : Same width height w w') : Same width height (w.wrap width) (w'.wrap width) := by
  have hx := h.x
  by_cases hfull : width ≤ w.x
  · rw [Window.wrap_of_le hfull, Window.wrap_of_le (by omega)]
    exact ⟨rfl, congrArg (· + 1) h.y, h.cells⟩
  · rw [Window.wrap_of_lt (by omega), Window.wrap_of_lt (by omega)]
    exact h

theorem Same.settle (h : Same width height w w') :
    Same width height (w.settle height blank) (w'.settle height blank) := by
  have hy := h.y
  unfold Window.settle
  by_cases hbelow : w.y ≥ height
  · rw [if_pos hbelow, if_pos (by omega)]
    refine ⟨h.x, congrArg (· - 1) h.y, fun r hr c hc => ?_⟩
    change (if r + 1 < height then w.cells (r + 1) c else blank) =
      if r + 1 < height then w'.cells (r + 1) c else blank
    split
    case isTrue hin => exact h.cells _ hin c hc
    case isFalse => rfl
  · rw [if_neg hbelow, if_neg (by omega)]
    exact h

theorem Shows.congr (h : Shows width height blank w p) (hsame : Same width height w' w) :
    Shows width height blank w' p where
  column := hsame.x.trans h.column
  column_lt := h.column_lt
  row := by
    rw [hsame.y]
    exact h.row
  row_lt := by
    rw [hsame.y]
    exact h.row_lt
  cells r hr c hc := (hsame.cells r hr c hc).trans (h.cells r hr c hc)
  below := h.below

theorem Shows.column_zero (h : Shows width height blank w p) :
    Shows width height blank { w with x := 0 } { p with column := 0 } :=
  ⟨rfl, Nat.lt_of_le_of_lt (Nat.zero_le _) h.column_lt, h.row, h.row_lt, h.cells, h.below⟩

-- On to the next row: the window scrolls exactly when its last row was the cursor's.
theorem Shows.nextRow (h : Shows width height blank w p) :
    Shows width height blank (Window.settle height blank { w with x := 0, y := w.y + 1 })
      { p with row := p.row + 1, column := 0 } := by
  have hrow := h.row
  have hlt := h.row_lt
  have hwidth := Nat.lt_of_le_of_lt (Nat.zero_le _) h.column_lt
  unfold Page.top at hrow
  unfold Window.settle
  by_cases hlast : w.y + 1 ≥ height
  · rw [if_pos hlast]
    have htop : Page.top height { p with row := p.row + 1, column := 0 } = p.top height + 1 := by
      change p.row + 1 + 1 - height = p.row + 1 - height + 1
      omega
    refine ⟨rfl, hwidth, ?_, ?_, fun r hr c hc => ?_, fun r hr c => h.below r (Nat.lt_of_succ_lt hr) c⟩
    · rw [htop]
      change p.top height + 1 + (w.y + 1 - 1) = p.row + 1
      unfold Page.top
      omega
    · change w.y + 1 - 1 < height
      omega
    · rw [htop]
      change (if r + 1 < height then w.cells (r + 1) c else blank) = p.cells (p.top height + 1 + r) c
      split
      case isTrue hin => rw [h.cells _ hin c hc, Nat.add_assoc, Nat.add_comm 1 r]
      case isFalse hout =>
        rw [h.below]
        unfold Page.top
        omega
  · rw [if_neg hlast]
    have htop : Page.top height { p with row := p.row + 1, column := 0 } = p.top height := by
      change p.row + 1 + 1 - height = p.row + 1 - height
      omega
    refine ⟨rfl, hwidth, ?_, ?_, fun r hr c hc => ?_, fun r hr c => h.below r (Nat.lt_of_succ_lt hr) c⟩
    · rw [htop]
      change p.top height + (w.y + 1) = p.row + 1
      have := h.row
      omega
    · change w.y + 1 < height
      omega
    · rw [htop]
      exact h.cells r hr c hc

-- Writing at the cursor
theorem Shows.setCell (h : Shows width height blank w p) (a : α) :
    Shows width height blank { w with cells := setCell w.cells w.y w.x a }
      { p with cells := setCell p.cells p.row p.column a } where
  column := h.column
  column_lt := h.column_lt
  row := h.row
  row_lt := h.row_lt
  cells r hr c hc := by
    have hrow := h.row
    change Terminal.setCell w.cells w.y w.x a r c =
      Terminal.setCell p.cells p.row p.column a (p.top height + r) c
    by_cases hcell : r = w.y ∧ c = w.x
    · obtain ⟨rfl, rfl⟩ := hcell
      rw [setCell_self, hrow, h.column, setCell_self]
    · have hne : r ≠ w.y ∨ c ≠ w.x := by
        by_cases hr : r = w.y
        · exact .inr fun hc => hcell ⟨hr, hc⟩
        · exact .inl hr
      rw [setCell_of_ne hne, setCell_of_ne, h.cells r hr c hc]
      exact hne.imp (fun hr he => hr (by omega)) fun hc he => hc (he.trans h.column.symm)
  below r hr c := by
    have hrow : r ≠ p.row := Nat.ne_of_gt hr
    exact (setCell_of_ne (.inl hrow)).trans (h.below r hr c)

-- One step of the page is one step of the window.
theorem Shows.step (h : Shows width height blank w p) (a : Action α) :
    Shows width height blank (w.step width height blank a) (p.step width a) := by
  have hcolumn := h.column
  have hlt := h.column_lt
  have hrow := h.row_lt
  unfold Window.step
  cases a with
  | glyph a =>
      have hset := h.setCell a
      have hx : (w.act (.glyph a)).x = w.x + 1 := rfl
      have hy : (w.act (.glyph a)).y < height := hrow
      unfold Page.step
      by_cases hin : p.column + 1 < width
      · rw [Window.wrap_of_lt (by omega), Window.settle_of_lt hy]
        simp only [if_pos hin]
        exact ⟨congrArg (· + 1) hcolumn, hin, hset.row, hset.row_lt, hset.cells, hset.below⟩
      · rw [Window.wrap_of_le (by omega)]
        simp only [if_neg hin]
        exact hset.nextRow
  | newline =>
      have hx : (w.act .newline).x = 0 := rfl
      rw [Window.wrap_of_lt (by omega)]
      exact h.nextRow
  | carriageReturn =>
      have hx : (w.act .carriageReturn).x = 0 := rfl
      have hy : (w.act .carriageReturn).y < height := hrow
      rw [Window.wrap_of_lt (by omega), Window.settle_of_lt hy]
      exact h.column_zero

end Library.Terminal
