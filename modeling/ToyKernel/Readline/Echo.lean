import Mathlib.Data.List.Induction
import ToyKernel.Readline
import ToyKernel.Screen.Refinement

namespace ToyKernel.Readline

open Library Terminal Screen

def Printable (c : UInt8) : Prop := ¬IsErase c ∧ ¬IsControl c

instance : DecidablePred Printable := fun _ => inferInstanceAs (Decidable (_ ∧ _))

section Lines

-- What a key does to the line
def editKey (line : List UInt8) (c : UInt8) : List UInt8 :=
  if IsErase c then line.dropLast else if IsControl c then line else line ++ [c]

def line (keys : List UInt8) : List UInt8 := keys.foldl editKey []

-- What is echoed of the keys typed after `l`
def echoes : (l keys : List UInt8) → List UInt8
  | _, [] => []
  | l, c :: keys =>
      (if IsErase c then if l = [] then [] else [BACKSPACE, SPACE, BACKSPACE]
        else if IsControl c then [] else [c]) ++ echoes (editKey l c) keys

theorem echoes_append (l first second : List UInt8) :
    echoes l (first ++ second) = echoes l first ++ echoes (first.foldl editKey l) second := by
  induction first generalizing l with
  | nil => rfl
  | cons c first ih =>
      simp only [List.cons_append, echoes, ih, List.foldl_cons, List.append_assoc]

-- Every character of a line is printable.
theorem printable_of_mem_foldl {l keys : List UInt8} (hl : ∀ c ∈ l, Printable c) :
    ∀ c ∈ keys.foldl editKey l, Printable c := by
  induction keys generalizing l with
  | nil => exact hl
  | cons k keys ih =>
      refine ih fun c hc => ?_
      unfold editKey at hc
      split at hc
      case isTrue => exact hl c (List.dropLast_subset l hc)
      case isFalse herase =>
        split at hc
        case isTrue => exact hl c hc
        case isFalse hcontrol =>
          rcases List.mem_append.mp hc with hc | hc
          · exact hl c hc
          · rw [List.mem_singleton.mp hc]
            exact ⟨herase, hcontrol⟩

-- What is echoed is made of printable characters and of the three that erase.
theorem mem_echoes {l keys : List UInt8} {c : UInt8} (hc : c ∈ echoes l keys) :
    Printable c ∨ c = BACKSPACE ∨ c = SPACE := by
  induction keys generalizing l with
  | nil => cases hc
  | cons k keys ih =>
      rcases List.mem_append.mp hc with hc | hc
      · split at hc
        case isTrue =>
          split at hc
          · cases hc
          · simp only [List.mem_cons, List.not_mem_nil, or_false] at hc
            rcases hc with rfl | rfl | rfl <;> simp
        case isFalse herase =>
          split at hc
          · cases hc
          · rw [List.mem_singleton.mp hc]
            exact .inl ⟨herase, ‹_›⟩
      · exact ih hc

end Lines

section Loop

variable {buf : Nat → UInt8} {len : Nat} {e : Editor} {l keys : List UInt8} {enter : UInt8}

-- The buffer holds `l`.
structure Holds (e : Editor) (l : List UInt8) : Prop where
  i : e.i = l.length
  buf : ∀ k c, l[k]? = some c → e.buf k = c

theorem Holds.key (h : Holds e l) (c : UInt8) (hroom : (editKey l c).length < len)
    (hlen : len < 4294967296) :
    Holds (e.key len c) (editKey l c) ∧ (e.key len c).echoed = e.echoed ++
      if IsErase c then if l = [] then [] else [BACKSPACE, SPACE, BACKSPACE]
      else if IsControl c then [] else [c] := by
  have hi := h.i
  unfold Editor.key
  unfold editKey at hroom ⊢
  by_cases herase : IsErase c
  · simp only [if_pos herase]
    by_cases hnil : l = []
    · subst hnil
      rw [List.length_nil] at hi
      rw [if_neg (by omega), if_pos rfl, List.append_nil]
      exact ⟨h, rfl⟩
    · have hpos : 0 < l.length := List.length_pos_iff.mpr hnil
      rw [if_pos (by omega), if_neg hnil]
      refine ⟨⟨?_, fun k c hk => h.buf k c ?_⟩, rfl⟩
      · rw [List.length_dropLast, ← hi]
        rfl
      · rw [List.getElem?_dropLast] at hk
        split at hk
        · exact hk
        · cases hk
  simp only [if_neg herase] at hroom ⊢
  by_cases hcontrol : IsControl c
  · simp only [if_pos hcontrol, List.append_nil]
    exact ⟨h, trivial⟩
  simp only [if_neg hcontrol, List.length_append, List.length_singleton] at hroom ⊢
  have hlimit : u32Sub len 1 = len - 1 := u32Sub_of_le (by omega) hlen
  rw [if_pos (by omega)]
  refine ⟨⟨?_, fun k b hk => ?_⟩, rfl⟩
  · rw [List.length_append, List.length_singleton]
    exact congrArg (· + 1) hi
  · change (if k = e.i then c else e.buf k) = b
    rw [List.getElem?_append] at hk
    split at hk
    case isTrue hlt =>
      rw [if_neg (by omega)]
      exact h.buf k b hk
    case isFalse hge =>
      obtain ⟨hone, hb⟩ := List.getElem?_eq_some_iff.mp hk
      rw [List.length_singleton] at hone
      rw [if_pos (by omega), ← hb]
      simp

-- The loop from a line `l` on, with a buffer that is large enough
theorem loop_spec (h : Holds e l) (hlen : len < 4294967296) (henter : IsEnter enter)
    (hkeys : ∀ c ∈ keys, ¬IsEnter c) (hroom : ∀ before, before <+: keys → (before.foldl editKey l).length < len) :
    ∃ e', loop len e (keys ++ [enter]) = some e' ∧ Holds e' (keys.foldl editKey l) ∧
      e'.echoed = e.echoed ++ echoes l keys ++ [NEWLINE] := by
  induction keys generalizing e l with
  | nil =>
      refine ⟨_, if_pos henter, ⟨h.i, fun k c hk => ?_⟩,
        by simp [echoes, Editor.finish, Editor.store, Editor.echo]⟩
      obtain ⟨hlt, -⟩ := List.getElem?_eq_some_iff.mp hk
      have hi := h.i
      change k < l.length at hlt
      change (if k = e.i then 0 else e.buf k) = c
      rw [if_neg (by omega)]
      exact h.buf k c hk
  | cons c keys ih =>
      have hone : [c] <+: c :: keys := ⟨keys, rfl⟩
      obtain ⟨hholds, hecho⟩ := h.key c (hroom [c] hone) hlen
      obtain ⟨e', hloop, hholds', hecho'⟩ := ih hholds (fun k hk => hkeys k (List.mem_cons_of_mem _ hk))
        fun before hbefore => hroom (c :: before) (List.prefix_cons_inj c |>.mpr hbefore)
      refine ⟨e', ?_, hholds', ?_⟩
      · rw [List.cons_append, loop, if_neg (hkeys c List.mem_cons_self)]
        exact hloop
      · rw [hecho', hecho, echoes]
        simp only [List.append_assoc]

end Loop

section Erasing

variable {keys : List UInt8}

-- No backspace or DEL follows a printable character, so none of them erases anything.
def NeverErases (keys : List UInt8) : Prop := keys.Pairwise fun a b => Printable a → ¬IsErase b

def typed (keys : List UInt8) : List UInt8 := keys.filter fun c => decide (Printable c)

theorem mem_typed {c : UInt8} : c ∈ typed keys ↔ c ∈ keys ∧ Printable c := by
  simp [typed]

theorem NeverErases.line_eq (h : NeverErases keys) :
    line keys = typed keys ∧ echoes [] keys = typed keys := by
  induction keys using List.reverseRecOn with
  | nil => exact ⟨rfl, rfl⟩
  | append_singleton keys c ih =>
      obtain ⟨hkeys, -, hlast⟩ := List.pairwise_append.mp h
      obtain ⟨hline, hecho⟩ := ih hkeys
      have hfold : keys.foldl editKey [] = typed keys := hline
      have htyped : typed (keys ++ [c]) = typed keys ++ typed [c] := List.filter_append ..
      rw [echoes_append, hfold, hecho, line, List.foldl_append, hfold, htyped]
      simp only [List.foldl_cons, List.foldl_nil, echoes, List.append_nil]
      by_cases herase : IsErase c
      · have hnil : typed keys = [] := by
          apply List.eq_nil_iff_forall_not_mem.mpr
          intro k hk
          obtain ⟨hmem, hprint⟩ := mem_typed.mp hk
          exact hlast k hmem c (List.mem_singleton.mpr rfl) hprint herase
        have hone : typed [c] = [] := List.filter_cons_of_neg (by simp [Printable, herase])
        simp [hnil, hone, editKey, herase]
      · by_cases hcontrol : IsControl c
        · have hone : typed [c] = [] := List.filter_cons_of_neg (by simp [Printable, hcontrol])
          simp [hone, editKey, herase, hcontrol]
        · have hone : typed [c] = [c] :=
            List.filter_cons_of_pos (by simp [Printable, herase, hcontrol])
          simp [hone, editKey, herase, hcontrol]

-- The first key that erases something
theorem exists_first_erase (h : ¬NeverErases keys) :
    ∃ pre c post, keys = pre ++ c :: post ∧ NeverErases pre ∧ IsErase c ∧ typed pre ≠ [] := by
  induction keys using List.reverseRecOn with
  | nil => exact absurd List.Pairwise.nil h
  | append_singleton keys c ih =>
      by_cases hkeys : NeverErases keys
      · refine ⟨keys, c, [], rfl, hkeys, ?_⟩
        by_contra hnone
        refine h (List.pairwise_append.mpr ⟨hkeys, List.pairwise_singleton _ _, ?_⟩)
        intro a ha b hb hprint herase
        rw [List.mem_singleton.mp hb] at herase
        exact hnone ⟨herase, List.ne_nil_of_mem (mem_typed.mpr ⟨ha, hprint⟩)⟩
      · obtain ⟨pre, b, post, rfl, hpre, herase, htyped⟩ := ih hkeys
        exact ⟨pre, b, post ++ [c], by simp, hpre, herase, htyped⟩

end Erasing

section Row

variable {page : Page Cell} {text : List UInt8} {row column : Nat}

-- What a cell without a glyph holds
def Blank (cell : Cell) : Prop := cell.1 = 0 ∨ cell.1 = SPACE

instance : DecidablePred Blank := fun _ => inferInstanceAs (Decidable (_ ∨ _))

-- The page after `put_c` of a text
def typedOn (page : Page Cell) (text : List UInt8) : Page Cell :=
  text.foldl (fun page c => page.step SCREEN_WIDTH (action c)) page

-- The line is what stands in a row of the page from the starting column on.
def RowHolds (page : Page Cell) (row column : Nat) (e : Editor) : Prop :=
  (∀ k < e.i, page.cells row (column + k) = (e.buf k, DEFAULT_COLOR)) ∧
    ∀ c, column + e.i ≤ c → c < SCREEN_WIDTH → Blank (page.cells row c)

theorem typedOn_eq (page : Page Cell) (text : List UInt8) :
    typedOn page text = (text.map action).foldl (Page.step SCREEN_WIDTH) page := by
  rw [List.foldl_map]
  rfl

theorem typedOn_append (page : Page Cell) (first second : List UInt8) :
    typedOn page (first ++ second) = typedOn (typedOn page first) second := List.foldl_append

theorem not_lt_of_printable {c : UInt8} (h : Printable c) : ¬c < 0x20 := fun hlt => h.2 (.inl hlt)

theorem action_of_printable {c : UInt8} (h : Printable c) : action c = .glyph (c, DEFAULT_COLOR) := by
  have hlow := not_lt_of_printable h
  have hnewline : c ≠ NEWLINE := by
    rintro rfl
    exact hlow (by decide)
  have hreturn : c ≠ CARRIAGE_RETURN := by
    rintro rfl
    exact hlow (by decide)
  unfold action
  rw [if_neg hnewline, if_neg hreturn]

theorem action_ne_return {c : UInt8} (h : c ≠ CARRIAGE_RETURN) : action c ≠ .carriageReturn := by
  unfold action
  by_cases hnewline : c = NEWLINE
  · rw [if_pos hnewline]
    exact nofun
  · rw [if_neg hnewline, if_neg h]
    exact nofun

-- Cells before the cursor stay, whatever follows that has no carriage return.
theorem typedOn_kept (hbefore : page.Before row column) (htext : CARRIAGE_RETURN ∉ text) :
    (typedOn page text).cells row column = page.cells row column := by
  rw [typedOn_eq]
  apply hbefore.foldl
  intro a ha
  obtain ⟨c, hc, rfl⟩ := List.mem_map.mp ha
  exact action_ne_return fun he => htext (he ▸ hc)

-- Printable characters that fit on the cursor's row
theorem typedOn_printable (hprint : ∀ c ∈ text, Printable c) (hcolumn : page.column < SCREEN_WIDTH)
    (hfit : page.column + text.length ≤ SCREEN_WIDTH) :
    (∀ k c, text[k]? = some c →
      (typedOn page text).cells page.row (page.column + k) = (c, DEFAULT_COLOR)) ∧
    (∀ r c, r ≠ page.row ∨ c < page.column ∨ page.column + text.length ≤ c →
      (typedOn page text).cells r c = page.cells r c) ∧
    (page.column + text.length < SCREEN_WIDTH →
      (typedOn page text).row = page.row ∧ (typedOn page text).column = page.column + text.length) ∧
    (page.column + text.length = SCREEN_WIDTH →
      (typedOn page text).row = page.row + 1 ∧ (typedOn page text).column = 0) := by
  have hglyphs : text.map action = (text.map fun c => (c, DEFAULT_COLOR)).map Action.glyph := by
    rw [List.map_map]
    exact List.map_congr_left fun c hc => action_of_printable (hprint c hc)
  rw [typedOn_eq, hglyphs]
  have h := Page.foldl_glyphs (text.map fun c => (c, DEFAULT_COLOR)) hcolumn (by simpa using hfit)
  rw [List.length_map] at h
  refine ⟨fun k c hk => h.1 k _ ?_, h.2⟩
  rw [List.getElem?_map, hk]
  rfl

-- `put_c` writes a backspace like any other glyph, and nothing takes it away again.
theorem typedOn_backspace (page : Page Cell) (htext : CARRIAGE_RETURN ∉ text) :
    (typedOn page (BACKSPACE :: text)).cells page.row page.column = (BACKSPACE, DEFAULT_COLOR) := by
  have hstep : typedOn page (BACKSPACE :: text) =
      typedOn (page.step SCREEN_WIDTH (.glyph (BACKSPACE, DEFAULT_COLOR))) text := rfl
  rw [hstep]
  unfold Page.step
  by_cases hin : page.column + 1 < SCREEN_WIDTH
  · simp only [if_pos hin]
    rw [typedOn_kept (.inr ⟨rfl, Nat.lt_succ_self _⟩) htext]
    exact setCell_self ..
  · simp only [if_neg hin]
    rw [typedOn_kept (.inl (Nat.lt_succ_self _)) htext]
    exact setCell_self ..

theorem blank_printable {c color : UInt8} (h : Printable c) : Blank (c, color) ↔ c = SPACE := by
  refine ⟨fun hb => hb.resolve_left ?_, .inr⟩
  rintro rfl
  exact not_lt_of_printable h (by decide)

-- A full row of printable characters shows the line exactly if they are its own and blanks.
theorem rowHolds_full {shown line : List UInt8} {e : Editor} (hholds : Holds e line)
    (hshown : ∀ c ∈ shown, Printable c) (hfull : column + shown.length = SCREEN_WIDTH)
    (hline : line.length ≤ shown.length)
    (hcells : ∀ k c, shown[k]? = some c → page.cells row (column + k) = (c, DEFAULT_COLOR)) :
    RowHolds page row column e ↔ ∃ blanks, shown = line ++ List.replicate blanks SPACE := by
  have hi := hholds.i
  constructor
  · rintro ⟨hleft, hright⟩
    refine ⟨shown.length - line.length, List.ext_getElem? fun k => ?_⟩
    by_cases hk : k < shown.length
    · have hget := List.getElem?_eq_getElem hk
      have hcell := hcells k _ hget
      rw [hget]
      by_cases hin : k < line.length
      · rw [List.getElem?_append_left hin, List.getElem?_eq_getElem hin]
        have hbuf := hholds.buf k _ (List.getElem?_eq_getElem hin)
        have hsame := hcell.symm.trans (hleft k (by omega))
        rw [hbuf] at hsame
        exact congrArg some (congrArg Prod.fst hsame)
      · rw [List.getElem?_append_right (by omega), List.getElem?_replicate, if_pos (by omega)]
        have hblank := hright (column + k) (by omega) (by omega)
        rw [hcell, blank_printable (hshown _ (List.getElem_mem hk))] at hblank
        rw [hblank]
    · rw [List.getElem?_eq_none (by omega), List.getElem?_eq_none]
      rw [List.length_append, List.length_replicate]
      omega
  · rintro ⟨blanks, rfl⟩
    refine ⟨fun k hk => ?_, fun c hlo hhi => ?_⟩
    · have hin : k < line.length := by omega
      rw [hholds.buf k _ (List.getElem?_eq_getElem hin)]
      exact hcells k _ (by rw [List.getElem?_append_left hin, List.getElem?_eq_getElem hin])
    · rw [List.length_append, List.length_replicate] at hfull
      have hcell := hcells (c - column) SPACE (by
        rw [List.getElem?_append_right (by omega), List.getElem?_replicate, if_pos (by omega)])
      rw [show column + (c - column) = c by omega] at hcell
      rw [hcell]
      exact .inr rfl

-- When nothing is erased the row gets the line, and keeps what stood behind it.
theorem rowHolds_of_neverErases {keys : List UInt8} {e : Editor} (hkeys : NeverErases keys)
    (hholds : Holds e (line keys)) (hcolumn : page.column < SCREEN_WIDTH)
    (hfit : page.column + (line keys).length ≤ SCREEN_WIDTH) :
    RowHolds (typedOn page (echoes [] keys ++ [NEWLINE])) page.row page.column e ↔
      ∀ c, page.column + (typed keys).length ≤ c → c < SCREEN_WIDTH → Blank (page.cells page.row c) := by
  obtain ⟨hline, hecho⟩ := hkeys.line_eq
  rw [hline] at hfit hholds
  rw [hecho, typedOn_append]
  obtain ⟨hcells, hothers, -⟩ := typedOn_printable (fun c hc => (mem_typed.mp hc).2) hcolumn hfit
  -- the newline moves the cursor only
  have hnewline : ∀ p : Page Cell, (typedOn p [NEWLINE]).cells = p.cells := fun _ => rfl
  unfold RowHolds
  rw [hnewline, hholds.i]
  constructor
  · rintro ⟨-, hright⟩ c hlo hhi
    rw [← hothers page.row c (.inr (.inr hlo))]
    exact hright c hlo hhi
  · intro hright
    refine ⟨fun k hk => ?_, fun c hlo hhi => ?_⟩
    · have hget := List.getElem?_eq_getElem hk
      rw [hcells k _ hget, hholds.buf k _ hget]
    · rw [hothers page.row c (.inr (.inr hlo))]
      exact hright c hlo hhi

-- What is echoed from the first erased character on begins with a backspace.
theorem echoes_of_erase {pre : List UInt8} {c : UInt8} (hpre : NeverErases pre) (herase : IsErase c)
    (htyped : typed pre ≠ []) (post : List UInt8) :
    ∃ rest, echoes [] (pre ++ c :: post) ++ [NEWLINE] = typed pre ++ BACKSPACE :: rest ∧
      CARRIAGE_RETURN ∉ rest := by
  obtain ⟨hline, hecho⟩ := hpre.line_eq
  refine ⟨SPACE :: BACKSPACE :: (echoes (editKey (typed pre) c) post ++ [NEWLINE]), ?_, ?_⟩
  · have hfold : pre.foldl editKey [] = typed pre := hline
    rw [echoes_append, hecho, hfold, echoes, if_pos herase, if_neg htyped, List.append_assoc]
    rfl
  · intro hmem
    simp only [List.mem_cons, List.mem_append, List.not_mem_nil, or_false] at hmem
    rcases hmem with h | h | h | h
    · exact absurd h (by decide)
    · exact absurd h (by decide)
    · rcases mem_echoes h with hp | hp | hp
      · exact not_lt_of_printable hp (by decide)
      · exact absurd hp (by decide)
      · exact absurd hp (by decide)
    · exact absurd h (by decide)

-- From the first erased character on, the row can show the line only if it was full by then.
theorem rowHolds_of_erase {pre post : List UInt8} {c : UInt8} {e : Editor} (hpre : NeverErases pre)
    (herase : IsErase c) (htyped : typed pre ≠ []) (hholds : Holds e (line (pre ++ c :: post)))
    (hcolumn : page.column < SCREEN_WIDTH)
    (hfit : page.column + (typed pre).length ≤ SCREEN_WIDTH)
    (hfitLine : page.column + (line (pre ++ c :: post)).length ≤ SCREEN_WIDTH) :
    RowHolds (typedOn page (echoes [] (pre ++ c :: post) ++ [NEWLINE])) page.row page.column e ↔
      page.column + (typed pre).length = SCREEN_WIDTH ∧
        ∃ blanks, typed pre = line (pre ++ c :: post) ++ List.replicate blanks SPACE := by
  have hprint : ∀ c ∈ typed pre, Printable c := fun c hc => (mem_typed.mp hc).2
  obtain ⟨rest, hrest, hreturn⟩ := echoes_of_erase hpre herase htyped post
  have hreturn' : CARRIAGE_RETURN ∉ BACKSPACE :: rest :=
    fun hmem => (List.mem_cons.mp hmem).elim (fun h => absurd h (by decide)) hreturn
  rw [hrest, typedOn_append]
  obtain ⟨hcells, -, hshort, hfull⟩ := typedOn_printable hprint hcolumn hfit
  by_cases hrow : page.column + (typed pre).length = SCREEN_WIDTH
  · -- the backspace goes to the next row, and this one stays
    obtain ⟨hnext, -⟩ := hfull hrow
    have hkept : ∀ column, (typedOn (typedOn page (typed pre)) (BACKSPACE :: rest)).cells page.row column =
        (typedOn page (typed pre)).cells page.row column :=
      fun column => typedOn_kept (.inl (by omega)) hreturn'
    rw [rowHolds_full hholds hprint hrow (by omega)]
    · exact ⟨fun h => ⟨hrow, h⟩, fun h => h.2⟩
    · intro k c hk
      rw [hkept]
      exact hcells k c hk
  · obtain ⟨hsame, hat⟩ := hshort (by omega)
    have hglyph := typedOn_backspace (typedOn page (typed pre)) hreturn
    rw [hsame, hat] at hglyph
    refine ⟨fun ⟨hleft, hright⟩ => ?_, fun h => absurd h.1 hrow⟩
    have hi := hholds.i
    have hnot : ¬Printable BACKSPACE := by decide
    by_cases hin : (typed pre).length < e.i
    · have hin' : (typed pre).length < (line (pre ++ c :: post)).length := by omega
      have hcell := hleft _ hin
      rw [hglyph, hholds.buf _ _ (List.getElem?_eq_getElem hin')] at hcell
      have hchar : Printable (line (pre ++ c :: post))[(typed pre).length] :=
        printable_of_mem_foldl (l := []) nofun _ (List.getElem_mem hin')
      have heq : BACKSPACE = (line (pre ++ c :: post))[(typed pre).length] := congrArg Prod.fst hcell
      rw [← heq] at hchar
      exact absurd hchar hnot
    · have hblank := hright _ (by omega) (show page.column + (typed pre).length < SCREEN_WIDTH by omega)
      rw [hglyph] at hblank
      exact absurd hblank (by decide)

end Row

section Shown

variable {start s : Screen} {page : Page Cell} {keys : List UInt8} {len : Nat} {enter : UInt8}

-- What goes right when the row is full at the first erased character: later keys bring the line
-- back, but for blanks at its end.
def RestoredFullRow (column : Nat) (keys : List UInt8) : Prop :=
  ∃ pre c post blanks, keys = pre ++ c :: post ∧ NeverErases pre ∧ IsErase c ∧ typed pre ≠ [] ∧
    column + (typed pre).length = SCREEN_WIDTH ∧ typed pre = line keys ++ List.replicate blanks SPACE

theorem sysPutc_eq (s : Screen) (c : UInt8) : sysPutc s c = s.putC c := by
  have hlow : (⟨(c.toBitVec.setWidth 32).setWidth 8⟩ : UInt8) = c := by
    rw [BitVec.setWidth_setWidth_of_le _ (by decide), BitVec.setWidth_eq]
  unfold sysPutc syscallPrint
  rw [hlow]

theorem rowHolds_iff {e : Editor} (hholds : Holds e (line keys)) (hcolumn : page.column < SCREEN_WIDTH)
    (hfit : ∀ before, before <+: keys → page.column + (line before).length ≤ SCREEN_WIDTH) :
    RowHolds (typedOn page (echoes [] keys ++ [NEWLINE])) page.row page.column e ↔
      (NeverErases keys ∧ ∀ c, page.column + (typed keys).length ≤ c → c < SCREEN_WIDTH →
        Blank (page.cells page.row c)) ∨ RestoredFullRow page.column keys := by
  have herased : ∀ pre c post, keys = pre ++ c :: post → NeverErases pre → IsErase c → typed pre ≠ [] →
      (RowHolds (typedOn page (echoes [] keys ++ [NEWLINE])) page.row page.column e ↔
        page.column + (typed pre).length = SCREEN_WIDTH ∧
          ∃ blanks, typed pre = line keys ++ List.replicate blanks SPACE) := by
    rintro pre c post rfl hpre herase htyped
    refine rowHolds_of_erase hpre herase htyped hholds hcolumn ?_ (hfit _ (List.prefix_refl _))
    rw [← hpre.line_eq.1]
    exact hfit pre (List.prefix_append _ _)
  by_cases hkeys : NeverErases keys
  · rw [rowHolds_of_neverErases hkeys hholds hcolumn (hfit _ (List.prefix_refl _))]
    refine ⟨fun h => .inl ⟨hkeys, h⟩, fun h => h.elim And.right ?_⟩
    rintro ⟨pre, c, post, -, rfl, -, herase, htyped, -⟩
    obtain ⟨-, -, hcross⟩ := List.pairwise_append.mp hkeys
    obtain ⟨k, hk⟩ := List.exists_mem_of_ne_nil _ htyped
    obtain ⟨hmem, hprint⟩ := mem_typed.mp hk
    exact absurd herase (hcross k hmem c List.mem_cons_self hprint)
  · constructor
    · intro hshown
      obtain ⟨pre, c, post, heq, hpre, herase, htyped⟩ := exists_first_erase hkeys
      obtain ⟨hrow, blanks, hblanks⟩ := (herased pre c post heq hpre herase htyped).mp hshown
      exact .inr ⟨pre, c, post, blanks, heq, hpre, herase, htyped, hrow, hblanks⟩
    · rintro (⟨hnever, -⟩ | ⟨pre, c, post, blanks, heq, hpre, herase, htyped, hrow, hblanks⟩)
      · exact absurd hnever hkeys
      · exact (herased pre c post heq hpre herase htyped).mpr ⟨hrow, blanks, hblanks⟩

-- The screen goes on showing the page under what is echoed.
theorem echoes_displays (hscreen : Displays start s page) (keys : List UInt8) :
    Displays start ((echoes [] keys ++ [NEWLINE]).foldl sysPutc s)
      (typedOn page (echoes [] keys ++ [NEWLINE])) := by
  have htab : TAB ∉ echoes [] keys ++ [NEWLINE] := by
    intro hmem
    rcases List.mem_append.mp hmem with h | h
    · rcases mem_echoes h with hp | hp | hp
      · exact not_lt_of_printable hp (by decide)
      · exact absurd hp (by decide)
      · exact absurd hp (by decide)
    · exact absurd (List.mem_singleton.mp h) (by decide)
  have hput : sysPutc = putC := funext fun s => funext fun c => sysPutc_eq s c
  rw [hput]
  exact (foldl_displays hscreen _ htab).1

-- The line is on the screen: the row that it was typed in, the row `row` of the page, is among those
-- that the screen still shows, and there the line stands from the starting column on.
structure LineShown (s : Screen) (page : Page Cell) (row column : Nat) (e : Editor) : Prop where
  visible : page.top SCREEN_HEIGHT ≤ row
  left : ∀ k < e.i, s.cell (row - page.top SCREEN_HEIGHT) (column + k) = (e.buf k, DEFAULT_COLOR)
  right : ∀ c, column + e.i ≤ c → c < SCREEN_WIDTH → Blank (s.cell (row - page.top SCREEN_HEIGHT) c)

-- Less than 24 rows are filled by what is echoed; the Enter goes to one more.
def StaysOnScreen (column : Nat) (keys : List UInt8) : Prop :=
  column + (echoes [] keys).length < SCREEN_WIDTH * (SCREEN_HEIGHT - 1)

-- A cell of the page in a row that the screen shows
theorem cell_eq (hscreen : Displays start s page) {row column : Nat} (htop : page.top SCREEN_HEIGHT ≤ row)
    (hrow : row ≤ page.row) (hcolumn : column < SCREEN_WIDTH) :
    s.cell (row - page.top SCREEN_HEIGHT) column = page.cells row column := by
  have hshows := hscreen.shows
  have hy := hshows.row
  have hlt := hshows.row_lt
  have hcell := hshows.cells (row - page.top SCREEN_HEIGHT) (by omega) column hcolumn
  rwa [Nat.add_sub_cancel' htop] at hcell

theorem lineShown_iff (hscreen : Displays start s page) {row column : Nat} {e : Editor}
    (hrow : row ≤ page.row) (hfit : column + e.i ≤ SCREEN_WIDTH) :
    LineShown s page row column e ↔ page.top SCREEN_HEIGHT ≤ row ∧ RowHolds page row column e := by
  constructor
  · rintro ⟨htop, hleft, hright⟩
    refine ⟨htop, fun k hk => ?_, fun c hlo hhi => ?_⟩
    · rw [← cell_eq hscreen htop hrow (by omega)]
      exact hleft k hk
    · rw [← cell_eq hscreen htop hrow hhi]
      exact hright c hlo hhi
  · rintro ⟨htop, hleft, hright⟩
    refine ⟨htop, fun k hk => ?_, fun c hlo hhi => ?_⟩
    · rw [cell_eq hscreen htop hrow (by omega)]
      exact hleft k hk
    · rw [cell_eq hscreen htop hrow hhi]
      exact hright c hlo hhi

-- Where the cursor is once the line is entered
theorem row_typedOn (hcolumn : page.column < SCREEN_WIDTH) (keys : List UInt8) :
    page.row ≤ (typedOn page (echoes [] keys ++ [NEWLINE])).row ∧
      ((typedOn page (echoes [] keys ++ [NEWLINE])).top SCREEN_HEIGHT ≤ page.row ↔
        StaysOnScreen page.column keys) := by
  have hglyphs : (echoes [] keys).map action = ((echoes [] keys).map fun c => (c, DEFAULT_COLOR)).map
      Action.glyph := by
    rw [List.map_map]
    refine List.map_congr_left fun c hc => ?_
    rcases mem_echoes hc with hprint | rfl | rfl
    · exact action_of_printable hprint
    · rfl
    · rfl
  obtain ⟨hcount, hlt⟩ := Page.foldl_glyphs_cursor
    ((echoes [] keys).map fun c => ((c, DEFAULT_COLOR) : Cell)) hcolumn
  rw [← hglyphs, ← typedOn_eq, List.length_map] at hcount
  rw [← hglyphs, ← typedOn_eq] at hlt
  have hrow : (typedOn page (echoes [] keys ++ [NEWLINE])).row = (typedOn page (echoes [] keys)).row + 1 := by
    rw [typedOn_append]
    rfl
  unfold StaysOnScreen Page.top
  rw [hrow]
  simp only [SCREEN_WIDTH, SCREEN_HEIGHT] at hcount hlt hcolumn ⊢
  omega

-- A line without an erasure is at most two rows, which the screen has.
theorem NeverErases.staysOnScreen {column : Nat} (h : NeverErases keys)
    (hfit : column + (line keys).length ≤ SCREEN_WIDTH) : StaysOnScreen column keys := by
  obtain ⟨hline, hecho⟩ := h.line_eq
  unfold StaysOnScreen
  rw [hecho, ← hline]
  simp only [SCREEN_WIDTH, SCREEN_HEIGHT] at hfit ⊢
  omega

theorem readline_shown_iff (hscreen : Displays start s page) (buf : Nat → UInt8)
    (hlen : len < 4294967296) (henter : IsEnter enter) (hkeys : ∀ c ∈ keys, ¬IsEnter c)
    (hroom : ∀ before, before <+: keys → (line before).length < len)
    (hfit : ∀ before, before <+: keys → page.column + (line before).length ≤ SCREEN_WIDTH) :
    ∃ e, readline buf len (keys ++ [enter]) = some e ∧
      Displays start (e.echoed.foldl sysPutc s) (typedOn page e.echoed) ∧
      (LineShown (e.echoed.foldl sysPutc s) (typedOn page e.echoed) page.row page.column e ↔
        (NeverErases keys ∧ ∀ c, page.column + (typed keys).length ≤ c → c < SCREEN_WIDTH →
          Blank (s.cell s.y c)) ∨ RestoredFullRow page.column keys ∧ StaysOnScreen page.column keys) := by
  have hempty : Holds { buf, stored := [], i := 0, echoed := [] } [] := ⟨rfl, nofun⟩
  obtain ⟨e, hloop, hholds, hecho⟩ := loop_spec hempty hlen henter hkeys hroom
  rw [List.nil_append] at hecho
  have hcolumn := hscreen.shows.column_lt
  have hline := hfit keys (List.prefix_refl _)
  have hdisplays := echoes_displays hscreen keys
  obtain ⟨hrow, hvisible⟩ := row_typedOn hcolumn keys
  -- the cells of the row before, on the screen
  have hbefore : ∀ c < SCREEN_WIDTH, s.cell s.y c = page.cells page.row c := by
    intro c hc
    have hy : page.row - page.top SCREEN_HEIGHT = s.y := by
      have hy : page.top SCREEN_HEIGHT + s.y = page.row := hscreen.shows.row
      omega
    rw [← cell_eq hscreen (by have hy := hscreen.shows.row; omega) (Nat.le_refl _) hc, hy]
  refine ⟨e, hloop, ?_, ?_⟩
  · rw [hecho]
    exact hdisplays
  rw [hecho, lineShown_iff hdisplays hrow (by rw [hholds.i]; exact hline), hvisible,
    rowHolds_iff hholds hcolumn hfit]
  constructor
  · rintro ⟨hstays, ⟨hnever, hblank⟩ | hrestored⟩
    · exact .inl ⟨hnever, fun c hlo hhi => by rw [hbefore c hhi]; exact hblank c hlo hhi⟩
    · exact .inr ⟨hrestored, hstays⟩
  · rintro (⟨hnever, hblank⟩ | ⟨hrestored, hstays⟩)
    · refine ⟨hnever.staysOnScreen hline, .inl ⟨hnever, fun c hlo hhi => ?_⟩⟩
      rw [← hbefore c hhi]
      exact hblank c hlo hhi
    · exact ⟨hstays, .inr hrestored⟩

end Shown

section Sample

theorem length_line_le (keys : List UInt8) : (line keys).length ≤ keys.length := by
  induction keys using List.reverseRecOn with
  | nil => exact Nat.le_refl 0
  | append_singleton keys c ih =>
      have hfold : line (keys ++ [c]) = editKey (line keys) c := List.foldl_append
      rw [hfold, List.length_append, List.length_singleton]
      unfold editKey
      split
      · rw [List.length_dropLast]
        omega
      · split
        · omega
        · rw [List.length_append, List.length_singleton]
          omega

-- A backspace on the empty line and then "hi", on a clear screen
theorem readline_shown_iff_sample :
    ∃ e, readline (fun _ => 0) 256 ([BACKSPACE, 0x68, 0x69] ++ [NEWLINE]) = some e ∧
      Displays darkScreen (e.echoed.foldl sysPutc darkScreen.clrscr) (typedOn (.empty blankCell) e.echoed) ∧
      (LineShown (e.echoed.foldl sysPutc darkScreen.clrscr) (typedOn (.empty blankCell) e.echoed) 0 0 e ↔
        (NeverErases [BACKSPACE, 0x68, 0x69] ∧
          ∀ c, 0 + (typed [BACKSPACE, 0x68, 0x69]).length ≤ c → c < SCREEN_WIDTH →
            Blank (darkScreen.clrscr.cell 0 c)) ∨
          RestoredFullRow 0 [BACKSPACE, 0x68, 0x69] ∧ StaysOnScreen 0 [BACKSPACE, 0x68, 0x69]) := by
  have hshort : ∀ before, before <+: [BACKSPACE, 0x68, 0x69] → (line before).length ≤ 3 :=
    fun before hbefore => (length_line_le before).trans hbefore.length_le
  have hkeys : ∀ c ∈ [BACKSPACE, 0x68, 0x69], ¬IsEnter c := by
    simp [IsEnter, BACKSPACE, CARRIAGE_RETURN, NEWLINE]
  refine readline_shown_iff (clrscr_displays darkScreen) (fun _ => 0) (by omega) (.inr rfl) hkeys
    (fun before hbefore => Nat.lt_of_le_of_lt (hshort before hbefore) (by decide))
    fun before hbefore => ?_
  have hle := hshort before hbefore
  change 0 + (line before).length ≤ 80
  omega

-- An erased "a" is still on the screen, and a backspace glyph behind it.
theorem not_lineShown_sample :
    ∃ e, readline (fun _ => 0) 256 [0x61, BACKSPACE, NEWLINE] = some e ∧ e.i = 0 ∧
      Displays darkScreen (e.echoed.foldl sysPutc darkScreen.clrscr) (typedOn (.empty blankCell) e.echoed) ∧
      ¬LineShown (e.echoed.foldl sysPutc darkScreen.clrscr) (typedOn (.empty blankCell) e.echoed) 0 0 e := by
  have hdisplays := echoes_displays (clrscr_displays darkScreen) [0x61, BACKSPACE]
  refine ⟨_, rfl, rfl, hdisplays, fun h => ?_⟩
  obtain ⟨-, -, hright⟩ := (lineShown_iff hdisplays (Nat.zero_le _) (Nat.zero_le _)).mp h
  have hblank : Blank (0x61, DEFAULT_COLOR) := hright 0 (Nat.le_refl 0) (by decide)
  exact absurd hblank (by decide)

end Sample

end ToyKernel.Readline
