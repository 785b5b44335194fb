import ToyKernel.Readline.Editing
import ToyKernel.Shell
import ToyKernel.Stdio.Composition
import ToyKernel.Stdio.Numerals

namespace ToyKernel.Shell

open Library Stdio Readline Screen

section Dialogue

-- The prompt is a number of 32 bits.
def promptText (n : Nat) : List UInt8 :=
  (numeral 10 (n % 4294967296)).map hexChar ++ [0x3E, SPACE]

-- What the user sees of a key behind `line`
def echoKey (line : List UInt8) (c : UInt8) : List UInt8 :=
  if IsErase c then if line = [] then [] else [BACKSPACE, SPACE, BACKSPACE]
  else if 0x20 ≤ c ∧ c ≤ 0x7E ∧ line.length < INPUT_BUF_SIZE - 1 then [c]
  else []

def echoKeys : (line keys : List UInt8) → List UInt8
  | _, [] => []
  | line, c :: keys => echoKey line c ++ echoKeys (editLine INPUT_BUF_SIZE line c) keys

def reply (line : List UInt8) : List UInt8 := if line = [] then [] else ECHO ++ println line

-- The lines from number `n` on, each with the answer to what was typed
def dialogue : (n : Nat) → (lines : List (List UInt8)) → List UInt8
  | _, [] => []
  | n, keys :: lines =>
      promptText n ++ println (echoKeys [] keys) ++ reply (edited INPUT_BUF_SIZE keys) ++
        dialogue (n + 1) lines

def BANNER : List UInt8 := println RULE ++ println TITLE ++ println HINT ++ println RULE

end Dialogue

section Printing

variable {mem rest : Memory} {address str : UInt32} {buf : Nat → UInt8} {text : List UInt8}

theorem vprintf_prompt (mem : Memory) (prompt : UInt32) :
    Userland.vprintf mem (some PROMPT_FORMAT) (fun _ => prompt) = some ⟨promptText prompt.toNat, 1⟩ := by
  have hscan : scan PROMPT_FORMAT =
      [.directive .default (.numeral 10 false), .text 0x3E, .text SPACE] := rfl
  have hnumber : (numeral 10 prompt.toUInt64.toNat).map hexChar ++ [0x3E, SPACE] =
      promptText prompt.toNat := by
    unfold promptText
    rw [UInt32.toNat_toUInt64, Nat.mod_eq_of_lt prompt.toNat_lt]
  rw [printf_rendered (Userland.vprintf_eq mem), hscan, ← hnumber,
    ← printfUnsigned_eq (.inr (.inl rfl)) prompt.toUInt64]
  rfl

-- A text without a NUL, and the NUL behind it
theorem putsLoop_text {fuel : Nat} (hfuel : text.length < fuel)
    (htext : ∀ k c, text[k]? = some c → c ≠ 0 ∧ mem (str + UInt32.ofNat k) = c)
    (hend : mem (str + UInt32.ofNat text.length) = 0) : putsLoop mem fuel str = some text := by
  induction text generalizing fuel str with
  | nil =>
      obtain ⟨fuel, rfl⟩ := Nat.exists_eq_succ_of_ne_zero (Nat.ne_of_gt hfuel)
      have hzero : mem str = 0 := by
        rw [← UInt32.add_zero str]
        exact hend
      exact if_pos hzero
  | cons c text ih =>
      obtain ⟨fuel, rfl⟩ := Nat.exists_eq_succ_of_ne_zero (Nat.ne_of_gt (Nat.lt_trans (Nat.succ_pos _) hfuel))
      have hnext : ∀ k, str + UInt32.ofNat (k + 1) = str + 1 + UInt32.ofNat k := by
        intro k
        rw [UInt32.ofNat_add, UInt32.add_comm (UInt32.ofNat k), UInt32.add_assoc]
        rfl
      obtain ⟨hne, hc⟩ := htext 0 c rfl
      have hhead : mem str = c := by
        rw [← UInt32.add_zero str]
        exact hc
      have hrest : putsLoop mem fuel (str + 1) = some text := by
        refine ih (Nat.lt_of_succ_lt_succ hfuel) (fun k d hd => ?_) ?_
        · rw [← hnext]
          exact htext (k + 1) d hd
        · rw [← hnext]
          exact hend
      rw [putsLoop, hhead, if_neg hne, hrest]
      rfl

theorem memory_buf {k : Nat} (hk : k < INPUT_BUF_SIZE) :
    memory rest address buf (address + UInt32.ofNat k) = buf k := by
  have hoffset : (address + UInt32.ofNat k - address).toNat = k := by
    rw [UInt32.add_comm, UInt32.add_sub_cancel]
    exact UInt32.toNat_ofNat_of_lt' (Nat.lt_trans hk (by decide))
  unfold memory
  rw [hoffset, if_pos hk]

-- `print(buf)` stops at the NUL that `readline` has put behind the line.
theorem print_line (haddress : address ≠ 0) (hroom : text.length < INPUT_BUF_SIZE)
    (htext : ∀ c ∈ text, c ≠ 0) (hbuf : ∀ k c, text[k]? = some c → buf k = c)
    (hnul : buf text.length = 0) : print (memory rest address buf) address = some text := by
  unfold print puts
  rw [if_neg haddress]
  refine putsLoop_text (Nat.lt_trans hroom (by decide)) (fun k c hk => ?_) ?_
  · obtain ⟨hlt, -⟩ := List.getElem?_eq_some_iff.mp hk
    rw [memory_buf (Nat.lt_trans hlt hroom)]
    exact ⟨htext c (List.mem_of_getElem? hk), hbuf k c hk⟩
  · rw [memory_buf hroom]
    exact hnul

end Printing

-- `text` has been printed, and `line` typed behind the prompt before the one with number `n`.
structure Typing (s : Shell) (n : Nat) (text line : List UInt8) : Prop where
  prompt : s.prompt.toNat = n % 4294967296
  output : s.output = text
  holds : Holds s.editor line
  room : line.length < INPUT_BUF_SIZE
  visible : ∀ c ∈ line, 0x20 ≤ c

section Steps

variable {rest : Memory} {address : UInt32} {buf : Nat → UInt8} {s : Shell} {n : Nat} {e : Editor}
  {printed text typed line keys : List UInt8} {c : UInt8}

theorem nextLine_typing (rest : Memory) (address : UInt32) (buf : Nat → UInt8) (printed : List UInt8)
    {prompt : UInt32} (hprompt : prompt.toNat = n % 4294967296) :
    ∃ s, nextLine rest address prompt printed buf = some s ∧
      Typing s (n + 1) (printed ++ promptText n) [] := by
  unfold nextLine
  rw [vprintf_prompt]
  refine ⟨_, rfl, ?_, ?_, ⟨rfl, nofun⟩, by decide, nofun⟩
  · rw [UInt32.toNat_add, hprompt, UInt32.toNat_one]
    omega
  · have hsame : promptText prompt.toNat = promptText n := by
      unfold promptText
      rw [hprompt, Nat.mod_mod]
    change printed ++ promptText prompt.toNat ++ [] = _
    rw [List.append_nil, hsame]

-- What `readline` echoes for a key
theorem echoed_key (h : Holds e line) (hroom : line.length < INPUT_BUF_SIZE) (c : UInt8) :
    (e.key INPUT_BUF_SIZE c).echoed = e.echoed ++ echoKey line c := by
  have hi := h.i
  have hlimit : u32Sub INPUT_BUF_SIZE 1 = INPUT_BUF_SIZE - 1 := u32Sub_of_le (by decide) (by decide)
  unfold Editor.key echoKey
  rw [hlimit, hi]
  by_cases herase : IsErase c
  · rw [if_pos herase, if_pos herase]
    by_cases hnil : line = []
    · subst hnil
      exact (List.append_nil _).symm
    · rw [if_neg hnil, if_pos (List.length_pos_iff.mpr hnil)]
      rfl
  have hprint := not_isControl_iff herase
  rw [if_neg herase, if_neg herase]
  by_cases hcontrol : IsControl c
  · rw [if_pos hcontrol, if_neg fun h => hprint.mpr ⟨h.1, h.2.1⟩ hcontrol, List.append_nil]
  obtain ⟨hlow, hhigh⟩ := hprint.mp hcontrol
  rw [if_neg hcontrol]
  by_cases hfull : line.length < INPUT_BUF_SIZE - 1
  · rw [if_pos hfull, if_pos ⟨hlow, hhigh, hfull⟩]
    rfl
  · rw [if_neg hfull, if_neg fun h => hfull h.2.2, List.append_nil]

theorem visible_editLine (hline : ∀ c ∈ line, 0x20 ≤ c) (c : UInt8) :
    ∀ d ∈ editLine INPUT_BUF_SIZE line c, 0x20 ≤ d := by
  intro d hd
  unfold editLine at hd
  split at hd
  · exact hline d (List.dropLast_subset line hd)
  split at hd
  · rename_i hprint
    rcases List.mem_append.mp hd with hd | hd
    · exact hline d hd
    · rw [List.mem_singleton.mp hd]
      exact hprint.1
  · exact hline d hd

theorem press_key (rest : Memory) (address : UInt32) (h : Typing s n text line) (hc : ¬IsEnter c) :
    ∃ s', press rest address s c = some s' ∧
      Typing s' n (text ++ echoKey line c) (editLine INPUT_BUF_SIZE line c) := by
  have hloop : loop INPUT_BUF_SIZE s.editor [c] = none := if_neg hc
  unfold press
  rw [hloop]
  refine ⟨_, rfl, h.prompt, ?_, key_holds h.holds h.room c (by decide), length_editLine h.room c,
    visible_editLine h.visible c⟩
  change s.printed ++ (s.editor.key INPUT_BUF_SIZE c).echoed = _
  rw [echoed_key h.holds h.room c, ← List.append_assoc, ← h.output]
  rfl

theorem press_keys (rest : Memory) (address : UInt32) (h : Typing s n text line)
    (hkeys : ∀ c ∈ keys, ¬IsEnter c) :
    ∃ s', keys.foldlM (press rest address) s = some s' ∧
      Typing s' n (text ++ echoKeys line keys) (keys.foldl (editLine INPUT_BUF_SIZE) line) := by
  induction keys generalizing s text line with
  | nil => exact ⟨s, rfl, by rw [echoKeys, List.append_nil]; exact h⟩
  | cons c keys ih =>
      obtain ⟨mid, hmid, htyping⟩ := press_key rest address h (hkeys c List.mem_cons_self)
      obtain ⟨s', hs', hrest⟩ := ih htyping fun k hk => hkeys k (List.mem_cons_of_mem c hk)
      rw [List.append_assoc] at hrest
      exact ⟨s', by rw [List.foldlM_cons, hmid]; exact hs', hrest⟩

theorem press_enter (rest : Memory) (haddress : address ≠ 0) (h : Typing s n text typed) (hc : IsEnter c) :
    ∃ s', press rest address s c = some s' ∧
      Typing s' (n + 1) (text ++ [NEWLINE] ++ reply typed ++ promptText n) [] := by
  have hi := h.holds.i
  -- the buffer once the NUL is behind the line
  have hnul : (s.editor.echo [NEWLINE]).finish.buf typed.length = 0 := if_pos hi.symm
  have hbuf : ∀ k c, typed[k]? = some c → (s.editor.echo [NEWLINE]).finish.buf k = c := by
    intro k c hk
    obtain ⟨hlt, -⟩ := List.getElem?_eq_some_iff.mp hk
    have hne : k ≠ s.editor.i := by omega
    exact (if_neg hne).trans (h.holds.buf k c hk)
  have hprinted : s.printed ++ (s.editor.echo [NEWLINE]).finish.echoed = text ++ [NEWLINE] := by
    rw [← h.output]
    exact (List.append_assoc ..).symm
  have hpress : press rest address s c = s.answer rest address (s.editor.echo [NEWLINE]).finish := by
    have hloop : loop INPUT_BUF_SIZE s.editor [c] = some (s.editor.echo [NEWLINE]).finish := if_pos hc
    unfold press
    rw [hloop]
  rw [hpress]
  unfold answer reply
  cases typed with
  | nil =>
      obtain ⟨s', hs', htyping⟩ := nextLine_typing rest address (s.editor.echo [NEWLINE]).finish.buf
        (text ++ [NEWLINE]) h.prompt
      refine ⟨s', ?_, by rw [if_pos rfl, List.append_nil]; exact htyping⟩
      rw [← hs', hprinted]
      exact if_pos hnul
  | cons d typed =>
      have hd : d ≠ 0 := by
        rintro rfl
        exact absurd (h.visible 0 List.mem_cons_self) (by decide)
      have hfirst : ¬(s.editor.echo [NEWLINE]).finish.buf 0 = 0 := by
        rw [hbuf 0 d rfl]
        exact hd
      have hline : print (memory rest address (s.editor.echo [NEWLINE]).finish.buf) address =
          some (d :: typed) := by
        refine print_line haddress h.room (fun k hk => ?_) hbuf hnul
        rintro rfl
        exact absurd (h.visible 0 hk) (by decide)
      obtain ⟨s', hs', htyping⟩ := nextLine_typing rest address (s.editor.echo [NEWLINE]).finish.buf
        (text ++ [NEWLINE] ++ ECHO ++ (d :: typed) ++ [NEWLINE]) h.prompt
      refine ⟨s', ?_, ?_⟩
      · rw [← hs', hprinted]
        simp only [if_neg hfirst, hline, Option.bind_some]
      · rw [if_neg (List.cons_ne_nil d typed), println]
        simpa only [List.append_assoc] using htyping

end Steps

section Session

variable {rest : Memory} {address : UInt32} {s : Shell} {n : Nat} {text : List UInt8}

-- A whole line of keys, with the Enter that ends it
def IsLine (l : List UInt8 × UInt8) : Prop := (∀ c ∈ l.1, ¬IsEnter c) ∧ IsEnter l.2

def keysOf (lines : List (List UInt8 × UInt8)) : List UInt8 := lines.flatMap fun l => l.1 ++ [l.2]

theorem press_lines (rest : Memory) (haddress : address ≠ 0) {lines : List (List UInt8 × UInt8)}
    (hlines : ∀ l ∈ lines, IsLine l) (h : Typing s (n + 1) (text ++ promptText n) []) :
    ∃ s', (keysOf lines).foldlM (press rest address) s = some s' ∧
      Typing s' (n + lines.length + 1)
        (text ++ dialogue n (lines.map Prod.fst) ++ promptText (n + lines.length)) [] := by
  induction lines generalizing s n text with
  | nil => exact ⟨s, rfl, by simpa only [dialogue, List.map_nil, List.append_nil, List.length_nil, Nat.add_zero] using h⟩
  | cons l lines ih =>
      obtain ⟨hkeys, henter⟩ := hlines l List.mem_cons_self
      obtain ⟨typed, htyped, htyping⟩ := press_keys rest address h hkeys
      obtain ⟨mid, hmid, hanswered⟩ := press_enter rest haddress htyping henter
      obtain ⟨s', hs', hrest⟩ := ih (n := n + 1) (fun k hk => hlines k (List.mem_cons_of_mem l hk)) hanswered
      refine ⟨s', ?_, ?_⟩
      · have hfirst : (l.1 ++ [l.2]).foldlM (press rest address) s = some mid := by
          rw [List.foldlM_append, htyped]
          exact (bind_pure (press rest address typed l.2)).trans hmid
        unfold keysOf at hs' ⊢
        rw [List.flatMap_cons, List.foldlM_append, hfirst]
        exact hs'
      · have hlength : n + (l :: lines).length = n + 1 + lines.length := by
          rw [List.length_cons]
          omega
        rw [hlength, List.map_cons, dialogue, println, edited]
        simpa only [List.append_assoc] using hrest

end Session

-- What the terminal takes for a tab never comes up.
section Tabs

variable {line keys : List UInt8} {c : UInt8}

theorem ne_tab (h : 0x20 ≤ c) : c ≠ TAB := by
  rintro rfl
  exact absurd h (by decide)

theorem tab_notMem_promptText (n : Nat) : TAB ∉ promptText n := by
  have hdigits : ∀ d < 10, hexChar d ≠ TAB := by decide
  intro h
  rcases List.mem_append.mp h with h | h
  · obtain ⟨d, hd, hchar⟩ := List.mem_map.mp h
    exact hdigits d ((isNumeral_numeral (by decide) (n % 4294967296)).lt d hd) hchar
  · exact absurd h (by decide)

theorem tab_notMem_echoKey (line : List UInt8) (c : UInt8) : TAB ∉ echoKey line c := by
  unfold echoKey
  split
  · split <;> decide
  split
  · rename_i hprint
    rw [List.mem_singleton]
    exact fun h => ne_tab hprint.1 h.symm
  · exact List.not_mem_nil

theorem tab_notMem_echoKeys (line keys : List UInt8) : TAB ∉ echoKeys line keys := by
  induction keys generalizing line with
  | nil => exact List.not_mem_nil
  | cons c keys ih =>
      intro h
      rcases List.mem_append.mp h with h | h
      · exact tab_notMem_echoKey line c h
      · exact ih _ h

theorem visible_edited (keys : List UInt8) : ∀ c ∈ edited INPUT_BUF_SIZE keys, 0x20 ≤ c := by
  induction keys using List.reverseRecOn with
  | nil => nofun
  | append_singleton keys k ih =>
      have hlast : edited INPUT_BUF_SIZE (keys ++ [k]) =
          editLine INPUT_BUF_SIZE (edited INPUT_BUF_SIZE keys) k := List.foldl_append
      rw [hlast]
      exact visible_editLine ih k

theorem tab_notMem_reply (hline : ∀ c ∈ line, 0x20 ≤ c) : TAB ∉ reply line := by
  unfold reply
  split
  · exact List.not_mem_nil
  · intro h
    rcases List.mem_append.mp h with h | h
    · exact absurd h (by decide +kernel)
    · rcases List.mem_append.mp h with h | h
      · exact ne_tab (hline TAB h) rfl
      · exact absurd h (by decide)

theorem tab_notMem_dialogue (n : Nat) (lines : List (List UInt8)) : TAB ∉ dialogue n lines := by
  induction lines generalizing n with
  | nil => exact List.not_mem_nil
  | cons keys lines ih =>
      simp only [dialogue, println, List.mem_append, not_or]
      exact ⟨⟨⟨tab_notMem_promptText n, tab_notMem_echoKeys [] keys, by decide⟩,
        tab_notMem_reply (visible_edited keys)⟩, ih (n + 1)⟩

end Tabs

-- What has been printed when `keys` are typed behind `lines`
def transcript (lines : List (List UInt8 × UInt8)) (keys : List UInt8) : List UInt8 :=
  BANNER ++ dialogue 1 (lines.map Prod.fst) ++ promptText (lines.length + 1) ++ echoKeys [] keys

theorem start_transcript (rest : Memory) {address : UInt32} (haddress : address ≠ 0) (buf : Nat → UInt8)
    {lines : List (List UInt8 × UInt8)} (hlines : ∀ l ∈ lines, IsLine l) {keys : List UInt8}
    (hkeys : ∀ c ∈ keys, ¬IsEnter c) :
    ∃ s, _start rest address buf (keysOf lines ++ keys) = some s ∧ s.output = transcript lines keys := by
  obtain ⟨s₀, hstart, htyping⟩ := nextLine_typing rest address buf BANNER
    (show (1 : UInt32).toNat = 1 % 4294967296 from rfl)
  obtain ⟨mid, hmid, hbefore⟩ := press_lines rest haddress hlines htyping
  obtain ⟨s, hs, hafter⟩ := press_keys rest address hbefore hkeys
  rw [Nat.add_comm 1 lines.length] at hafter
  refine ⟨s, ?_, hafter.output⟩
  have hrun : start rest address buf = some s₀ := hstart
  unfold _start
  rw [hrun, Option.bind_some, List.foldlM_append, hmid]
  exact hs

theorem displays_transcript (screen : Screen) (lines : List (List UInt8 × UInt8)) (keys : List UInt8) :
    Displays screen ((transcript lines keys).foldl sysPutc screen.clrscr)
      (pageOf (transcript lines keys)) := by
  have htab : TAB ∉ transcript lines keys := by
    simp only [transcript, List.mem_append, not_or]
    exact ⟨⟨⟨by decide +kernel, tab_notMem_dialogue 1 _⟩, tab_notMem_promptText _⟩, tab_notMem_echoKeys [] keys⟩
  have hput : sysPutc = putC := funext fun s => funext fun c => sysPutc_eq s c
  rw [hput]
  exact (foldl_displays (clrscr_displays screen) _ htab).1

-- Whatever is typed, the shell never stops: its output is the banner and then, line after line, the
-- number of the line, the echo of its keys and the line as it was edited, and that is what the
-- terminal shows.
theorem session (rest : Memory) {address : UInt32} (haddress : address ≠ 0) (buf : Nat → UInt8)
    {lines : List (List UInt8 × UInt8)} (hlines : ∀ l ∈ lines, IsLine l) {keys : List UInt8}
    (hkeys : ∀ c ∈ keys, ¬IsEnter c) (screen : Screen) :
    ∃ s, _start rest address buf (keysOf lines ++ keys) = some s ∧
      s.output = BANNER ++ dialogue 1 (lines.map Prod.fst) ++ promptText (lines.length + 1) ++
        echoKeys [] keys ∧
      Displays screen (s.output.foldl sysPutc screen.clrscr) (pageOf s.output) := by
  obtain ⟨s, hs, houtput⟩ := start_transcript rest haddress buf hlines hkeys
  refine ⟨s, hs, houtput, ?_⟩
  rw [houtput]
  exact displays_transcript screen lines keys

-- "hi" with a slip in it, then Enter alone, and the beginning of a third line
theorem session_sample :
    ∃ s, _start (fun _ => 0) 0x600F00 (fun _ => 0xFF)
        (keysOf [([0x68, 0x6A, BACKSPACE, 0x69], CARRIAGE_RETURN), ([], CARRIAGE_RETURN)] ++ [0x6F]) = some s ∧
      s.output = BANNER ++ dialogue 1 [[0x68, 0x6A, BACKSPACE, 0x69], []] ++ promptText 3 ++ [0x6F] := by
  have hlines : ∀ l ∈ [([0x68, 0x6A, BACKSPACE, 0x69], CARRIAGE_RETURN), ([], CARRIAGE_RETURN)],
      IsLine l := by
    refine List.forall_mem_cons.mpr ⟨⟨?_, by decide⟩, List.forall_mem_singleton.mpr ⟨nofun, by decide⟩⟩
    simp [IsEnter, BACKSPACE, CARRIAGE_RETURN, NEWLINE]
  have hkeys : ∀ c ∈ [0x6F], ¬IsEnter c := List.forall_mem_singleton.mpr (by decide)
  have haddress : (0x600F00 : UInt32) ≠ 0 := by decide
  obtain ⟨s, hs, houtput, -⟩ := session (fun _ => 0) haddress (fun _ => 0xFF) hlines hkeys darkScreen
  exact ⟨s, hs, houtput⟩

end ToyKernel.Shell
