import ToyKernel.Keyboard.Shift
import ToyKernel.Library.Run
import ToyKernel.Shell.Session

namespace ToyKernel

open Library ByteMemory Keyboard Shell

-- The keyboard with the call of `get_key` under way, and the shell that has made it
structure Console where
  keyboard : Keyboard
  shell : Shell

-- The shell prints for ever.
inductive Hung where
  | hung

namespace Console

section Program

variable (rest : Stdio.Memory) (address : UInt32) (rodata : Nat → BitVec 8)

-- A keyboard interrupt, or the next statement of `get_key`; with the key that is returned the shell
-- runs on to its next call.
def exec (c : Console) : Event → Except Hung Console
  | .interrupt scancode =>
      .ok { c with keyboard := Keyboard.exec rodata c.keyboard (.interrupt scancode) }
  | .step =>
      match c.keyboard.point with
      | .returned key =>
          match press rest address c.shell (.ofBitVec key) with
          | none => .error .hung
          | some shell => .ok { keyboard := c.keyboard.step, shell }
      | _ => .ok { c with keyboard := c.keyboard.step }

-- `get_key` waits, and no key is there for it.
def Ready (k : Keyboard) : Prop := k.point = .wait ∧ k.memory KEY_ADDRESS = 0

-- Keys are pressed one at a time: not before the last one has been taken. Other scancodes may come
-- at any time.
def OneAtATime (c : Console) : Event → Prop
  | .interrupt scancode => IsPress scancode → Ready c.keyboard
  | .step => True

end Program

section Characters

variable (rodata : Nat → BitVec 8)

-- What a press stands for
def character (shift : Bool) (code : BitVec 8) : BitVec 8 :=
  if shift then shiftKey (scancodeToAscii rodata code) else scancodeToAscii rodata code

def shiftAfter (shift : Bool) (code : BitVec 8) : Bool :=
  if IsShiftMake code then true else if IsShiftBreak code then false else shift

-- The text that scancodes stand for, from a state of the shift keys on
def characters : (shift : Bool) → List (BitVec 8) → List (BitVec 8)
  | _, [] => []
  | shift, code :: codes =>
      (if IsPress code ∧ character rodata shift code ≠ 0 then [character rodata shift code] else []) ++
        characters (shiftAfter shift code) codes

def codesOf : List Event → List (BitVec 8)
  | [] => []
  | .interrupt scancode :: events => scancode :: codesOf events
  | .step :: events => codesOf events

end Characters

section Text

variable {rodata : Nat → BitVec 8} {shift : Bool} {codes : List (BitVec 8)} {code : BitVec 8}

theorem characters_append (rodata : Nat → BitVec 8) (shift : Bool) (codes : List (BitVec 8)) (code : BitVec 8) :
    characters rodata shift (codes ++ [code]) = characters rodata shift codes ++
      if IsPress code ∧ character rodata (codes.foldl shiftAfter shift) code ≠ 0 then
        [character rodata (codes.foldl shiftAfter shift) code]
      else [] := by
  induction codes generalizing shift with
  | nil =>
      change _ ++ [] = [] ++ _
      rw [List.append_nil, List.nil_append]
      rfl
  | cons first codes ih =>
      rw [List.cons_append, characters, ih, characters, List.foldl_cons, List.append_assoc]

theorem codesOf_append (events more : List Event) : codesOf (events ++ more) = codesOf events ++ codesOf more := by
  induction events with
  | nil => rfl
  | cons e events ih =>
      cases e with
      | interrupt scancode => exact congrArg (scancode :: ·) ih
      | step => exact ih

-- Every text is some lines with their Enter, and what has been typed since.
theorem exists_lines (text : List UInt8) : ∃ lines keys, text = keysOf lines ++ keys ∧
    (∀ l ∈ lines, IsLine l) ∧ ∀ c ∈ keys, ¬Readline.IsEnter c := by
  induction text using List.reverseRecOn with
  | nil => exact ⟨[], [], rfl, nofun, nofun⟩
  | append_singleton text c ih =>
      obtain ⟨lines, keys, rfl, hlines, hkeys⟩ := ih
      by_cases hc : Readline.IsEnter c
      · refine ⟨lines ++ [(keys, c)], [], ?_, fun l hl => ?_, nofun⟩
        · simp [keysOf]
        · rcases List.mem_append.mp hl with hl | hl
          · exact hlines l hl
          · rw [List.mem_singleton.mp hl]
            exact ⟨hkeys, hc⟩
      · refine ⟨lines, keys ++ [c], List.append_assoc .., hlines, fun d hd => ?_⟩
        rcases List.mem_append.mp hd with hd | hd
        · exact hkeys d hd
        · rwa [List.mem_singleton.mp hd]

end Text

section Following

variable {rest : Stdio.Memory} {address : UInt32} {buf : Nat → UInt8} {rodata : Nat → BitVec 8}
  {shift : Bool} {codes received : List (BitVec 8)} {c c' : Console} {e : Event} {n : Nat}

-- The shell takes every key.
theorem press_received (haddress : address ≠ 0)
    (h : _start rest address buf (received.map .ofBitVec) = some c.shell) (key : BitVec 8) :
    ∃ shell, press rest address c.shell (.ofBitVec key) = some shell ∧
      _start rest address buf ((received ++ [key]).map .ofBitVec) = some shell := by
  obtain ⟨lines, keys, htext, hlines, hkeys⟩ := exists_lines ((received ++ [key]).map .ofBitVec)
  obtain ⟨shell, hshell, -⟩ := start_transcript rest haddress buf hlines hkeys
  rw [← htext] at hshell
  refine ⟨shell, ?_, hshell⟩
  unfold _start at h hshell
  obtain ⟨s₀, hs₀, hkeys₀⟩ := Option.bind_eq_some_iff.mp h
  rw [hs₀, Option.bind_some, List.map_append, List.foldlM_append, hkeys₀] at hshell
  exact (bind_pure (press rest address c.shell (.ofBitVec key))).symm.trans hshell

-- What the call under way has in hand is the last character of the text.
def InHand (text received : List (BitVec 8)) (key : BitVec 8) : GetKey → Prop
  | .start => text = received
  | .wait => key = 0 ∧ text = received ∨ key ≠ 0 ∧ text = received ++ [key]
  | .found | .read => key ≠ 0 ∧ text = received ++ [key]
  | .clear output | .returned output => text = received ++ [output]

-- After `codes` the shell has been given the text, but for what is in hand.
structure Follows (rest : Stdio.Memory) (address : UInt32) (buf : Nat → UInt8) (rodata : Nat → BitVec 8)
    (shift : Bool) (codes : List (BitVec 8)) (c : Console) (received : List (BitVec 8)) : Prop where
  shell : _start rest address buf (received.map .ofBitVec) = some c.shell
  flag : decide (c.keyboard.memory SHIFT_ADDRESS ≠ 0) = codes.foldl shiftAfter shift
  hand : InHand (characters rodata shift codes) received (c.keyboard.memory KEY_ADDRESS) c.keyboard.point

theorem shift_step (k : Keyboard) : k.step.memory SHIFT_ADDRESS = k.memory SHIFT_ADDRESS := by
  have hne : SHIFT_ADDRESS ≠ KEY_ADDRESS := by decide
  unfold Keyboard.step
  split
  · exact store8_of_ne hne 0
  · split <;> rfl
  · rfl
  · rfl
  · exact store8_of_ne hne 0
  · rfl

theorem shift_interrupt (m : Memory) (code : BitVec 8) :
    decide (keyboardIrq1Handler rodata m code SHIFT_ADDRESS ≠ 0) =
      shiftAfter (decide (m SHIFT_ADDRESS ≠ 0)) code := by
  rw [keyboardIrq1Handler_shift]
  unfold shiftAfter
  split
  · rfl
  split <;> rfl

-- A scancode
theorem Follows.interrupt (h : Follows rest address buf rodata shift codes c received) {code : BitVec 8}
    (hpaced : IsPress code → Ready c.keyboard) :
    Follows rest address buf rodata shift (codes ++ [code])
      { c with keyboard := Keyboard.exec rodata c.keyboard (.interrupt code) } received := by
  refine ⟨h.shell, ?_, ?_⟩
  · rw [List.foldl_append, ← h.flag]
    exact shift_interrupt _ code
  · rw [characters_append, ← h.flag]
    have hhand := h.hand
    by_cases hpress : IsPress code
    · -- the key waits for the call to find it
      obtain ⟨hwait, hnone⟩ := hpaced hpress
      have hkey : keyboardIrq1Handler rodata c.keyboard.memory code KEY_ADDRESS =
          character rodata (decide (c.keyboard.memory SHIFT_ADDRESS ≠ 0)) code := by
        refine (keyboardIrq1Handler_press hpress).trans ?_
        unfold translated character
        simp only [decide_eq_true_eq]
      rw [hwait, hnone] at hhand
      have htext : characters rodata shift codes = received :=
        (hhand.resolve_right fun hsome => hsome.1 rfl).2
      change InHand _ received (keyboardIrq1Handler rodata c.keyboard.memory code KEY_ADDRESS)
        c.keyboard.point
      rw [hwait, hkey, htext]
      by_cases hzero : character rodata (decide (c.keyboard.memory SHIFT_ADDRESS ≠ 0)) code = 0
      · rw [if_neg fun hc => hc.2 hzero, List.append_nil]
        exact .inl ⟨hzero, rfl⟩
      · rw [if_pos ⟨hpress, hzero⟩]
        exact .inr ⟨hzero, rfl⟩
    · change InHand _ received (keyboardIrq1Handler rodata c.keyboard.memory code KEY_ADDRESS)
        c.keyboard.point
      rw [keyboardIrq1Handler_quiet hpress, if_neg fun hc => hpress hc.1, List.append_nil]
      exact hhand

-- Up to its return the call keeps the character that it has found.
theorem inHand_step {text : List (BitVec 8)} {k : Keyboard}
    (h : InHand text received (k.memory KEY_ADDRESS) k.point)
    (hcall : ∀ output, k.point ≠ .returned output) :
    InHand text received (k.step.memory KEY_ADDRESS) k.step.point := by
  unfold Keyboard.step
  cases hpoint : k.point with
  | start =>
      rw [hpoint] at h
      exact .inl ⟨store8_self k.memory KEY_ADDRESS 0, h⟩
  | wait =>
      dsimp only
      rw [hpoint] at h
      split
      · rwa [hpoint]
      · rename_i hsome
        exact h.resolve_left fun hnone => hsome hnone.1
  | found =>
      rw [hpoint] at h
      exact h
  | read =>
      rw [hpoint] at h
      exact h.2
  | clear output =>
      rw [hpoint] at h
      exact h
  | returned output => exact absurd hpoint (hcall output)

-- One statement of `get_key`, and the shell behind it
theorem Follows.step (haddress : address ≠ 0)
    (h : Follows rest address buf rodata shift codes c received) :
    ∃ c' received', exec rest address rodata c .step = .ok c' ∧ c'.keyboard = c.keyboard.step ∧
      Follows rest address buf rodata shift codes c' received' := by
  have hflag : decide (c.keyboard.step.memory SHIFT_ADDRESS ≠ 0) = codes.foldl shiftAfter shift := by
    rw [shift_step]
    exact h.flag
  have hhand := h.hand
  by_cases hcall : ∀ output, c.keyboard.point ≠ .returned output
  · refine ⟨{ c with keyboard := c.keyboard.step }, received, ?_, rfl, h.shell, hflag,
      inHand_step hhand hcall⟩
    unfold exec
    dsimp only
    split
    · rename_i output hpoint
      exact absurd hpoint (hcall output)
    · rfl
  · obtain ⟨output, hpoint⟩ := not_forall_not.mp hcall
    rw [hpoint] at hhand
    obtain ⟨shell, hpress, hshell⟩ := press_received haddress h.shell output
    refine ⟨⟨c.keyboard.step, shell⟩, received ++ [output], ?_, rfl, hshell, hflag, ?_⟩
    · unfold exec
      rw [hpoint]
      dsimp only
      rw [hpress]
    · unfold Keyboard.step
      rw [hpoint]
      exact hhand

theorem Follows.exec (haddress : address ≠ 0) (h : Follows rest address buf rodata shift codes c received)
    (hpaced : OneAtATime c e) :
    ∃ c' received', Console.exec rest address rodata c e = .ok c' ∧
      Follows rest address buf rodata shift (codes ++ codesOf [e]) c' received' := by
  cases e with
  | interrupt code => exact ⟨_, received, rfl, h.interrupt hpaced⟩
  | step =>
      obtain ⟨c', received', hexec, -, hfollows⟩ := h.step haddress
      exact ⟨c', received', hexec, by rw [codesOf, codesOf, List.append_nil]; exact hfollows⟩

-- Induction on the events, with what the shell has been given so far
theorem Follows.run (haddress : address ≠ 0) (h : Follows rest address buf rodata shift codes c received)
    {events : List Event} (hpaced : AllMet (Console.exec rest address rodata) OneAtATime c events) :
    ∃ c' received', Library.run (Console.exec rest address rodata) c events = .ok c' ∧
      Follows rest address buf rodata shift (codes ++ codesOf events) c' received' := by
  induction events generalizing c codes received with
  | nil => exact ⟨c, received, rfl, by rw [codesOf, List.append_nil]; exact h⟩
  | cons e events ih =>
      obtain ⟨mid, received', hexec, hmid⟩ := h.exec haddress hpaced.1
      obtain ⟨c', received'', hrun, hc'⟩ := ih hmid (hpaced.2 mid hexec)
      refine ⟨c', received'', (run_cons hexec events).trans hrun, ?_⟩
      rwa [List.append_assoc, ← codesOf_append, List.singleton_append] at hc'

-- The statements that are left of a call until it waits again without a key
def stepsLeft (k : Keyboard) : Nat :=
  match k.point with
  | .start => 1
  | .wait => if k.memory KEY_ADDRESS = 0 then 0 else 6
  | .found => 5
  | .read => 4
  | .clear _ => 3
  | .returned _ => 2

theorem stepsLeft_le (k : Keyboard) : stepsLeft k ≤ 6 := by
  unfold stepsLeft
  split
  · omega
  · split <;> omega
  all_goals omega

theorem stepsLeft_step (k : Keyboard) : stepsLeft k.step ≤ stepsLeft k - 1 := by
  unfold Keyboard.step
  cases hpoint : k.point with
  | wait =>
      dsimp only
      by_cases hnone : k.memory KEY_ADDRESS = 0
      · have hzero : stepsLeft k = 0 := by
          unfold stepsLeft
          rw [hpoint]
          exact if_pos hnone
        rw [if_pos hnone]
        omega
      · have hsix : stepsLeft k = 6 := by
          unfold stepsLeft
          rw [hpoint]
          exact if_neg hnone
        rw [if_neg hnone, hsix]
        exact Nat.le_refl 5
  | _ => simp [stepsLeft, hpoint]

theorem ready_of_stepsLeft {k : Keyboard} (h : stepsLeft k = 0) : Ready k := by
  unfold stepsLeft at h
  split at h
  · omega
  · rename_i hpoint
    split at h
    · rename_i hnone
      exact ⟨hpoint, hnone⟩
    · omega
  all_goals omega

-- Left alone, the call under way comes to wait again.
theorem Follows.settle (haddress : address ≠ 0) (h : Follows rest address buf rodata shift codes c received)
    (hleft : stepsLeft c.keyboard ≤ n) :
    ∃ c' received', Library.run (Console.exec rest address rodata) c (List.replicate n .step) = .ok c' ∧
      Follows rest address buf rodata shift codes c' received' ∧ Ready c'.keyboard := by
  induction n generalizing c received with
  | zero => exact ⟨c, received, rfl, h, ready_of_stepsLeft (Nat.le_zero.mp hleft)⟩
  | succ n ih =>
      obtain ⟨mid, received', hexec, hkeyboard, hmid⟩ := h.step haddress
      have hnext := stepsLeft_step c.keyboard
      rw [← hkeyboard] at hnext
      obtain ⟨c', received'', hrun, hc', hready⟩ := ih hmid (by omega)
      exact ⟨c', received'', (run_cons hexec _).trans hrun, hc', hready⟩

end Following

end Console

-- From scancodes to the screen: keys pressed one at a time all reach the shell, once each, in order
-- and with the characters they stand for, and the terminal shows the session they make.
theorem typed_session (rest : Stdio.Memory) {address : UInt32} (haddress : address ≠ 0)
    (buf : Nat → UInt8) (rodata : Nat → BitVec 8) {console : Console} {events : List Event} (screen : Screen)
    (hpoint : console.keyboard.point = .start) (hstart : Shell.start rest address buf = some console.shell)
    (hpaced : AllMet (Console.exec rest address rodata) Console.OneAtATime console events) :
    ∃ c lines keys,
      Library.run (Console.exec rest address rodata) console (events ++ List.replicate 6 .step) = .ok c ∧
      (Console.characters rodata (decide (console.keyboard.memory SHIFT_ADDRESS ≠ 0))
        (Console.codesOf events)).map .ofBitVec = keysOf lines ++ keys ∧
      (∀ l ∈ lines, IsLine l) ∧ (∀ k ∈ keys, ¬Readline.IsEnter k) ∧
      c.shell.output = transcript lines keys ∧
      Screen.Displays screen (c.shell.output.foldl sysPutc screen.clrscr)
        (Screen.pageOf c.shell.output) := by
  have hfollows : Console.Follows rest address buf rodata
      (decide (console.keyboard.memory SHIFT_ADDRESS ≠ 0)) [] console [] := by
    refine ⟨?_, rfl, ?_⟩
    · unfold _start
      rw [hstart]
      rfl
    · rw [hpoint]
      rfl
  obtain ⟨mid, received, hrun, hmid⟩ := hfollows.run haddress hpaced
  obtain ⟨c, received', hsettle, hc, hready⟩ := hmid.settle haddress (Console.stepsLeft_le mid.keyboard)
  have htext : Console.characters rodata (decide (console.keyboard.memory SHIFT_ADDRESS ≠ 0))
      (Console.codesOf events) = received' := by
    have hhand := hc.hand
    rw [hready.1] at hhand
    exact (hhand.resolve_right fun hsome => hsome.1 hready.2).2
  obtain ⟨lines, keys, hsplit, hlines, hkeys⟩ := Console.exists_lines (received'.map .ofBitVec)
  obtain ⟨s, hs, houtput⟩ := start_transcript rest haddress buf hlines hkeys
  have hshell := hc.shell
  rw [hsplit, hs] at hshell
  have hsame : s = c.shell := Option.some.inj hshell
  refine ⟨c, lines, keys, ?_, by rw [htext]; exact hsplit, hlines, hkeys, by rw [← hsame]; exact houtput, ?_⟩
  · exact (run_append hrun _).trans hsettle
  · rw [← hsame, houtput]
    exact displays_transcript screen lines keys

-- Shift and the key H
def typedEvents : List Event := [.step, .interrupt LSHIFT_MAKE, .interrupt 0x23]

theorem typed_session_sample : ∃ shell c,
    Shell.start (fun _ => 0) 0x600F00 (fun _ => 0xFF) = some shell ∧
      Library.run (Console.exec (fun _ => 0) 0x600F00 fun _ => 0) ⟨⟨fun _ => 0, .start, false⟩, shell⟩
        (typedEvents ++ List.replicate 6 .step) = .ok c ∧
      c.shell.output = transcript [] [0x48] := by
  have haddress : (0x600F00 : UInt32) ≠ 0 := by decide
  obtain ⟨shell, hstart, -⟩ := start_transcript (fun _ => 0) haddress (fun _ => 0xFF)
    (show ∀ l ∈ [], IsLine l from nofun) (show ∀ c ∈ [], ¬Readline.IsEnter c from nofun)
  have hbegun : Shell.start (fun _ => 0) 0x600F00 (fun _ => 0xFF) = some shell := by
    obtain ⟨s₀, hs₀, hnone⟩ := Option.bind_eq_some_iff.mp hstart
    rw [hs₀]
    exact hnone
  have hpaced : AllMet (Console.exec (fun _ => 0) 0x600F00 fun _ => 0) Console.OneAtATime
      ⟨⟨fun _ => 0, .start, false⟩, shell⟩ typedEvents := by
    refine ⟨trivial, fun s₁ h₁ => ?_⟩
    obtain rfl := Except.ok.inj h₁
    refine ⟨fun hpress => absurd hpress (by decide), fun s₂ h₂ => ?_⟩
    obtain rfl := Except.ok.inj h₂
    exact ⟨fun _ => ⟨rfl, rfl⟩, fun _ _ => trivial⟩
  obtain ⟨c, lines, keys, hrun, htext, hlines, hkeys, houtput, -⟩ := typed_session (fun _ => 0) haddress
    (fun _ => 0xFF) (fun _ => 0) Screen.darkScreen rfl hbegun hpaced
  have hletter : [0x48] = (Console.characters (fun _ => 0) false (Console.codesOf typedEvents)).map
      UInt8.ofBitVec := by decide +kernel
  have htyped : [0x48] = keysOf lines ++ keys := hletter.trans htext
  cases lines with
  | nil =>
      refine ⟨shell, c, hbegun, hrun, ?_⟩
      rw [houtput, ← show [0x48] = keys from htyped]
  | cons l lines =>
      have hmem : l.2 ∈ [0x48] := by
        rw [htyped]
        simp [keysOf]
      have henter := (hlines l List.mem_cons_self).2
      rw [List.mem_singleton.mp hmem] at henter
      exact absurd henter (by decide)

end ToyKernel
