import Mathlib.Data.List.Forall2
import ToyKernel.Keyboard.Shift

namespace ToyKernel.Keyboard

open Library ByteMemory

section Run

-- An interrupt that was translated, the time it came, and the key it left
structure Press where
  time : Nat
  key : BitVec 8

-- A call that has returned
structure Call where
  began : Nat
  ended : Nat
  output : BitVec 8

-- The keyboard with the history of what was pressed and what was returned. `began` is when the
-- last call cleared the key.
structure Traced where
  keyboard : Keyboard
  time : Nat
  began : Nat
  presses : List Press
  calls : List Call

def pressesBy (t : Traced) (key : BitVec 8) : Event → List Press
  | .interrupt scancode => if IsPress scancode then [⟨t.time, key⟩] else []
  | .step => []

def callsBy (t : Traced) : Event → List Call
  | .interrupt _ => []
  | .step =>
      match t.keyboard.point with
      | .clear output => [⟨t.began, t.time, output⟩]
      | _ => []

def begins (t : Traced) : Event → Nat
  | .interrupt _ => t.began
  | .step =>
      match t.keyboard.point with
      | .start => t.time
      | _ => t.began

def Traced.exec (rodata : Nat → BitVec 8) (t : Traced) (e : Event) : Traced :=
  let keyboard := Keyboard.exec rodata t.keyboard e
  { keyboard
    time := t.time + 1
    began := begins t e
    presses := t.presses ++ pressesBy t (keyboard.memory KEY_ADDRESS) e
    calls := t.calls ++ callsBy t e }

-- From a keyboard on that nothing has been recorded of
def traced (rodata : Nat → BitVec 8) (k : Keyboard) (events : List Event) : Traced :=
  events.foldl (Traced.exec rodata) { keyboard := k, time := 0, began := 0, presses := [], calls := [] }

-- Between the calls it is the caller who has the interrupts on or off.
def Accepts (k : Keyboard) : Prop :=
  k.interrupts = true ∨ k.point = .start ∨ ∃ output, k.point = .returned output

def Legal (rodata : Nat → BitVec 8) (k : Keyboard) (events : List Event) : Prop :=
  ∀ before scancode, before ++ [.interrupt scancode] <+: events →
    Accepts (traced rodata k before).keyboard

-- The call returned what the press was translated to, and the press came while it waited.
structure Answers (call : Call) (press : Press) : Prop where
  output : call.output = press.key
  nonzero : call.output ≠ 0
  after : call.began < press.time
  before : press.time < call.ended

-- Each call has a press of its own.
def Delivers (t : Traced) : Prop :=
  ∃ chosen, List.Sublist chosen t.presses ∧ chosen.Pairwise (fun p q => p.time < q.time) ∧
    List.Forall₂ Answers t.calls chosen

-- A press that is translated to 0
def Untranslated (rodata : Nat → BitVec 8) (scancode : BitVec 8) : Prop :=
  IsPress scancode ∧ scancodeToAscii rodata scancode = 0

def Quiet (e : Event) : Prop := ∃ scancode, e = .interrupt scancode ∧ ¬IsPress scancode

-- The last press between the loop and its `cli` is translated to 0, and `n` steps have been made
-- since.
def Spoiled (rodata : Nat → BitVec 8) (k : Keyboard) (events : List Event) (n : Nat) : Prop :=
  ∃ before scancode after, events = before ++ .interrupt scancode :: (after ++ List.replicate n .step) ∧
    (traced rodata k before).keyboard.point = .found ∧ Untranslated rodata scancode ∧ ∀ e ∈ after, Quiet e

-- That happened in a call that has returned, three steps later.
def Overwritten (rodata : Nat → BitVec 8) (k : Keyboard) (events : List Event) : Prop :=
  ∃ before, before <+: events ∧ Spoiled rodata k before 3

end Run

section Invariant

variable {rodata : Nat → BitVec 8} {k : Keyboard} {t : Traced} {events : List Event} {e : Event}
  {scancode value : BitVec 8} {n : Nat}

def Answered (calls : List Call) (presses : List Press) : Prop :=
  ∃ chosen, List.Sublist chosen presses ∧ List.Forall₂ Answers calls chosen

-- The value in hand is that of a press that came while the call waited, after all those that
-- have answered other calls.
def Pending (t : Traced) (value : BitVec 8) : Prop :=
  ∃ old new press, t.presses = old ++ new ∧ Answered t.calls old ∧ press ∈ new ∧ t.began < press.time ∧
    press.key = value

-- What is in hand at each point of a call
def InHand (rodata : Nat → BitVec 8) (k : Keyboard) (events : List Event) (t : Traced) : GetKey → Prop
  | .start | .returned _ => True
  | .wait => t.keyboard.memory KEY_ADDRESS = 0 ∨ Pending t (t.keyboard.memory KEY_ADDRESS)
  | .found => Pending t (t.keyboard.memory KEY_ADDRESS) ∧
      (t.keyboard.memory KEY_ADDRESS = 0 → Spoiled rodata k events 0)
  | .read => t.keyboard.interrupts = false ∧ Pending t (t.keyboard.memory KEY_ADDRESS) ∧
      (t.keyboard.memory KEY_ADDRESS = 0 → Spoiled rodata k events 1)
  | .clear output => t.keyboard.interrupts = false ∧ Pending t output ∧
      (output = 0 → Spoiled rodata k events 2)

structure Invariant (rodata : Nat → BitVec 8) (k : Keyboard) (events : List Event) (t : Traced) : Prop where
  answered : Answered t.calls t.presses
  past : ∀ p ∈ t.presses, p.time < t.time
  sorted : t.presses.Pairwise fun p q => p.time < q.time
  began : t.keyboard.point = .start ∨ t.began < t.time
  inHand : InHand rodata k events t t.keyboard.point

theorem Answered.append {calls : List Call} {presses : List Press} (h : Answered calls presses)
    (more : List Press) : Answered calls (presses ++ more) := by
  obtain ⟨chosen, hsub, hall⟩ := h
  exact ⟨chosen, hsub.trans (List.sublist_append_left presses more), hall⟩

theorem traced_append (rodata : Nat → BitVec 8) (k : Keyboard) (events more : List Event) :
    traced rodata k (events ++ more) = more.foldl (Traced.exec rodata) (traced rodata k events) :=
  List.foldl_append

theorem Spoiled.quiet (h : Spoiled rodata k events 0) (he : Quiet e) : Spoiled rodata k (events ++ [e]) 0 := by
  obtain ⟨before, scancode, after, rfl, hpoint, huntranslated, hquiet⟩ := h
  refine ⟨before, scancode, after ++ [e], by simp, hpoint, huntranslated, fun a ha => ?_⟩
  rcases List.mem_append.mp ha with ha | ha
  · exact hquiet a ha
  · exact List.mem_singleton.mp ha ▸ he

theorem Spoiled.step (h : Spoiled rodata k events n) : Spoiled rodata k (events ++ [.step]) (n + 1) := by
  obtain ⟨before, scancode, after, rfl, hpoint, huntranslated, hquiet⟩ := h
  refine ⟨before, scancode, after, ?_, hpoint, huntranslated, hquiet⟩
  rw [List.replicate_succ']
  simp

theorem exec_calls (hcalls : callsBy t e = []) : (t.exec rodata e).calls = t.calls := by
  change t.calls ++ callsBy t e = _
  rw [hcalls, List.append_nil]

theorem Pending.exec (h : Pending t value) (hcalls : callsBy t e = []) (hbegins : begins t e = t.began) :
    Pending (t.exec rodata e) value := by
  obtain ⟨old, new, press, hpresses, hanswered, hmem, hbegan, hkey⟩ := h
  let more := pressesBy t ((t.exec rodata e).keyboard.memory KEY_ADDRESS) e
  refine ⟨old, new ++ more, press, ?_, ?_, List.mem_append_left more hmem, ?_, hkey⟩
  · rw [← List.append_assoc, ← hpresses]
    rfl
  · rw [exec_calls hcalls]
    exact hanswered
  · exact lt_of_eq_of_lt hbegins hbegan

-- A press comes after all those that have answered calls.
theorem Invariant.press (h : Invariant rodata k events t) (hbegan : t.began < t.time)
    (hpress : IsPress scancode) :
    Pending (t.exec rodata (.interrupt scancode)) (translated rodata t.keyboard.memory scancode) := by
  let press : Press := ⟨t.time, translated rodata t.keyboard.memory scancode⟩
  refine ⟨t.presses, [press], press, ?_, ?_, List.mem_singleton.mpr rfl, hbegan, rfl⟩
  · change t.presses ++
      (if IsPress scancode then [⟨t.time, keyboardIrq1Handler _ _ _ KEY_ADDRESS⟩] else []) = _
    rw [if_pos hpress, keyboardIrq1Handler_press hpress]
  · rw [exec_calls rfl]
    exact h.answered

-- From its `cli` on a call takes no interrupt.
theorem not_accepts {k : Keyboard} (hoff : k.interrupts = false) (hstart : k.point ≠ .start)
    (hreturned : ∀ output, k.point ≠ .returned output) : ¬Accepts k := by
  rintro (hon | hpoint | ⟨output, hpoint⟩)
  · exact Bool.noConfusion (hoff.symm.trans hon)
  · exact hstart hpoint
  · exact hreturned output hpoint

-- What is pressed while the call waits or comes to its `cli`
theorem Invariant.inHand_interrupt (h : Invariant rodata k events t) (ht : t = traced rodata k events)
    (haccepts : Accepts t.keyboard) (scancode : BitVec 8) :
    InHand rodata k (events ++ [.interrupt scancode]) (t.exec rodata (.interrupt scancode))
      t.keyboard.point := by
  have hmemory : (t.exec rodata (.interrupt scancode)).keyboard.memory KEY_ADDRESS =
      keyboardIrq1Handler rodata t.keyboard.memory scancode KEY_ADDRESS := rfl
  have hinHand := h.inHand
  have hbegan := h.began
  cases hpoint : t.keyboard.point with
  | start => trivial
  | returned output => trivial
  | wait =>
      rw [hpoint] at hinHand hbegan
      have hbegan := hbegan.resolve_left nofun
      change _ = 0 ∨ Pending _ _
      rw [hmemory]
      by_cases hpress : IsPress scancode
      · rw [keyboardIrq1Handler_press hpress]
        exact .inr (h.press hbegan hpress)
      · rw [keyboardIrq1Handler_quiet hpress]
        exact hinHand.imp id fun hpending => hpending.exec rfl rfl
  | found =>
      rw [hpoint] at hinHand hbegan
      have hbegan := hbegan.resolve_left nofun
      obtain ⟨hpending, hspoiled⟩ := hinHand
      change Pending _ _ ∧ (_ = 0 → _)
      rw [hmemory]
      by_cases hpress : IsPress scancode
      · rw [keyboardIrq1Handler_press hpress]
        refine ⟨h.press hbegan hpress, fun hzero => ⟨events, scancode, [], rfl, ?_, ?_, nofun⟩⟩
        · rw [← ht]
          exact hpoint
        · exact ⟨hpress, translated_eq_zero_iff.mp hzero⟩
      · rw [keyboardIrq1Handler_quiet hpress]
        exact ⟨hpending.exec rfl rfl, fun hzero => (hspoiled hzero).quiet ⟨scancode, rfl, hpress⟩⟩
  | read | clear output =>
      rw [hpoint] at hinHand
      refine absurd haccepts (not_accepts hinHand.1 ?_ fun output => ?_)
      · rw [hpoint]
        nofun
      · rw [hpoint]
        nofun

theorem Invariant.interrupt (h : Invariant rodata k events t) (ht : t = traced rodata k events)
    (haccepts : Accepts t.keyboard) (scancode : BitVec 8) :
    Invariant rodata k (events ++ [.interrupt scancode]) (t.exec rodata (.interrupt scancode)) := by
  have hnew : ∀ p ∈ pressesBy t ((t.exec rodata (.interrupt scancode)).keyboard.memory KEY_ADDRESS)
      (.interrupt scancode), p.time = t.time := by
    intro p hp
    unfold pressesBy at hp
    dsimp only at hp
    split at hp
    · rw [List.mem_singleton.mp hp]
    · cases hp
  refine ⟨?_, fun p hp => ?_, ?_, h.began.imp id Nat.lt_succ_of_lt, h.inHand_interrupt ht haccepts scancode⟩
  · rw [exec_calls rfl]
    exact h.answered.append _
  · rcases List.mem_append.mp hp with hp | hp
    · exact Nat.lt_succ_of_lt (h.past p hp)
    · rw [hnew p hp]
      exact Nat.lt_succ_self t.time
  · refine List.pairwise_append.mpr ⟨h.sorted, ?_, fun p hp q hq => ?_⟩
    · unfold pressesBy
      dsimp only
      split
      · exact List.pairwise_singleton _ _
      · exact List.Pairwise.nil
    · rw [hnew q hq]
      exact h.past p hp

-- The press in hand answers the call that returns.
theorem Pending.answered (h : Pending t value) (hne : value ≠ 0) (hpast : ∀ p ∈ t.presses, p.time < t.time) :
    Answered (t.calls ++ [⟨t.began, t.time, value⟩]) t.presses := by
  obtain ⟨old, new, press, hpresses, ⟨chosen, hsub, hall⟩, hmem, hbegan, rfl⟩ := h
  refine ⟨chosen ++ [press], ?_, List.rel_append hall (.cons ?_ .nil)⟩
  · rw [hpresses]
    exact hsub.append (List.singleton_sublist.mpr hmem)
  · have htime := hpast press (hpresses ▸ List.mem_append_right old hmem)
    exact ⟨rfl, hne, hbegan, htime⟩

theorem Invariant.inHand_step (h : Invariant rodata k events t) :
    InHand rodata k (events ++ [.step]) (t.exec rodata .step) (t.exec rodata .step).keyboard.point := by
  obtain ⟨⟨memory, point, interrupts⟩, time, began, presses, calls⟩ := t
  have hinHand := h.inHand
  cases point with
  | start => exact .inl (store8_self memory KEY_ADDRESS 0)
  | wait =>
      by_cases hzero : memory KEY_ADDRESS = 0
      · have hstay : (Traced.exec rodata ⟨⟨memory, .wait, interrupts⟩, time, began, presses, calls⟩
            .step).keyboard = ⟨memory, .wait, interrupts⟩ := if_pos hzero
        have hkey := congrArg (fun k : Keyboard => k.memory KEY_ADDRESS) hstay
        rw [hstay]
        exact .inl (hkey.trans hzero)
      · have hfound : (Traced.exec rodata ⟨⟨memory, .wait, interrupts⟩, time, began, presses, calls⟩
            .step).keyboard = ⟨memory, .found, interrupts⟩ := if_neg hzero
        have hkey := congrArg (fun k : Keyboard => k.memory KEY_ADDRESS) hfound
        rw [hfound]
        refine ⟨?_, fun h => absurd (hkey.symm.trans h) hzero⟩
        exact (congrArg (Pending _) hkey).mpr ((hinHand.resolve_left hzero).exec rfl rfl)
  | found =>
      obtain ⟨hpending, hspoiled⟩ := hinHand
      exact ⟨rfl, hpending.exec rfl rfl, fun hzero => (hspoiled hzero).step⟩
  | read =>
      obtain ⟨hoff, hpending, hspoiled⟩ := hinHand
      exact ⟨hoff, hpending.exec rfl rfl, fun hzero => (hspoiled hzero).step⟩
  | clear output => trivial
  | returned output => trivial

theorem Invariant.step (h : Invariant rodata k events t) (hclean : ¬Spoiled rodata k (events ++ [.step]) 3) :
    Invariant rodata k (events ++ [.step]) (t.exec rodata .step) := by
  have hpresses : (t.exec rodata .step).presses = t.presses := List.append_nil _
  have hinHand := h.inHand
  refine ⟨?_, fun p hp => ?_, ?_, .inr ?_, h.inHand_step⟩
  · rw [hpresses]
    change Answered (t.calls ++ callsBy t .step) t.presses
    cases hpoint : t.keyboard.point with
    | clear output =>
        rw [hpoint] at hinHand
        obtain ⟨-, hpending, hspoiled⟩ := hinHand
        have hne : output ≠ 0 := fun hzero => hclean (hspoiled hzero).step
        simp only [callsBy, hpoint]
        exact hpending.answered hne h.past
    | start | wait | found | read | returned output =>
        simp only [callsBy, hpoint, List.append_nil]
        exact h.answered
  · rw [hpresses] at hp
    exact Nat.lt_succ_of_lt (h.past p hp)
  · rw [hpresses]
    exact h.sorted
  · change begins t .step < t.time + 1
    have hbegan := h.began
    cases hpoint : t.keyboard.point with
    | start =>
        simp only [begins, hpoint]
        exact Nat.lt_succ_self t.time
    | wait | found | read | clear output | returned output =>
        rw [hpoint] at hbegan
        simp only [begins, hpoint]
        exact Nat.lt_succ_of_lt (hbegan.resolve_left nofun)

theorem invariant_run (hstart : k.point = .start) (hlegal : Legal rodata k events)
    (hclean : ¬Overwritten rodata k events) : Invariant rodata k events (traced rodata k events) := by
  induction events using List.reverseRecOn with
  | nil =>
      refine ⟨⟨[], List.nil_sublist _, .nil⟩, nofun, .nil, .inl hstart, ?_⟩
      change InHand rodata k [] _ k.point
      rw [hstart]
      trivial
  | append_singleton events e ih =>
      have hpre : events <+: events ++ [e] := List.prefix_append events [e]
      have ih := ih (fun before scancode hb => hlegal before scancode (hb.trans hpre))
        fun ⟨before, hb, hspoiled⟩ => hclean ⟨before, hb.trans hpre, hspoiled⟩
      rw [traced_append]
      cases e with
      | interrupt scancode => exact ih.interrupt rfl (hlegal events scancode (List.prefix_refl _)) scancode
      | step => exact ih.step fun hspoiled => hclean ⟨_, List.prefix_refl _, hspoiled⟩

end Invariant

section Overwriting

variable {rodata : Nat → BitVec 8} {k : Keyboard} {t : Traced} {events : List Event}

theorem found_of_quiet {after : List Event} (hquiet : ∀ e ∈ after, Quiet e)
    (hpoint : t.keyboard.point = .found) (hkey : t.keyboard.memory KEY_ADDRESS = 0) :
    (after.foldl (Traced.exec rodata) t).keyboard.point = .found ∧
      (after.foldl (Traced.exec rodata) t).keyboard.memory KEY_ADDRESS = 0 := by
  induction after generalizing t with
  | nil => exact ⟨hpoint, hkey⟩
  | cons e after ih =>
      obtain ⟨scancode, rfl, hnot⟩ := hquiet e List.mem_cons_self
      refine ih (fun a ha => hquiet a (List.mem_cons_of_mem _ ha)) hpoint ?_
      exact (keyboardIrq1Handler_quiet hnot).trans hkey

-- From the `cli` on a call returns what it then finds.
theorem call_of_found (rodata : Nat → BitVec 8) (hpoint : t.keyboard.point = .found) :
    ∃ call ∈ ((List.replicate 3 Event.step).foldl (Traced.exec rodata) t).calls,
      call.output = t.keyboard.memory KEY_ADDRESS := by
  obtain ⟨⟨memory, point, interrupts⟩, time, began, presses, calls⟩ := t
  cases hpoint
  exact ⟨_, List.mem_append_right _ (List.mem_singleton.mpr rfl), rfl⟩

theorem call_mem_foldl {call : Call} (hcall : call ∈ t.calls) (events : List Event) :
    call ∈ (events.foldl (Traced.exec rodata) t).calls := by
  induction events generalizing t with
  | nil => exact hcall
  | cons e events ih => exact ih (List.mem_append_left _ hcall)

theorem Overwritten.output (h : Overwritten rodata k events) :
    ∃ call ∈ (traced rodata k events).calls, call.output = 0 := by
  obtain ⟨_, ⟨rest, rfl⟩, before, scancode, after, rfl, hpoint, ⟨hpress, hzero⟩, hquiet⟩ := h
  let t := traced rodata k before
  have hkey : (t.exec rodata (.interrupt scancode)).keyboard.memory KEY_ADDRESS = 0 :=
    (keyboardIrq1Handler_press hpress).trans (translated_eq_zero_iff.mpr hzero)
  obtain ⟨hfound, hkept⟩ := found_of_quiet (t := t.exec rodata (.interrupt scancode)) hquiet hpoint hkey
  obtain ⟨call, hcall, houtput⟩ := call_of_found rodata hfound
  refine ⟨call, ?_, houtput.trans hkept⟩
  rw [traced_append]
  apply call_mem_foldl
  rw [traced_append, List.foldl_cons, List.foldl_append]
  exact hcall

theorem Delivers.nonzero (h : Delivers t) : ∀ call ∈ t.calls, call.output ≠ 0 := by
  obtain ⟨chosen, -, -, hall⟩ := h
  exact ((List.forall₂_and_left _ chosen).mp (hall.imp fun _ _ ha => ⟨ha.nonzero, ha⟩)).1

end Overwriting

-- For every order in which interrupts come between the steps, each call returns a press of its
-- own exactly when no call has its key replaced by an untranslated one before its `cli`.
theorem delivers_iff {rodata : Nat → BitVec 8} {k : Keyboard} {events : List Event} (hstart : k.point = .start)
    (hlegal : Legal rodata k events) :
    Delivers (traced rodata k events) ↔ ¬Overwritten rodata k events := by
  constructor
  · intro h hover
    obtain ⟨call, hcall, hzero⟩ := hover.output
    exact h.nonzero call hcall hzero
  · intro hclean
    have h := invariant_run hstart hlegal hclean
    obtain ⟨chosen, hsub, hall⟩ := h.answered
    exact ⟨chosen, hsub, h.sorted.sublist hsub, hall⟩

section Sample

theorem Legal.append {rodata : Nat → BitVec 8} {k : Keyboard} {events : List Event} {e : Event}
    (h : Legal rodata k events) (he : e = .step ∨ Accepts (traced rodata k events).keyboard) :
    Legal rodata k (events ++ [e]) := by
  intro before scancode hpre
  rcases List.prefix_concat_iff.mp hpre with hlast | hpre
  · obtain ⟨rfl, hone⟩ := List.append_inj' hlast rfl
    obtain rfl := List.singleton_inj.mp hone
    exact he.resolve_left nofun
  · exact h before scancode hpre

def sampleKeyboard : Keyboard where
  memory := fun _ => 0
  point := .start
  interrupts := false

-- 'a' is pressed while a call waits, and Alt when it has seen the 'a'.
def sampleEvents : List Event :=
  [.step, .interrupt 0x1E, .step, .interrupt 0x38] ++ List.replicate 3 .step

theorem sampleEvents_legal : Legal (fun _ => 0) sampleKeyboard sampleEvents := by
  have hnil : Legal (fun _ => 0) sampleKeyboard [] := fun before _ h =>
    absurd (List.prefix_nil.mp h) (List.append_ne_nil_of_right_ne_nil before (List.cons_ne_nil _ []))
  have hwait := hnil.append (e := .step) (.inl rfl)
  have hletter := hwait.append (e := .interrupt 0x1E) (.inr (.inl rfl))
  have hfound := hletter.append (e := .step) (.inl rfl)
  have halt := hfound.append (e := .interrupt 0x38) (.inr (.inl rfl))
  exact ((halt.append (e := .step) (.inl rfl)).append (e := .step) (.inl rfl)).append (e := .step) (.inl rfl)

theorem delivers_iff_sample :
    Delivers (traced (fun _ => 0) sampleKeyboard sampleEvents) ↔
      ¬Overwritten (fun _ => 0) sampleKeyboard sampleEvents :=
  delivers_iff rfl sampleEvents_legal

-- The call returns 0.
theorem not_delivers_sample : ¬∀ (rodata : Nat → BitVec 8) (k : Keyboard) (events : List Event),
    k.point = .start → Legal rodata k events → Delivers (traced rodata k events) := by
  intro h
  have hdelivers := h _ _ _ rfl sampleEvents_legal
  have hspoiled : Spoiled (fun _ => 0) sampleKeyboard sampleEvents 3 :=
    ⟨[.step, .interrupt 0x1E, .step], 0x38, [], rfl, rfl, ⟨by decide, by decide⟩, nofun⟩
  obtain ⟨call, hcall, hzero⟩ := Overwritten.output ⟨_, List.prefix_refl _, hspoiled⟩
  exact hdelivers.nonzero call hcall hzero

end Sample

end ToyKernel.Keyboard
