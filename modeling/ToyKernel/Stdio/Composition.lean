import ToyKernel.Stdio.Agreement

namespace ToyKernel.Stdio

open Library

section Formats

-- The loop is back in its first state at the end of the format.
def EndsOutside (fmt : List UInt8) : Prop := (scanner.final .start fmt).state = .normal

-- Outside a directive, and right behind the percent sign, no modifier is remembered.
def Control.Fresh (s : Control) : Prop := s.state = .normal ∨ s.state = .length → s.length = .default

theorem fresh_next {s : Control} (h : s.Fresh) (c : UInt8) : (s.next c).Fresh := by
  obtain ⟨state, length⟩ := s
  unfold Control.next
  cases state with
  | normal =>
      have hlength : length = .default := h (.inl rfl)
      simp only
      split
      · exact fun _ => hlength
      · exact fun _ => hlength
  | length =>
      simp only
      split
      · exact nofun
      · split
        · exact nofun
        · exact fun _ => rfl
  | lengthShort | lengthLong =>
      simp only
      split
      · exact nofun
      · exact fun _ => rfl
  | spec => exact fun _ => rfl

theorem fresh_final {s : Control} (h : s.Fresh) (fmt : List UInt8) : (scanner.final s fmt).Fresh := by
  induction fmt generalizing s with
  | nil => exact h
  | cons c fmt ih => exact ih (fresh_next h c)

theorem EndsOutside.final {fmt : List UInt8} (h : EndsOutside fmt) : scanner.final .start fmt = .start := by
  have hfresh : Control.start.Fresh := fun _ => rfl
  have hlength := fresh_final hfresh fmt (.inl h)
  calc scanner.final .start fmt
      = ⟨(scanner.final .start fmt).state, (scanner.final .start fmt).length⟩ := rfl
    _ = .start := by rw [h, hlength]; rfl

theorem scan_append {fmt : List UInt8} (h : EndsOutside fmt) (more : List UInt8) :
    scan (fmt ++ more) = scan fmt ++ scan more := by
  unfold scan
  rw [Transducer.events_append, h.final]

-- Text without a percent sign
theorem scan_text {text : List UInt8} (h : PERCENT ∉ text) :
    scanner.final .start text = .start ∧ scan text = text.map .text := by
  unfold scan
  induction text with
  | nil => exact ⟨rfl, rfl⟩
  | cons c text ih =>
      obtain ⟨hc, htext⟩ := not_or.mp (mt List.mem_cons.mpr h)
      have hne : ¬c = PERCENT := fun he => hc he.symm
      obtain ⟨hfinal, hevents⟩ := ih htext
      have hnext : scanner.next .start c = .start := if_neg hne
      have hemit : scanner.emit .start c = some (.text c) := if_neg hne
      constructor
      · exact (congrArg (scanner.final · text) hnext).trans hfinal
      · rw [Transducer.events, hnext, hemit, hevents]
        rfl

-- The modifiers, and the characters that would go on with them
def Length.chars : Length → List UInt8
  | .default => []
  | .short => [CHAR_H]
  | .shortShort => [CHAR_H, CHAR_H]
  | .long => [CHAR_L]
  | .longLong => [CHAR_L, CHAR_L]

def Continues (length : Length) (c : UInt8) : Prop :=
  match length with
  | .default => c = CHAR_H ∨ c = CHAR_L
  | .short => c = CHAR_H
  | .long => c = CHAR_L
  | .shortShort | .longLong => False

def directive (length : Length) (c : UInt8) : List UInt8 := PERCENT :: (length.chars ++ [c])

theorem scan_directive {length : Length} {c : UInt8} (h : ¬Continues length c) :
    scanner.final .start (directive length c) = .start ∧
      scan (directive length c) = [.directive length (conversion c)] := by
  unfold scan directive
  cases length with
  | default =>
      obtain ⟨hh, hl⟩ := not_or.mp h
      constructor
      · exact (if_neg hh).trans (if_neg hl)
      · exact congrArg (fun e : Option Event => e.toList ++ [])
          ((if_neg hh).trans (if_neg hl) : scanner.emit ⟨.length, .default⟩ c = some _)
  | short =>
      have hh : ¬c = CHAR_H := h
      constructor
      · exact if_neg hh
      · exact congrArg (fun e : Option Event => e.toList ++ [])
          (if_neg hh : scanner.emit ⟨.lengthShort, .short⟩ c = some _)
  | long =>
      have hl : ¬c = CHAR_L := h
      constructor
      · exact if_neg hl
      · exact congrArg (fun e : Option Event => e.toList ++ [])
          (if_neg hl : scanner.emit ⟨.lengthLong, .long⟩ c = some _)
  | shortShort => exact ⟨rfl, rfl⟩
  | longLong => exact ⟨rfl, rfl⟩

end Formats

section Rendering

variable {puts : UInt32 → Option (List UInt8)} {args args' : Nat → UInt32}

-- What the events emit with the arguments from word `k` on
def render (puts : UInt32 → Option (List UInt8)) (args : Nat → UInt32) :
    (k : Nat) → List Event → Option (List UInt8)
  | _, [] => some []
  | k, e :: events =>
      (e.output puts args k).bind fun text => (render puts args (k + e.words) events).map (text ++ ·)

theorem render_append (k : Nat) (events more : List Event) :
    render puts args k (events ++ more) =
      (render puts args k events).bind fun text =>
        (render puts args (k + wordsOf events) more).map (text ++ ·) := by
  induction events generalizing k with
  | nil => exact (Option.map_id' (x := render puts args k more)).symm
  | cons e events ih =>
      rw [List.cons_append, render, render, ih]
      have hwords : k + wordsOf (e :: events) = k + e.words + wordsOf events := by
        unfold wordsOf
        rw [List.map_cons, List.sum_cons, Nat.add_assoc]
      rw [hwords]
      cases e.output puts args k with
      | none => rfl
      | some text =>
          cases render puts args (k + e.words) events with
          | none => rfl
          | some rest =>
              cases render puts args (k + e.words + wordsOf events) more with
              | none => rfl
              | some last => exact congrArg some (List.append_assoc text rest last).symm

theorem render_text (k : Nat) (text : List UInt8) : render puts args k (text.map .text) = some text := by
  induction text generalizing k with
  | nil => rfl
  | cons c text ih =>
      rw [List.map_cons, render, ih]
      rfl

theorem wordsOf_text (text : List UInt8) : wordsOf (text.map .text) = 0 := by
  induction text with
  | nil => rfl
  | cons c text ih => exact (Nat.zero_add _).trans ih

-- An event reads the words it asks for, and no others.
theorem output_congr {e : Event} {k k' : Nat} (h : ∀ i < e.words, args (k + i) = args' (k' + i)) :
    e.output puts args k = e.output puts args' k' := by
  cases e with
  | text c => rfl
  | directive length conversion =>
      cases conversion with
      | character | string =>
          have hfirst : args k = args' k' := h 0 Nat.one_pos
          simp only [Event.output, Conversion.output, hfirst]
      | percent | other => rfl
      | numeral radix sign =>
          have hfirst : args k = args' k' := h 0 (words_pos length)
          cases length with
          | longLong =>
              have hsecond : args (k + 1) = args' (k' + 1) := h 1 Nat.one_lt_two
              simp only [Event.output, Conversion.output, numeralText, Formatter.vaArgLongLong, hfirst,
                hsecond]
          | default | shortShort | short | long =>
              cases sign <;> simp only [Event.output, Conversion.output, numeralText, hfirst]

theorem render_congr {k k' : Nat} {events : List Event}
    (h : ∀ i < wordsOf events, args (k + i) = args' (k' + i)) :
    render puts args k events = render puts args' k' events := by
  induction events generalizing k k' with
  | nil => rfl
  | cons e events ih =>
      unfold wordsOf at h
      rw [List.map_cons, List.sum_cons] at h
      have hhead : e.output puts args k = e.output puts args' k' :=
        output_congr fun i hi => h i (Nat.lt_add_right _ hi)
      have hrest : render puts args (k + e.words) events = render puts args' (k' + e.words) events :=
        ih fun i hi => by
          rw [Nat.add_assoc, Nat.add_assoc]
          exact h (e.words + i) (Nat.add_lt_add_left hi _)
      rw [render, render, hhead, hrest]

-- Where the strings have an end the output has one.
theorem exists_render {mem : Memory} (hputs : ∀ str, IsString mem str → ∃ text, puts str = some text)
    {k : Nat} {events : List Event} (h : Matches mem args k events) :
    ∃ text, render puts args k events = some text := by
  induction events generalizing k with
  | nil => exact ⟨_, rfl⟩
  | cons e events ih =>
      obtain ⟨hstring, hevents⟩ := h
      obtain ⟨text, htext⟩ : ∃ text, e.output puts args k = some text := by
        cases e with
        | text c => exact ⟨_, rfl⟩
        | directive length conversion =>
            cases conversion with
            | string => exact hputs _ (hstring length rfl)
            | character | percent | numeral | other => exact ⟨_, rfl⟩
      obtain ⟨rest, hrest⟩ := ih hevents
      exact ⟨text ++ rest, by rw [render, htext, Option.bind_some, hrest]; rfl⟩

-- With a reset that clears `number` the events are rendered one behind the other.
theorem foldlM_act_eq (events : List Event) {t : Store} (h : t.number = false) :
    events.foldlM (Store.act puts args fun _ => false) t =
      (render puts args t.taken events).map fun text => (t.putAll text).take (wordsOf events) := by
  induction events generalizing t with
  | nil => exact congrArg some (by simp [Store.putAll, Store.take, wordsOf])
  | cons e events ih =>
      rw [List.foldlM_cons, act_kernel h, render]
      cases e.output puts args t.taken with
      | none => rfl
      | some text =>
          have hrest := ih (t := (t.putAll text).take e.words) h
          rw [Store.taken_take, Store.taken_putAll] at hrest
          change events.foldlM _ ((t.putAll text).take e.words) = _
          rw [hrest]
          cases render puts args (t.taken + e.words) events with
          | none => rfl
          | some rest =>
              refine congrArg some ?_
              simp [Store.putAll, Store.take, wordsOf, Nat.add_assoc]

-- All variables of the loop are back at their first values where a format ends outside a directive.
theorem variables_restored {reset : Formatter → Formatter} (hreset : Resets reset fun _ => false)
    {fmt : List UInt8} (hends : EndsOutside fmt) {f : Formatter}
    (h : fmt.foldlM (Formatter.step puts reset args) .start = some f) :
    f = { Formatter.start with taken := f.taken, emitted := f.emitted } := by
  have hrun := Transducer.foldlM_load (step_load puts args hreset) .start .start fmt
  rw [hends.final] at hrun
  obtain ⟨t, ht, rfl⟩ := Option.map_eq_some_iff.mp (hrun.symm.trans h)
  have hnumber : Store.start.number = false := rfl
  rw [show scanner.events .start fmt = scan fmt from rfl, foldlM_act_eq (scan fmt) hnumber] at ht
  obtain ⟨text, -, rfl⟩ := Option.map_eq_some_iff.mp ht
  rfl

end Rendering

section Compositional

-- A call of printf with what its directives ask for at the beginning of the argument list
def onStack (a : List UInt32) (above : Nat → UInt32) : Nat → UInt32 := fun k =>
  if h : k < a.length then a[k] else above (k - a.length)

theorem onStack_of_lt {a : List UInt32} {above above' : Nat → UInt32} {k : Nat} (h : k < a.length) :
    onStack a above k = onStack a above' k := by
  unfold onStack
  rw [dif_pos h, dif_pos h]

theorem onStack_length_add (a : List UInt32) (above : Nat → UInt32) (k : Nat) :
    onStack a above (a.length + k) = above k := by
  unfold onStack
  rw [dif_neg (by omega), Nat.add_sub_cancel_left]

-- "csdiuxXpo"
def SPECIFIERS : List UInt8 := [0x63, 0x73, 0x64, 0x69, 0x75, 0x78, 0x58, 0x70, 0x6F]

-- The words of an argument: a `long long` has two.
def width (length : Length) (c : UInt8) : Nat :=
  if length = .longLong ∧ c ≠ 0x63 ∧ c ≠ 0x73 then 2 else 1

-- A formatter whose output for two formats, one behind the other, is the output for either, the
-- second one with the arguments behind those of the first. It comes to its end for every directive
-- by itself, %s with a string that does, and for every format whose strings do.
structure Compositional (mem : Memory) (printf : List UInt8 → (Nat → UInt32) → Option Printed) : Prop where
  append : ∀ f₁ f₂ a₁ a₂ above, EndsOutside f₁ → wordsOf (scan f₁) = a₁.length →
    printf (f₁ ++ f₂) (onStack a₁ a₂) = (printf f₁ (onStack a₁ above)).bind fun p =>
      (printf f₂ a₂).map fun q => ⟨p.text ++ q.text, p.taken + q.taken⟩
  argument : ∀ length c args, c ∈ SPECIFIERS → (c = 0x73 → IsString mem (args 0)) →
    EndsOutside (directive length c) ∧ ∃ text, printf (directive length c) args = some ⟨text, width length c⟩
  noArgument : ∀ length c args, c ∉ SPECIFIERS → ¬Continues length c →
    EndsOutside (directive length c) ∧ ∃ text, printf (directive length c) args = some ⟨text, 0⟩
  verbatim : ∀ text args, PERCENT ∉ text → EndsOutside text ∧ printf text args = some ⟨text, 0⟩
  returns : ∀ fmt args, Matches mem args 0 (scan fmt) →
    ∃ text, printf fmt args = some ⟨text, wordsOf (scan fmt)⟩

theorem words_of_mem {length : Length} {c : UInt8} (h : c ∈ SPECIFIERS) :
    (Event.directive length (conversion c)).words = width length c := by
  have hall : ∀ c ∈ SPECIFIERS,
      (Event.directive length (conversion c)).words = width length c := by
    cases length <;> decide +kernel
  exact hall c h

theorem not_continues_of_mem {length : Length} {c : UInt8} (h : c ∈ SPECIFIERS) : ¬Continues length c := by
  have hall : ∀ c ∈ SPECIFIERS, c ≠ CHAR_H ∧ c ≠ CHAR_L := by decide +kernel
  obtain ⟨hh, hl⟩ := hall c h
  cases length with
  | default => exact not_or.mpr ⟨hh, hl⟩
  | short => exact hh
  | long => exact hl
  | shortShort | longLong => exact id

theorem words_of_notMem (length : Length) {c : UInt8} (h : c ∉ SPECIFIERS) :
    (Event.directive length (conversion c)).words = 0 := by
  have hne : ∀ d ∈ SPECIFIERS, c ≠ d := fun d hd he => h (he ▸ hd)
  unfold SPECIFIERS at hne
  simp only [List.forall_mem_cons] at hne
  obtain ⟨hc, hs, hd, hi, hu, hx, hX, hp, ho, -⟩ := hne
  unfold conversion
  simp only [hc, hs, hd, hi, hu, hx, hX, hp, ho, or_self, if_false]
  split <;> rfl

variable {puts : UInt32 → Option (List UInt8)}
  {printf : List UInt8 → (Nat → UInt32) → Option Printed}

theorem printf_rendered
    (h : ∀ fmt args, printf fmt args =
      ((scan fmt).foldlM (Store.act puts args fun _ => false) .start).map Store.printed)
    (fmt : List UInt8) (args : Nat → UInt32) :
    printf fmt args = (render puts args 0 (scan fmt)).map fun text => ⟨text, wordsOf (scan fmt)⟩ := by
  rw [h, foldlM_act_eq (scan fmt) rfl, Option.map_map]
  refine congrArg (Option.map · _) (funext fun text => ?_)
  simp [Store.printed, Store.putAll, Store.take, Store.start]

-- A directive by itself
theorem directive_printed {mem : Memory}
    (h : ∀ fmt args, printf fmt args =
      (render puts args 0 (scan fmt)).map fun text => ⟨text, wordsOf (scan fmt)⟩)
    (hputs : ∀ str, IsString mem str → ∃ text, puts str = some text)
    {length : Length} {c : UInt8} {args : Nat → UInt32} (hc : ¬Continues length c)
    (hstring : conversion c = .string → IsString mem (args 0)) :
    EndsOutside (directive length c) ∧ ∃ text,
      printf (directive length c) args = some ⟨text, (Event.directive length (conversion c)).words⟩ := by
  obtain ⟨hfinal, hscan⟩ := scan_directive hc
  have hmatches : Matches mem args 0 (scan (directive length c)) := by
    rw [hscan]
    exact ⟨fun _ he => hstring (Event.directive.inj he).2, trivial⟩
  obtain ⟨text, htext⟩ := exists_render hputs hmatches
  refine ⟨congrArg Control.state hfinal, text, ?_⟩
  rw [h, htext, hscan]
  rfl

theorem conversion_string {c : UInt8} (h : conversion c = .string) : c = 0x73 := by
  unfold conversion at h
  split at h
  · cases h
  split at h
  · assumption
  repeat (split at h; · cases h)
  cases h

theorem compositional_of_rendered {mem : Memory}
    (h : ∀ fmt args, printf fmt args =
      (render puts args 0 (scan fmt)).map fun text => ⟨text, wordsOf (scan fmt)⟩)
    (hputs : ∀ str, IsString mem str → ∃ text, puts str = some text) : Compositional mem printf := by
  refine ⟨?_, ?_, ?_, ?_, ?_⟩
  · intro f₁ f₂ a₁ a₂ above hends hwords
    have hfirst : render puts (onStack a₁ a₂) 0 (scan f₁) = render puts (onStack a₁ above) 0 (scan f₁) :=
      render_congr fun i hi => onStack_of_lt (by omega)
    have hsecond : render puts (onStack a₁ a₂) (0 + a₁.length) (scan f₂) = render puts a₂ 0 (scan f₂) :=
      render_congr fun i _ => by rw [Nat.zero_add, onStack_length_add, Nat.zero_add]
    have htotal : wordsOf (scan f₁ ++ scan f₂) = wordsOf (scan f₁) + wordsOf (scan f₂) := by
      unfold wordsOf
      rw [List.map_append, List.sum_append]
    rw [h, h, h, scan_append hends, render_append, hwords, hfirst, hsecond, htotal, hwords]
    cases render puts (onStack a₁ above) 0 (scan f₁) with
    | none => rfl
    | some text => cases render puts a₂ 0 (scan f₂) <;> rfl
  · intro length c args hc hends
    rw [← words_of_mem hc]
    exact directive_printed h hputs (not_continues_of_mem hc) fun hs => hends (conversion_string hs)
  · intro length c args hc hcontinues
    have hstring : conversion c ≠ .string := fun hs => hc (by rw [conversion_string hs]; decide)
    rw [← words_of_notMem length hc]
    exact directive_printed h hputs hcontinues fun hs => absurd hs hstring
  · intro text args htext
    obtain ⟨hfinal, hscan⟩ := scan_text htext
    refine ⟨congrArg Control.state hfinal, ?_⟩
    rw [h, hscan, render_text, wordsOf_text]
    rfl
  · intro fmt args hends
    obtain ⟨text, htext⟩ := exists_render hputs hends
    exact ⟨text, by rw [h, htext]; rfl⟩

end Compositional

-- Both formatters are compositional, for null strings as well.
theorem printf_compositional (mem : Memory) :
    Compositional mem (Kernel.printf mem) ∧
      Compositional mem fun fmt => Userland.vprintf mem (some fmt) :=
  ⟨compositional_of_rendered (printf_rendered (Kernel.printf_eq mem)) fun _ h => puts_of_isString h,
    compositional_of_rendered (printf_rendered (Userland.vprintf_eq mem)) fun _ h =>
      print_of_isString h ▸ puts_of_isString h⟩

end ToyKernel.Stdio
