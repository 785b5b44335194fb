import Mathlib.Algebra.GroupWithZero.Nat
import ToyKernel.Stdio.Directives

namespace ToyKernel.Stdio

open Library

section Arguments

-- A pointer to characters that end with a NUL
def IsString (mem : Memory) (str : UInt32) : Prop := str ≠ 0 ∧ ∃ n : UInt32, mem (str + n) = 0

-- The argument list has a string wherever a directive asks for one; any words are a number or a
-- character.
def Matches (mem : Memory) (args : Nat → UInt32) : (k : Nat) → List Event → Prop
  | _, [] => True
  | k, e :: events =>
      (∀ length, e = .directive length .string → IsString mem (args k)) ∧
        Matches mem args (k + e.words) events

variable {mem : Memory} {args : Nat → UInt32} {str : UInt32}

theorem putsLoop_ends {fuel n : Nat} (hn : n < fuel) (hend : mem (str + UInt32.ofNat n) = 0) :
    ∃ text, putsLoop mem fuel str = some text := by
  induction fuel generalizing str n with
  | zero => omega
  | succ fuel ih =>
      unfold putsLoop
      by_cases hzero : mem str = 0
      · exact ⟨[], if_pos hzero⟩
      · cases n with
        | zero => exact absurd (by simpa using hend) hzero
        | succ n =>
            have hnext : mem (str + 1 + UInt32.ofNat n) = 0 := by
              rwa [UInt32.ofNat_add, UInt32.add_comm (UInt32.ofNat n), ← UInt32.add_assoc] at hend
            obtain ⟨text, htext⟩ := ih (by omega) hnext
            exact ⟨mem str :: text, by rw [if_neg hzero, htext]; rfl⟩

theorem puts_of_isString (h : IsString mem str) : ∃ text, puts mem str = some text := by
  obtain ⟨-, n, hend⟩ := h
  exact putsLoop_ends n.toNat_lt (by rwa [UInt32.ofNat_toNat])

theorem print_of_isString (h : IsString mem str) : print mem str = puts mem str := if_neg h.1

theorem output_print {e : Event} {k : Nat}
    (h : ∀ length, e = .directive length .string → IsString mem (args k)) :
    e.output (print mem) args k = e.output (puts mem) args k := by
  cases e with
  | text c => rfl
  | directive length conversion =>
      cases conversion with
      | string => exact print_of_isString (h length rfl)
      | character | percent | numeral | other => rfl

theorem exists_output {e : Event} {k : Nat}
    (h : ∀ length, e = .directive length .string → IsString mem (args k)) :
    ∃ text, e.output (puts mem) args k = some text := by
  cases e with
  | text c => exact ⟨[c], rfl⟩
  | directive length conversion =>
      cases conversion with
      | string => exact puts_of_isString (h length rfl)
      | character | percent | numeral | other => exact ⟨_, rfl⟩

end Arguments

section Numerals

def Conversion.IsNumeral : Conversion → Prop
  | .numeral _ _ => True
  | _ => False

-- The directives, in their order
def conversions : List Event → List Conversion
  | [] => []
  | .text _ :: events => conversions events
  | .directive _ conversion :: events => conversion :: conversions events

-- No %c, %s, %% or unknown directive comes after one for a number.
def NumeralsLast (fmt : List UInt8) : Prop :=
  (conversions (scan fmt)).Pairwise fun earlier later => earlier.IsNumeral → later.IsNumeral

def Event.isNumeral : Event → Bool
  | .directive _ (.numeral _ _) => true
  | _ => false

-- The words taken at a directive for no number when `number` is set
def Event.surplus (number : Bool) : Event → Nat
  | .text _ => 0
  | .directive _ (.numeral _ _) => 0
  | .directive length _ => if number then length.words else 0

def surplus : (number : Bool) → List Event → Nat
  | _, [] => 0
  | number, e :: events => e.surplus number + surplus (number || e.isNumeral) events

theorem words_pos (length : Length) : 0 < length.words := by
  cases length <;> decide

theorem surplus_eq_zero_iff (number : Bool) (events : List Event) :
    surplus number events = 0 ↔
      (number = true → ∀ c ∈ conversions events, c.IsNumeral) ∧
        (conversions events).Pairwise fun earlier later => earlier.IsNumeral → later.IsNumeral := by
  induction events generalizing number with
  | nil => simp [surplus, conversions]
  | cons e events ih =>
      unfold surplus
      rw [Nat.add_eq_zero_iff, ih]
      cases e with
      | text c => simp [Event.surplus, Event.isNumeral, conversions]
      | directive length conversion =>
          have hpos := words_pos length
          rw [conversions, List.pairwise_cons, List.forall_mem_cons]
          cases conversion with
          | numeral radix sign =>
              simp only [Event.surplus, Event.isNumeral, Conversion.IsNumeral, Bool.or_true]
              exact ⟨fun ⟨_, hall, hpair⟩ =>
                ⟨fun _ => ⟨trivial, hall trivial⟩, fun c hc _ => hall trivial c hc, hpair⟩,
                fun ⟨_, hall, hpair⟩ => ⟨trivial, fun _ c hc => hall c hc trivial, hpair⟩⟩
          | character | string | percent | other =>
              cases number with
              | false => simp [Event.surplus, Event.isNumeral, Conversion.IsNumeral]
              | true =>
                  simp [Event.surplus, Conversion.IsNumeral]
                  omega

end Numerals

section Resets

variable {args : Nat → UInt32} {t : Store} {e : Event}

def Store.clear (t : Store) : Store := { t with number := false }

-- With a reset that clears `number` a directive does what it does by itself.
theorem close_kernel (h : t.number = false) (e : Event) : t.close args (fun _ => false) e = t := by
  have hsame : { t with number := false } = t := by rw [← h]
  cases e with
  | text c => rfl
  | directive length conversion =>
      have hsurplus : t.surplus args length = t := if_neg (by simp [h])
      cases conversion with
      | numeral radix sign => exact hsame
      | character | percent | string | other =>
          change { t.surplus args length with number := false } = t
          rw [hsurplus, hsame]

theorem taken_close (t : Store) (e : Event) :
    (t.close args id e).taken = t.taken + e.surplus t.number := by
  cases e with
  | text c => rfl
  | directive length conversion =>
      have hsurplus : (t.surplus args length).taken = t.taken + if t.number then length.words else 0 := by
        unfold Store.surplus
        split <;> rfl
      cases conversion with
      | numeral radix sign => rfl
      | character | percent | string | other => exact hsurplus

theorem number_close (t : Store) (e : Event) :
    (t.close args id e).number = (t.number || e.isNumeral) := by
  cases e with
  | text c => exact (Bool.or_false _).symm
  | directive length conversion =>
      have hsurplus : (t.surplus args length).number = (t.number || false) := by
        unfold Store.surplus
        split <;> simp
      cases conversion with
      | numeral radix sign => exact (Bool.or_true _).symm
      | character | percent | string | other => exact hsurplus

theorem clear_close (args : Nat → UInt32) (h : e.surplus t.number = 0) : (t.close args id e).clear = t.clear := by
  cases e with
  | text c => rfl
  | directive length conversion =>
      cases conversion with
      | numeral radix sign => rfl
      | character | percent | string | other =>
          have hnumber : ¬t.number = true := fun hnumber =>
            absurd h (by simp only [Event.surplus, hnumber, if_true]; exact Nat.ne_of_gt (words_pos length))
          have hsurplus : t.surplus args length = t := if_neg hnumber
          change (t.surplus args length).clear = t.clear
          rw [hsurplus]

end Resets

section Runs

variable {puts : UInt32 → Option (List UInt8)} {mem : Memory} {args : Nat → UInt32} {t t' : Store}
  {events : List Event}

def wordsOf (events : List Event) : Nat := (events.map Event.words).sum

-- What stage 2 takes is what the directives ask for, and a number more for each directive of
-- another kind once there was one for a number.
theorem taken_stage2 (h : events.foldlM (Store.act puts args id) t = some t') :
    t'.taken = t.taken + wordsOf events + surplus t.number events := by
  induction events generalizing t with
  | nil =>
      obtain rfl := Option.some.inj h
      rfl
  | cons e events ih =>
      rw [List.foldlM_cons] at h
      obtain ⟨next, hact, hrest⟩ := Option.bind_eq_some_iff.mp h
      obtain ⟨text, -, hnext⟩ := Option.map_eq_some_iff.mp hact
      have htaken : next.taken = t.taken + e.words + e.surplus t.number := by
        rw [← hnext, taken_close]
        simp
      have hnumber : next.number = (t.number || e.isNumeral) := by
        rw [← hnext, number_close]
        simp
      have hlast := ih hrest
      rw [htaken, hnumber] at hlast
      simp only [wordsOf, List.map_cons, List.sum_cons, surplus] at hlast ⊢
      omega

theorem act_kernel (h : t.number = false) (e : Event) :
    t.act puts args (fun _ => false) e =
      (e.output puts args t.taken).map fun text => (t.putAll text).take e.words := by
  unfold Store.act
  exact congrArg (Option.map · _) (funext fun text => close_kernel (by simp [h]) e)

-- Where nothing more is taken, `number` makes no difference.
theorem foldlM_clear (puts : UInt32 → Option (List UInt8)) (args : Nat → UInt32)
    (h : surplus t.number events = 0) :
    events.foldlM (Store.act puts args fun _ => false) t.clear =
      (events.foldlM (Store.act puts args id) t).map Store.clear := by
  induction events generalizing t with
  | nil => rfl
  | cons e events ih =>
      obtain ⟨hhead, hrest⟩ := Nat.add_eq_zero_iff.mp h
      rw [List.foldlM_cons, List.foldlM_cons, act_kernel rfl]
      unfold Store.act
      change ((e.output puts args t.taken).map _).bind _ = (((e.output puts args t.taken).map _).bind _).map _
      cases e.output puts args t.taken with
      | none => rfl
      | some text =>
          have hclear := clear_close args (t := (t.putAll text).take e.words) hhead
          have hnext := ih (t := ((t.putAll text).take e.words).close args id e)
            (by rw [number_close]; exact hrest)
          rw [hclear] at hnext
          exact hnext

theorem kernel_runs (hnumber : t.number = false) (h : Matches mem args t.taken events) :
    ∃ t', events.foldlM (Store.act (Stdio.puts mem) args fun _ => false) t = some t' ∧
      events.foldlM (Store.act (print mem) args fun _ => false) t = some t' ∧
      t'.taken = t.taken + wordsOf events := by
  induction events generalizing t with
  | nil => exact ⟨t, rfl, rfl, rfl⟩
  | cons e events ih =>
      obtain ⟨hstring, hrest⟩ := h
      obtain ⟨text, htext⟩ := exists_output hstring
      obtain ⟨t', hputs, hprint, htaken⟩ := @ih ((t.putAll text).take e.words) hnumber hrest
      refine ⟨t', ?_, ?_, ?_⟩
      · rw [List.foldlM_cons, act_kernel hnumber, htext]
        exact hputs
      · rw [List.foldlM_cons, act_kernel hnumber, output_print hstring, htext]
        exact hprint
      · simp only [wordsOf, List.map_cons, List.sum_cons] at htaken ⊢
        rw [Store.taken_take, Store.taken_putAll] at htaken
        omega

end Runs

section Agreement

variable {mem : Memory} {fmt : List UInt8} {args : Nat → UInt32}

-- The same characters, and the same words of the argument list
def Agree (mem : Memory) (fmt : List UInt8) (args : Nat → UInt32) : Prop :=
  ∃ p, Stage2.printf mem fmt args = some p ∧ Kernel.printf mem fmt args = some p ∧
    Userland.vprintf mem (some fmt) args = some p

-- The kernel and userland agree on every format.
theorem kernel_prints (h : Matches mem args 0 (scan fmt)) :
    ∃ p, Kernel.printf mem fmt args = some p ∧ Userland.vprintf mem (some fmt) args = some p ∧
      p.taken = wordsOf (scan fmt) := by
  obtain ⟨t', hkernel, huserland, htaken⟩ := kernel_runs (t := .start) rfl h
  refine ⟨t'.printed, ?_, ?_, htaken.trans (Nat.zero_add _)⟩
  · rw [Kernel.printf_eq, hkernel]
    rfl
  · rw [Userland.vprintf_eq, huserland]
    rfl

theorem stage2_taken {p : Printed} (h : Stage2.printf mem fmt args = some p) :
    p.taken = wordsOf (scan fmt) + surplus false (scan fmt) := by
  rw [Stage2.printf_eq] at h
  obtain ⟨t', hrun, rfl⟩ := Option.map_eq_some_iff.mp h
  have htaken := taken_stage2 hrun
  rw [Store.start, Nat.zero_add] at htaken
  exact htaken

theorem stage2_eq_kernel (h : surplus false (scan fmt) = 0) :
    Stage2.printf mem fmt args = Kernel.printf mem fmt args := by
  have hclear := foldlM_clear (puts mem) args (t := .start) h
  rw [Stage2.printf_eq, Kernel.printf_eq]
  change _ = Option.map _ ((scan fmt).foldlM _ (Store.clear .start))
  rw [hclear, Option.map_map]
  rfl

theorem agree_iff_surplus (h : Matches mem args 0 (scan fmt)) :
    Agree mem fmt args ↔ surplus false (scan fmt) = 0 := by
  obtain ⟨p, hkernel, huserland, htaken⟩ := kernel_prints h
  constructor
  · rintro ⟨q, hstage2, hkernel', -⟩
    obtain rfl := Option.some.inj (hkernel.symm.trans hkernel')
    have := stage2_taken hstage2
    omega
  · exact fun hzero => ⟨p, (stage2_eq_kernel hzero).trans hkernel, hkernel, huserland⟩

theorem printf_agree_iff (h : Matches mem args 0 (scan fmt)) : Agree mem fmt args ↔ NumeralsLast fmt := by
  rw [agree_iff_surplus h, surplus_eq_zero_iff]
  simp [NumeralsLast]

end Agreement

section Sample

-- "%d %s", as in `printf("Unhandled exception %d %s\n", regs->interrupt, ...)`
def EXCEPTION_FORMAT : List UInt8 := [PERCENT, 0x64, 0x20, PERCENT, 0x73]

-- "GP" at 0x1000
def exceptionMemory : Memory := fun a => if a = 0x1000 then 0x47 else if a = 0x1001 then 0x50 else 0

-- The interrupt and the name, and whatever the stack holds above them
def exceptionArgs : Nat → UInt32 := fun k => if k = 0 then 13 else if k = 1 then 0x1000 else 7

theorem exception_matches : Matches exceptionMemory exceptionArgs 0 (scan EXCEPTION_FORMAT) := by
  have hname : IsString exceptionMemory 0x1000 := ⟨by decide, 2, by decide⟩
  have hscan : scan EXCEPTION_FORMAT =
      [.directive .default (.numeral 10 true), .text 0x20, .directive .default .string] := rfl
  rw [hscan]
  exact ⟨nofun, nofun, fun _ _ => hname, trivial⟩

theorem printf_agree_iff_exception :
    Agree exceptionMemory EXCEPTION_FORMAT exceptionArgs ↔ NumeralsLast EXCEPTION_FORMAT :=
  printf_agree_iff exception_matches

-- "13 GP" and "13 GP7"
theorem not_agree_exception :
    Matches exceptionMemory exceptionArgs 0 (scan EXCEPTION_FORMAT) ∧
      Kernel.printf exceptionMemory EXCEPTION_FORMAT exceptionArgs =
        some ⟨[0x31, 0x33, 0x20, 0x47, 0x50], 2⟩ ∧
      Stage2.printf exceptionMemory EXCEPTION_FORMAT exceptionArgs =
        some ⟨[0x31, 0x33, 0x20, 0x47, 0x50, 0x37], 3⟩ ∧
      ¬Agree exceptionMemory EXCEPTION_FORMAT exceptionArgs := by
  refine ⟨exception_matches, rfl, rfl, fun h => ?_⟩
  have hzero := (agree_iff_surplus exception_matches).mp h
  exact absurd hzero (by decide)

end Sample

end ToyKernel.Stdio
