import Mathlib.Order.Monotone.Basic
import ToyKernel.Rtc.Decoding

namespace ToyKernel.Rtc

-- The interrupts that come at the reads `starts` of the clock, and what each of them printed
def serve (cmos : Cmos) (rounds : Nat) : (rtcTicks : UInt16) → (starts : List Nat) →
    Option (List (Option Datetime))
  | _, [] => some []
  | rtcTicks, start :: starts => do
      let i ← cmosRtcIrq8Handler (fun t => cmos (start + t)) rounds rtcTicks
      let shown ← serve cmos rounds i.rtcTicks starts
      return i.printed :: shown

section Clock

variable {cmos : Cmos} {regB : UInt8} {moment : Nat → Moment} {phase : Nat → Nat} {longest rounds : Nat}

-- A clock that goes on while it is read. In an even phase its registers hold a moment; in the odd
-- one behind it they are brought to the next moment, and may hold anything, which register A tells.
structure Runs (cmos : Cmos) (regB : UInt8) (moment : Nat → Moment) (phase : Nat → Nat) : Prop where
  forward : ∀ t, phase t ≤ phase (t + 1)
  quiet : ∀ t, phase t % 2 = 0 → Holds (fun _ => cmos t) regB (moment (phase t / 2))
  updating : ∀ t, phase t % 2 = 1 → cmosUpdateInProgress cmos t
  format : ∀ t, cmos t STATUS_REGISTER_B = regB

-- An update is over within `longest` reads, and while four dates are read there is at most one of them.
structure Paced (phase : Nat → Nat) (longest : Nat) : Prop where
  brief : ∀ t, ∃ d < longest, phase (t + d) % 2 = 0
  slow : ∀ t, phase (t + 4 * (longest + 6)) ≤ phase t + 2

theorem Runs.shift (h : Runs cmos regB moment phase) (start : Nat) :
    Runs (fun t => cmos (start + t)) regB moment fun t => phase (start + t) where
  forward t := h.forward (start + t)
  quiet t hquiet := h.quiet (start + t) hquiet
  updating t hodd := h.updating (start + t) hodd
  format t := h.format (start + t)

theorem Paced.shift (h : Paced phase longest) (start : Nat) :
    Paced (fun t => phase (start + t)) longest where
  brief t := by
    obtain ⟨d, hd, hquiet⟩ := h.brief (start + t)
    exact ⟨d, hd, by rw [← Nat.add_assoc]; exact hquiet⟩
  slow t := by
    have hslow := h.slow (start + t)
    rwa [Nat.add_assoc] at hslow

theorem Runs.monotone (h : Runs cmos regB moment phase) {t t' : Nat} (hle : t ≤ t') :
    phase t ≤ phase t' := monotone_nat_of_le_succ h.forward hle

-- The wait ends at an instant without an update.
theorem Runs.waitForUpdate (h : Runs cmos regB moment phase) {t d : Nat} (hd : d < rounds)
    (hquiet : phase (t + d) % 2 = 0) :
    ∃ q, t ≤ q ∧ q ≤ t + d ∧ phase q % 2 = 0 ∧ Rtc.waitForUpdate cmos rounds t = some (q + 1) := by
  induction d generalizing rounds t with
  | zero =>
      obtain ⟨rounds, rfl⟩ := Nat.exists_eq_add_of_lt hd
      refine ⟨t, Nat.le_refl t, Nat.le_refl t, hquiet, ?_⟩
      exact if_neg ((h.quiet t hquiet).idle t)
  | succ d ih =>
      obtain ⟨rounds, rfl⟩ := Nat.exists_eq_add_of_lt hd
      by_cases hnow : phase t % 2 = 0
      · exact ⟨t, Nat.le_refl t, by omega, hnow, if_neg ((h.quiet t hnow).idle t)⟩
      · have hnext : phase (t + 1 + d) % 2 = 0 := by
          rwa [show t + 1 + d = t + (d + 1) by omega]
        obtain ⟨q, hge, hle, hq, hwait⟩ := ih (show d < d + 1 + rounds by omega) hnext
        refine ⟨q, by omega, by omega, hq, ?_⟩
        exact (if_pos (h.updating t (by omega))).trans hwait

-- What is read while the phase stays the same is the moment.
theorem Runs.readDatetime (h : Runs cmos regB moment phase) {q t : Nat} (hquiet : phase q % 2 = 0)
    (hle : q ≤ t) (hsame : phase (t + 5) ≤ phase q) :
    Rtc.readDatetime cmos t = encodeMoment regB (moment (phase q / 2)) := by
  have hholds : ∀ i ≤ 5, Holds (fun _ => cmos (t + i)) regB (moment (phase q / 2)) := by
    intro i hi
    have hphase : phase (t + i) = phase q := Nat.le_antisymm
      (Nat.le_trans (h.monotone (by omega)) hsame) (h.monotone (by omega))
    rw [← hphase] at hquiet ⊢
    exact h.quiet (t + i) hquiet
  unfold Rtc.readDatetime getRtcRegister encodeMoment
  congr 1
  · exact (hholds 0 (by omega)).second t
  · exact (hholds 1 (by omega)).minute t
  · exact (hholds 2 (by omega)).hour t
  · exact (hholds 3 (by omega)).day t
  · exact (hholds 4 (by omega)).month t
  · exact congrArg UInt8.toUInt16 ((hholds 5 (by omega)).year t)

-- One turn of the loop
theorem Runs.reread_succ (h : Runs cmos regB moment phase) (hpaced : Paced phase longest)
    (hrounds : longest ≤ rounds + 1) (t : Nat) :
    ∃ q, t ≤ q ∧ q < t + longest ∧ phase q % 2 = 0 ∧ ∀ old, reread cmos (rounds + 1) old t =
      if Rtc.readDatetime cmos (q + 1) = old then some (Rtc.readDatetime cmos (q + 1), q + 7)
      else reread cmos rounds (Rtc.readDatetime cmos (q + 1)) (q + 7) := by
  obtain ⟨d, hd, hquiet⟩ := hpaced.brief t
  obtain ⟨q, hge, hle, hq, hwait⟩ := h.waitForUpdate (show d < rounds + 1 by omega) hquiet
  refine ⟨q, hge, by omega, hq, fun old => ?_⟩
  rw [reread, hwait]
  rfl

-- A moment that has been read is read again while it lasts.
theorem Runs.reread_whole (h : Runs cmos regB moment phase) (hpaced : Paced phase longest)
    (hrounds : longest ≤ rounds + 1) {q t : Nat} (hquiet : phase q % 2 = 0) (hle : q ≤ t)
    (hsame : phase (t + (longest + 6)) ≤ phase q) :
    ∃ t', reread cmos (rounds + 1) (encodeMoment regB (moment (phase q / 2))) t =
      some (encodeMoment regB (moment (phase q / 2)), t') := by
  obtain ⟨q', hge, hlt, -, hturn⟩ := h.reread_succ hpaced hrounds t
  have hread : Rtc.readDatetime cmos (q' + 1) = encodeMoment regB (moment (phase q / 2)) :=
    h.readDatetime hquiet (by omega) (Nat.le_trans (h.monotone (by omega)) hsame)
  exact ⟨q' + 7, by rw [hturn, hread, if_pos rfl]⟩

-- Whatever was read before, the moment is read at last if it lasts for two more turns.
theorem Runs.reread_settled (h : Runs cmos regB moment phase) (hpaced : Paced phase longest)
    (hrounds : longest ≤ rounds + 1) {p t : Nat} (hlow : ∀ q, t ≤ q → phase q % 2 = 0 → p ≤ phase q)
    (hhigh : phase (t + 2 * (longest + 6)) ≤ p) (old : Datetime) :
    ∃ q t', t ≤ q ∧ q < t + longest ∧ phase q % 2 = 0 ∧
      reread cmos (rounds + 2) old t = some (encodeMoment regB (moment (phase q / 2)), t') := by
  obtain ⟨q, hge, hlt, hquiet, hturn⟩ := h.reread_succ hpaced (Nat.le_succ_of_le hrounds) t
  have hsame : ∀ t' ≤ t + 2 * (longest + 6), phase t' ≤ phase q := fun t' ht' =>
    Nat.le_trans (h.monotone ht') (Nat.le_trans hhigh (hlow q hge hquiet))
  have hread : Rtc.readDatetime cmos (q + 1) = encodeMoment regB (moment (phase q / 2)) :=
    h.readDatetime hquiet (by omega) (hsame _ (by omega))
  obtain ⟨t', hwhole⟩ := h.reread_whole hpaced hrounds hquiet (show q ≤ q + 7 by omega)
    (hsame _ (by omega))
  rw [hread] at hturn
  by_cases hold : encodeMoment regB (moment (phase q / 2)) = old
  · exact ⟨q, q + 7, hge, hlt, hquiet, (hturn old).trans (if_pos hold)⟩
  · exact ⟨q, t', hge, hlt, hquiet, (hturn old).trans ((if_neg hold).trans hwhole)⟩

-- What is read twice the same has been a moment of the clock: an update begun in one of the two
-- reads leaves the other one whole.
theorem Runs.reread (h : Runs cmos regB moment phase) (hpaced : Paced phase longest)
    (hrounds : longest ≤ rounds + 1) {q₀ : Nat} (hquiet₀ : phase q₀ % 2 = 0) :
    ∃ q t', q₀ ≤ q ∧ q < q₀ + 2 * (longest + 7) ∧ phase q % 2 = 0 ∧
      Rtc.reread cmos (rounds + 3) (Rtc.readDatetime cmos (q₀ + 1)) (q₀ + 7) =
        some (encodeMoment regB (moment (phase q / 2)), t') := by
  have hhigh : ∀ t ≤ q₀ + 4 * (longest + 6), phase t ≤ phase q₀ + 2 := fun t ht =>
    Nat.le_trans (h.monotone ht) (hpaced.slow q₀)
  obtain ⟨q, hge, hlt, hquiet, hturn⟩ :=
    h.reread_succ hpaced (show longest ≤ rounds + 2 + 1 by omega) (q₀ + 7)
  have hlow : phase q₀ ≤ phase q := h.monotone (by omega)
  rw [hturn]
  by_cases hsame : phase q = phase q₀
  · have hold : Rtc.readDatetime cmos (q₀ + 1) = encodeMoment regB (moment (phase q₀ / 2)) :=
      h.readDatetime hquiet₀ (by omega) (hsame ▸ h.monotone (by omega))
    by_cases hnew : Rtc.readDatetime cmos (q + 1) = Rtc.readDatetime cmos (q₀ + 1)
    · refine ⟨q, q + 7, by omega, by omega, hquiet, ?_⟩
      rw [if_pos hnew, hnew, hold, hsame]
    · -- the update has begun in the second read
      have hover : ∀ q', q + 7 ≤ q' → phase q' % 2 = 0 → phase q₀ + 2 ≤ phase q' := by
        intro q' hle hquiet'
        have hmono : phase q ≤ phase q' := h.monotone (by omega)
        have hne : phase q' ≠ phase q := by
          intro heq
          refine hnew ?_
          rw [hold, ← hsame]
          exact h.readDatetime hquiet (by omega) (heq ▸ h.monotone (by omega))
        omega
      obtain ⟨q', t', hge', hlt', hquiet', hread⟩ :=
        h.reread_settled hpaced hrounds hover (hhigh _ (by omega)) (Rtc.readDatetime cmos (q + 1))
      exact ⟨q', t', by omega, by omega, hquiet', (if_neg hnew).trans hread⟩
  · -- the update has begun in the first read, or between the two
    have hover : ∀ t ≤ q₀ + 4 * (longest + 6), phase t ≤ phase q := by
      intro t ht
      have htop := hhigh t ht
      omega
    have hread : Rtc.readDatetime cmos (q + 1) = encodeMoment regB (moment (phase q / 2)) :=
      h.readDatetime hquiet (by omega) (hover _ (by omega))
    obtain ⟨t', hwhole⟩ := h.reread_whole hpaced (show longest ≤ rounds + 1 + 1 by omega) hquiet
      (show q ≤ q + 7 by omega) (hover _ (by omega))
    rw [hread]
    by_cases hnew : encodeMoment regB (moment (phase q / 2)) = Rtc.readDatetime cmos (q₀ + 1)
    · exact ⟨q, q + 7, by omega, by omega, hquiet, if_pos hnew⟩
    · exact ⟨q, t', by omega, by omega, hquiet, (if_neg hnew).trans hwhole⟩

-- The date and time printed are those that the clock held at an instant of the interrupt.
def Shows (regB : UInt8) (moment : Nat → Moment) (phase : Nat → Nat) (start reads : Nat)
    (shown : Datetime) : Prop :=
  ∃ t, start ≤ t ∧ t < start + reads ∧ phase t % 2 = 0 ∧
    shown = convert regB (encodeMoment regB (moment (phase t / 2))) ∧
    (shown = (moment (phase t / 2)).datetime ↔
      Is24Hour regB ∨ (moment (phase t / 2)).hour = 0 ∨ 13 ≤ (moment (phase t / 2)).hour)

theorem Runs.handler (h : Runs cmos regB moment phase) (hpaced : Paced phase longest)
    (hrounds : longest ≤ rounds + 1) {rtcTicks : UInt16} (hticks : (rtcTicks + 1) % 1024 = 0) :
    ∃ shown, Shows regB moment phase 0 (3 * (longest + 7)) shown ∧
      cmosRtcIrq8Handler cmos (rounds + 3) rtcTicks =
        some { rtcTicks := rtcTicks + 1, printed := some shown } := by
  obtain ⟨d, hd, hquiet⟩ := hpaced.brief 0
  obtain ⟨q₀, -, hle₀, hquiet₀, hwait⟩ := h.waitForUpdate (show d < rounds + 3 by omega) hquiet
  obtain ⟨q, t', hge, hlt, hq, hreread⟩ := h.reread hpaced hrounds hquiet₀
  refine ⟨_, ⟨q, Nat.zero_le q, by omega, hq, rfl, convert_encode_iff regB _⟩, ?_⟩
  rw [cmosRtcIrq8Handler, if_pos hticks, hwait]
  change (Rtc.reread cmos (rounds + 3) (Rtc.readDatetime cmos (q₀ + 1)) (q₀ + 7)).bind _ = _
  rw [hreread]
  refine congrArg some ?_
  change Interrupt.mk (rtcTicks + 1) (some (convert (cmos _ STATUS_REGISTER_B) _)) = _
  rw [h.format]

theorem ticks_iff (rtcTicks : UInt16) : (rtcTicks + 1) % 1024 = 0 ↔ (rtcTicks.toNat + 1) % 1024 = 0 := by
  have hnext : (rtcTicks + 1).toNat = (rtcTicks.toNat + 1) % 65536 := UInt16.toNat_add rtcTicks 1
  rw [← UInt16.toNat_inj, UInt16.toNat_mod, hnext]
  change (rtcTicks.toNat + 1) % 65536 % 1024 = 0 ↔ _
  omega

-- One interrupt in 1024 prints.
def Prints (regB : UInt8) (moment : Nat → Moment) (phase : Nat → Nat) (start reads ticks : Nat)
    (printed : Option Datetime) : Prop :=
  if ticks % 1024 = 0 then ∃ d, printed = some d ∧ Shows regB moment phase start reads d
  else printed = none

theorem Runs.prints (h : Runs cmos regB moment phase) (hpaced : Paced phase longest)
    (hrounds : longest + 2 ≤ rounds) (rtcTicks : UInt16) (start : Nat) :
    ∃ printed, Prints regB moment phase start (3 * (longest + 7)) (rtcTicks.toNat + 1) printed ∧
      cmosRtcIrq8Handler (fun t => cmos (start + t)) rounds rtcTicks =
        some { rtcTicks := rtcTicks + 1, printed } := by
  obtain ⟨d, hd, -⟩ := hpaced.brief 0
  obtain ⟨spare, rfl⟩ : ∃ spare, rounds = spare + 3 := ⟨rounds - 3, by omega⟩
  by_cases hticks : (rtcTicks + 1) % 1024 = 0
  · obtain ⟨d, ⟨t, -, hlt, hquiet, hd, hiff⟩, hends⟩ :=
      (h.shift start).handler (hpaced.shift start) (show longest ≤ spare + 1 by omega) hticks
    refine ⟨some d, ?_, hends⟩
    refine (if_pos ((ticks_iff rtcTicks).mp hticks)).mpr ⟨d, rfl, ?_⟩
    exact ⟨start + t, by omega, by omega, hquiet, hd, hiff⟩
  · refine ⟨none, ?_, if_neg hticks⟩
    exact (if_neg fun hc => hticks ((ticks_iff rtcTicks).mpr hc)).mpr rfl

end Clock

-- No date is ever torn: while the clock goes on, every interrupt comes to its end, and one in 1024,
-- also when the counter wraps around, prints a date and time that the clock really held during it.
theorem shown_whole {cmos : Cmos} {regB : UInt8} {moment : Nat → Moment} {phase : Nat → Nat}
    {longest rounds : Nat} (h : Runs cmos regB moment phase) (hpaced : Paced phase longest)
    (hrounds : longest + 2 ≤ rounds) (rtcTicks : UInt16) (starts : List Nat) :
    ∃ shown, serve cmos rounds rtcTicks starts = some shown ∧ shown.length = starts.length ∧
      ∀ k start, starts[k]? = some start → ∃ printed, shown[k]? = some printed ∧
        Prints regB moment phase start (3 * (longest + 7)) (rtcTicks.toNat + k + 1) printed := by
  induction starts generalizing rtcTicks with
  | nil => exact ⟨[], rfl, rfl, nofun⟩
  | cons first starts ih =>
      obtain ⟨printed, hprints, hhandler⟩ := h.prints hpaced hrounds rtcTicks first
      obtain ⟨shown, hserve, hlength, hshown⟩ := ih (rtcTicks + 1)
      refine ⟨printed :: shown, ?_, congrArg (· + 1) hlength, ?_⟩
      · rw [serve, hhandler]
        change (serve cmos rounds (rtcTicks + 1) starts).bind _ = _
        rw [hserve]
        rfl
      · intro k start hstart
        cases k with
        | zero =>
            obtain rfl := Option.some.inj hstart
            exact ⟨printed, rfl, hprints⟩
        | succ k =>
            obtain ⟨later, hlater, hprintsLater⟩ := hshown k start hstart
            refine ⟨later, hlater, ?_⟩
            have hnext : (rtcTicks + 1).toNat = (rtcTicks.toNat + 1) % 65536 := UInt16.toNat_add rtcTicks 1
            have hsame : ((rtcTicks + 1).toNat + k + 1) % 1024 = (rtcTicks.toNat + (k + 1) + 1) % 1024 := by
              omega
            unfold Prints at hprintsLater ⊢
            rwa [hsame] at hprintsLater

section Sample

-- One second later
def nextMoment : Moment :=
  { sampleMoment with
    minute := 31
    second := 0
    minute_lt := by decide
    second_lt := by decide }

-- The second of the sample turns between the reads 10 and 12, and the registers are wild meanwhile.
def samplePhase (t : Nat) : Nat := if t < 10 then 0 else if t < 12 then 1 else 2

def turningCmos (regB : UInt8) : Cmos := fun t =>
  if samplePhase t = 1 then fun reg =>
    if reg = STATUS_REGISTER_A then 0x80 else if reg = STATUS_REGISTER_B then regB else 0x5A
  else sampleCmos regB (if samplePhase t = 0 then sampleMoment else nextMoment) t

theorem samplePhase_cases (t : Nat) : t < 10 ∧ samplePhase t = 0 ∨
    10 ≤ t ∧ t < 12 ∧ samplePhase t = 1 ∨ 12 ≤ t ∧ samplePhase t = 2 := by
  unfold samplePhase
  split_ifs with hearly hlate
  · exact .inl ⟨hearly, rfl⟩
  · exact .inr (.inl ⟨Nat.le_of_not_lt hearly, hlate, rfl⟩)
  · exact .inr (.inr ⟨Nat.le_of_not_lt hlate, rfl⟩)

theorem turningCmos_runs (regB : UInt8) :
    Runs (turningCmos regB) regB (fun n => if n = 0 then sampleMoment else nextMoment) samplePhase where
  forward t := by
    have hnow := samplePhase_cases t
    have hnext := samplePhase_cases (t + 1)
    omega
  quiet t hquiet := by
    unfold turningCmos
    rcases samplePhase_cases t with ⟨-, hphase⟩ | ⟨-, -, hphase⟩ | ⟨-, hphase⟩
    · simp only [hphase]
      exact sampleCmos_holds regB sampleMoment
    · rw [hphase] at hquiet
      cases hquiet
    · simp only [hphase]
      exact sampleCmos_holds regB nextMoment
  updating t hodd := by
    have hphase : samplePhase t = 1 := by
      have hcases := samplePhase_cases t
      omega
    unfold cmosUpdateInProgress getRtcRegister turningCmos
    rw [if_pos hphase]
    change (0x80 : UInt8) &&& 0x80 ≠ 0
    decide
  format t := by
    unfold turningCmos
    split
    · rfl
    · rfl

theorem samplePhase_paced : Paced samplePhase 3 where
  brief t := by
    rcases samplePhase_cases t with ⟨-, hphase⟩ | ⟨hge, hlt, -⟩ | ⟨-, hphase⟩
    · exact ⟨0, by decide, by rw [Nat.add_zero, hphase]⟩
    · refine ⟨12 - t, by omega, ?_⟩
      rw [Nat.add_sub_cancel' (Nat.le_of_lt hlt)]
      rfl
    · exact ⟨0, by decide, by rw [Nat.add_zero, hphase]⟩
  slow t := by
    have hnow := samplePhase_cases t
    have hlater := samplePhase_cases (t + 4 * (3 + 6))
    omega

theorem shown_whole_sample :
    ∃ shown, serve (turningCmos 0x02) 5 1023 [0, 40] = some shown ∧ shown.length = 2 ∧
      ∀ k start, [0, 40][k]? = some start → ∃ printed, shown[k]? = some printed ∧
        Prints 0x02 (fun n => if n = 0 then sampleMoment else nextMoment) samplePhase start 30
          (1023 + k + 1) printed :=
  shown_whole (turningCmos_runs 0x02) samplePhase_paced (by decide) 1023 [0, 40]

end Sample

end ToyKernel.Rtc
