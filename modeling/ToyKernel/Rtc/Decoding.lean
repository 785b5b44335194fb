import Mathlib.Logic.Basic
import ToyKernel.Rtc

namespace ToyKernel.Rtc

section Encoding

def daysIn (year month : Nat) : Nat :=
  if month = 2 then if year % 4 = 0 then 29 else 28
  else if month = 4 ∨ month = 6 ∨ month = 9 ∨ month = 11 then 30
  else 31

-- A second of the years 2000 to 2099, in which every fourth year is a leap year
structure Moment where
  year : Nat
  month : Nat
  day : Nat
  hour : Nat
  minute : Nat
  second : Nat
  year_mem : 2000 ≤ year ∧ year ≤ 2099
  month_mem : 1 ≤ month ∧ month ≤ 12
  day_mem : 1 ≤ day ∧ day ≤ daysIn year month
  hour_lt : hour < 24
  minute_lt : minute < 60
  second_lt : second < 60

def Moment.datetime (m : Moment) : Datetime where
  second := UInt8.ofNat m.second
  minute := UInt8.ofNat m.minute
  hour := UInt8.ofNat m.hour
  day := UInt8.ofNat m.day
  month := UInt8.ofNat m.month
  year := UInt16.ofNat m.year

-- Bits 2 and 1 of register B
def IsBinary (regB : UInt8) : Prop := regB &&& 0x04 ≠ 0

def Is24Hour (regB : UInt8) : Prop := regB &&& 0x02 ≠ 0

instance : DecidablePred IsBinary := fun _ => inferInstanceAs (Decidable (_ ≠ _))
instance : DecidablePred Is24Hour := fun _ => inferInstanceAs (Decidable (_ ≠ _))

-- A number of two digits in the format
def encode (regB : UInt8) (n : Nat) : UInt8 :=
  UInt8.ofNat (if IsBinary regB then n else n / 10 * 16 + n % 10)

-- A 12-hour clock goes 12, 1 to 11 twice a day, and says by the top bit that it is PM.
def clockHour (hour : Nat) : Nat := if hour % 12 = 0 then 12 else hour % 12

def pmBit (hour : Nat) : UInt8 := if 12 ≤ hour then 0x80 else 0

def encodeHour (regB : UInt8) (hour : Nat) : UInt8 :=
  if Is24Hour regB then encode regB hour else encode regB (clockHour hour) ||| pmBit hour

-- All through the interrupt the registers hold the moment, and they are not being updated.
structure Holds (cmos : Cmos) (regB : UInt8) (m : Moment) : Prop where
  idle : ∀ t, ¬cmosUpdateInProgress cmos t
  format : ∀ t, cmos t STATUS_REGISTER_B = regB
  second : ∀ t, cmos t RTC_SECONDS = encode regB m.second
  minute : ∀ t, cmos t RTC_MINUTES = encode regB m.minute
  hour : ∀ t, cmos t RTC_HOURS = encodeHour regB m.hour
  day : ∀ t, cmos t RTC_DAY = encode regB m.day
  month : ∀ t, cmos t RTC_MONTH = encode regB m.month
  year : ∀ t, cmos t RTC_YEAR = encode regB (m.year - 2000)

def encodeMoment (regB : UInt8) (m : Moment) : Datetime where
  second := encode regB m.second
  minute := encode regB m.minute
  hour := encodeHour regB m.hour
  day := encode regB m.day
  month := encode regB m.month
  year := (encode regB (m.year - 2000)).toUInt16

theorem Moment.day_le (m : Moment) : m.day ≤ 31 := by
  refine Nat.le_trans m.day_mem.2 ?_
  unfold daysIn
  split
  · split <;> omega
  · split <;> omega

end Encoding

section Reading

variable {cmos : Cmos} {regB : UInt8} {m : Moment}

theorem Holds.readDatetime (h : Holds cmos regB m) (t : Nat) :
    readDatetime cmos t = encodeMoment regB m := by
  unfold Rtc.readDatetime getRtcRegister encodeMoment
  rw [h.second, h.minute, h.hour, h.day, h.month, h.year]

theorem Holds.waitForUpdate (h : Holds cmos regB m) (rounds t : Nat) :
    waitForUpdate cmos (rounds + 1) t = some (t + 1) := if_neg (h.idle t)

-- What is read twice is the same, and is converted.
theorem Holds.handler (h : Holds cmos regB m) (rounds : Nat) {rtcTicks : UInt16}
    (hticks : (rtcTicks + 1) % 1024 = 0) :
    cmosRtcIrq8Handler cmos (rounds + 1) rtcTicks =
      some { rtcTicks := rtcTicks + 1, printed := some (convert regB (encodeMoment regB m)) } := by
  have hreread : ∀ t, reread cmos (rounds + 1) (encodeMoment regB m) t =
      some (encodeMoment regB m, t + 1 + 6) := by
    intro t
    rw [reread, h.waitForUpdate]
    change (if Rtc.readDatetime cmos (t + 1) = _ then _ else _) = _
    rw [h.readDatetime]
    exact if_pos rfl
  rw [cmosRtcIrq8Handler, if_pos hticks, h.waitForUpdate]
  change (reread cmos (rounds + 1) (Rtc.readDatetime cmos 1) 7).bind _ = _
  rw [h.readDatetime, hreread]
  refine congrArg some ?_
  change Interrupt.mk (rtcTicks + 1) (some (convert (cmos _ STATUS_REGISTER_B) _)) = _
  rw [h.format]

end Reading

section Converting

variable {regB : UInt8}

theorem fromBcd_encode : ∀ n < 100, fromBcd (UInt8.ofNat (n / 10 * 16 + n % 10)) = UInt8.ofNat n := by
  decide +kernel

theorem yearFromBcd_encode : ∀ n < 100,
    yearFromBcd (UInt8.ofNat (n / 10 * 16 + n % 10)).toUInt16 = UInt16.ofNat n := by
  decide +kernel

theorem toUInt16_ofNat : ∀ n < 100, (UInt8.ofNat n).toUInt16 = UInt16.ofNat n := by
  decide +kernel

theorem hourFromBcd_encode : ∀ hour < 24,
    hourFromBcd (UInt8.ofNat (hour / 10 * 16 + hour % 10)) = UInt8.ofNat hour := by
  decide +kernel

theorem hourFromBcd_clockHour : ∀ hour < 24,
    hourFromBcd (UInt8.ofNat (clockHour hour / 10 * 16 + clockHour hour % 10) ||| pmBit hour) =
      UInt8.ofNat (clockHour hour) ||| pmBit hour := by
  decide +kernel

-- Twelve hours are added whatever the PM bit says.
theorem clockHour_add : ∀ hour < 24,
    (((UInt8.ofNat (clockHour hour) ||| pmBit hour) &&& 0x7F) + 12) % 24 = UInt8.ofNat hour ↔
      hour = 0 ∨ 13 ≤ hour := by
  decide +kernel

-- The hour once it is binary
def binaryHour (regB : UInt8) (hour : Nat) : UInt8 :=
  if Is24Hour regB then UInt8.ofNat hour else UInt8.ofNat (clockHour hour) ||| pmBit hour

theorem convertBcd_encode (regB : UInt8) (m : Moment) :
    convertBcd regB (encodeMoment regB m) =
      { m.datetime with
        hour := binaryHour regB m.hour
        year := UInt16.ofNat (m.year - 2000) } := by
  have hyear : m.year - 2000 < 100 := by have h := m.year_mem; omega
  have hmonth : m.month < 100 := by have h := m.month_mem; omega
  have hday : m.day < 100 := Nat.lt_of_le_of_lt m.day_le (by decide)
  have hminute : m.minute < 100 := Nat.lt_trans m.minute_lt (by decide)
  have hsecond : m.second < 100 := Nat.lt_trans m.second_lt (by decide)
  unfold convertBcd encodeMoment encodeHour encode binaryHour Moment.datetime
  by_cases hbinary : IsBinary regB
  · rw [if_neg hbinary]
    simp only [if_pos hbinary, toUInt16_ofNat _ hyear]
  · rw [if_pos (not_not.mp hbinary)]
    simp only [if_neg hbinary, fromBcd_encode _ hsecond, fromBcd_encode _ hminute,
      fromBcd_encode _ hday, fromBcd_encode _ hmonth, yearFromBcd_encode _ hyear]
    by_cases h24 : Is24Hour regB
    · simp only [if_pos h24, hourFromBcd_encode _ m.hour_lt]
    · simp only [if_neg h24, hourFromBcd_clockHour _ m.hour_lt]

theorem year_add (m : Moment) : UInt16.ofNat (m.year - 2000) + 2000 = UInt16.ofNat m.year := by
  have h := m.year_mem
  have hsum := UInt16.ofNat_add (m.year - 2000) 2000
  rw [Nat.sub_add_cancel h.1] at hsum
  exact hsum.symm

-- What becomes of the hour, and of the rest
def convertedHour (regB hour : UInt8) : UInt8 :=
  if regB &&& 0x02 = 0 then ((hour &&& 0x7F) + 12) % 24 else hour

theorem convert_eq (regB : UInt8) (d : Datetime) :
    convert regB d =
      { convertBcd regB d with
        hour := convertedHour regB (convertBcd regB d).hour
        year := (convertBcd regB d).year + 2000 } := by
  unfold convert convertHour convertedHour
  split <;> rfl

theorem convertedHour_iff (regB : UInt8) (m : Moment) :
    convertedHour regB (binaryHour regB m.hour) = UInt8.ofNat m.hour ↔
      Is24Hour regB ∨ m.hour = 0 ∨ 13 ≤ m.hour := by
  unfold convertedHour binaryHour
  by_cases h24 : Is24Hour regB
  · rw [if_neg h24, if_pos h24]
    exact iff_of_true rfl (.inl h24)
  · rw [if_pos (not_not.mp h24), if_neg h24, or_iff_right h24]
    exact clockHour_add m.hour m.hour_lt

theorem convert_encode_iff (regB : UInt8) (m : Moment) :
    convert regB (encodeMoment regB m) = m.datetime ↔ Is24Hour regB ∨ m.hour = 0 ∨ 13 ≤ m.hour := by
  rw [← convertedHour_iff, convert_eq, convertBcd_encode]
  dsimp only
  rw [year_add]
  constructor
  · exact fun h => congrArg Datetime.hour h
  · exact fun h => congrArg (fun hour => { m.datetime with hour }) h

end Converting

-- While the registers hold a moment in the format of register B, the handler comes to its end
-- with that moment exactly on a 24-hour clock, at midnight's hour and from 13 o'clock on.
theorem decodes_iff {cmos : Cmos} {regB : UInt8} {m : Moment} (h : Holds cmos regB m) {rtcTicks : UInt16}
    (hticks : (rtcTicks + 1) % 1024 = 0) :
    (∃ rounds, cmosRtcIrq8Handler cmos rounds rtcTicks =
        some { rtcTicks := rtcTicks + 1, printed := some m.datetime }) ↔
      Is24Hour regB ∨ m.hour = 0 ∨ 13 ≤ m.hour := by
  rw [← convert_encode_iff regB m]
  constructor
  · rintro ⟨rounds, hends⟩
    cases rounds with
    | zero =>
        rw [cmosRtcIrq8Handler, if_pos hticks] at hends
        cases hends
    | succ rounds =>
        rw [h.handler rounds hticks] at hends
        exact Option.some.inj (congrArg Interrupt.printed (Option.some.inj hends))
  · intro hsame
    exact ⟨1, by rw [h.handler 0 hticks, hsame]⟩

section Sample

-- One o'clock in the morning of 29 February 2024
def sampleMoment : Moment where
  year := 2024
  month := 2
  day := 29
  hour := 1
  minute := 30
  second := 59
  year_mem := by decide
  month_mem := by decide
  day_mem := by decide
  hour_lt := by decide
  minute_lt := by decide
  second_lt := by decide

-- The registers of a clock that stands still
def sampleCmos (regB : UInt8) (m : Moment) : Cmos := fun _ reg =>
  if reg = STATUS_REGISTER_B then regB
  else if reg = RTC_SECONDS then encode regB m.second
  else if reg = RTC_MINUTES then encode regB m.minute
  else if reg = RTC_HOURS then encodeHour regB m.hour
  else if reg = RTC_DAY then encode regB m.day
  else if reg = RTC_MONTH then encode regB m.month
  else if reg = RTC_YEAR then encode regB (m.year - 2000)
  else 0

theorem sampleCmos_holds (regB : UInt8) (m : Moment) : Holds (sampleCmos regB m) regB m where
  idle t h := by
    have hidle : sampleCmos regB m t STATUS_REGISTER_A = 0 := rfl
    unfold cmosUpdateInProgress getRtcRegister at h
    rw [hidle] at h
    exact h rfl
  format _ := rfl
  second _ := rfl
  minute _ := rfl
  hour _ := rfl
  day _ := rfl
  month _ := rfl
  year _ := rfl

theorem decodes_iff_sample :
    (∃ rounds, cmosRtcIrq8Handler (sampleCmos 0x02 sampleMoment) rounds 1023 =
        some { rtcTicks := 1024, printed := some sampleMoment.datetime }) ↔
      Is24Hour 0x02 ∨ 1 = 0 ∨ 13 ≤ 1 :=
  decodes_iff (sampleCmos_holds 0x02 sampleMoment) (by decide)

-- On a 12-hour clock the same moment is decoded as one in the afternoon.
theorem not_decodes_sample : ¬∀ (cmos : Cmos) (regB : UInt8) (m : Moment) (rtcTicks : UInt16),
    Holds cmos regB m → (rtcTicks + 1) % 1024 = 0 →
      ∃ rounds, cmosRtcIrq8Handler cmos rounds rtcTicks =
        some { rtcTicks := rtcTicks + 1, printed := some m.datetime } := by
  intro h
  have hholds := sampleCmos_holds 0 sampleMoment
  obtain ⟨rounds, hends⟩ := h _ 0 sampleMoment 1023 hholds (by decide)
  cases rounds with
  | zero => cases hends
  | succ rounds =>
      rw [hholds.handler rounds (by decide)] at hends
      have hhour := congrArg (fun i : Interrupt => i.printed.map Datetime.hour) (Option.some.inj hends)
      exact absurd hhour (by decide)

end Sample

end ToyKernel.Rtc
