import Mathlib.Tactic.TypeStar

namespace ToyKernel

namespace Rtc

def STATUS_REGISTER_A : UInt8 := 0x0A
def STATUS_REGISTER_B : UInt8 := 0x0B

def RTC_SECONDS : UInt8 := 0x00
def RTC_MINUTES : UInt8 := 0x02
def RTC_HOURS : UInt8 := 0x04
def RTC_DAY : UInt8 := 0x07
def RTC_MONTH : UInt8 := 0x08
def RTC_YEAR : UInt8 := 0x09

-- `datetime_t`
structure Datetime where
  second : UInt8
  minute : UInt8
  hour : UInt8
  day : UInt8
  month : UInt8
  year : UInt16
  deriving DecidableEq

-- The clock runs on by itself: what its registers hold at the read number `t` of an interrupt.
abbrev Cmos := Nat → UInt8 → UInt8

def getRtcRegister (cmos : Cmos) (t : Nat) (reg : UInt8) : UInt8 := cmos t reg

-- The top bit of register A
def cmosUpdateInProgress (cmos : Cmos) (t : Nat) : Prop :=
  getRtcRegister cmos t STATUS_REGISTER_A &&& 0x80 ≠ 0

instance (cmos : Cmos) : DecidablePred (cmosUpdateInProgress cmos) :=
  fun _ => inferInstanceAs (Decidable (_ ≠ _))

-- `while (cmos_update_in_progress()) ;`
def waitForUpdate (cmos : Cmos) : (rounds t : Nat) → Option Nat
  | 0, _ => none
  | rounds + 1, t => if cmosUpdateInProgress cmos t then waitForUpdate cmos rounds (t + 1) else some (t + 1)

-- The six reads, in the order of the source
def readDatetime (cmos : Cmos) (t : Nat) : Datetime where
  second := getRtcRegister cmos t RTC_SECONDS
  minute := getRtcRegister cmos (t + 1) RTC_MINUTES
  hour := getRtcRegister cmos (t + 2) RTC_HOURS
  day := getRtcRegister cmos (t + 3) RTC_DAY
  month := getRtcRegister cmos (t + 4) RTC_MONTH
  year := (getRtcRegister cmos (t + 5) RTC_YEAR).toUInt16

-- The loop that reads again until it has read the same twice
def reread (cmos : Cmos) : (rounds : Nat) → (old : Datetime) → (t : Nat) → Option (Datetime × Nat)
  | 0, _, _ => none
  | rounds + 1, old, t => do
      let t ← waitForUpdate cmos (rounds + 1) t
      let new := readDatetime cmos t
      if new = old then return (new, t + 6) else reread cmos rounds new (t + 6)

section Conversion

def fromBcd (v : UInt8) : UInt8 := (v &&& 0x0F) + v / 16 * 10

-- The PM bit of the hour is kept.
def hourFromBcd (v : UInt8) : UInt8 := ((v &&& 0x0F) + (v &&& 0x70) / 16 * 10) ||| (v &&& 0x80)

def yearFromBcd (v : UInt16) : UInt16 := (v &&& 0x0F) + v / 16 * 10

-- `if (!(regB_value & 0x04))`
def convertBcd (regB : UInt8) (d : Datetime) : Datetime :=
  if regB &&& 0x04 = 0 then
    { second := fromBcd d.second
      minute := fromBcd d.minute
      hour := hourFromBcd d.hour
      day := fromBcd d.day
      month := fromBcd d.month
      year := yearFromBcd d.year }
  else d

-- `if (!(regB_value & 0x02))`, without a look at the top bit of the hour
def convertHour (regB : UInt8) (d : Datetime) : Datetime :=
  if regB &&& 0x02 = 0 then { d with hour := ((d.hour &&& 0x7F) + 12) % 24 } else d

def convert (regB : UInt8) (d : Datetime) : Datetime :=
  let d := convertHour regB (convertBcd regB d)
  { d with year := d.year + 2000 }

end Conversion

-- The static counter after an interrupt, and the date and time that it printed
structure Interrupt where
  rtcTicks : UInt16
  printed : Option Datetime

-- One interrupt in 1024 reads the clock. With too few rounds for the loops there is no result.
def cmosRtcIrq8Handler (cmos : Cmos) (rounds : Nat) (rtcTicks : UInt16) : Option Interrupt :=
  if (rtcTicks + 1) % 1024 = 0 then do
    let t ← waitForUpdate cmos rounds 0
    let (new, t) ← reread cmos rounds (readDatetime cmos t) (t + 6)
    let regB := getRtcRegister cmos t STATUS_REGISTER_B
    return { rtcTicks := rtcTicks + 1, printed := some (convert regB new) }
  else some { rtcTicks := rtcTicks + 1, printed := none }

end Rtc

end ToyKernel
