import EarlyBoot.Device.List

/-!
# CMOS memory and the clock

A CMOS register is read by writing its index, pausing, and reading the data
port.  `calibrate` looks for the shortest pause with which the month register
reads back twice as the same plausible month.  `readTime` decodes the clock in
whichever of its four modes it runs.
-/

namespace EarlyBoot

inductive CmosError where
  | updateTimeout
  deriving DecidableEq, Repr

namespace CmosError

def message : CmosError → String
  | updateTimeout => "RTC update did not finish"

def report (error : CmosError) : Report := ⟨error.message, []⟩

end CmosError

/-- A reading of the clock; the year counts from the start of the century. -/
structure ClockTime where
  second : UInt8
  minute : UInt8
  hour : UInt8
  dayOfWeek : UInt8
  dayOfMonth : UInt8
  month : UInt8
  year : UInt8
  deriving DecidableEq, Repr

namespace Cmos

open MachineM FirmwareM

variable {β : Type} [PortBus β]

def indexPort : UInt16 := 0x70

def dataPort : UInt16 := 0x71

def secondRegister : UInt8 := 0x00
def minuteRegister : UInt8 := 0x02
def hourRegister : UInt8 := 0x04
def dayOfWeekRegister : UInt8 := 0x06
def dayOfMonthRegister : UInt8 := 0x07
def monthRegister : UInt8 := 0x08
def yearRegister : UInt8 := 0x09
def statusARegister : UInt8 := 0x0a
def statusBRegister : UInt8 := 0x0b

def updateInProgressBit : UInt8 := 0x80

def hour24Bit : UInt8 := 0x02

def binaryBit : UInt8 := 0x04

def afternoonBit : UInt8 := 0x80

def pollLimit : Nat := 100000

/-- Pauses are tried from zero up to, but not including, this one. -/
def pauseLimit : Nat := 0x500

def readRegister (pause : UInt16) (register : UInt8) : MachineM β UInt8 := do
  writeByte indexPort register
  delay pause.toNat
  readByte dataPort

def updateFinished (pause : UInt16) : MachineM β Bool :=
  return (← readRegister pause statusARegister) &&& updateInProgressBit == 0

def waitForUpdate (pause : UInt16) : MachineM β Bool := pollUntil (updateFinished pause) pollLimit

def bcdToBinary (value : UInt8) : UInt8 := (value >>> 4) * 10 + (value &&& 0x0f)

def decode (bcd : Bool) (value : UInt8) : UInt8 := if bcd then bcdToBinary value else value

/-- Twelve o'clock is hour zero of its half of the day. -/
def decodeHour (settings : CmosSettings) (raw : UInt8) : UInt8 :=
  let hour := decode settings.bcd (raw &&& ~~~afternoonBit)
  if settings.twelveHour then
    if raw &&& afternoonBit = 0 then hour % 12 else hour % 12 + 12
  else hour

def readTime (pause : UInt16) (settings : CmosSettings) :
    MachineM β (Except CmosError ClockTime) := do
  if ← waitForUpdate pause then
    let second ← readRegister pause secondRegister
    let minute ← readRegister pause minuteRegister
    let hour ← readRegister pause hourRegister
    let dayOfWeek ← readRegister pause dayOfWeekRegister
    let dayOfMonth ← readRegister pause dayOfMonthRegister
    let month ← readRegister pause monthRegister
    let year ← readRegister pause yearRegister
    let decode := decode settings.bcd
    pure (.ok
      { second := decode second
        minute := decode minute
        hour := decodeHour settings hour
        dayOfWeek := decode dayOfWeek
        dayOfMonth := decode dayOfMonth
        month := decode month
        year := decode year })
  else pure (.error .updateTimeout)

/-- A month in either encoding. -/
def isPlausibleMonth (raw : UInt8) : Bool :=
  (0x01 ≤ raw && raw ≤ 0x0c) || (0x10 ≤ raw && raw ≤ 0x12)

inductive Finding where
  | working (settings : CmosSettings)
  | notPresent
  | unstable
  deriving DecidableEq, Repr

def readStableMonth (pause : UInt16) : MachineM β Bool := do
  let month ← readRegister pause monthRegister
  if isPlausibleMonth month then
    return (← readRegister pause monthRegister) = month
  else pure false

/-- Tries the last `attempts` pauses below the limit, the shortest one first. -/
def calibrateLast : Nat → MachineM β (UInt16 × Finding)
  | 0 => pure (UInt16.ofNat (pauseLimit - 1), .unstable)
  | attempts + 1 => do
      let pause := UInt16.ofNat (pauseLimit - (attempts + 1))
      if ← waitForUpdate pause then
        if ← readStableMonth pause then
          let statusB ← readRegister pause statusBRegister
          debug s!"CMOS: I/O delay {pause.toNat}, status B 0x{Text.fixedHex 2 statusB.toNat}"
          pure (pause, .working
            { ioDelay := pause
              bcd := statusB &&& binaryBit == 0
              twelveHour := statusB &&& hour24Bit == 0 })
        else calibrateLast attempts
      else pure (pause, .notPresent)

def calibrate : MachineM β (UInt16 × Finding) := calibrateLast pauseLimit

def conclude (finding : Finding) : Driver β := fun device =>
  match finding with
  | .working settings => device.complete (.cmos settings)
  | .notPresent => pure (.notPresent, device)
  | .unstable => pure (.faulty, device)

def driver : Driver β := fun device => do
  let (_, finding) ← calibrate
  conclude finding device

end Cmos

end EarlyBoot
