import EarlyBoot.Proofs.Cmos.Decoding
import EarlyBoot.Proofs.Cmos.Registers

/-!
# Telling the time

The clock is read register by register once it is not updating.  If the
registers stay as they are while they are read, the time that they encode is the
time that is told.
-/

namespace EarlyBoot

open Cmos

def ClockTime.readings (raw : ClockTime) : List Reading :=
  [⟨secondRegister, raw.second⟩, ⟨minuteRegister, raw.minute⟩, ⟨hourRegister, raw.hour⟩,
    ⟨dayOfWeekRegister, raw.dayOfWeek⟩, ⟨dayOfMonthRegister, raw.dayOfMonth⟩,
    ⟨monthRegister, raw.month⟩, ⟨yearRegister, raw.year⟩]

namespace Cmos

open MachineM (Answers)
open PortBus (byteAt behind sent)

def timeRegisters : List UInt8 :=
  [secondRegister, minuteRegister, hourRegister, dayOfWeekRegister, dayOfMonthRegister,
    monthRegister, yearRegister]

def held (contents : UInt8 → UInt8) : ClockTime :=
  { second := contents secondRegister
    minute := contents minuteRegister
    hour := contents hourRegister
    dayOfWeek := contents dayOfWeekRegister
    dayOfMonth := contents dayOfMonthRegister
    month := contents monthRegister
    year := contents yearRegister }

variable {β : Type} [PortBus β]

def afterReadings (pause : UInt16) (registers : List UInt8) (bus : β) : β :=
  registers.foldl (fun bus register => afterReading pause register bus) bus

/-- In whatever order they are read, the registers of the clock show these contents. -/
def Displays (pause : UInt16) (contents : UInt8 → UInt8) (bus : β) : Prop :=
  ∀ before, (∀ register ∈ before, register ∈ statusARegister :: timeRegisters) →
    ∀ register ∈ statusARegister :: timeRegisters,
      shown pause register (afterReadings pause before bus) = contents register

def rawTime (pause : UInt16) (bus : β) : ClockTime :=
  let next (count : Nat) := afterReadings pause (timeRegisters.take count) bus
  { second := shown pause secondRegister (next 0)
    minute := shown pause minuteRegister (next 1)
    hour := shown pause hourRegister (next 2)
    dayOfWeek := shown pause dayOfWeekRegister (next 3)
    dayOfMonth := shown pause dayOfMonthRegister (next 4)
    month := shown pause monthRegister (next 5)
    year := shown pause yearRegister (next 6) }

theorem readTime_answers {pause : UInt16} {bus bus₁ : β} {waited : List Access}
    (settings : CmosSettings) (hwait : Answers (waitForUpdate pause) bus true bus₁ waited) :
    Answers (readTime pause settings) bus (.ok ((rawTime pause bus₁).decode settings))
      (afterReadings pause timeRegisters bus₁)
      (waited ++ accessesOf pause.toNat (rawTime pause bus₁).readings) := by
  refine hwait.bind ?_
  rw [if_pos rfl]
  simp only [ClockTime.readings, accessesOf_cons, accessesOf_nil]
  iterate 7 refine .bind (readRegister_answers _ _ _) ?_
  exact .pure _ _

theorem rawTime_of_displays {pause : UInt16} {contents : UInt8 → UInt8} {bus : β}
    (h : Displays pause contents bus) :
    rawTime pause (afterReading pause statusARegister bus) = held contents := by
  have hshown (count : Nat) {register : UInt8} (hregister : register ∈ timeRegisters) :
      shown pause register (afterReadings pause (timeRegisters.take count)
        (afterReading pause statusARegister bus)) = contents register := by
    refine h (statusARegister :: timeRegisters.take count) ?_ register (.tail _ hregister)
    exact List.forall_mem_cons.2 ⟨.head _, fun r hr => .tail _ (List.mem_of_mem_take hr)⟩
  simp only [rawTime, held, ClockTime.mk.injEq]
  exact ⟨hshown 0 (by decide), hshown 1 (by decide), hshown 2 (by decide), hshown 3 (by decide),
    hshown 4 (by decide), hshown 5 (by decide), hshown 6 (by decide)⟩

/--
A time that is encoded in the mode of the clock is told when its registers hold
it and no update is in progress.  Whatever bytes they hold, no step of decoding
leaves the range of a byte, and an hour that is decoded from half a day is an
hour of the day.  The clock is always read to the end, or else the wait for the
end of an update expires.
-/
theorem readTime_inverts_encoding (pause : UInt16) (settings : CmosSettings) :
    (∀ (time : ClockTime) (contents : UInt8 → UInt8) (bus : β), time.Valid →
      Displays pause contents bus → contents statusARegister &&& updateInProgressBit = 0 →
      held contents = time.encode settings →
      Answers (readTime pause settings) bus (.ok time)
        (afterReadings pause (statusARegister :: timeRegisters) bus)
        (accessesOf pause.toNat
          (⟨statusARegister, contents statusARegister⟩ :: (held contents).readings))) ∧
    (∀ raw : ClockTime, raw.decode? settings = some (raw.decode settings) ∧
      (settings.twelveHour = true → (raw.decode settings).hour < 24)) ∧
    ∀ bus : β,
      (∃ (wait : Wait) (raw : ClockTime) (bus' : β),
        Answers (readTime pause settings) bus (.ok (raw.decode settings)) bus'
          (accessesOf pause.toNat (wait.readings ++ raw.readings))) ∨
      ∃ (expiry : Expiry) (bus' : β),
        Answers (readTime pause settings) bus (.error .updateTimeout) bus'
          (accessesOf pause.toNat expiry.readings) := by
  refine ⟨?_, fun raw => ⟨raw.decode?_eq settings, fun h => decodeHour_lt h raw.hour⟩, ?_⟩
  · intro time contents bus hvalid hdisplays hidle hheld
    have hstatus : shown pause statusARegister bus = contents statusARegister :=
      hdisplays [] (by simp) _ (.head _)
    have hwait := waitForUpdate_at_once (hstatus ▸ hidle)
    have hread := readTime_answers settings hwait
    rw [rawTime_of_displays hdisplays, hheld, ClockTime.decode_encode settings hvalid,
      hstatus] at hread
    rw [accessesOf_cons, hheld]
    exact hread
  · intro bus
    rcases waitForUpdate_outcome pause bus with ⟨wait, bus₁, hwait⟩ | ⟨expiry, bus₁, hwait⟩
    · have hread := readTime_answers settings hwait
      rw [← accessesOf_append] at hread
      exact .inl ⟨wait, _, _, hread⟩
    · exact .inr ⟨expiry, bus₁, hwait.bind_pure rfl⟩

end Cmos

structure StillClock where
  selected : UInt8
  contents : UInt8 → UInt8

namespace StillClock

instance : PortBus StillClock where
  read clock _ port :=
    if port = dataPort then ((clock.contents clock.selected).toUInt32, clock)
    else (0xffffffff, clock)
  write clock _ port value :=
    if port = indexPort then { clock with selected := value.toUInt8 } else clock

variable (clock : StillClock) (pause : UInt16)

theorem sent_selecting (register : UInt8) :
    PortBus.sent clock (selecting pause register) = { clock with selected := register } := by
  have hpause (clock : StillClock) (rounds : Nat) :
      PortBus.sent clock (List.replicate rounds (delayPort, 0)) = clock := by
    induction rounds with
    | zero => rfl
    | succ rounds ih => exact ih
  have hselect : PortBus.write clock .byte indexPort register.toUInt32 =
      { clock with selected := register } := by
    simp [PortBus.write]
  rw [selecting, PortBus.sent, List.foldl_cons, hselect]
  exact hpause _ pause.toNat

theorem shown_eq (register : UInt8) : shown pause register clock = clock.contents register := by
  rw [shown, sent_selecting]
  simp [PortBus.byteAt, PortBus.read]

theorem contents_afterReading (register : UInt8) :
    (afterReading pause register clock).contents = clock.contents := by
  rw [afterReading, sent_selecting]
  simp [PortBus.behind, PortBus.read]

theorem displays : Displays pause clock.contents clock := by
  intro before _ register _
  have hkept : (afterReadings pause before clock).contents = clock.contents := by
    clear *-
    induction before generalizing clock with
    | nil => rfl
    | cons first rest ih => exact (ih _).trans (contents_afterReading clock pause first)
  rw [shown_eq, hkept]

/-- The last second of the century, in decimal digits on a clock of twice twelve hours. -/
def newYearsEve : StillClock where
  selected := 0
  contents register :=
    match register.toNat with
    | 0x00 | 0x02 => 0x59
    | 0x04 => 0x91
    | 0x06 => 0x05
    | 0x07 => 0x31
    | 0x08 => 0x12
    | 0x09 => 0x99
    | _ => 0x26

theorem newYearsEve_read :
    let settings : CmosSettings := { ioDelay := 3, bcd := true, twelveHour := true }
    let time : ClockTime :=
      { second := 59, minute := 59, hour := 23, dayOfWeek := 5, dayOfMonth := 31, month := 12,
        year := 99 }
    ∃ bus' accesses, MachineM.Answers (readTime settings.ioDelay settings) newYearsEve (.ok time)
      bus' accesses := by
  intro settings time
  have hvalid : time.Valid := by constructor <;> decide
  have hread := (readTime_inverts_encoding settings.ioDelay settings).1 time newYearsEve.contents
    newYearsEve hvalid (newYearsEve.displays settings.ioDelay) (by decide) (by decide)
  exact ⟨_, _, hread⟩

end StillClock

end EarlyBoot
