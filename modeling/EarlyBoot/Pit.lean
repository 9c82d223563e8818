import EarlyBoot.Pic

/-!
# The interval timer

Channel 0 of an 8254 timer, programmed as a rate generator that raises
interrupt line 0.  The line is unmasked once the timer has confirmed its mode.
-/

namespace EarlyBoot.Pit

open MachineM FirmwareM

variable {β : Type} [PortBus β]

def channelPort : UInt16 := 0x40

def commandPort : UInt16 := 0x43

def timerLine : UInt8 := 0

/-- Low then high byte, rate generator, binary. -/
def rateGenerator : UInt8 := 0x34

/-- Latch the status of channel 0, but not its count. -/
def readBackStatus : UInt8 := 0xe2

def modeBits : UInt8 := 0x3f

def clockHz : Nat := 1193182

def frequencyHz (settings : PitSettings) : Nat := clockHz / max settings.reload.toNat 1

def status : MachineM β UInt8 := do
  writeByte commandPort readBackStatus
  readByte channelPort

def driver (reload : UInt16) : Driver β := fun device => do
  writeByte commandPort rateGenerator
  writeByte channelPort reload.toUInt8
  writeByte channelPort (reload >>> 8).toUInt8
  let status ← status
  if status &&& modeBits = rateGenerator then
    let settings : PitSettings := ⟨reload⟩
    debug s!"8254: {frequencyHz settings} Hz tick"
    Pic.unmaskLine timerLine
    device.complete (.pit settings)
  else if status = 0x00 ∨ status = 0xff then pure (.notPresent, device)
  else
    debug s!"8254: unexpected status 0x{Text.fixedHex 2 status.toNat}"
    pure (.faulty, device)

end EarlyBoot.Pit
