import EarlyBoot.Device.List

/-!
# The interrupt controllers

Two cascaded 8259 interrupt controllers; the secondary one raises line 2 of the
primary.  After bring-up every line but the cascade is masked.
-/

namespace EarlyBoot.Pic

open MachineM FirmwareM

variable {β : Type} [PortBus β]

def primaryCommand : UInt16 := 0x20
def primaryData : UInt16 := 0x21
def secondaryCommand : UInt16 := 0xa0
def secondaryData : UInt16 := 0xa1
def levelControlLow : UInt16 := 0x4d0
def levelControlHigh : UInt16 := 0x4d1

/-- Edge triggered, cascaded, with four command words. -/
def startSequence : UInt8 := 0x11

def cascadeLine : UInt8 := 2

/-- Tells the primary which line the secondary is attached to. -/
def cascadeMask : UInt8 := 1 <<< cascadeLine

def mode8086 : UInt8 := 0x01

def endOfInterrupt : UInt8 := 0x20

def selectRequested : UInt8 := 0x0a

def selectInService : UInt8 := 0x0b

def primaryOffset : UInt8 := 0x20

def secondaryOffset : UInt8 := 0x28

def primaryMask : UInt8 := 0xfb

def secondaryMask : UInt8 := 0xff

/-- Line 9 is level triggered on PCI chipsets. -/
def levelTriggeredLines : UInt16 := 0x200

def pause : Nat := 50

def send (port : UInt16) (value : UInt8) : MachineM β Unit := do
  writeByte port value
  delay pause

def bytesToWord (low high : UInt8) : UInt16 := low.toUInt16 ||| (high.toUInt16 <<< 8)

/-- One register of both controllers, the secondary in the high byte. -/
def readPair (primary secondary : UInt16) : MachineM β UInt16 := do
  let low ← readByte primary
  let high ← readByte secondary
  pure (bytesToWord low high)

def masks : MachineM β UInt16 := readPair primaryData secondaryData

def line (irq : UInt8) : UInt16 × UInt8 :=
  if irq < 8 then (primaryData, irq) else (secondaryData, irq - 8)

def maskLine (irq : UInt8) : MachineM β Unit := do
  let (port, bit) := line irq
  let mask ← readByte port
  send port (mask ||| (1 <<< bit))

def unmaskLine (irq : UInt8) : MachineM β Unit := do
  let (port, bit) := line irq
  let mask ← readByte port
  send port (mask &&& ~~~((1 : UInt8) <<< bit))

/-- Acknowledges an interrupt; both controllers are told of a secondary one. -/
def acknowledge (irq : UInt8) : MachineM β Unit := do
  if 8 ≤ irq then writeByte secondaryCommand endOfInterrupt
  writeByte primaryCommand endOfInterrupt

def readSelected (select : UInt8) : MachineM β UInt16 := do
  send primaryCommand select
  send secondaryCommand select
  readPair primaryCommand secondaryCommand

def inService : MachineM β UInt16 := readSelected selectInService

def requested : MachineM β UInt16 := readSelected selectRequested

def setLevelTriggered (lines : UInt16) : MachineM β UInt16 := do
  let levels := (← readPair levelControlLow levelControlHigh) ||| lines
  writeByte levelControlLow levels.toUInt8
  writeByte levelControlHigh (levels >>> 8).toUInt8
  pure levels

def program : MachineM β Unit := do
  send primaryCommand startSequence
  send secondaryCommand startSequence
  send primaryData primaryOffset
  send secondaryData secondaryOffset
  send primaryData cascadeMask
  send secondaryData cascadeLine
  send primaryData mode8086
  send secondaryData mode8086
  send primaryData primaryMask
  send secondaryData secondaryMask

def driver : Driver β := fun device => do
  program
  let masks ← masks
  let primary := masks.toUInt8
  let secondary := (masks >>> 8).toUInt8
  if primary = primaryMask ∧ secondary = secondaryMask then
    let levelTriggered ← setLevelTriggered levelTriggeredLines
    device.complete (.pic
      { primaryOffset, secondaryOffset, primaryMask := primary, secondaryMask := secondary,
        levelTriggered })
  else if primary = 0xff then pure (.notPresent, device)
  else
    debug s!"8259: mask readback 0x{Text.fixedHex 2 primary.toNat}/0x{Text.fixedHex 2 secondary.toNat}"
    pure (.faulty, device)

end EarlyBoot.Pic
