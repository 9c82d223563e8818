import EarlyBoot.Machine
import EarlyBoot.Pci.Function

/-!
# PCI configuration space

A configuration register is reached by writing its address to one port and then
reading or writing its value at another.
-/

namespace EarlyBoot.Pci

open MachineM

variable {β : Type} [PortBus β]

def addressPort : UInt16 := 0xcf8

def dataPort : UInt16 := 0xcfc

def idRegister : UInt8 := 0x00

def classRegister : UInt8 := 0x08

/-- Cache line size, latency timer, header type and self test. -/
def headerRegister : UInt8 := 0x0c

def interruptRegister : UInt8 := 0x3c

def noVendor : UInt16 := 0xffff

def selfTestCapable : UInt8 := 0x80

def selfTestStart : UInt32 := 0x40000000

/-- Byte `i` of a register, counted from the least significant one. -/
def byteOf (register : UInt32) (i : UInt32) : UInt8 := (register >>> (8 * i)).toUInt8

def readRegister (address : PciAddress) (offset : UInt8) : MachineM β UInt32 := do
  writeDword addressPort (address.configAddress offset)
  readDword dataPort

def writeRegister (address : PciAddress) (offset : UInt8) (value : UInt32) : MachineM β Unit := do
  writeDword addressPort (address.configAddress offset)
  writeDword dataPort value

def isPresent (address : PciAddress) : MachineM β Bool :=
  return (← readRegister address idRegister).toUInt16 != noVendor

def headerType (address : PciAddress) : MachineM β UInt8 :=
  return byteOf (← readRegister address headerRegister) 2

def hasManyFunctions (address : PciAddress) : MachineM β Bool :=
  return (← headerType address) &&& PciFunction.multiFunctionBit != 0

def startSelfTest (address : PciAddress) : MachineM β Bool := do
  let header ← readRegister address headerRegister
  if byteOf header 3 &&& selfTestCapable = 0 then pure false
  else
    writeRegister address headerRegister (header ||| selfTestStart)
    pure true

def readFunction (address : PciAddress) : MachineM β PciFunction := do
  let id ← readRegister address idRegister
  let classInfo ← readRegister address classRegister
  let interrupt ← readRegister address interruptRegister
  let headerType ← headerType address
  let selfTestStarted ← startSelfTest address
  pure
    { address
      vendorId := id.toUInt16
      deviceId := (id >>> 16).toUInt16
      classCode := byteOf classInfo 3
      subclass := byteOf classInfo 2
      progIf := byteOf classInfo 1
      revision := byteOf classInfo 0
      headerType
      interruptLine := byteOf interrupt 0
      selfTestStarted }

end EarlyBoot.Pci
