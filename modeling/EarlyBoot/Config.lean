import EarlyBoot.BlockHeap.Walk
import EarlyBoot.Console

/-!
# Boot configuration

Choices that differ between boards or builds.  The clock of the serial port is
divided down to the baud rate; a rate that does not divide it evenly gets the
next faster one.
-/

namespace EarlyBoot

structure CriticalDevices where
  uart : Bool
  pic : Bool
  keyboard : Bool
  pit : Bool
  cmos : Bool
  deriving DecidableEq, Repr

namespace CriticalDevices

def none : CriticalDevices := ⟨false, false, false, false, false⟩

def ofBits (bits : Nat) : CriticalDevices :=
  ⟨bits.testBit 0, bits.testBit 1, bits.testBit 2, bits.testBit 3, bits.testBit 4⟩

def bits (c : CriticalDevices) : Nat :=
  c.uart.toNat + 2 * c.pic.toNat + 4 * c.keyboard.toNat + 8 * c.pit.toNat + 16 * c.cmos.toNat

end CriticalDevices

structure BootConfig where
  heapStart : Nat
  heapSize : Nat
  splitFactor : Nat
  logLevel : LogLevel
  baudRate : Nat
  pitReload : UInt16
  critical : CriticalDevices
  deriving DecidableEq, Repr

namespace BootConfig

def firmwareName : String := "TinyBIOS"

def firmwareVersion : String := "0.1.0"

def serialPort : UInt16 := 0x3f8

def uartClockHz : Nat := 115200

def standard : BootConfig :=
  { heapStart := 0x100000
    heapSize := 0x100000
    splitFactor := BlockHeap.defaultSplitFactor
    logLevel := .info
    baudRate := 38400
    pitReload := 11932
    critical := .none }

def uartDivisor (config : BootConfig) : UInt16 :=
  let divisor := if config.baudRate = 0 then 1 else max (uartClockHz / config.baudRate) 1
  UInt16.ofNat (min divisor 0xffff)

end BootConfig

end EarlyBoot
