import EarlyBoot.Stored
import EarlyBoot.Text.Number

/-!
# PCI functions

A PCI function is addressed by bus, device and function number.  Its
identification tells the vendor, the kind of device, and whether it is a bridge
or one of several functions of the same device.
-/

namespace EarlyBoot

structure PciAddress where
  bus : UInt8
  device : UInt8
  function : UInt8
  deriving DecidableEq, Repr

namespace PciAddress

def host : PciAddress := ⟨0, 0, 0⟩

def configAddress (a : PciAddress) (offset : UInt8) : UInt32 :=
  (0x80000000 : UInt32) ||| (a.bus.toUInt32 <<< 16) ||| ((a.device &&& 0x1f).toUInt32 <<< 11) |||
    ((a.function &&& 0x07).toUInt32 <<< 8) ||| (offset &&& 0xfc).toUInt32

def describe (a : PciAddress) : String :=
  s!"{Text.fixedHex 2 a.bus.toNat}:{Text.fixedHex 2 a.device.toNat}.{a.function.toNat}"

end PciAddress

structure PciFunction where
  address : PciAddress
  vendorId : UInt16
  deviceId : UInt16
  classCode : UInt8
  subclass : UInt8
  progIf : UInt8
  revision : UInt8
  headerType : UInt8
  interruptLine : UInt8
  selfTestStarted : Bool
  deriving DecidableEq, Repr

namespace PciFunction

def classMassStorage : UInt8 := 0x01

def classBridge : UInt8 := 0x06

def subclassPciBridge : UInt8 := 0x04

def multiFunctionBit : UInt8 := 0x80

def isBridge (f : PciFunction) : Bool :=
  f.classCode == classBridge && f.subclass == subclassPciBridge

def isMultiFunction (f : PciFunction) : Bool := f.headerType &&& multiFunctionBit != 0

def className (classCode subclass : UInt8) : String :=
  match classCode.toNat, subclass.toNat with
  | 0x01, 0x01 => "IDE controller"
  | 0x01, 0x05 => "ATA controller"
  | 0x01, 0x06 => "SATA controller"
  | 0x01, _ => "mass storage controller"
  | 0x02, _ => "network controller"
  | 0x03, _ => "display controller"
  | 0x04, _ => "multimedia controller"
  | 0x05, _ => "memory controller"
  | 0x06, 0x00 => "host bridge"
  | 0x06, 0x01 => "ISA bridge"
  | 0x06, 0x04 => "PCI-to-PCI bridge"
  | 0x06, _ => "bridge"
  | 0x0c, 0x03 => "USB controller"
  | 0x0c, _ => "serial bus controller"
  | _, _ => "PCI device"

end PciFunction

end EarlyBoot
