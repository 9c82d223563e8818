import EarlyBoot.Port
import EarlyBoot.Table

/-!
# A scripted bus

A stand-in for chipset hardware.  A read is answered by the emulated PCI data
register, else by the next value scripted for the port, else by the last value
written to an echoing port, else by a fixed value, and finally by all ones.
PCI functions are reached by writing an address register and then reading or
writing the data register behind it.
-/

namespace EarlyBoot

abbrev PciRegisters := Vector UInt32 64

structure ScriptedBus where
  scripts : Table UInt16 (List UInt32)
  fixed : Table UInt16 UInt32
  echoing : List UInt16
  lastWritten : Table UInt16 UInt32
  /-- Writes other than delays, newest first. -/
  written : List (UInt16 × UInt32)
  pciAddress : UInt32
  pciFunctions : Table UInt32 PciRegisters
  deriving DecidableEq, Repr

namespace ScriptedBus

def idle : ScriptedBus :=
  { scripts := .empty, fixed := .empty, echoing := [], lastWritten := .empty, written := [],
    pciAddress := 0, pciFunctions := .empty }

def fix (bus : ScriptedBus) (port : UInt16) (value : UInt32) : ScriptedBus :=
  { bus with fixed := bus.fixed.insert port value }

def script (bus : ScriptedBus) (port : UInt16) (values : List UInt32) : ScriptedBus :=
  { bus with scripts := bus.scripts.insert port ((bus.scripts.get? port).getD [] ++ values) }

def echo (bus : ScriptedBus) (port : UInt16) : ScriptedBus :=
  { bus with echoing := port :: bus.echoing }

def pciAddressPort : UInt16 := 0xcf8

def pciDataPort : UInt16 := 0xcfc

/-- How a function is selected by bits 8 to 23 of the address register. -/
def pciKey (bus device function : UInt8) : UInt32 :=
  (bus.toUInt32 <<< 16) ||| (device.toUInt32 <<< 11) ||| (function.toUInt32 <<< 8)

def addPciFunction (bus : ScriptedBus) (key : UInt32) (registers : PciRegisters) : ScriptedBus :=
  { bus with pciFunctions := bus.pciFunctions.insert key registers }

/-- Registers of a function with an ordinary header; the others are zero. -/
def pciHeader (vendorId deviceId : UInt16) (classCode subclass progIf headerType : UInt8) :
    PciRegisters :=
  let registers : PciRegisters := Vector.replicate 64 0
  let registers := registers.set 0 ((deviceId.toUInt32 <<< 16) ||| vendorId.toUInt32)
  let registers := registers.set 2
    ((classCode.toUInt32 <<< 24) ||| (subclass.toUInt32 <<< 16) ||| (progIf.toUInt32 <<< 8))
  registers.set 3 (headerType.toUInt32 <<< 16)

def pciRegister? (bus : ScriptedBus) (key : UInt32) (offset : UInt8) : Option UInt32 :=
  (bus.pciFunctions.get? key).bind fun registers => registers[offset.toNat / 4]?

def selected? (bus : ScriptedBus) : Option (UInt32 × PciRegisters × Nat) :=
  if bus.pciAddress &&& 0x80000000 = 0 then none
  else
    let key := bus.pciAddress &&& 0x00ffff00
    (bus.pciFunctions.get? key).map fun registers =>
      (key, registers, (bus.pciAddress &&& 0xfc).toNat / 4)

def readPci (bus : ScriptedBus) : UInt32 :=
  match bus.selected? with
  | some (_, registers, index) => registers[index]?.getD 0xffffffff
  | none => 0xffffffff

def writePci (bus : ScriptedBus) (value : UInt32) : ScriptedBus :=
  match bus.selected? with
  | some (key, registers, index) =>
      { bus with pciFunctions := bus.pciFunctions.insert key (registers.setIfInBounds index value) }
  | none => bus

def read (bus : ScriptedBus) (port : UInt16) : UInt32 × ScriptedBus :=
  if port = pciDataPort then (bus.readPci, bus)
  else
    match bus.scripts.get? port with
    | some (value :: rest) => (value, { bus with scripts := bus.scripts.insert port rest })
    | _ =>
        let echoed := if port ∈ bus.echoing then bus.lastWritten.get? port else none
        (echoed.getD ((bus.fixed.get? port).getD 0xffffffff), bus)

def write (bus : ScriptedBus) (port : UInt16) (value : UInt32) : ScriptedBus :=
  if port = delayPort then bus
  else
    let bus :=
      if port = pciAddressPort then { bus with pciAddress := value }
      else if port = pciDataPort then bus.writePci value
      else bus
    { bus with
      lastWritten := bus.lastWritten.insert port value
      written := (port, value) :: bus.written }

instance : PortBus ScriptedBus where
  read bus _ port := bus.read port
  write bus _ port value := bus.write port value

def writes (bus : ScriptedBus) : List (UInt16 × UInt32) := bus.written.reverse

def writesTo (bus : ScriptedBus) (port : UInt16) : List UInt32 :=
  (bus.writes.filter (·.1 = port)).map (·.2)

def clearWrites (bus : ScriptedBus) : ScriptedBus := { bus with written := [] }

end ScriptedBus

end EarlyBoot
