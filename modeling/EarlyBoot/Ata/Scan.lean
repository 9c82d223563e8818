import EarlyBoot.Ata.Controller

/-!
# Scanning for IDE controllers

The controllers are the PCI functions of a device list that belong to one of
the three ATA classes.  They are switched to port access, and the buses of
those in compatibility mode are probed.  Drives found so far are released if
the scan cannot go on.
-/

namespace EarlyBoot

namespace PciFunction

def subclassIde : UInt8 := 0x01
def subclassAta : UInt8 := 0x05
def subclassSata : UInt8 := 0x06

def isIdeController (f : PciFunction) : Bool :=
  f.classCode == classMassStorage &&
    (f.subclass == subclassIde || f.subclass == subclassAta || f.subclass == subclassSata)

end PciFunction

namespace Ata

open MachineM FirmwareM

variable {β : Type} [PortBus β]

/-- Where the buses of a controller in compatibility mode answer. -/
def compatibilityBases : List UInt16 := [0x1f0, 0x170, 0x1e8, 0x168]

/-- Status of a bus without drives, which nothing drives. -/
def floating : UInt8 := 0xff

def probeBus (base : UInt16) : MachineM β (Option AtaBus) := do
  if (← status base) = floating then pure none
  else
    let master ← probeDrive base .master
    let slave ← MachineM.unwinding (Owned.drop master) (probeDrive base .slave)
    pure (some { base, master, slave })

def probeBuses (found : List AtaBus) : List UInt16 → MachineM β (List AtaBus)
  | [] => pure found
  | base :: rest => do
      let bus ← MachineM.unwinding (Owned.dropAll found) (probeBus base)
      probeBuses (found ++ bus.toList) rest

def probeController (function : PciFunction) : MachineM β IdeController := do
  if IdeController.isNativeMode function then
    info s!"ATA {function.address.describe}: native PCI mode, not probed"
    pure { function, buses := ⟨[], Nat.zero_le 4⟩ }
  else
    let buses ← probeBuses [] compatibilityBases
    pure { function, buses := ⟨buses.take 4, List.length_take_le _ _⟩ }

def scanDevice (devices : DeviceList) (controllers : HeapVec IdeController) (index : Nat) :
    MachineM β (Except HeapError (HeapVec IdeController)) := do
  let box ← look (devices.boxes.readElement index)
  let record ← box.get
  match ← look record.payload? with
  | some (.pci function) =>
      if function.isIdeController then
        box.set { record with access := .pio }
        controllers.push (← probeController function)
      else pure (.ok controllers)
  | _ => pure (.ok controllers)

def scanFrom (devices : DeviceList) (controllers : HeapVec IdeController) :
    List Nat → MachineM β (Except HeapError (HeapVec IdeController))
  | [] => pure (.ok controllers)
  | index :: rest => do
      match ← guarding (Owned.drop controllers) (scanDevice devices controllers index) with
      | .ok controllers => scanFrom devices controllers rest
      | .error error => pure (.error error)

def scanControllers (devices : DeviceList) :
    MachineM β (Except HeapError (HeapVec IdeController)) :=
  scanFrom devices .empty (List.range devices.length)

end Ata

end EarlyBoot
