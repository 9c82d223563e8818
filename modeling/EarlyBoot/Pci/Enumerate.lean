import EarlyBoot.Device.List
import EarlyBoot.Pci.Config

/-!
# PCI enumeration

Every function found gets a device record.  Bus 0 is always scanned; if the
host bridge has several functions, each one that answers, up to the first that
does not, stands for a bus of the same number.
-/

namespace EarlyBoot

inductive PciError where
  | allocate (address : PciAddress) (source : HeapError)
  deriving DecidableEq, Repr

def PciError.report : PciError → Report
  | allocate address source =>
      ⟨s!"out of memory while recording PCI function {address.describe}", [source.message]⟩

/-- A computation that adds to a device list; what it has added stays, even if it halts. -/
abbrev ListingM (β : Type) := EStateM Halt (DeviceList × Machine β)

namespace ListingM

variable {α β : Type}

instance : MonadLift (MachineM β) (ListingM β) where
  monadLift action := fun (list, machine) =>
    match action machine with
    | .ok value machine => .ok value (list, machine)
    | .error reason machine => .error reason (list, machine)

def push (box : HeapBox DeviceRecord) : ListingM β (Except HeapError Unit) :=
  fun (list, ⟨firmware, bus, trace⟩) =>
    match list.push box firmware with
    | .ok (.ok list) firmware => .ok (.ok ()) (list, ⟨firmware, bus, trace⟩)
    | .ok (.error error) firmware => .ok (.error error) (list, ⟨firmware, bus, trace⟩)
    | .error reason firmware => .error reason (list, ⟨firmware, bus, trace⟩)

end ListingM

abbrev PciScanM (β : Type) := ExceptT PciError (ListingM β)

namespace Pci

open FirmwareM

variable {β : Type} [PortBus β]

def slotsPerBus : Nat := 32

def functionsPerSlot : Nat := 8

def onMachine {α : Type} (action : MachineM β α) : PciScanM β α :=
  ExceptT.lift (liftM action : ListingM β α)

/-- Passes on a value, or the heap error for which a function could not be recorded. -/
def allocated {α : Type} (address : PciAddress) : Except HeapError α → PciScanM β α
  | .ok value => pure value
  | .error error => throw (.allocate address error)

def recordFunction (address : PciAddress) : PciScanM β Unit := do
  let function ← onMachine (readFunction address)
  let name := PciFunction.className function.classCode function.subclass
  let access := if function.isBridge then .bridge else .mmio
  let vendor := Text.fixedHex 4 function.vendorId.toNat
  let model := Text.fixedHex 4 function.deviceId.toNat
  onMachine (debug s!"PCI {address.describe}: {vendor}:{model} {name}")
  let device : Device := { name, status := .present, access, payload := none }
  let device ← allocated address (← onMachine (device.attach (.pci function)))
  let box ← allocated address (← onMachine device.toRecord)
  allocated address (← ExceptT.lift (ListingM.push box))

def scanFunction (bus slot : UInt8) (count function : Nat) : PciScanM β Nat := do
  let address : PciAddress := ⟨bus, slot, UInt8.ofNat function⟩
  if ← onMachine (isPresent address) then
    recordFunction address
    pure (count + 1)
  else pure count

def scanSlot (bus : UInt8) (count slot : Nat) : PciScanM β Nat := do
  let slot := UInt8.ofNat slot
  let address : PciAddress := ⟨bus, slot, 0⟩
  if ← onMachine (isPresent address) then
    let functions := if ← onMachine (hasManyFunctions address) then functionsPerSlot else 1
    (List.range functions).foldlM (scanFunction bus slot) count
  else pure count

def scanBus (bus : UInt8) (count : Nat) : PciScanM β Nat :=
  (List.range slotsPerBus).foldlM (scanSlot bus) count

/-- Scans a bus for each function of the host bridge, up to the first one missing. -/
def scanFurther (count : Nat) : List Nat → PciScanM β Nat
  | [] => pure count
  | function :: rest => do
      let bus := UInt8.ofNat function
      if ← onMachine (isPresent ⟨0, 0, bus⟩) then
        let count ← scanBus bus count
        scanFurther count rest
      else pure count

def enumerate : PciScanM β Nat := do
  if ← onMachine (isPresent .host) then
    let count ← scanBus 0 0
    let count ←
      if ← onMachine (hasManyFunctions .host) then
        scanFurther count ((List.range functionsPerSlot).drop 1)
      else pure count
    onMachine (info s!"PCI: {count} functions")
    pure count
  else
    onMachine (info "PCI: no host bridge")
    pure 0

/-- A new list of the functions found; nothing is kept if the scan fails. -/
def discover : MachineM β (Except PciError DeviceList) := fun machine =>
  match enumerate.run (DeviceList.empty, machine) with
  | .ok (.ok _) (list, machine) => .ok (.ok list) machine
  | .ok (.error error) (list, machine) => failed error list machine
  | .error reason (list, machine) => halted reason list machine
where
  failed (error : PciError) (list : DeviceList) : MachineM β (Except PciError DeviceList) := do
    Owned.drop list
    pure (.error error)
  halted (reason : Halt) (list : DeviceList) : MachineM β (Except PciError DeviceList) :=
    MachineM.unwinding (Owned.drop list) (throw reason)

end Pci

end EarlyBoot
